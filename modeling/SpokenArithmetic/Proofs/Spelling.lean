import SpokenArithmetic.Transcript

/-!
# The spelling of names

A name has no other spelling than the one it is written in.  This holds from
the cutting of a text into lexemes to the promotion of keywords, so that a
name means the same wherever one of its two texts is taken.
-/

namespace SpokenArithmetic

/-- Whether a lexeme, if it is a name, stands for the text that it takes. -/
def Lexeme.Verbatim (lexeme : Lexeme) : Prop :=
  lexeme.kind = .identifier → lexeme.normalized = String.ofList lexeme.text

/-- Whether a token, if it is a name, stands for the text that it was written as. -/
def Token.Verbatim (token : Token) : Prop :=
  token.kind = .identifier → token.normalized = token.written

namespace Lexeme

theorem verbatim_ofMatch (kind : Kind) (text : List Char) : (ofMatch kind text).Verbatim := by
  intro hkind
  have hkind : kind = .identifier := hkind
  subst hkind
  rfl

/-- What is passed over in front of a lexeme is no part of its text. -/
theorem verbatim_passOver {c : Char} {scan : Scan}
    (h : ∀ lexeme ∈ scan.lexemes, lexeme.Verbatim) :
    ∀ lexeme ∈ (scan.passOver c).lexemes, lexeme.Verbatim := by
  unfold Scan.passOver
  split
  · exact h
  · rename_i first rest hlexemes
    rw [hlexemes] at h
    intro lexeme hmem
    rcases List.mem_cons.mp hmem with rfl | hmem
    · exact h first (List.mem_cons_self ..)
    · exact h lexeme (List.mem_cons_of_mem _ hmem)

theorem verbatim_ofText (cs : List Char) :
    ∀ lexeme ∈ (Scan.ofText cs).lexemes, lexeme.Verbatim := by
  induction cs using Scan.ofText.induct with
  | case1 => simp
  | case2 c rest found hfound ih =>
      intro lexeme hmem
      rw [Scan.ofText_of_longest? hfound] at hmem
      rcases List.mem_cons.mp hmem with rfl | hmem
      · exact verbatim_ofMatch _ _
      · exact ih lexeme hmem
  | case3 c rest hnone ih =>
      rw [Scan.ofText_cons_of_longest? hnone]
      exact verbatim_passOver ih

/-- A compound is a number and no name. -/
theorem verbatim_mergeCompounds {lexemes : List Lexeme}
    (h : ∀ lexeme ∈ lexemes, lexeme.Verbatim) :
    ∀ lexeme ∈ mergeCompounds lexemes, lexeme.Verbatim := by
  intro lexeme hmem
  rcases mem_of_mem_mergeCompounds hmem with hmem | hnumber
  · exact h lexeme hmem
  · intro hkind
    rw [hnumber] at hkind
    cases hkind

end Lexeme

namespace Token

theorem verbatim_ofLexemes {lexemes : List Lexeme} (h : ∀ lexeme ∈ lexemes, lexeme.Verbatim)
    (start : Nat) : ∀ token ∈ ofLexemes start lexemes, token.Verbatim := by
  intro token hmem
  obtain ⟨lexeme, hlexeme, hkind, hnormalized, hwritten⟩ := exists_of_mem_ofLexemes hmem
  rw [Token.Verbatim, hkind, hnormalized, hwritten]
  exact h lexeme hlexeme

/-- A promoted keyword takes the text that it was written as. -/
theorem Verbatim.promote {token : Token} (h : token.Verbatim) (previous next : Option Kind) :
    (token.promote previous next).Verbatim := by
  unfold Token.promote
  split
  · exact fun _ => rfl
  · exact h

theorem verbatim_promoteFrom {tokens : List Token} (h : ∀ token ∈ tokens, token.Verbatim)
    (previous : Option Kind) : ∀ token ∈ promoteFrom previous tokens, token.Verbatim :=
  forall_promoteFrom Verbatim.promote h previous

end Token

/-- Every name in a sentence stands for the text that it was written as. -/
theorem Transcript.verbatim_ofSource (source : String) :
    ∀ token ∈ (ofSource source).tokens, token.Verbatim :=
  Token.verbatim_promoteFrom
    (Token.verbatim_ofLexemes (Lexeme.verbatim_mergeCompounds (Lexeme.verbatim_ofText _)) 0) none

end SpokenArithmetic
