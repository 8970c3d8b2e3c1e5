import Mathlib.Data.List.Induction
import SpokenArithmetic.Proofs.Cutting
import SpokenArithmetic.Proofs.Derivation
import SpokenArithmetic.Transcript

/-!
# What is read from a text is in the grammar

Reading takes connectors behind an operation even where no operator follows
them, and the grammar has no such connectors.  An operation inside an operator
leaves them to that operator, which may have connectors in front of its next
operand (`Phrase.exists_operation`).  At the end of a statement there are none
to be taken: a connector that stands in front of a comma or at the end of a
text has become a name (`attached_ofSource`).
-/

namespace SpokenArithmetic

/-- Whether something that a connector can apply to stands behind each
connector. -/
def Attached : List Token → Prop
  | [] => True
  | token :: rest =>
      (token.isConnector = true → Token.closes (rest.head?.map Token.kind) = false) ∧ Attached rest

/-- Tokens without a comma at their end. -/
def withoutLastComma (tokens : List Token) : List Token :=
  if tokens.getLast?.any (·.kind == .comma) then tokens.dropLast else tokens

/-! ## Connectors in a text -/

namespace Lexeme

theorem isName_of_cut {tail : List Char} {lexemes : List Lexeme} (h : Cut tail lexemes) :
    ∀ lexeme ∈ lexemes, lexeme.kind.isConnector = true → isName lexeme.text = true := by
  induction lexemes with
  | nil => simp
  | cons first rest ih =>
      obtain ⟨-, hlongest, -, hrest⟩ := h
      intro lexeme hmem hconnector
      rcases List.mem_cons.mp hmem with rfl | hmem
      · have hname := Vocabulary.isName_of_connector hlongest hconnector
        rwa [List.take_left] at hname
      · exact ih hrest lexeme hmem hconnector

end Lexeme

namespace Token

/-- A keyword applies to what follows it, and something can apply to it. -/
theorem closes_of_isKeyword {token : Token} (h : token.isKeyword = true) :
    closes (some token.kind) = false := by
  unfold isKeyword at h
  cases hkind : token.kind with
  | comma | assign =>
      rw [hkind] at h
      cases h
  | number | identifier | operator | sequence | preposition => rfl

theorem closes_kind_promote (previous next : Option Kind) (token : Token) :
    closes (some (token.promote previous next).kind) = closes (some token.kind) := by
  unfold promote
  split
  · rename_i h
    rw [Bool.and_eq_true, Bool.and_eq_true] at h
    rw [closes_of_isKeyword h.1.1]
    rfl
  · rfl

theorem closes_head?_promoteFrom (previous : Option Kind) (tokens : List Token) :
    closes ((promoteFrom previous tokens).head?.map kind) = closes (tokens.head?.map kind) := by
  cases tokens with
  | nil => rfl
  | cons token rest => exact closes_kind_promote previous _ token

/-- Promotion leaves no connector where only a name can stand. -/
theorem attached_promoteFrom {tokens : List Token}
    (h : ∀ token ∈ tokens, token.isConnector = true → isName token.written.toList = true)
    (previous : Option Kind) : Attached (promoteFrom previous tokens) := by
  induction tokens generalizing previous with
  | nil => trivial
  | cons token rest ih =>
      refine ⟨fun hconnector => ?_, ih (fun token hmem => h token (List.mem_cons_of_mem _ hmem)) _⟩
      rw [closes_head?_promoteFrom]
      unfold promote at hconnector
      split at hconnector
      · cases hconnector
      · rename_i hkept
        have hname := h token (List.mem_cons_self ..) hconnector
        rw [isConnector] at hconnector
        simp only [isKeyword, hconnector, hname, Bool.true_or, Bool.and_self, Bool.true_and,
          Bool.or_eq_true, not_or] at hkept
        exact Bool.eq_false_iff.mpr hkept.1

end Token

/-- In a text no connector stands in front of a comma or at the end. -/
theorem attached_ofSource (source : String) : Attached (Transcript.ofSource source).tokens := by
  refine Token.attached_promoteFrom (fun token hmem hconnector => ?_) none
  obtain ⟨lexeme, hlexeme, hkind, -, hwritten⟩ := Token.exists_of_mem_ofLexemes hmem
  rw [Token.isConnector, hkind] at hconnector
  rw [hwritten, String.toList_ofList]
  rcases Lexeme.mem_of_mem_mergeCompounds hlexeme with hscanned | hnumber
  · exact Lexeme.isName_of_cut (Scan.cut_ofText _).1 lexeme hscanned hconnector
  · simp [hnumber, Kind.isConnector] at hconnector

/-! ## Trees of the grammar -/

theorem Attached.of_append {front rest : List Token} (h : Attached (front ++ rest)) :
    Attached rest := by
  induction front with
  | nil => exact h
  | cons token front ih => exact ih h.2

theorem withoutLastComma_append (front : List Token) {back : List Token} (h : back ≠ []) :
    withoutLastComma (front ++ back) = front ++ withoutLastComma back := by
  unfold withoutLastComma
  rw [List.getLast?_append_of_ne_nil front h, List.dropLast_append_of_ne_nil h]
  split <;> rfl

theorem withoutLastComma_append_comma (front : List Token) {separator : Token}
    (h : separator.kind = .comma) : withoutLastComma (front ++ [separator]) = front := by
  simp [withoutLastComma, h]

theorem Grammar.Sentence.trees_ne_nil {tokens : List Token} {trees : List Tree}
    (h : Sentence tokens trees) : trees ≠ [] := by
  cases h <;> exact List.cons_ne_nil _ _

namespace Reading

open Grammar

/-- In front of a break there are no connectors to be passed over. -/
theorem AtBreak.filler_eq_nil {filler rest : List Token} (hrest : AtBreak rest)
    (hfiller : Filler filler) (h : Attached (filler ++ rest)) : filler = [] := by
  induction filler using List.reverseRecOn with
  | nil => rfl
  | append_singleton filler last _ =>
      rw [List.append_assoc] at h
      have hcloses := h.of_append.1 (hfiller last (by simp))
      cases rest with
      | nil => cases hcloses
      | cons separator rest =>
          have hcomma : separator.kind = .comma := hrest
          change Token.closes (some separator.kind) = false at hcloses
          rw [hcomma] at hcloses
          cases hcloses

/-- A phrase is an operation of the grammar with connectors behind it. -/
theorem Phrase.exists_operation {tokens : List Token} {tree : Tree} (h : Phrase tokens tree) :
    ∃ front filler, tokens = front ++ filler ∧ Filler filler ∧ Operation front tree := by
  induction h with
  | @leaf token filler tree hleaf hfiller =>
      exact ⟨[token], filler, rfl, hfiller, (Derivation.leaf hleaf).operation⟩
  | @continued token sign op filler filler' back left right hleaf hfiller hsign hfiller' _ ih =>
      obtain ⟨back, behind, rfl, hbehind, hright⟩ := ih
      exact ⟨[token] ++ filler ++ sign :: (filler' ++ back), behind, by simp, hbehind,
        .continued (Derivation.leaf hleaf).operation hfiller hsign hfiller' hright⟩
  | @unary sign op filler tokens operand hsign harity hfiller _ ih =>
      obtain ⟨front, behind, rfl, hbehind, hoperand⟩ := ih
      exact ⟨sign :: (filler ++ front), behind, by simp, hbehind,
        .term (.unary hsign harity hfiller hoperand)⟩
  | @binary sign op filler front back left right hsign harity hfiller _ _ _ ihleft ihright =>
      -- The connectors behind the first operand stand in front of the second one.
      obtain ⟨front, middle, rfl, hmiddle, hleft⟩ := ihleft
      obtain ⟨back, behind, rfl, hbehind, hright⟩ := ihright
      exact ⟨sign :: (filler ++ front ++ middle ++ back), behind, by simp, hbehind,
        .term (.binary hsign harity hfiller hleft hmiddle hright)⟩

/-- In front of a break a statement that is read is one of the grammar. -/
theorem Clause.statement {tokens rest : List Token} {tree : Tree} (h : Clause Phrase tokens tree)
    (hattached : Attached (tokens ++ rest)) (hrest : AtBreak rest) : Statement tokens tree := by
  cases h with
  | @assignment target sign tokens value htarget hsign hvalue =>
      obtain ⟨front, filler, rfl, hfiller, hoperation⟩ := hvalue.exists_operation
      have hbehind : Attached ((target :: sign :: front) ++ (filler ++ rest)) := by
        simpa using hattached
      rw [hrest.filler_eq_nil hfiller hbehind.of_append, List.append_nil]
      exact .assignment htarget hsign hoperation
  | operation hphrase =>
      obtain ⟨front, filler, rfl, hfiller, hoperation⟩ := hphrase.exists_operation
      rw [List.append_assoc] at hattached
      rw [hrest.filler_eq_nil hfiller hattached.of_append, List.append_nil]
      exact .operation hoperation

/-- The last token of a statement is no comma. -/
theorem Clause.withoutLastComma_eq {tokens : List Token} {tree : Tree}
    (h : Clause Phrase tokens tree) : withoutLastComma tokens = tokens := by
  unfold withoutLastComma
  cases hlast : tokens.getLast? with
  | none => rfl
  | some last =>
      have hkind := h.kind_ne_comma last (List.mem_of_getLast? hlast)
      simp [hkind]

theorem Joined.ne_nil {tokens : List Token} {trees : List Tree} (h : Joined Phrase tokens trees)
    (htrees : trees ≠ []) : tokens ≠ [] := by
  cases h with
  | nil => exact absurd rfl htrees
  | last hclause => exact hclause.ne_nil
  | cons => simp

/-- A sentence that is read without a connector in front of a break is one of
the grammar, but for a comma at its end. -/
theorem Joined.sentence {tokens : List Token} {trees : List Tree} (h : Joined Phrase tokens trees)
    (hattached : Attached tokens) :
    tokens = [] ∧ trees = [] ∨ Sentence (withoutLastComma tokens) trees := by
  induction h with
  | nil => exact Or.inl ⟨rfl, rfl⟩
  | @last tokens tree hclause =>
      rw [← List.append_nil tokens] at hattached
      rw [hclause.withoutLastComma_eq]
      exact Or.inr (.last (hclause.statement hattached trivial))
  | @cons separator tokens rest tree trees hclause hseparator hjoined ih =>
      have hstatement := hclause.statement hattached hseparator
      refine Or.inr ?_
      rcases ih hattached.of_append.2 with ⟨rfl, rfl⟩ | hsentence
      · -- The comma that is left out stands behind the last statement.
        rw [withoutLastComma_append_comma tokens hseparator]
        exact .last hstatement
      · have hrest : rest ≠ [] := hjoined.ne_nil hsentence.trees_ne_nil
        have happend : withoutLastComma (tokens ++ separator :: rest) =
            tokens ++ separator :: withoutLastComma rest := by
          rw [List.append_cons, withoutLastComma_append _ hrest, ← List.append_cons]
        rw [happend]
        exact .cons hstatement hseparator hsentence

end Reading

/-- What is read from a text is in the grammar with the trees that are read, but
for a comma at its end.  A text without tokens has no statements. -/
theorem sentence_of_parse_ofSource {source : String} {trees : List Tree}
    (h : parse (Transcript.ofSource source).tokens = .ok trees) :
    (Transcript.ofSource source).tokens = [] ∧ trees = [] ∨
      Grammar.Sentence (withoutLastComma (Transcript.ofSource source).tokens) trees :=
  (Reading.parse_eq_ok_iff.mp h).sentence (attached_ofSource source)

/-- The root takes the connector behind its operand, and in the grammar that
connector belongs to the sum around it. -/
theorem sentence_of_parse_ofSource_nested_root :
    parse (Transcript.ofSource "x = suma raiz de 9 y 1, 5,").tokens =
        .ok [.assignment "x" (.binary .add (.unary .root (.number "9" "9")) (.number "1" "1")),
          .number "5" "5"] ∧
      Grammar.Sentence
        (withoutLastComma (Transcript.ofSource "x = suma raiz de 9 y 1, 5,").tokens)
        [.assignment "x" (.binary .add (.unary .root (.number "9" "9")) (.number "1" "1")),
          .number "5" "5"] := by
  have hparse : parse (Transcript.ofSource "x = suma raiz de 9 y 1, 5,").tokens =
      .ok [.assignment "x" (.binary .add (.unary .root (.number "9" "9")) (.number "1" "1")),
        .number "5" "5"] := by
    decide +kernel
  refine ⟨hparse, ?_⟩
  rcases sentence_of_parse_ofSource hparse with ⟨-, htrees⟩ | hsentence
  · cases htrees
  · exact hsentence

end SpokenArithmetic
