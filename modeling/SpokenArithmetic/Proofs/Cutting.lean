import SpokenArithmetic.Lexeme.Compound
import SpokenArithmetic.Proofs.Matching

/-!
# How a text is cut

A scan is described here by what its lexemes are, and no longer by how they
are found.  Each of them is the longest match in front of all that follows it,
and the characters passed over open no match (`Cut`).  There is only one scan of
this kind for a text, the one that is found (`Scan.ofText_of_cut`).  So a text
can be put together from pieces, and its scan with it, as long as the pieces
meet where no match goes on (`Cut.append_tail`).
-/

namespace SpokenArithmetic
namespace Lexeme

open Vocabulary

/-- Whether no character opens a match. -/
def Passed (cs : List Char) : Prop :=
  ∀ c ∈ cs, opensMatch c = false

/-- Whether lexemes are cut off in front of `tail` as a scan does it. -/
def Cut (tail : List Char) : List Lexeme → Prop
  | [] => True
  | lexeme :: rest =>
      Passed lexeme.lead ∧
        longest? (lexeme.text ++ (rest.flatMap chars ++ tail)) =
          some ⟨lexeme.kind, lexeme.text.length⟩ ∧
        lexeme.normalized = lexeme.kind.canonical (String.ofList lexeme.text) ∧
        Cut tail rest

@[simp] theorem passed_nil : Passed [] := by
  simp [Passed]

@[simp] theorem passed_cons {c : Char} {cs : List Char} :
    Passed (c :: cs) ↔ opensMatch c = false ∧ Passed cs :=
  List.forall_mem_cons

@[simp] theorem passed_append {cs ds : List Char} :
    Passed (cs ++ ds) ↔ Passed cs ∧ Passed ds :=
  List.forall_mem_append

theorem cut_append {tail : List Char} {front back : List Lexeme} :
    Cut tail (front ++ back) ↔ Cut (back.flatMap chars ++ tail) front ∧ Cut tail back := by
  induction front with
  | nil => simp [Cut]
  | cons lexeme front ih =>
      simp only [List.cons_append, Cut, ih, List.flatMap_append, List.append_assoc, and_assoc]

/-- The lexemes stay as they are where what follows them changes behind a place
that no match goes over. -/
theorem Cut.append_tail {tail rest rest' : List Char} {lexemes : List Lexeme}
    (h : Cut (tail ++ rest) lexemes) (hend : EndsMatch rest') : Cut (tail ++ rest') lexemes := by
  induction lexemes with
  | nil => trivial
  | cons lexeme lexemes ih =>
      obtain ⟨hlead, hlongest, hnormalized, hrest⟩ := h
      refine ⟨hlead, ?_, hnormalized, ih hrest⟩
      simp only [← List.append_assoc] at hlongest ⊢
      exact longest?_append hlongest (by simp only [List.length_append]; omega) hend

end Lexeme

namespace Scan

open Lexeme Vocabulary

theorem cut_passOver {c : Char} {scan : Scan} (hc : opensMatch c = false)
    (hcut : Cut scan.trail scan.lexemes) (htrail : Passed scan.trail) :
    Cut (scan.passOver c).trail (scan.passOver c).lexemes ∧ Passed (scan.passOver c).trail := by
  unfold passOver
  split
  · rename_i hnil
    rw [hnil]
    exact ⟨trivial, passed_cons.mpr ⟨hc, htrail⟩⟩
  · rename_i lexeme rest hcons
    rw [hcons] at hcut
    exact ⟨⟨passed_cons.mpr ⟨hc, hcut.1⟩, hcut.2⟩, htrail⟩

/-- A text is cut into longest matches. -/
theorem cut_ofText (cs : List Char) :
    Cut (ofText cs).trail (ofText cs).lexemes ∧ Passed (ofText cs).trail := by
  induction cs using ofText.induct with
  | case1 => simp [Cut]
  | case2 c rest found hfound ih =>
      rw [ofText_of_longest? hfound]
      have hchars := chars_ofText ((c :: rest).drop found.length)
      have hlength : ((c :: rest).take found.length).length = found.length :=
        List.length_take_of_le (length_le_of_longest? hfound)
      have hlongest : longest? ((c :: rest).take found.length ++
          (ofText ((c :: rest).drop found.length)).chars) =
            some ⟨found.kind, ((c :: rest).take found.length).length⟩ := by
        rw [hchars, List.take_append_drop, hlength, hfound]
      exact ⟨⟨passed_nil, hlongest, rfl, ih.1⟩, ih.2⟩
  | case3 c rest hnone ih =>
      rw [ofText_cons_of_longest? hnone]
      exact cut_passOver ((longest?_cons_eq_none_iff c rest).mp hnone) ih.1 ih.2

theorem ofText_append_of_passed {lead : List Char} (h : Passed lead) (cs : List Char) :
    ofText (lead ++ cs) = lead.foldr passOver (ofText cs) := by
  induction lead with
  | nil => rfl
  | cons c lead ih =>
      obtain ⟨hc, hlead⟩ := passed_cons.mp h
      rw [List.cons_append, ofText_cons_of_longest? ((longest?_cons_eq_none_iff c _).mpr hc),
        ih hlead]
      rfl

theorem foldr_passOver_cons (lead : List Char) (lexeme : Lexeme) (scan : Scan) :
    lead.foldr passOver (cons lexeme scan) =
      cons { lexeme with lead := lead ++ lexeme.lead } scan := by
  induction lead with
  | nil => rfl
  | cons c lead ih =>
      rw [List.foldr_cons, ih]
      rfl

theorem foldr_passOver_nil (cs trail : List Char) :
    cs.foldr passOver ⟨[], trail⟩ = ⟨[], cs ++ trail⟩ := by
  induction cs with
  | nil => rfl
  | cons c cs ih =>
      rw [List.foldr_cons, ih]
      rfl

/-- There is no other way to cut a text into longest matches. -/
theorem ofText_of_cut {lexemes : List Lexeme} {trail : List Char} (h : Cut trail lexemes)
    (htrail : Passed trail) :
    ofText (lexemes.flatMap Lexeme.chars ++ trail) = ⟨lexemes, trail⟩ := by
  induction lexemes with
  | nil =>
      have hofText := ofText_append_of_passed htrail []
      rw [List.append_nil, ofText_nil, foldr_passOver_nil, List.append_nil] at hofText
      exact hofText
  | cons lexeme rest ih =>
      obtain ⟨hlead, hlongest, hnormalized, hrest⟩ := h
      rw [List.flatMap_cons, Lexeme.chars, List.append_assoc, List.append_assoc,
        ofText_append_of_passed hlead, ofText_of_longest? hlongest]
      simp only [List.take_left, List.drop_left]
      rw [ih hrest, foldr_passOver_cons]
      simp [cons, Lexeme.ofMatch, ← hnormalized]

/-- Two texts with a comma between them are cut like each of them by itself.
What is passed over at the end of the first one comes in front of the comma. -/
theorem ofText_append_comma (cs ds : List Char) :
    ofText (cs ++ ',' :: ds) =
      ⟨(ofText cs).lexemes ++ ⟨(ofText cs).trail, [','], .comma, ","⟩ :: (ofText ds).lexemes,
        (ofText ds).trail⟩ := by
  have hcs := cut_ofText cs
  have hds := cut_ofText ds
  have hcut : Cut (ofText ds).trail
      ((ofText cs).lexemes ++ ⟨(ofText cs).trail, [','], .comma, ","⟩ :: (ofText ds).lexemes) := by
    refine cut_append.mpr ⟨?_, hcs.2, longest?_comma _, rfl, hds.1⟩
    have hfront := hcs.1
    rw [← List.append_nil (ofText cs).trail] at hfront
    have htail := hfront.append_tail
      (endsMatch_comma ((ofText ds).lexemes.flatMap Lexeme.chars ++ (ofText ds).trail))
    simpa [Lexeme.chars] using htail
  have hsource : cs ++ ',' :: ds =
      ((ofText cs).lexemes ++
        ⟨(ofText cs).trail, [','], .comma, ","⟩ :: (ofText ds).lexemes).flatMap Lexeme.chars ++
          (ofText ds).trail := by
    conv_lhs => rw [← chars_ofText cs, ← chars_ofText ds]
    simp [chars, Lexeme.chars]
  rw [hsource, ofText_of_cut hcut hds.2]

end Scan

/-! ## Compound numerals -/

namespace Lexeme

theorem compoundValue?_of_tens_ne {tens : Lexeme} (h : tens.kind ≠ .number)
    (joint units : Lexeme) : compoundValue? tens joint units = none := by
  simp [compoundValue?, h]

theorem compoundValue?_of_joint_ne {joint : Lexeme} (h : joint.kind ≠ .sequence)
    (tens units : Lexeme) : compoundValue? tens joint units = none := by
  simp [compoundValue?, h]

theorem compoundValue?_of_units_ne {units : Lexeme} (h : units.kind ≠ .number)
    (tens joint : Lexeme) : compoundValue? tens joint units = none := by
  simp [compoundValue?, h]

/-- A lexeme stays by itself unless a compound numeral begins with it. -/
theorem mergeCompounds_cons {lexeme : Lexeme} {rest : List Lexeme}
    (h : ∀ joint units after, rest = joint :: units :: after →
      compoundValue? lexeme joint units = none) :
    mergeCompounds (lexeme :: rest) = lexeme :: mergeCompounds rest := by
  match rest with
  | [] => rfl
  | [_] => rfl
  | joint :: units :: after => rw [mergeCompounds, h joint units after rfl]

/-- No compound numeral goes over a comma. -/
theorem mergeCompounds_append_comma {comma : Lexeme} (h : comma.kind = .comma)
    (front back : List Lexeme) :
    mergeCompounds (front ++ comma :: back) =
      mergeCompounds front ++ comma :: mergeCompounds back := by
  have hcomma : mergeCompounds (comma :: back) = comma :: mergeCompounds back :=
    mergeCompounds_cons fun joint units _ _ => compoundValue?_of_tens_ne (by simp [h]) joint units
  induction front using mergeCompounds.induct with
  | case1 tens joint units rest value hvalue ih =>
      simp only [List.cons_append, mergeCompounds, hvalue, ih]
  | case2 tens joint units rest hvalue ih =>
      simp only [List.cons_append, mergeCompounds, hvalue] at ih ⊢
      rw [ih]
  | case3 few hfew =>
      -- A compound numeral of the last one or two lexemes would take the comma with it.
      have hlast : ∀ last, mergeCompounds (last :: comma :: back) =
          last :: comma :: mergeCompounds back := by
        intro last
        rw [mergeCompounds_cons, hcomma]
        intro joint units after hrest
        obtain ⟨rfl, -⟩ := List.cons.inj hrest
        exact compoundValue?_of_joint_ne (by simp [h]) last units
      rcases few with _ | ⟨first, _ | ⟨last, _ | ⟨units, rest⟩⟩⟩
      · exact hcomma
      · exact hlast first
      · change mergeCompounds (first :: last :: comma :: back) = _
        rw [mergeCompounds_cons, hlast]
        · rfl
        · intro joint units after hrest
          obtain ⟨-, hbehind⟩ := List.cons.inj hrest
          obtain ⟨rfl, -⟩ := List.cons.inj hbehind
          exact compoundValue?_of_units_ne (by simp [h]) first joint
      · exact absurd rfl (hfew first last units rest)

end Lexeme
end SpokenArithmetic
