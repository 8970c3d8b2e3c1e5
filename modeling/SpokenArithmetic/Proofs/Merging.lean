import Mathlib.Data.List.Forall2
import SpokenArithmetic.Proofs.Coverage

/-!
# Merging is complete and final

Merging goes over the tokens once, from left to right, and looks two tokens ahead.
What it does can be said of the outcome alone (`Transcript.merges`).  Each token
behind it is one that was scanned, or a compound numeral in the place of the three
that it covers.  No ten, `y` and unit stand side by side any more, and a second
merging would change nothing.

Two things could go wrong here.  A compound numeral could be part of another one.
But it has the letter `y` in it, and no number word has.  And the ten and the unit
are put together to one text before they are looked up, which is then taken apart
at its first link.  That need not be the link which was put in, but then there is
no numeral either way (`Numeral.value?_link`).
-/

namespace SpokenArithmetic

/-! ## Joined numerals -/

namespace Numeral

/-- The words for an exact ten that can open a joined numeral. -/
def tens : List (String × Nat) :=
  [("veinte", 20), ("treinta", 30), ("cuarenta", 40), ("cincuenta", 50), ("sesenta", 60),
    ("setenta", 70), ("ochenta", 80), ("noventa", 90)]

/-- The words for a unit that can close a joined numeral. -/
def units : List (String × Nat) :=
  [("uno", 1), ("dos", 2), ("tres", 3), ("cuatro", 4), ("cinco", 5), ("seis", 6), ("siete", 7),
    ("ocho", 8), ("nueve", 9)]

theorem mem_words_of_wordValue? {word : String} {value : Nat} (h : wordValue? word = some value) :
    (word, value) ∈ words := by
  obtain ⟨front, back, hwords, -⟩ := List.lookup_eq_some_iff.mp h
  rw [hwords]
  exact List.mem_append_right _ List.mem_cons_self

theorem tensValue?_eq_some_iff {word : String} {value : Nat} :
    tensValue? word = some value ↔ (word, value) ∈ tens := by
  constructor
  · have htens : ∀ entry ∈ words, (20 ≤ entry.2 && entry.2 ≤ 90 && entry.2 % 10 == 0) = true →
        entry ∈ tens := by
      decide +kernel
    intro h
    obtain ⟨hword, hvalue⟩ := Option.filter_eq_some_iff.mp h
    exact htens _ (mem_words_of_wordValue? hword) hvalue
  · have htens : ∀ entry ∈ tens, tensValue? entry.1 = some entry.2 := by
      decide +kernel
    exact htens (word, value)

theorem unitsValue?_eq_some_iff {word : String} {value : Nat} :
    unitsValue? word = some value ↔ (word, value) ∈ units := by
  constructor
  · have hunits : ∀ entry ∈ words, (1 ≤ entry.2 && entry.2 ≤ 9) = true → entry ∈ units := by
      decide +kernel
    intro h
    obtain ⟨hword, hvalue⟩ := Option.filter_eq_some_iff.mp h
    exact hunits _ (mem_words_of_wordValue? hword) hvalue
  · have hunits : ∀ entry ∈ units, unitsValue? entry.1 = some entry.2 := by
      decide +kernel
    exact hunits (word, value)

theorem joinedValue?_eq_some_iff {left right : String} {value : Nat} :
    joinedValue? left right = some value ↔
      ∃ ten unit, (left, ten) ∈ tens ∧ (right, unit) ∈ units ∧ value = ten + unit := by
  simp only [← tensValue?_eq_some_iff, ← unitsValue?_eq_some_iff]
  unfold joinedValue?
  cases tensValue? left <;> cases unitsValue? right <;> simp [eq_comm]

/-- What joins numerals is in no number word. -/
theorem notMem_of_wordValue? {word : String} {value : Nat} (h : wordValue? word = some value) :
    ' ' ∉ word.toList ∧ 'y' ∉ word.toList := by
  have hwords : ∀ entry ∈ words, ' ' ∉ entry.1.toList ∧ 'y' ∉ entry.1.toList := by
    decide +kernel
  exact hwords _ (mem_words_of_wordValue? h)

theorem notMem_of_joinedValue? {left right : String} {value : Nat}
    (h : joinedValue? left right = some value) :
    (' ' ∉ left.toList ∧ 'y' ∉ left.toList) ∧ ' ' ∉ right.toList ∧ 'y' ∉ right.toList := by
  obtain ⟨ten, unit, hten, hunit, -⟩ := joinedValue?_eq_some_iff.mp h
  rw [← tensValue?_eq_some_iff] at hten
  rw [← unitsValue?_eq_some_iff] at hunit
  exact ⟨notMem_of_wordValue? (Option.filter_eq_some_iff.mp hten).1,
    notMem_of_wordValue? (Option.filter_eq_some_iff.mp hunit).1⟩

/-- A link in a text is the first one, or there is a space in front of it, and it is
behind the first one. -/
theorem splitAtLink?_append (left right : List Char) :
    splitAtLink? (left ++ link.toList ++ right) = some (left, right) ∨
      ∃ front back, splitAtLink? (left ++ link.toList ++ right) = some (front, back) ∧
        ' ' ∈ left ∧ ' ' ∈ back := by
  have hlink : link.toList = [' ', 'y', ' '] := by
    decide
  rw [hlink]
  induction left with
  | nil => exact Or.inl rfl
  | cons c left ih =>
      by_cases hfirst : ∃ back, c :: left ++ [' ', 'y', ' '] ++ right = ' ' :: 'y' :: ' ' :: back
      · obtain ⟨back, hback⟩ := hfirst
        refine Or.inr ⟨[], back, ?_, ?_, ?_⟩
        · rw [hback]
          rfl
        · rw [List.cons_append, List.cons_append, List.cons.injEq] at hback
          exact hback.1 ▸ List.mem_cons_self
        · -- The first link can reach into the one that was put in.
          rcases left with _ | ⟨second, _ | ⟨third, left⟩⟩
          · simp at hback
          · simp only [List.cons_append, List.nil_append, List.cons.injEq] at hback
            simp [← hback.2.2.2]
          · simp only [List.cons_append, List.cons.injEq] at hback
            simp [← hback.2.2.2]
      · have hskip : splitAtLink? (c :: left ++ [' ', 'y', ' '] ++ right) =
            (splitAtLink? (left ++ [' ', 'y', ' '] ++ right)).map
              fun halves => (c :: halves.1, halves.2) := by
          rw [List.cons_append, List.cons_append, splitAtLink?]
          intro back hc hback
          exact hfirst ⟨back, by simp [hc, hback]⟩
        rw [hskip]
        rcases ih with hfirst | ⟨front, back, hsplit, hleft, hback⟩
        · exact Or.inl (by rw [hfirst]; rfl)
        · exact Or.inr ⟨c :: front, back, by rw [hsplit]; rfl, List.mem_cons_of_mem _ hleft, hback⟩

/-- Two texts around a link are looked up as a ten and a unit, whatever they are. -/
theorem value?_link (left right : String) :
    value? (left ++ link ++ right) = joinedValue? left right := by
  have hword : wordValue? (left ++ link ++ right) = none := by
    rw [Option.eq_none_iff_forall_ne_some]
    intro value hvalue
    refine (notMem_of_wordValue? hvalue).1 ?_
    simp [link]
  have hnone : ∀ {left right : String}, ' ' ∈ left.toList ∨ ' ' ∈ right.toList →
      joinedValue? left right = none := by
    intro left right hspace
    rw [Option.eq_none_iff_forall_ne_some]
    intro value hvalue
    have hnot := notMem_of_joinedValue? hvalue
    exact hspace.elim hnot.1.1 hnot.2.1
  simp only [value?, hword, String.toList_append]
  rcases splitAtLink?_append left.toList right.toList with hsplit | ⟨front, back, hsplit, hl, hb⟩
  · simp only [hsplit, String.ofList_toList]
  · rw [hsplit, hnone (Or.inl hl)]
    exact hnone (Or.inr (by rwa [String.toList_ofList]))

end Numeral

/-! ## No numeral is left -/

namespace Lexeme

/-- Whether no three lexemes side by side make up a compound numeral. -/
def Unjoined : List Lexeme → Prop
  | [] => True
  | lexeme :: rest => opensCompound (lexeme :: rest) = false ∧ Unjoined rest

theorem compoundValue?_eq_some_iff {tens joint units : Lexeme} {value : Nat} :
    compoundValue? tens joint units = some value ↔
      (tens.kind = .number ∧ joint.kind = .sequence ∧ joint.lowered = "y" ∧
        units.kind = .number) ∧ Numeral.joinedValue? tens.lowered units.lowered = some value := by
  unfold compoundValue?
  rw [Numeral.value?_link]
  split
  · simp [*]
  · simp [*]

/-- A compound numeral has its joint in it. -/
theorem mem_lowered_compound {tens joint units : Lexeme} {value : Nat}
    (h : compoundValue? tens joint units = some value) :
    'y' ∈ (compound tens joint units value).lowered.toList := by
  have hjoint : 'y' ∈ Text.lowercase joint.text := by
    rw [← @String.toList_ofList (Text.lowercase joint.text)]
    change 'y' ∈ joint.lowered.toList
    rw [(compoundValue?_eq_some_iff.mp h).1.2.2.1]
    exact List.mem_singleton_self _
  simp only [lowered, compound, chars, Text.lowercase, List.flatMap_append, String.toList_ofList,
    List.mem_append]
  exact Or.inl (Or.inr (Or.inr hjoint))

/-- A compound numeral is no part of another one. -/
theorem notMem_lowered_of_compoundValue? {tens joint units : Lexeme} {value : Nat}
    (h : compoundValue? tens joint units = some value) :
    'y' ∉ tens.lowered.toList ∧ 'y' ∉ units.lowered.toList := by
  have hnot := Numeral.notMem_of_joinedValue? (compoundValue?_eq_some_iff.mp h).2
  exact ⟨hnot.1.2, hnot.2.2⟩

open Cluster in
theorem unjoined_of_clustered {clusters : List Cluster} (h : Clustered clusters) :
    Unjoined (clusters.map merged) := by
  induction clusters with
  | nil => trivial
  | cons cluster rest ih =>
      cases cluster with
      | compound tens joint units value =>
          refine ⟨?_, ih h.2⟩
          rw [← Bool.not_eq_true]
          intro hopens
          match rest with
          | [] => cases hopens
          | [_] => cases hopens
          | _ :: _ :: _ =>
              obtain ⟨other, hother⟩ := Option.isSome_iff_exists.mp hopens
              exact (notMem_lowered_of_compoundValue? hother).1 (mem_lowered_compound h.1)
      | single lexeme =>
          refine ⟨?_, ih h.2⟩
          rw [← Bool.not_eq_true]
          intro hopens
          match rest with
          | [] => cases hopens
          | [_] => cases hopens
          | second :: third :: rest =>
              obtain ⟨value, hvalue⟩ := Option.isSome_iff_exists.mp hopens
              cases second with
              | compound => cases (compoundValue?_eq_some_iff.mp hvalue).1.2.1
              | single joint =>
                  cases third with
                  | compound =>
                      exact (notMem_lowered_of_compoundValue? hvalue).2
                        (mem_lowered_compound h.2.2.1)
                  | single units => exact absurd (h.1.symm.trans hopens) (by decide)

theorem unjoined_mergeCompounds (lexemes : List Lexeme) : Unjoined (mergeCompounds lexemes) := by
  obtain ⟨clusters, hclustered, rfl⟩ := exists_clustered lexemes
  rw [hclustered.mergeCompounds_eq]
  exact unjoined_of_clustered hclustered

theorem mergeCompounds_of_unjoined {lexemes : List Lexeme} (h : Unjoined lexemes) :
    mergeCompounds lexemes = lexemes := by
  induction lexemes with
  | nil => rfl
  | cons lexeme rest ih =>
      rw [mergeCompounds_cons, ih h.2]
      rintro joint units after rfl
      exact Option.isNone_iff_eq_none.mp (Option.isSome_eq_false_iff.mp h.1)

/-- A second merging finds nothing to do. -/
theorem mergeCompounds_mergeCompounds (lexemes : List Lexeme) :
    mergeCompounds (mergeCompounds lexemes) = mergeCompounds lexemes :=
  mergeCompounds_of_unjoined (unjoined_mergeCompounds lexemes)

/-- In any place three of the lexemes are no compound numeral. -/
theorem Unjoined.compoundValue?_eq_none {front back : List Lexeme} {tens joint units : Lexeme}
    (h : Unjoined (front ++ tens :: joint :: units :: back)) :
    compoundValue? tens joint units = none := by
  induction front with
  | nil => exact Option.isNone_iff_eq_none.mp (Option.isSome_eq_false_iff.mp h.1)
  | cons lexeme front ih => exact ih h.2

end Lexeme

/-! ## Merging of tokens -/

namespace Token

/-- Whether three tokens are a ten, the word `y` and a unit, in any case. -/
structure Joinable (tens joint units : Token) (ten unit : Nat) : Prop where
  ten_number : tens.kind = .number
  ten_word : (tens.lowered, ten) ∈ Numeral.tens
  joint_sequence : joint.kind = .sequence
  joint_word : joint.lowered = "y"
  unit_number : units.kind = .number
  unit_word : (units.lowered, unit) ∈ Numeral.units

theorem compoundValue?_eq_some_iff {tens joint units : Token} {value : Nat} :
    compoundValue? tens joint units = some value ↔
      ∃ ten unit, Joinable tens joint units ten unit ∧ value = ten + unit := by
  unfold compoundValue?
  rw [Numeral.value?_link, Option.ite_none_right_eq_some, Numeral.joinedValue?_eq_some_iff]
  constructor
  · rintro ⟨⟨hten, hjoint, hy, hunit⟩, ten, unit, hmem, hmem', rfl⟩
    exact ⟨ten, unit, ⟨hten, hmem, hjoint, hy, hunit, hmem'⟩, rfl⟩
  · rintro ⟨ten, unit, h, rfl⟩
    exact ⟨⟨h.ten_number, h.joint_sequence, h.joint_word, h.unit_number⟩, ten, unit, h.ten_word,
      h.unit_word, rfl⟩

/-- The tokens whose ranges are within that of a token. -/
def covered (scanned : List Token) (token : Token) : List Token :=
  scanned.filter fun member =>
    token.span.start ≤ member.span.start ∧ member.span.stop ≤ token.span.stop

/-- Whether a token is made from some others, as it is or as their numeral. -/
inductive MadeFrom (source : String) : List Token → Token → Prop
  | same (token : Token) : MadeFrom source [token] token
  | numeral {tens joint units : Token} {ten unit : Nat} {written : String}
      (joinable : Joinable tens joint units ten unit)
      (slice : Span.slice? source ⟨tens.span.start, units.span.stop⟩ = some written) :
      MadeFrom source [tens, joint, units]
        ⟨.number, toString (ten + unit), written, ⟨tens.span.start, units.span.stop⟩⟩

/-- What it is that `merged` are the tokens `scanned` with every compound numeral made
into one. -/
structure Merges (source : String) (scanned merged : List Token) : Prop where
  /-- With the tokens that it covers in the place of each, all are there again. -/
  expanded : merged.flatMap (covered scanned) = scanned
  made : ∀ token ∈ merged, MadeFrom source (covered scanned token) token
  /-- No three tokens side by side could still be joined. -/
  unjoined : ∀ front tens joint units back, merged = front ++ tens :: joint :: units :: back →
    ∀ ten unit, ¬ Joinable tens joint units ten unit
  again : mergeRanges? source merged = some merged

/-- Merging takes the tokens in groups. -/
theorem exists_groups {source : String} {tokens merged : List Token}
    (h : mergeRanges? source tokens = some merged) :
    ∃ groups, groups.flatten = tokens ∧ List.Forall₂ (MadeFrom source) groups merged := by
  induction tokens using mergeRanges?.induct generalizing merged with
  | case1 tens joint units rest value hvalue ih =>
      obtain ⟨ten, unit, hjoinable, rfl⟩ := compoundValue?_eq_some_iff.mp hvalue
      simp only [mergeRanges?, hvalue, Option.bind_eq_bind, Option.bind_eq_some_iff] at h
      obtain ⟨written, hslice, behind, hbehind, hmerged⟩ := h
      obtain ⟨groups, rfl, hgroups⟩ := ih hbehind
      cases hmerged
      exact ⟨[tens, joint, units] :: groups, rfl, .cons (.numeral hjoinable hslice) hgroups⟩
  | case2 tens joint units rest hvalue ih =>
      simp only [mergeRanges?, hvalue, Option.map_eq_some_iff] at h
      obtain ⟨behind, hbehind, rfl⟩ := h
      obtain ⟨groups, hflatten, hgroups⟩ := ih hbehind
      exact ⟨[tens] :: groups, congrArg (tens :: ·) hflatten, .cons (.same tens) hgroups⟩
  | case3 few hfew =>
      rw [mergeRanges?] at h
      · cases h
        refine ⟨few.map fun token => [token], by simp [← List.flatMap_def], ?_⟩
        rw [List.forall₂_map_left_iff]
        exact List.forall₂_same.mpr fun token _ => .same token
      · exact hfew

/-! ## Tokens in order -/

/-- Whether some tokens stand from left to right and apart from one another. -/
def InOrder (tokens : List Token) : Prop :=
  (∀ token ∈ tokens, token.span.start < token.span.stop) ∧
    tokens.Pairwise fun token other => token.span.stop ≤ other.span.start

theorem inOrder_append {front back : List Token} :
    InOrder (front ++ back) ↔ InOrder front ∧ InOrder back ∧
      ∀ token ∈ front, ∀ other ∈ back, token.span.stop ≤ other.span.start := by
  unfold InOrder
  rw [List.forall_mem_append, List.pairwise_append]
  tauto

/-- A token goes from the first to the last of those that it is made from. -/
theorem MadeFrom.bounds {source : String} {group : List Token} {token : Token}
    (h : MadeFrom source group token) (horder : InOrder group) :
    (∀ member ∈ group, token.span.start ≤ member.span.start ∧
        member.span.stop ≤ token.span.stop) ∧
      (∃ first ∈ group, first.span.start = token.span.start) ∧
        ∃ last ∈ group, last.span.stop = token.span.stop := by
  cases h with
  | same => simp
  | @numeral tens joint units ten unit written hjoinable hslice =>
      obtain ⟨hpositive, hpairwise⟩ := horder
      simp only [List.forall_mem_cons, List.pairwise_cons] at hpositive hpairwise
      obtain ⟨hten, hjoint, hunit, -⟩ := hpositive
      obtain ⟨⟨hbefore, -⟩, ⟨hbehind, -⟩, -⟩ := hpairwise
      refine ⟨?_, ⟨tens, by simp, rfl⟩, units, by simp, rfl⟩
      simp only [List.forall_mem_cons, List.not_mem_nil, false_implies, implies_true, and_true]
      omega

theorem covered_append (front back : List Token) (token : Token) :
    covered (front ++ back) token = covered front token ++ covered back token :=
  List.filter_append ..

theorem covered_eq_self {tokens : List Token} {token : Token}
    (h : ∀ member ∈ tokens, token.span.start ≤ member.span.start ∧
      member.span.stop ≤ token.span.stop) : covered tokens token = tokens :=
  List.filter_eq_self.mpr fun member hmem => decide_eq_true (h member hmem)

/-- A token does not cover those that begin before it or end behind it. -/
theorem covered_eq_nil {tokens : List Token} {token : Token}
    (h : ∀ member ∈ tokens, member.span.start < token.span.start ∨
      token.span.stop < member.span.stop) : covered tokens token = [] := by
  refine List.filter_eq_nil_iff.mpr fun member hmem hwithin => ?_
  have hbounds := of_decide_eq_true hwithin
  have houtside := h member hmem
  omega

/-- Among tokens in order, those that a token covers are the ones it is made from. -/
theorem covered_of_madeFrom {source : String} {front group back : List Token} {token : Token}
    (h : MadeFrom source group token) (horder : InOrder (front ++ (group ++ back))) :
    covered (front ++ (group ++ back)) token = group := by
  obtain ⟨hfront, horder, hbefore⟩ := inOrder_append.mp horder
  obtain ⟨hgroup, hback, hbehind⟩ := inOrder_append.mp horder
  obtain ⟨hwithin, ⟨first, hfirst, hstart⟩, last, hlast, hstop⟩ := h.bounds hgroup
  have hnone : covered front token = [] := by
    apply covered_eq_nil
    intro member hmem
    have hpositive := hfront.1 member hmem
    have hapart := hbefore member hmem first (List.mem_append_left _ hfirst)
    omega
  have hnone' : covered back token = [] := by
    apply covered_eq_nil
    intro member hmem
    have hpositive := hback.1 member hmem
    have hapart := hbehind last hlast member hmem
    omega
  rw [covered_append, covered_append, hnone, covered_eq_self hwithin, hnone', List.append_nil,
    List.nil_append]

theorem map_covered {source : String} {groups : List (List Token)} {merged : List Token}
    (h : List.Forall₂ (MadeFrom source) groups merged) (front : List Token)
    (horder : InOrder (front ++ groups.flatten)) :
    merged.map (covered (front ++ groups.flatten)) = groups := by
  induction h generalizing front with
  | nil => rfl
  | @cons group token groups merged hmade hrest ih =>
      rw [List.flatten_cons] at horder ⊢
      have hfirst := covered_of_madeFrom hmade horder
      have hbehind := ih (front ++ group) (by rwa [List.append_assoc])
      rw [List.append_assoc] at hbehind
      rw [List.map_cons, hfirst, hbehind]

end Token

open Token in
theorem Transcript.inOrder_scanned (source : String) : InOrder (scanned source) := by
  have hsource : source.toList = [] ++ (Scan.ofText source.toList).chars :=
    (Scan.chars_ofText source.toList).symm
  have hne := (Scan.cut_ofText source.toList).1.text_ne_nil
  have hslices := slices_ofLexemes hsource hne
  constructor
  · exact List.forall_mem_map.mp hslices.nonempty
  · exact List.pairwise_map.mp hslices.ordered

/-- Three tokens of some lexemes side by side come from three lexemes side by side. -/
theorem Token.exists_of_ofLexemes_eq {lexemes : List Lexeme} {start : Nat}
    {front back : List Token} {tens joint units : Token}
    (h : ofLexemes start lexemes = front ++ tens :: joint :: units :: back) :
    ∃ front' tens' joint' units' back',
      lexemes = front' ++ tens' :: joint' :: units' :: back' ∧
        compoundValue? tens joint units = Lexeme.compoundValue? tens' joint' units' := by
  induction front generalizing lexemes start with
  | nil =>
      rcases lexemes with _ | ⟨tens', _ | ⟨joint', _ | ⟨units', back'⟩⟩⟩
      · cases h
      · cases h
      · cases h
      · cases h
        exact ⟨[], tens', joint', units', back', rfl, compoundValue?_mk ..⟩
  | cons token front ih =>
      cases lexemes with
      | nil => cases h
      | cons lexeme rest =>
          obtain ⟨front', tens', joint', units', back', rfl, hvalue⟩ := ih (List.cons.inj h).2
          exact ⟨lexeme :: front', tens', joint', units', back', rfl, hvalue⟩

/-- Of the tokens of merged lexemes none are left to be joined. -/
theorem Token.not_joinable_of_ofLexemes_eq {lexemes : List Lexeme} {start : Nat}
    {front back : List Token} {tens joint units : Token}
    (h : ofLexemes start (Lexeme.mergeCompounds lexemes) = front ++ tens :: joint :: units :: back)
    (ten unit : Nat) : ¬ Joinable tens joint units ten unit := by
  intro hjoinable
  obtain ⟨front', tens', joint', units', back', hlexemes, hvalue⟩ := exists_of_ofLexemes_eq h
  have hunjoined := Lexeme.unjoined_mergeCompounds lexemes
  rw [hlexemes] at hunjoined
  have hsome := compoundValue?_eq_some_iff.mpr ⟨ten, unit, hjoinable, rfl⟩
  rw [hvalue, hunjoined.compoundValue?_eq_none] at hsome
  cases hsome

/-- A second merging of the tokens finds nothing to do. -/
theorem Token.mergeRanges?_merged {source : String} {front trail : List Char}
    {lexemes : List Lexeme} (h : source.toList = front ++ (lexemes.flatMap Lexeme.chars ++ trail)) :
    mergeRanges? source (ofLexemes (Text.width front) (Lexeme.mergeCompounds lexemes)) =
      some (ofLexemes (Text.width front) (Lexeme.mergeCompounds lexemes)) := by
  rw [← Lexeme.flatMap_chars_mergeCompounds] at h
  have htwice := mergeRanges?_eq h
  rwa [Lexeme.mergeCompounds_mergeCompounds] at htwice

open Token in
/-- Merging of the tokens of a sentence loses nothing and leaves no numeral in parts.
In its outcome keywords are then promoted. -/
theorem Transcript.merges (source : String) :
    ∃ merged, mergeRanges? source (scanned source) = some merged ∧
      Merges source (scanned source) merged ∧
        (ofSource source).tokens = promoteKeywords merged := by
  have hchars := Scan.chars_ofText source.toList
  have hsource : source.toList = [] ++ (Scan.ofText source.toList).chars := hchars.symm
  have hmerged : mergeRanges? source (scanned source) = some (ofLexemes 0
      (Lexeme.mergeCompounds (Scan.ofText source.toList).lexemes)) := mergeRanges?_eq hsource
  obtain ⟨groups, hflatten, hgroups⟩ := exists_groups hmerged
  have hcovered := map_covered hgroups [] (by rw [hflatten]; exact inOrder_scanned source)
  rw [List.nil_append, hflatten] at hcovered
  refine ⟨_, hmerged,
    { expanded := ?expanded
      made := ?made
      unjoined := fun front tens joint units back => not_joinable_of_ofLexemes_eq
      again := mergeRanges?_merged hsource }, rfl⟩
  case expanded => rw [List.flatMap_def, hcovered, hflatten]
  case made =>
    rw [← hcovered, List.forall₂_map_left_iff] at hgroups
    exact List.forall₂_same.mp hgroups

/-- A ten that is joined to nothing does not keep the next one from being joined. -/
example : (Token.mergeRanges? "Treinta y cuarenta Y dos"
    (Transcript.scanned "Treinta y cuarenta Y dos")).map (·.map Token.normalized) =
      some ["30", "y", "42"] := by
  decide +kernel

end SpokenArithmetic
