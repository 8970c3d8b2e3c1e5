import SpokenArithmetic.Proofs.Ordering
import SpokenArithmetic.Proofs.Slicing

/-!
# What the ranges of a transcript cover

The tokens of a sentence stand at their ranges from left to right and apart from
one another, and so do the unrecognized stretches.  Every character that is not
blank is in one of the two (`covered`).  A stretch can reach into a token, since
what is passed over inside a compound numeral is reported as well.  Then it lies
inside the token, and the token is the numeral that three tokens of the scan
have become (`compound_of_not_outside`).  As no slice fails where these ranges
are found, this is all that there is to say about them
(`Transcript.slices_cover`).
-/

namespace SpokenArithmetic

open Cluster Lexeme

/-- Whether some texts stand at their ranges in a sentence, from left to right
and apart from one another, and none of them is empty. -/
structure Slices (source : String) (pieces : List (String × Span)) : Prop where
  nonempty : ∀ piece ∈ pieces, piece.2.start < piece.2.stop
  ordered : pieces.Pairwise fun piece other => piece.2.stop ≤ other.2.start
  sliced : ∀ piece ∈ pieces, piece.2.slice? source = some piece.1

/-- Whether a range holds the bytes of a character that begins at `start`. -/
def Span.Holds (span : Span) (start : Nat) (c : Char) : Prop :=
  span.start ≤ start ∧ start + c.utf8Size ≤ span.stop

/-- Whether a token is the compound numeral of three tokens that follow one
another. -/
def Token.CompoundOf (scanned : List Token) (token : Token) : Prop :=
  ∃ front tens joint units back value,
    scanned = front ++ tens :: joint :: units :: back ∧
      compoundValue? tens joint units = some value ∧
        token.kind = .number ∧ token.normalized = toString value ∧
          token.span = ⟨tens.span.start, units.span.stop⟩

/-- The text of a token and its range. -/
def Token.slice (token : Token) : String × Span :=
  (token.written, token.span)

/-- The text of a stretch and its range. -/
def Unrecognized.slice (stretch : Unrecognized) : String × Span :=
  (stretch.text, stretch.span)

/-- What holds of the ranges of a transcript, where `scanned` are the tokens
before compound numerals are made into one. -/
structure Transcript.Covers (source : String) (scanned : List Token) (transcript : Transcript) :
    Prop where
  tokens : Slices source (transcript.tokens.map Token.slice)
  unrecognized : Slices source (transcript.unrecognized.map Unrecognized.slice)
  /-- A stretch begins and ends with characters that are not blank. -/
  trimmed : ∀ stretch ∈ transcript.unrecognized, stretch.text ≠ "" ∧
    (∀ c ∈ stretch.text.toList.head?, Text.isBlank c = false) ∧
      ∀ c ∈ stretch.text.toList.getLast?, Text.isBlank c = false
  covered (front back : List Char) (c : Char) :
    source.toList = front ++ c :: back → Text.isBlank c = false →
      (∃ token ∈ transcript.tokens, token.span.Holds (Text.width front) c) ∨
        ∃ stretch ∈ transcript.unrecognized, stretch.span.Holds (Text.width front) c
  /-- A stretch that meets a token lies inside it. -/
  broken : ∀ token ∈ transcript.tokens, ∀ stretch ∈ transcript.unrecognized,
    ¬ stretch.Outside token.span →
      token.span.start ≤ stretch.span.start ∧ stretch.span.stop ≤ token.span.stop ∧
        token.CompoundOf scanned

/-! ## Slices from left to right -/

namespace Slices

variable {source : String} {pieces pieces' : List (String × Span)}

theorem nil : Slices source [] := by
  constructor <;> simp

theorem singleton {text : String} {span : Span} (hne : span.start < span.stop)
    (hslice : span.slice? source = some text) : Slices source [(text, span)] := by
  constructor <;> simp [hne, hslice]

theorem append (h : Slices source pieces) (h' : Slices source pieces')
    (hapart : ∀ piece ∈ pieces, ∀ other ∈ pieces', piece.2.stop ≤ other.2.start) :
    Slices source (pieces ++ pieces') where
  nonempty := List.forall_mem_append.mpr ⟨h.nonempty, h'.nonempty⟩
  ordered := List.pairwise_append.mpr ⟨h.ordered, h'.ordered, hapart⟩
  sliced := List.forall_mem_append.mpr ⟨h.sliced, h'.sliced⟩

end Slices

/-! ## What a gap leaves to report -/

namespace Unrecognized

theorem slices_ofGap {source : String} {front gap back : List Char}
    (h : source.toList = front ++ (gap ++ back)) :
    Slices source ((ofGap (Text.width front) gap).map slice) := by
  rcases ofGap_cases (Text.width front) gap with
    ⟨-, hgap⟩ | ⟨blanks, text, behind, rfl, -, -, hne, -, hgap⟩
  · rw [hgap]
    exact .nil
  · have hsource : source.toList = (front ++ blanks) ++ (text ++ (behind ++ back)) := by
      simpa using h
    have hpositive := Text.width_pos hne
    have hslice := Span.slice?_eq hsource
    rw [Text.width_append] at hslice
    rw [hgap]
    exact .singleton (by dsimp only; omega) hslice

theorem slices_ofScan {source : String} {front trail : List Char} {lexemes : List Lexeme}
    (h : source.toList = front ++ (lexemes.flatMap chars ++ trail)) :
    Slices source ((ofScan (Text.width front) lexemes trail).map slice) := by
  induction lexemes generalizing front with
  | nil =>
      have htrail : source.toList = front ++ (trail ++ []) := by simpa using h
      exact slices_ofGap htrail
  | cons lexeme rest ih =>
      have hlead : source.toList =
          front ++ (lexeme.lead ++ (lexeme.text ++ (rest.flatMap chars ++ trail))) := by
        simpa [chars] using h
      have hbehind : source.toList = (front ++ lexeme.chars) ++ (rest.flatMap chars ++ trail) := by
        simpa using h
      have hrest := ih hbehind
      rw [Text.width_append] at hrest
      rw [ofScan, List.map_append]
      refine (slices_ofGap hlead).append hrest ?_
      simp only [List.forall_mem_map]
      intro stretch hstretch other hother
      have hstop := (bounds_of_mem_ofGap hstretch).2.2
      have hstart := start_le_of_mem_ofScan hother
      rw [chars, Text.width_append] at hstart
      show stretch.span.stop ≤ other.span.start
      omega

/-- A stretch is more than blanks, and begins and ends with none. -/
theorem trim_of_mem_ofScan {start : Nat} {lexemes : List Lexeme} {trail : List Char}
    {stretch : Unrecognized} (h : stretch ∈ ofScan start lexemes trail) :
    stretch.text ≠ "" ∧ Text.trim stretch.text.toList = stretch.text.toList := by
  have hgap : ∀ start gap, stretch ∈ ofGap start gap →
      stretch.text ≠ "" ∧ Text.trim stretch.text.toList = stretch.text.toList := by
    intro start gap hmem
    rcases ofGap_cases start gap with
      ⟨-, hnil⟩ | ⟨blanks, text, behind, -, -, -, hne, htrim, hsingle⟩
    · rw [hnil] at hmem
      cases hmem
    · rw [hsingle] at hmem
      obtain rfl := List.mem_singleton.mp hmem
      simp [hne, htrim]
  induction lexemes generalizing start with
  | nil => exact hgap start trail h
  | cons lexeme rest ih =>
      rcases List.mem_append.mp h with hmem | hmem
      · exact hgap start lexeme.lead hmem
      · exact ih hmem

end Unrecognized

theorem Token.slices_ofLexemes {source : String} {front trail : List Char} {lexemes : List Lexeme}
    (h : source.toList = front ++ (lexemes.flatMap chars ++ trail))
    (hne : ∀ lexeme ∈ lexemes, lexeme.text ≠ []) :
    Slices source ((ofLexemes (Text.width front) lexemes).map slice) := by
  induction lexemes generalizing front with
  | nil => exact .nil
  | cons lexeme rest ih =>
      obtain ⟨htext, hrest⟩ := List.forall_mem_cons.mp hne
      have hlead : source.toList =
          (front ++ lexeme.lead) ++ (lexeme.text ++ (rest.flatMap chars ++ trail)) := by
        simpa [chars] using h
      have hbehind : source.toList =
          (front ++ lexeme.lead ++ lexeme.text) ++ (rest.flatMap chars ++ trail) := by
        simpa [chars] using h
      have hpositive := Text.width_pos htext
      have hslice := Span.slice?_eq hlead
      have hslices := ih hbehind hrest
      simp only [Text.width_append] at hslice hslices
      rw [ofLexemes, List.map_cons, ← List.singleton_append]
      refine (Slices.singleton (by dsimp only; omega) hslice).append hslices ?_
      simp only [List.mem_singleton, forall_eq, List.forall_mem_map]
      intro other hother
      exact start_le_of_mem_ofLexemes hother

/-! ## Nothing is lost -/

/-- A place in a text is in its first part or behind it. -/
theorem within_or_behind {cs ds front back : List Char} {c : Char}
    (h : cs ++ ds = front ++ c :: back) :
    (∃ behind, cs = front ++ c :: behind) ∨
      ∃ between, front = cs ++ between ∧ ds = between ++ c :: back := by
  rcases List.append_eq_append_iff.mp h with ⟨between, rfl, hds⟩ | ⟨behind, rfl, hback⟩
  · exact Or.inr ⟨between, rfl, hds⟩
  · cases behind with
    | nil => exact Or.inr ⟨[], by simp, hback.symm⟩
    | cons first behind =>
        obtain ⟨rfl, -⟩ := List.cons.inj hback
        exact Or.inl ⟨behind, rfl⟩

/-- What is not blank in a gap is in what is reported of it. -/
theorem Unrecognized.covered_ofGap (start : Nat) {front back : List Char} {c : Char}
    (hc : Text.isBlank c = false) :
    ∃ stretch ∈ ofGap start (front ++ c :: back),
      stretch.span.Holds (start + Text.width front) c := by
  rcases ofGap_cases start (front ++ c :: back) with
    ⟨hblank, -⟩ | ⟨blanks, text, behind, hsplit, hblanks, hbehind, -, -, hgap⟩
  · exact absurd (hblank c (by simp)) (by simp [hc])
  · rw [hgap]
    refine ⟨_, List.mem_singleton_self _, ?_⟩
    -- The character is behind the blanks in front and before those at the end.
    rcases within_or_behind hsplit.symm with ⟨after, rfl⟩ | ⟨between, rfl, htext⟩
    · exact absurd (hblanks c (by simp)) (by simp [hc])
    · rcases within_or_behind htext with ⟨after, rfl⟩ | ⟨within, -, rfl⟩
      · simp only [Span.Holds, Text.width_append, Text.width_cons]
        omega
      · exact absurd (hbehind c (by simp)) (by simp [hc])

namespace Cluster

/-- What is reported inside of a cluster that begins at the position `start`. -/
def stretches (start : Nat) : Cluster → List Unrecognized
  | single _ => []
  | compound tens joint units _ =>
      Unrecognized.ofGap (start + Text.width tens.chars) joint.lead ++
        Unrecognized.ofGap (start + Text.width tens.chars + Text.width joint.chars) units.lead

theorem ofScan_members (start : Nat) (cluster : Cluster) (rest : List Lexeme)
    (trail : List Char) :
    Unrecognized.ofScan start (cluster.members ++ rest) trail =
      Unrecognized.ofGap start cluster.merged.lead ++
        (cluster.stretches start ++
          Unrecognized.ofScan (start + Text.width cluster.merged.chars) rest trail) := by
  cases cluster with
  | single lexeme => rfl
  | compound tens joint units value =>
      simp only [members, stretches, merged, List.cons_append, List.nil_append,
        Unrecognized.ofScan, List.append_assoc, chars_compound, Text.width_append,
        ← Nat.add_assoc]
      rfl

theorem bounds_of_mem_stretches {start : Nat} {cluster : Cluster} {stretch : Unrecognized}
    (h : stretch ∈ cluster.stretches start) :
    start + Text.width cluster.merged.lead ≤ stretch.span.start ∧
      stretch.span.stop ≤ start + Text.width cluster.merged.chars := by
  cases cluster with
  | single lexeme => cases h
  | compound tens joint units value =>
      simp only [merged, chars_compound, Text.width_append]
      show start + Text.width tens.lead ≤ _ ∧ _
      rcases List.mem_append.mp h with hmem | hmem
      · have hbounds := Unrecognized.bounds_of_mem_ofGap hmem
        simp only [chars, Text.width_append] at hbounds ⊢
        omega
      · have hbounds := Unrecognized.bounds_of_mem_ofGap hmem
        simp only [chars, Text.width_append] at hbounds ⊢
        omega

theorem flatMap_chars_members (cluster : Cluster) :
    cluster.members.flatMap chars = cluster.merged.chars := by
  cases cluster with
  | single lexeme => simp [members, merged]
  | compound tens joint units value => simp [members, merged]

end Cluster

/-- A character that is not blank is in the range of a token or of a stretch. -/
theorem covered {clusters : List Cluster} {trail front back : List Char} {c : Char} (start : Nat)
    (h : (clusters.map merged).flatMap chars ++ trail = front ++ c :: back)
    (hc : Text.isBlank c = false) :
    (∃ token ∈ Token.ofLexemes start (clusters.map merged),
        token.span.Holds (start + Text.width front) c) ∨
      ∃ stretch ∈ Unrecognized.ofScan start (clusters.flatMap members) trail,
        stretch.span.Holds (start + Text.width front) c := by
  induction clusters generalizing start front with
  | nil =>
      obtain rfl : trail = front ++ c :: back := h
      exact Or.inr (Unrecognized.covered_ofGap start hc)
  | cons cluster rest ih =>
      simp only [List.map_cons, List.flatMap_cons, List.append_assoc, ofScan_members,
        List.mem_append, Token.ofLexemes] at h ⊢
      rw [chars, List.append_assoc] at h
      rcases within_or_behind h with ⟨after, hlead⟩ | ⟨between, rfl, htext⟩
      · obtain ⟨stretch, hmem, hholds⟩ := Unrecognized.covered_ofGap start hc
        rw [hlead]
        exact Or.inr ⟨stretch, Or.inl hmem, hholds⟩
      rcases within_or_behind htext with ⟨after, hwithin⟩ | ⟨behind, rfl, hrest⟩
      · refine Or.inl ⟨_, List.mem_cons_self .., ?_⟩
        simp only [Span.Holds, hwithin, Text.width_append, Text.width_cons]
        omega
      · have hwidth : start + Text.width (cluster.merged.lead ++ (cluster.merged.text ++ behind)) =
            start + Text.width cluster.merged.chars + Text.width behind := by
          simp only [chars, Text.width_append, Nat.add_assoc]
        rw [hwidth]
        rcases ih (start + Text.width cluster.merged.chars) hrest with
          ⟨token, hmem, hholds⟩ | ⟨stretch, hmem, hholds⟩
        · refine Or.inl ⟨token, List.mem_cons_of_mem _ ?_, hholds⟩
          rwa [chars, Text.width_append, ← Nat.add_assoc] at hmem
        · exact Or.inr ⟨stretch, Or.inr (Or.inr hmem), hholds⟩

/-! ## Stretches inside numerals -/

theorem Token.CompoundOf.append_left {scanned : List Token} {token : Token}
    (h : token.CompoundOf scanned) (before : List Token) :
    token.CompoundOf (before ++ scanned) := by
  obtain ⟨front, tens, joint, units, back, value, rfl, hcompound⟩ := h
  exact ⟨before ++ front, tens, joint, units, back, value, by rw [List.append_assoc], hcompound⟩

theorem Token.CompoundOf.kind_eq {scanned : List Token} {token : Token}
    (h : token.CompoundOf scanned) : token.kind = .number := by
  obtain ⟨-, -, -, -, -, -, -, -, hkind, -⟩ := h
  exact hkind

/-- The token of a cluster is met only by what is reported inside of it. -/
theorem compound_of_not_outside {clusters : List Cluster} {trail : List Char} {start : Nat}
    {token : Token} {stretch : Unrecognized} (hclustered : Clustered clusters)
    (htoken : token ∈ Token.ofLexemes start (clusters.map merged))
    (hstretch : stretch ∈ Unrecognized.ofScan start (clusters.flatMap members) trail)
    (hmeets : ¬ stretch.Outside token.span) :
    token.span.start ≤ stretch.span.start ∧ stretch.span.stop ≤ token.span.stop ∧
      token.CompoundOf (Token.ofLexemes start (clusters.flatMap members)) := by
  induction clusters generalizing start with
  | nil => cases htoken
  | cons cluster rest ih =>
      have hchars : Text.width cluster.merged.chars =
          Text.width cluster.merged.lead + Text.width cluster.merged.text := by
        rw [chars, Text.width_append]
      rw [List.flatMap_cons, ofScan_members] at hstretch
      rw [List.flatMap_cons, Token.ofLexemes_append, flatMap_chars_members]
      rw [List.map_cons, Token.ofLexemes, Nat.add_assoc, ← hchars] at htoken
      rcases List.mem_cons.mp htoken with rfl | htoken
      · rcases List.mem_append.mp hstretch with hgap | hstretch
        · have hstop := (Unrecognized.bounds_of_mem_ofGap hgap).2.2
          exact absurd (Or.inl hstop) hmeets
        rcases List.mem_append.mp hstretch with hinside | hrest
        · have hbounds := bounds_of_mem_stretches hinside
          refine ⟨hbounds.1, hbounds.2, ?_⟩
          cases cluster with
          | single lexeme => cases hinside
          | compound tens joint units value =>
              refine ⟨[], _, _, _, _, value, rfl, ?_, rfl, rfl, ?_⟩
              · exact (Token.compoundValue?_mk tens joint units _ _ _).trans hclustered.1
              · simp only [merged, Lexeme.compound, Text.width_append, chars, ← Nat.add_assoc]
        · have hstart := Unrecognized.start_le_of_mem_ofScan hrest
          exact absurd (Or.inr hstart) hmeets
      · have hbehind := Token.start_le_of_mem_ofLexemes htoken
        rcases List.mem_append.mp hstretch with hgap | hstretch
        · have hstop := (Unrecognized.bounds_of_mem_ofGap hgap).2.2
          exact absurd (Or.inl (by omega)) hmeets
        rcases List.mem_append.mp hstretch with hinside | hrest
        · have hstop := (bounds_of_mem_stretches hinside).2
          exact absurd (Or.inl (Nat.le_trans hstop hbehind)) hmeets
        · have hclusteredRest : Clustered rest := by
            cases cluster with
            | single lexeme => exact hclustered.2
            | compound tens joint units value => exact hclustered.2
          obtain ⟨hstart, hstop, hcompound⟩ := ih hclusteredRest htoken hrest
          exact ⟨hstart, hstop, hcompound.append_left _⟩

/-- Promotion leaves a number as it is, and the range of every token. -/
theorem Token.exists_of_mem_promoteFrom {previous : Option Kind} {tokens : List Token}
    {token : Token} (h : token ∈ promoteFrom previous tokens) :
    ∃ original ∈ tokens, token.span = original.span ∧
      (original.kind = .number → token = original) := by
  induction tokens generalizing previous with
  | nil => cases h
  | cons first rest ih =>
      rcases List.mem_cons.mp h with rfl | h
      · refine ⟨first, List.mem_cons_self .., span_promote .., fun hnumber => ?_⟩
        exact promote_of_number hnumber _ _
      · obtain ⟨original, hmem, horiginal⟩ := ih h
        exact ⟨original, List.mem_cons_of_mem _ hmem, horiginal⟩

/-! ## The ranges of a transcript -/

theorem Text.length_trim_le (cs : List Char) : (trim cs).length ≤ cs.length := by
  obtain ⟨front, back, -, -, hcs⟩ := exists_eq_append_trim cs
  have hlength := congrArg List.length hcs
  simp only [List.length_append] at hlength
  omega

/-- Text that trims to itself has a blank at neither end. -/
theorem Text.ends_of_trim_eq {cs : List Char} (h : trim cs = cs) :
    (∀ c ∈ cs.head?, isBlank c = false) ∧ ∀ c ∈ cs.getLast?, isBlank c = false := by
  constructor
  · intro c hc
    obtain ⟨rest, rfl⟩ := List.head?_eq_some_iff.mp hc
    by_contra hblank
    rw [Bool.not_eq_false] at hblank
    have hblanks : ∀ d ∈ [c], isBlank d = true := by simpa using hblank
    have htrim : trim (c :: rest) = trim rest := trim_append_left hblanks rest
    have hle := length_trim_le rest
    rw [← htrim, h, List.length_cons] at hle
    omega
  · intro c hc
    obtain ⟨front, rfl⟩ := List.getLast?_eq_some_iff.mp hc
    by_contra hblank
    rw [Bool.not_eq_false] at hblank
    have hblanks : ∀ d ∈ [c], isBlank d = true := by simpa using hblank
    have htrim : trim (front ++ [c]) = trim front := trim_append_right hblanks front
    have hle := length_trim_le front
    rw [← htrim, h, List.length_append, List.length_singleton] at hle
    omega

namespace ClustersOf

variable {source : String} {clusters : List Cluster} {trail : List Char}

theorem scanned_eq (h : ClustersOf source clusters trail) :
    Transcript.scanned source = Token.ofLexemes 0 (clusters.flatMap members) := by
  rw [Transcript.scanned, h.scan]

theorem slices_tokens (h : ClustersOf source clusters trail) :
    Slices source ((Transcript.ofSource source).tokens.map Token.slice) := by
  have hsource : source.toList = [] ++ ((clusters.map merged).flatMap chars ++ trail) := h.toList_eq
  have hslices : (Token.promoteKeywords (Token.ofLexemes 0 (clusters.map merged))).map Token.slice =
      (Token.ofLexemes 0 (clusters.map merged)).map Token.slice :=
    Token.map_promoteFrom Prod.mk none _
  rw [h.tokens_eq, hslices]
  exact Token.slices_ofLexemes hsource h.text_ne_nil

theorem slices_unrecognized (h : ClustersOf source clusters trail) :
    Slices source ((Transcript.ofSource source).unrecognized.map Unrecognized.slice) := by
  have hchars := Scan.chars_ofText source.toList
  rw [h.scan] at hchars
  have hsource : source.toList = [] ++ ((clusters.flatMap members).flatMap chars ++ trail) :=
    hchars.symm
  rw [h.unrecognized_eq]
  exact Unrecognized.slices_ofScan hsource

theorem trimmed (h : ClustersOf source clusters trail) :
    ∀ stretch ∈ (Transcript.ofSource source).unrecognized, stretch.text ≠ "" ∧
      (∀ c ∈ stretch.text.toList.head?, Text.isBlank c = false) ∧
        ∀ c ∈ stretch.text.toList.getLast?, Text.isBlank c = false := by
  intro stretch hstretch
  rw [h.unrecognized_eq] at hstretch
  obtain ⟨hne, htrim⟩ := Unrecognized.trim_of_mem_ofScan hstretch
  exact ⟨hne, Text.ends_of_trim_eq htrim⟩

/-- Promotion moves no token, so what is covered before is covered behind it. -/
theorem covered_ofSource (h : ClustersOf source clusters trail) {front back : List Char} {c : Char}
    (hsource : source.toList = front ++ c :: back) (hc : Text.isBlank c = false) :
    (∃ token ∈ (Transcript.ofSource source).tokens, token.span.Holds (Text.width front) c) ∨
      ∃ stretch ∈ (Transcript.ofSource source).unrecognized,
        stretch.span.Holds (Text.width front) c := by
  have hspans : (Token.promoteKeywords (Token.ofLexemes 0 (clusters.map merged))).map Token.span =
      (Token.ofLexemes 0 (clusters.map merged)).map Token.span :=
    Token.map_promoteFrom (fun _ span => span) none _
  rw [h.unrecognized_eq, h.tokens_eq]
  have hcovered := covered 0 (h.toList_eq.symm.trans hsource) hc
  rw [Nat.zero_add] at hcovered
  rcases hcovered with ⟨token, hmem, hholds⟩ | hstretch
  · have hspan : token.span ∈ (Token.ofLexemes 0 (clusters.map merged)).map Token.span :=
      List.mem_map_of_mem hmem
    rw [← hspans] at hspan
    obtain ⟨promoted, hpromoted, hsame⟩ := List.mem_map.mp hspan
    exact Or.inl ⟨promoted, hpromoted, by rwa [hsame]⟩
  · exact Or.inr hstretch

theorem compound_of_mem (h : ClustersOf source clusters trail) {token : Token}
    {stretch : Unrecognized} (htoken : token ∈ (Transcript.ofSource source).tokens)
    (hstretch : stretch ∈ (Transcript.ofSource source).unrecognized)
    (hmeets : ¬ stretch.Outside token.span) :
    token.span.start ≤ stretch.span.start ∧ stretch.span.stop ≤ token.span.stop ∧
      token.CompoundOf (Transcript.scanned source) := by
  rw [h.tokens_eq] at htoken
  rw [h.unrecognized_eq] at hstretch
  rw [h.scanned_eq]
  obtain ⟨original, horiginal, hspan, hnumber⟩ := Token.exists_of_mem_promoteFrom htoken
  rw [hspan] at hmeets ⊢
  obtain ⟨hstart, hstop, hcompound⟩ :=
    compound_of_not_outside h.clustered horiginal hstretch hmeets
  -- A compound numeral is no keyword, so it has not been promoted.
  obtain rfl := hnumber hcompound.kind_eq
  exact ⟨hstart, hstop, hcompound⟩

end ClustersOf

/-- No slice of a sentence fails, and the ranges of its transcript hold each of
its characters that is not blank. -/
theorem Transcript.slices_cover (source : String) :
    ofRanges? source = some (ofSource source) ∧
      scanRanges? source 0 (Scan.ranges 0 (Text.shadow source.toList)) =
        some (scanned source, (ofSource source).unrecognized) ∧
      Covers source (scanned source) (ofSource source) := by
  obtain ⟨clusters, trail, h⟩ := exists_clustersOf source
  refine ⟨ofRanges?_eq source, scanRanges?_scanned source, ?_⟩
  exact {
    tokens := h.slices_tokens
    unrecognized := h.slices_unrecognized
    trimmed := h.trimmed
    covered := fun _ _ _ hsource hc => h.covered_ofSource hsource hc
    broken := fun _ htoken _ hstretch hmeets => h.compound_of_mem htoken hstretch hmeets }

end SpokenArithmetic
