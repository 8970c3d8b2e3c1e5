import SpokenArithmetic.Proofs.Placement

/-!
# Slices of a sentence

A sentence is scanned in a copy that is brought to small letters.  What is found
there are ranges of byte positions, and the texts of a transcript are the slices
of the sentence itself at such ranges.  A slice can fail: a range can go over the
end of the sentence, or it can begin or end within a character.  Here the
transcript is put together in this way, with every slice that is taken, the
stretches between two matches and the compound numerals included.  No slice
fails, and the outcome is the transcript (`Transcript.ofRanges?_eq`).  The copy
has its characters where the sentence has them, which is why the ranges fit.
-/

namespace SpokenArithmetic

/-- The text at a range of byte positions, if the range lies within the sentence
and begins and ends between two characters. -/
def Span.slice? (source : String) (span : Span) : Option String := do
  let first ← source.pos? ⟨span.start⟩
  let last ← source.pos? ⟨span.stop⟩
  let slice ← source.slice? first last
  return slice.copy

/-! ## Matches in small letters -/

/-- The number of characters at the start of a text in small letters that a
pattern matches. -/
def Pattern.plainReach : Pattern → List Char → Nat
  | .word letters, cs => if letters.isPrefixOf cs then letters.length else 0
  | .run opens continues, c :: rest =>
      if opens c then (rest.takeWhile continues).length + 1 else 0
  | .run _ _, [] => 0

/-- The match of a rule at the start of a text in small letters. -/
def Rule.plainMatch? (rule : Rule) (cs : List Char) : Option Match :=
  let reach := rule.pattern.plainReach cs
  if reach = 0 then none else some ⟨rule.kind, reach⟩

/-- The longest match at the start of a text in small letters, the first of
several. -/
def Vocabulary.plainLongest? (cs : List Char) : Option Match :=
  (rules.filterMap (·.plainMatch? cs)).maxOn? Match.length

theorem isPrefixOf_shadow (letters cs : List Char) :
    letters.isPrefixOf (Text.shadow cs) = beginsWith letters cs := by
  induction letters generalizing cs with
  | nil => rfl
  | cons letter letters ih =>
      cases cs with
      | nil => rfl
      | cons c cs => rw [Text.shadow_cons, List.isPrefixOf, ih, beginsWith, BEq.comm]

/-- In the small letters of a text a pattern matches what it matches in the text. -/
theorem Pattern.plainReach_shadow (pattern : Pattern) (cs : List Char) :
    pattern.plainReach (Text.shadow cs) = pattern.reach cs := by
  cases pattern with
  | word letters => rw [plainReach, reach, isPrefixOf_shadow]
  | run opens continues =>
      cases cs with
      | nil => rfl
      | cons c rest =>
          rw [Text.shadow_cons, plainReach, reach, Text.shadow, List.takeWhile_map,
            List.length_map]
          rfl

theorem Vocabulary.plainLongest?_shadow (cs : List Char) :
    plainLongest? (Text.shadow cs) = longest? cs := by
  have hmatch : ∀ rule : Rule, rule.plainMatch? (Text.shadow cs) = rule.match? cs := by
    intro rule
    rw [Rule.plainMatch?, Rule.match?, Pattern.plainReach_shadow]
  simp only [plainLongest?, longest?, hmatch]

/-- A match in small letters takes at least one character. -/
theorem Vocabulary.plainLength_pos {cs : List Char} {found : Match}
    (h : plainLongest? cs = some found) : 0 < found.length := by
  obtain ⟨rule, -, hrule⟩ := List.mem_filterMap.mp (List.maxOn?_mem h)
  rw [Rule.plainMatch?] at hrule
  split at hrule
  · cases hrule
  · cases hrule
    exact Nat.pos_of_ne_zero ‹_›

/-! ## From ranges to a transcript -/

/-- The kinds and the ranges of the matches in a text in small letters that
begins at the position `start`. -/
def Scan.ranges (start : Nat) : List Char → List (Kind × Span)
  | [] => []
  | c :: rest =>
      match _ : Vocabulary.plainLongest? (c :: rest) with
      | some found =>
          let stop := start + Text.width ((c :: rest).take found.length)
          (found.kind, ⟨start, stop⟩) :: ranges stop ((c :: rest).drop found.length)
      | none => ranges (start + c.utf8Size) rest
termination_by cs => cs.length
decreasing_by
  · have := Vocabulary.plainLength_pos ‹_›
    simp only [List.length_drop, List.length_cons]
    omega
  · simp

/-- The token of a match. -/
def Token.ofRange? (source : String) (kind : Kind) (span : Span) : Option Token :=
  (span.slice? source).map fun written => ⟨kind, kind.canonical written, written, span⟩

/-- What the text at a range between two matches leaves to report. -/
def Unrecognized.ofRange? (source : String) (gap : Span) : Option (List Unrecognized) :=
  (gap.slice? source).map fun text => ofGap gap.start text.toList

/-- The tokens of some matches, and the unrecognized stretches from the position
`start` on. -/
def Transcript.scanRanges? (source : String) (start : Nat) :
    List (Kind × Span) → Option (List Token × List Unrecognized)
  | [] => do
      let stretches ← Unrecognized.ofRange? source ⟨start, source.utf8ByteSize⟩
      return ([], stretches)
  | (kind, span) :: rest => do
      let stretches ← Unrecognized.ofRange? source ⟨start, span.start⟩
      let token ← Token.ofRange? source kind span
      let (tokens, behind) ← scanRanges? source span.stop rest
      return (token :: tokens, stretches ++ behind)

namespace Token

/-- The text of a token in small letters. -/
def lowered (token : Token) : String :=
  String.ofList (Text.lowercase token.written.toList)

/-- The value of three tokens that make up a compound numeral. -/
def compoundValue? (tens joint units : Token) : Option Nat :=
  if tens.kind = .number ∧ joint.kind = .sequence ∧ joint.lowered = "y" ∧ units.kind = .number then
    Numeral.value? (tens.lowered ++ Numeral.link ++ units.lowered)
  else
    none

/-- Tokens with every compound numeral made into one, from left to right. -/
def mergeRanges? (source : String) : List Token → Option (List Token)
  | tens :: joint :: units :: rest =>
      match compoundValue? tens joint units with
      | some value => do
          let span : Span := ⟨tens.span.start, units.span.stop⟩
          let written ← span.slice? source
          let merged ← mergeRanges? source rest
          return ⟨.number, toString value, written, span⟩ :: merged
      | none => (mergeRanges? source (joint :: units :: rest)).map (tens :: ·)
  | few => some few

end Token

/-- The tokens of a sentence before compound numerals are made into one. -/
def Transcript.scanned (source : String) : List Token :=
  Token.ofLexemes 0 (Scan.ofText source.toList).lexemes

/-- The transcript of a sentence from the slices of the sentence, unless one of
them fails. -/
def Transcript.ofRanges? (source : String) : Option Transcript := do
  let (scanned, unrecognized) ← scanRanges? source 0 (Scan.ranges 0 (Text.shadow source.toList))
  let merged ← Token.mergeRanges? source scanned
  let tokens := Token.promoteKeywords merged
  return {
    tokens := tokens
    identifiers := (tokens.filter (·.kind == .identifier)).map (·.written)
    source := source
    unrecognized := unrecognized }

/-! ## No slice fails -/

/-- Behind some text of a sentence there is a position between two characters. -/
theorem exists_pos?_eq_some {source front back : String} (h : source = front ++ back) :
    ∃ position, source.pos? ⟨front.utf8ByteSize⟩ = some position ∧ position.Splits front back := by
  have hvalid : String.Pos.Raw.IsValid source ⟨front.utf8ByteSize⟩ :=
    String.Pos.Raw.isValid_iff_exists_append.mpr ⟨front, back, h, rfl⟩
  refine ⟨⟨⟨front.utf8ByteSize⟩, hvalid⟩, ?_, ⟨h, rfl⟩⟩
  unfold String.pos? String.Slice.pos?
  have hslice : String.Pos.Raw.isValidForSlice source.toSlice ⟨front.utf8ByteSize⟩ = true := by
    simpa using hvalid
  rw [dif_pos hslice]
  rfl

/-- The slice at the bytes of some text is that text. -/
theorem Span.slice?_eq {source : String} {front text back : List Char}
    (h : source.toList = front ++ (text ++ back)) :
    slice? source ⟨Text.width front, Text.width front + Text.width text⟩ =
      some (String.ofList text) := by
  have hsource : source = String.ofList front ++ (String.ofList text ++ String.ofList back) := by
    calc source = String.ofList source.toList := String.ofList_toList.symm
      _ = _ := by rw [h, String.ofList_append, String.ofList_append]
  have hfront := Text.utf8ByteSize_ofList front
  have htext := Text.utf8ByteSize_ofList text
  obtain ⟨first, hfirst, hsplit⟩ := exists_pos?_eq_some hsource
  rw [← String.append_assoc] at hsource
  obtain ⟨last, hlast, hsplit'⟩ := exists_pos?_eq_some hsource
  obtain ⟨hle, hcopy⟩ := String.copy_slice_eq_iff_splits.mpr ⟨_, _, hsplit, hsplit'⟩
  rw [hfront] at hfirst
  rw [String.utf8ByteSize_append, hfront, htext] at hlast
  simp [slice?, hfirst, hlast, String.slice?, hle, hcopy]

namespace Scan

open Vocabulary

/-- Where a match is found, the ranges go on behind it. -/
theorem ranges_of_plainLongest? {cs : List Char} {found : Match}
    (h : plainLongest? cs = some found) (start : Nat) :
    ranges start cs =
      (found.kind, ⟨start, start + Text.width (cs.take found.length)⟩) ::
        ranges (start + Text.width (cs.take found.length)) (cs.drop found.length) := by
  cases cs with
  | nil => exact absurd ((plainLongest?_shadow []).symm.trans h) (by simp)
  | cons c rest =>
      rw [ranges]
      split
      · rename_i other hother
        obtain rfl := Option.some.inj (hother.symm.trans h)
        rfl
      · rename_i hnone
        exact absurd (hnone.symm.trans h) (by simp)

/-- Where none is found, they go on behind one character. -/
theorem ranges_cons_of_plainLongest? {c : Char} {cs : List Char}
    (h : plainLongest? (c :: cs) = none) (start : Nat) :
    ranges start (c :: cs) = ranges (start + c.utf8Size) cs := by
  rw [ranges]
  split
  · rename_i found hfound
    exact absurd (hfound.symm.trans h) (by simp)
  · rfl

/-- A character that is passed over moves the tokens behind it. -/
theorem ofLexemes_passOver (start : Nat) (c : Char) (scan : Scan) :
    Token.ofLexemes start (scan.passOver c).lexemes =
      Token.ofLexemes (start + c.utf8Size) scan.lexemes := by
  unfold passOver
  split
  · rename_i hnil
    rw [hnil]
    rfl
  · rename_i lexeme rest hcons
    rw [hcons]
    simp only [Token.ofLexemes, Text.width_cons, Nat.add_assoc]

/-- What is found in the small letters of a text is where its lexemes are. -/
theorem ranges_shadow (start : Nat) (cs : List Char) :
    ranges start (Text.shadow cs) =
      (Token.ofLexemes start (ofText cs).lexemes).map fun token => (token.kind, token.span) := by
  induction cs using ofText.induct generalizing start with
  | case1 =>
      rw [Text.shadow_nil, ranges, ofText_nil]
      rfl
  | case2 c rest found hfound ih =>
      have htake : (Text.shadow (c :: rest)).take found.length =
          Text.shadow ((c :: rest).take found.length) := (List.map_take).symm
      have hdrop : (Text.shadow (c :: rest)).drop found.length =
          Text.shadow ((c :: rest).drop found.length) := (List.map_drop).symm
      have hplain := (plainLongest?_shadow (c :: rest)).trans hfound
      rw [ranges_of_plainLongest? hplain, htake, hdrop, Text.width_shadow, ih,
        ofText_of_longest? hfound]
      rfl
  | case3 c rest hnone ih =>
      have hplain := (plainLongest?_shadow (c :: rest)).trans hnone
      rw [Text.shadow_cons] at hplain ⊢
      rw [ranges_cons_of_plainLongest? hplain, Text.utf8Size_fold, ih,
        ofText_cons_of_longest? hnone, ofLexemes_passOver]

end Scan

section Slices

variable {source : String} {front trail : List Char} {lexemes : List Lexeme}

/-- The slices at the matches and between them are the lexemes. -/
theorem Transcript.scanRanges?_eq
    (h : source.toList = front ++ (lexemes.flatMap Lexeme.chars ++ trail))
    (hcut : Lexeme.Cut trail lexemes) :
    scanRanges? source (Text.width front)
        ((Token.ofLexemes (Text.width front) lexemes).map fun token => (token.kind, token.span)) =
      some (Token.ofLexemes (Text.width front) lexemes,
        Unrecognized.ofScan (Text.width front) lexemes trail) := by
  induction lexemes generalizing front with
  | nil =>
      have htrail : source.toList = front ++ (trail ++ []) := by simpa using h
      have hsize : source.utf8ByteSize = Text.width front + Text.width trail := by
        rw [← Text.width_toList, htrail, List.append_nil, Text.width_append]
      have hslice := Span.slice?_eq htrail
      rw [← hsize] at hslice
      simp [scanRanges?, Unrecognized.ofRange?, Token.ofLexemes, Unrecognized.ofScan, hslice]
  | cons lexeme rest ih =>
      obtain ⟨-, -, hnormalized, hrest⟩ := hcut
      have hlead : source.toList =
          front ++ (lexeme.lead ++ (lexeme.text ++ (rest.flatMap Lexeme.chars ++ trail))) := by
        simpa [Lexeme.chars] using h
      have htext : source.toList =
          (front ++ lexeme.lead) ++ (lexeme.text ++ (rest.flatMap Lexeme.chars ++ trail)) := by
        rw [hlead, List.append_assoc]
      have hbehind : source.toList =
          (front ++ lexeme.lead ++ lexeme.text) ++ (rest.flatMap Lexeme.chars ++ trail) := by
        simp only [htext, List.append_assoc]
      have hgap := Span.slice?_eq hlead
      have hslice := Span.slice?_eq htext
      have hscan := ih hbehind hrest
      simp only [Text.width_append] at hslice hscan
      simp [scanRanges?, Unrecognized.ofRange?, Token.ofRange?, Token.ofLexemes,
        Unrecognized.ofScan, hgap, hslice, hscan, hnormalized, Lexeme.chars, ← Nat.add_assoc]

theorem Token.lowered_mk (lexeme : Lexeme) (span : Span) :
    lowered ⟨lexeme.kind, lexeme.normalized, String.ofList lexeme.text, span⟩ =
      lexeme.lowered := by
  rw [lowered, String.toList_ofList, Lexeme.lowered]

theorem Token.compoundValue?_mk (tens joint units : Lexeme) (span span' span'' : Span) :
    compoundValue? ⟨tens.kind, tens.normalized, String.ofList tens.text, span⟩
        ⟨joint.kind, joint.normalized, String.ofList joint.text, span'⟩
        ⟨units.kind, units.normalized, String.ofList units.text, span''⟩ =
      Lexeme.compoundValue? tens joint units := by
  unfold compoundValue? Lexeme.compoundValue?
  simp only [lowered_mk]

/-- The slices at compound numerals are the lexemes that they become. -/
theorem Token.mergeRanges?_eq
    (h : source.toList = front ++ (lexemes.flatMap Lexeme.chars ++ trail)) :
    mergeRanges? source (ofLexemes (Text.width front) lexemes) =
      some (ofLexemes (Text.width front) (Lexeme.mergeCompounds lexemes)) := by
  induction lexemes using Lexeme.mergeCompounds.induct generalizing front with
  | case1 tens joint units rest value hvalue ih =>
      have htext : source.toList = (front ++ tens.lead) ++
          ((Lexeme.compound tens joint units value).text ++
            (rest.flatMap Lexeme.chars ++ trail)) := by
        simpa [Lexeme.compound, Lexeme.chars] using h
      have hbehind : source.toList =
          (front ++ tens.lead ++ (Lexeme.compound tens joint units value).text) ++
            (rest.flatMap Lexeme.chars ++ trail) := by
        simp only [htext, List.append_assoc]
      have hslice := Span.slice?_eq htext
      have hmerge := ih hbehind
      simp only [Lexeme.compound, Lexeme.chars, Text.width_append, ← Nat.add_assoc]
        at hslice hmerge
      simp [Lexeme.mergeCompounds, mergeRanges?, ofLexemes, compoundValue?_mk, hvalue, hslice,
        hmerge, Lexeme.compound, Lexeme.chars, ← Nat.add_assoc]
  | case2 tens joint units rest hvalue ih =>
      have hbehind : source.toList = (front ++ tens.lead ++ tens.text) ++
          ((joint :: units :: rest).flatMap Lexeme.chars ++ trail) := by
        simpa [Lexeme.chars] using h
      have hmerge := ih hbehind
      simp only [Text.width_append, ofLexemes] at hmerge
      simp only [Lexeme.mergeCompounds, hvalue, ofLexemes, mergeRanges?, compoundValue?_mk, hmerge,
        Option.map_some]
  | case3 few hfew =>
      -- Fewer than three tokens stay as they are.
      rcases few with _ | ⟨tens, _ | ⟨joint, _ | ⟨units, rest⟩⟩⟩
      · rfl
      · rfl
      · rfl
      · exact absurd rfl (hfew tens joint units rest)

end Slices

theorem Transcript.scanRanges?_scanned (source : String) :
    scanRanges? source 0 (Scan.ranges 0 (Text.shadow source.toList)) =
      some (scanned source, (ofSource source).unrecognized) := by
  have hchars := Scan.chars_ofText source.toList
  rw [Scan.ranges_shadow]
  have hsource : source.toList = [] ++ (Scan.ofText source.toList).chars := hchars.symm
  exact scanRanges?_eq hsource (Scan.cut_ofText source.toList).1

/-- No slice fails, and the texts at the ranges make up the transcript. -/
theorem Transcript.ofRanges?_eq (source : String) : ofRanges? source = some (ofSource source) := by
  have hchars := Scan.chars_ofText source.toList
  have hsource : source.toList = [] ++ (Scan.ofText source.toList).chars := hchars.symm
  have hmerged : Token.mergeRanges? source (scanned source) = some (Token.ofLexemes 0
      (Lexeme.mergeCompounds (Scan.ofText source.toList).lexemes)) :=
    Token.mergeRanges?_eq hsource
  simp only [ofRanges?, scanRanges?_scanned, Option.bind_eq_bind, Option.bind_some, hmerged]
  rfl

end SpokenArithmetic
