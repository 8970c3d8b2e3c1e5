import SpokenArithmetic.Proofs.Gaps

/-!
# Unrecognized text

What no rule knows cannot change what a sentence says.  Where each byte of the
unrecognized stretches is overwritten by a space, the bytes are again those of a
sentence, and nothing of it is unrecognized.  Its tokens have the kinds, the
normalized texts and the places that they had, so its structure and its validity
are the same (`unrecognized_text_inert`).  At the places of the stretches the
scan has passed over everything, and a space is passed over as well.
-/

namespace SpokenArithmetic

open Lexeme

/-- Whether a position is in a range. -/
def Span.covers (span : Span) (position : Nat) : Bool :=
  span.start ≤ position && position < span.stop

/-- Some bytes from the position `start` on, with a space over each one that is
`hit`. -/
def overwrite (hit : Nat → Bool) (start : Nat) (bytes : List UInt8) : List UInt8 :=
  bytes.mapIdx fun offset byte => if hit (start + offset) then 0x20 else byte

/-- The bytes of a sentence with a space over each byte of an unrecognized stretch. -/
def Transcript.overwritten (source : String) : List UInt8 :=
  overwrite (fun position => (ofSource source).unrecognized.any (·.span.covers position)) 0
    source.toUTF8.data.toList

/-! ## Bytes -/

namespace Text

/-- The bytes of a text in UTF-8. -/
def bytes (cs : List Char) : List UInt8 :=
  cs.flatMap String.utf8EncodeChar

@[simp] theorem bytes_append (cs ds : List Char) : bytes (cs ++ ds) = bytes cs ++ bytes ds :=
  List.flatMap_append

@[simp] theorem length_bytes (cs : List Char) : (bytes cs).length = width cs := by
  induction cs with
  | nil => rfl
  | cons c rest ih =>
      rw [width_cons, ← ih, bytes, List.flatMap_cons, List.length_append,
        String.length_utf8EncodeChar]
      rfl

theorem bytes_toList (source : String) : source.toUTF8.data.toList = bytes source.toList := by
  rw [String.toUTF8_eq_toByteArray, ← String.utf8Encode_toList, List.utf8Encode]
  simp [bytes]

theorem bytes_replicate_space (count : Nat) :
    bytes (List.replicate count ' ') = List.replicate count 0x20 := by
  induction count with
  | zero => rfl
  | succ count ih =>
      rw [List.replicate_succ, List.replicate_succ, ← ih]
      rfl

end Text

section Overwrite

variable {hit : Nat → Bool} {start : Nat}

theorem overwrite_append (front back : List UInt8) :
    overwrite hit start (front ++ back) =
      overwrite hit start front ++ overwrite hit (start + front.length) back := by
  rw [overwrite, List.mapIdx_append]
  simp only [overwrite, Nat.add_assoc, Nat.add_comm front.length]

theorem overwrite_of_forall_not {bytes : List UInt8}
    (h : ∀ position, start ≤ position → position < start + bytes.length → hit position = false) :
    overwrite hit start bytes = bytes := by
  refine List.ext_getElem (by simp [overwrite]) fun offset hoffset hoffset' => ?_
  simp [overwrite, h (start + offset) (by omega) (by omega)]

theorem overwrite_of_forall {bytes : List UInt8}
    (h : ∀ position, start ≤ position → position < start + bytes.length → hit position = true) :
    overwrite hit start bytes = List.replicate bytes.length 0x20 := by
  refine List.ext_getElem (by simp [overwrite]) fun offset hoffset hoffset' => ?_
  have hlength : offset < bytes.length := by simpa using hoffset'
  simp [overwrite, h (start + offset) (by omega) (by omega)]

end Overwrite

/-! ## Cleared gaps -/

namespace Text

/-- The blanks behind what a text is trimmed to. -/
def trailingBlanks (cs : List Char) : List Char :=
  ((trimStart cs).reverse.takeWhile isBlank).reverse

theorem append_trim_append (cs : List Char) :
    cs.takeWhile isBlank ++ (trim cs ++ trailingBlanks cs) = cs := by
  rw [trim, trailingBlanks, trimEnd_append_takeWhile, takeWhile_append_trimStart]

/-- A text with one space for each byte of what it is trimmed to. -/
def clear (cs : List Char) : List Char :=
  cs.takeWhile isBlank ++ (List.replicate (width (trim cs)) ' ' ++ trailingBlanks cs)

theorem isBlank_of_mem_clear {cs : List Char} : ∀ c ∈ clear cs, isBlank c = true := by
  simp only [clear, trailingBlanks, List.mem_append, List.mem_reverse]
  rintro c (hfront | hinner | hback)
  · exact List.all_eq_true.mp List.all_takeWhile c hfront
  · rw [List.eq_of_mem_replicate hinner]
    decide
  · exact List.all_eq_true.mp List.all_takeWhile c hback

@[simp] theorem width_replicate_space (count : Nat) :
    width (List.replicate count ' ') = count := by
  induction count with
  | zero => rfl
  | succ count ih =>
      rw [List.replicate_succ, width_cons, ih, Nat.add_comm]
      rfl

/-- A cleared text takes as many bytes as before. -/
@[simp] theorem width_clear (cs : List Char) : width (clear cs) = width cs := by
  conv_rhs => rw [← append_trim_append cs]
  simp [clear]

end Text

theorem harmless_clear : Harmless Text.clear where
  passed _ := passed_of_isBlank Text.isBlank_of_mem_clear
  agrees {gap} _ := by
    cases hclear : Text.clear gap with
    | nil =>
        have hwidth := Text.width_clear gap
        rw [hclear] at hwidth
        cases gap with
        | nil => exact .same []
        | cons c rest => exact absurd hwidth.symm (Nat.ne_of_gt (Text.width_pos (by simp)))
    | cons c rest =>
        exact .blank (Text.isBlank_of_mem_clear c (by rw [hclear]; exact List.mem_cons_self ..)) _ _

/-! ## Overwritten stretches -/

namespace Unrecognized

/-- Whether a position is in one of some stretches. -/
def hits (stretches : List Unrecognized) (position : Nat) : Bool :=
  stretches.any (·.span.covers position)

theorem hits_append (stretches stretches' : List Unrecognized) (position : Nat) :
    hits (stretches ++ stretches') position =
      (hits stretches position || hits stretches' position) :=
  List.any_append

theorem hits_eq_false {stretches : List Unrecognized} {position : Nat}
    (h : ∀ stretch ∈ stretches, position < stretch.span.start ∨ stretch.span.stop ≤ position) :
    hits stretches position = false := by
  rw [hits, List.any_eq_false]
  intro stretch hstretch
  have := h stretch hstretch
  simp only [Span.covers, Bool.and_eq_true, decide_eq_true_eq]
  omega

/-- What is reported of a gap are the bytes of what it is trimmed to. -/
theorem hits_ofGap (start : Nat) (gap : List Char) (position : Nat) :
    hits (ofGap start gap) position =
      decide (start + Text.width (gap.takeWhile Text.isBlank) ≤ position ∧
        position < start + Text.width (gap.takeWhile Text.isBlank) +
          Text.width (Text.trim gap)) := by
  unfold ofGap
  by_cases htrim : Text.trim gap = []
  · simp only [htrim, List.isEmpty_nil, if_true, Text.width_nil]
    rw [hits_eq_false (by simp), eq_comm, decide_eq_false_iff_not]
    omega
  · simp [htrim, hits, Span.covers]

end Unrecognized

open Unrecognized

/-- Where the stretch of a gap is overwritten, the gap is cleared. -/
theorem overwrite_gap {hit : Nat → Bool} {start : Nat} {gap : List Char}
    (h : ∀ position, start ≤ position → position < start + Text.width gap →
      hit position = hits (ofGap start gap) position) :
    overwrite hit start (Text.bytes gap) = Text.bytes (Text.clear gap) := by
  have hgap := Text.append_trim_append gap
  have hwidth := congrArg Text.width hgap
  simp only [Text.width_append] at hwidth
  simp only [hits_ofGap] at h
  have hfront : overwrite hit start (Text.bytes (gap.takeWhile Text.isBlank)) =
      Text.bytes (gap.takeWhile Text.isBlank) := by
    refine overwrite_of_forall_not fun position hstart hstop => ?_
    rw [Text.length_bytes] at hstop
    rw [h position hstart (by omega), decide_eq_false_iff_not]
    omega
  have hinner : overwrite hit (start + Text.width (gap.takeWhile Text.isBlank))
      (Text.bytes (Text.trim gap)) = List.replicate (Text.width (Text.trim gap)) 0x20 := by
    rw [overwrite_of_forall, Text.length_bytes]
    intro position hstart hstop
    rw [Text.length_bytes] at hstop
    rw [h position (by omega) (by omega), decide_eq_true_eq]
    omega
  have hback : overwrite hit (start + Text.width (gap.takeWhile Text.isBlank) +
      Text.width (Text.trim gap)) (Text.bytes (Text.trailingBlanks gap)) =
        Text.bytes (Text.trailingBlanks gap) := by
    refine overwrite_of_forall_not fun position hstart hstop => ?_
    rw [Text.length_bytes] at hstop
    rw [h position (by omega) (by omega), decide_eq_false_iff_not]
    omega
  calc overwrite hit start (Text.bytes gap)
      = overwrite hit start (Text.bytes (gap.takeWhile Text.isBlank ++
          (Text.trim gap ++ Text.trailingBlanks gap))) := by rw [hgap]
    _ = Text.bytes (Text.clear gap) := by
      rw [Text.bytes_append, Text.bytes_append, overwrite_append, overwrite_append,
        Text.length_bytes, Text.length_bytes, hfront, hinner, hback, Text.clear,
        Text.bytes_append, Text.bytes_append, Text.bytes_replicate_space]

/-- Where the stretches of a scan are overwritten, its gaps are cleared. -/
theorem overwrite_scan {hit : Nat → Bool} {start : Nat} {lexemes : List Lexeme}
    {trail : List Char}
    (h : ∀ position, start ≤ position → hit position = hits (ofScan start lexemes trail) position) :
    overwrite hit start (Text.bytes (lexemes.flatMap chars ++ trail)) =
      Text.bytes ((lexemes.map (regap Text.clear)).flatMap chars ++ Text.clear trail) := by
  induction lexemes generalizing start with
  | nil => exact overwrite_gap fun position hstart _ => h position hstart
  | cons lexeme rest ih =>
      simp only [ofScan, hits_append] at h
      have hwidth : Text.width lexeme.chars = Text.width lexeme.lead + Text.width lexeme.text := by
        rw [chars, Text.width_append]
      -- In front of the lexeme only its own gap is hit, in the lexeme nothing is.
      have hbehind : ∀ position, position < start + Text.width lexeme.chars →
          hits (ofScan (start + Text.width lexeme.chars) rest trail) position = false := by
        intro position hposition
        refine hits_eq_false fun stretch hstretch => Or.inl ?_
        have := start_le_of_mem_ofScan hstretch
        omega
      have hbefore : ∀ position, start + Text.width lexeme.lead ≤ position →
          hits (ofGap start lexeme.lead) position = false := by
        intro position hposition
        refine hits_eq_false fun stretch hstretch => Or.inr ?_
        have := (bounds_of_mem_ofGap hstretch).2.2
        omega
      have hlead : overwrite hit start (Text.bytes lexeme.lead) =
          Text.bytes (Text.clear lexeme.lead) := by
        refine overwrite_gap fun position hstart hstop => ?_
        rw [h position hstart, hbehind position (by omega), Bool.or_false]
      have htext : overwrite hit (start + Text.width lexeme.lead) (Text.bytes lexeme.text) =
          Text.bytes lexeme.text := by
        refine overwrite_of_forall_not fun position hstart hstop => ?_
        rw [Text.length_bytes] at hstop
        rw [h position (by omega), hbefore position hstart, hbehind position (by omega)]
        rfl
      have hrest : overwrite hit (start + Text.width lexeme.chars)
          (Text.bytes (rest.flatMap chars ++ trail)) =
            Text.bytes ((rest.map (regap Text.clear)).flatMap chars ++ Text.clear trail) := by
        refine ih fun position hposition => ?_
        rw [h position (by omega), hbefore position (by omega), Bool.false_or]
      rw [hwidth, ← Nat.add_assoc] at hrest
      have hsource : (lexeme :: rest).flatMap chars ++ trail =
          lexeme.lead ++ (lexeme.text ++ (rest.flatMap chars ++ trail)) := by
        simp [chars]
      have hcleared : ((lexeme :: rest).map (regap Text.clear)).flatMap chars ++ Text.clear trail =
          Text.clear lexeme.lead ++ (lexeme.text ++
            ((rest.map (regap Text.clear)).flatMap chars ++ Text.clear trail)) := by
        simp [chars, regap]
      rw [hsource, hcleared, Text.bytes_append, overwrite_append, hlead, Text.length_bytes,
        Text.bytes_append, overwrite_append, htext, Text.length_bytes, hrest, ← Text.bytes_append,
        ← Text.bytes_append]

/-! ## Places -/

namespace Lexeme

/-- The widths of a lexeme and of what is passed over in front of it. -/
def extent (lexeme : Lexeme) : Nat × Nat :=
  (Text.width lexeme.lead, Text.width lexeme.text)

/-- A change that keeps the widths of the gaps keeps those of the numerals around
them. -/
theorem map_extent_mergeCompounds {change : List Char → List Char}
    (h : ∀ gap, Text.width (change gap) = Text.width gap) (lexemes : List Lexeme) :
    (mergeCompounds (lexemes.map (regap change))).map extent =
      (mergeCompounds lexemes).map extent := by
  refine map_mergeCompounds_map (fun _ _ _ _ => rfl) (fun lexeme => ?_)
    fun tens joint units value => ?_
  · simp [extent, regap, h]
  · simp [extent, compound, regap, chars, h]

end Lexeme

/-- The widths decide where tokens stand. -/
theorem Token.map_span_ofLexemes {lexemes lexemes' : List Lexeme}
    (h : lexemes.map extent = lexemes'.map extent) (start : Nat) :
    (ofLexemes start lexemes).map (·.span) = (ofLexemes start lexemes').map (·.span) := by
  induction lexemes generalizing start lexemes' with
  | nil =>
      obtain rfl := List.map_eq_nil_iff.mp h.symm
      rfl
  | cons lexeme rest ih =>
      cases lexemes' with
      | nil => cases h
      | cons lexeme' rest' =>
          obtain ⟨hextent, hrest⟩ := List.cons.inj h
          obtain ⟨hlead, htext⟩ := Prod.mk.inj hextent
          simp only [ofLexemes, List.map_cons, hlead, htext, ih hrest]

/-- Blank gaps leave nothing to report. -/
theorem Unrecognized.ofScan_eq_nil {lexemes : List Lexeme} {trail : List Char}
    (h : ∀ lexeme ∈ lexemes, ∀ c ∈ lexeme.lead, Text.isBlank c = true)
    (htrail : ∀ c ∈ trail, Text.isBlank c = true) (start : Nat) :
    ofScan start lexemes trail = [] := by
  induction lexemes generalizing start with
  | nil => exact ofGap_of_isBlank htrail start
  | cons lexeme rest ih =>
      obtain ⟨hlead, hrest⟩ := List.forall_mem_cons.mp h
      rw [ofScan, ofGap_of_isBlank hlead, ih hrest]
      rfl

/-! ## The cleared sentence -/

/-- A sentence with its unrecognized stretches cleared. -/
def Transcript.cleared (source : String) : String :=
  String.ofList ((Scan.ofText source.toList).regap Text.clear).chars

theorem Scan.ofText_cleared (source : String) :
    ofText (Transcript.cleared source).toList = (ofText source.toList).regap Text.clear := by
  rw [Transcript.cleared, String.toList_ofList, ofText_regap harmless_clear]

theorem Transcript.bytes_cleared (source : String) :
    (cleared source).toUTF8.data.toList = overwritten source := by
  rw [overwritten, Text.bytes_toList, Text.bytes_toList, cleared, String.toList_ofList]
  conv_rhs => rw [← Scan.chars_ofText source.toList]
  exact (overwrite_scan fun position _ => rfl).symm

/-- Unrecognized text cannot change what a sentence says.  With a space over each
byte of it, the sentence has the same tokens at the same places and nothing that is
unrecognized, and so the same structure and the same validity in every scope. -/
theorem unrecognized_text_inert (source : String) :
    ∃ cleared : String, cleared.toUTF8.data.toList = Transcript.overwritten source ∧
      (Transcript.ofSource cleared).unrecognized = [] ∧
      (Transcript.ofSource cleared).tokens.map Token.sense =
        (Transcript.ofSource source).tokens.map Token.sense ∧
      (Transcript.ofSource cleared).tokens.map (·.span) =
        (Transcript.ofSource source).tokens.map (·.span) ∧
      ∀ scope,
        printed (analyze cleared scope).1.structured =
          printed (analyze source scope).1.structured ∧
        (analyze cleared scope).1.isValid = (analyze source scope).1.isValid ∧
        (analyze cleared scope).2 = (analyze source scope).2 := by
  have hscan := Scan.ofText_cleared source
  have hsense : (Transcript.ofSource (Transcript.cleared source)).tokens.map Token.sense =
      (Transcript.ofSource source).tokens.map Token.sense := by
    refine sense_of_bare ?_
    rw [hscan]
    exact map_bare_regap _ _
  have hspan : ∀ source : String, (Transcript.ofSource source).tokens.map (·.span) =
      (Token.ofLexemes 0 (mergeCompounds (Scan.ofText source.toList).lexemes)).map (·.span) :=
    fun source => Token.map_promoteFrom (fun _ span => span) none _
  refine ⟨Transcript.cleared source, Transcript.bytes_cleared source, ?_, hsense, ?_,
    analyze_of_sense hsense⟩
  · show Unrecognized.ofScan 0 (Scan.ofText (Transcript.cleared source).toList).lexemes
      (Scan.ofText (Transcript.cleared source).toList).trail = []
    rw [hscan]
    refine Unrecognized.ofScan_eq_nil (fun lexeme hlexeme => ?_) Text.isBlank_of_mem_clear 0
    obtain ⟨before, -, rfl⟩ := List.mem_map.mp hlexeme
    exact Text.isBlank_of_mem_clear
  · rw [hspan, hspan, hscan]
    exact Token.map_span_ofLexemes (map_extent_mergeCompounds Text.width_clear _) 0

/-- The opening question mark takes two bytes, and so do the spaces over it. -/
example : Transcript.cleared "suma treinta ¿y? dos, 5 %" = "suma treinta   y  dos, 5  " := by
  decide +kernel

end SpokenArithmetic
