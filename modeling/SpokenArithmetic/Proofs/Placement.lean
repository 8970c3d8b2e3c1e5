import SpokenArithmetic.Proofs.Cutting
import SpokenArithmetic.Transcript

/-!
# Transcripts at another place

The places of the tokens are counted from the start of a text, and nothing else
about a token depends on them.  So a text that stands behind other text has the
tokens that it has by itself, moved by the bytes in front of it, as long as a
comma stands between the two: no match and no compound numeral goes over a
comma (`Scan.ofText_append_comma`), and for the promotion of keywords a comma
is like the start of a text and like its end.
-/

namespace SpokenArithmetic

/-- A range behind some more bytes. -/
def Span.shift (offset : Nat) (span : Span) : Span :=
  ⟨offset + span.start, offset + span.stop⟩

theorem Span.shift_zero (span : Span) : span.shift 0 = span := by
  simp [shift]

theorem Span.shift_shift (offset offset' : Nat) (span : Span) :
    (span.shift offset').shift offset = span.shift (offset + offset') := by
  simp [shift, Nat.add_assoc]

namespace Token

/-- A token whose place is given by `place`. -/
def relocate (place : Span → Span) (token : Token) : Token :=
  { token with span := place token.span }

/-- The token of a comma that begins at the position `start`. -/
def comma (start : Nat) : Token where
  kind := .comma
  normalized := ","
  written := ","
  span := ⟨start, start + 1⟩

section Relocate

variable (place : Span → Span) (token : Token)

@[simp] theorem kind_relocate : (token.relocate place).kind = token.kind := rfl

@[simp] theorem normalized_relocate : (token.relocate place).normalized = token.normalized := rfl

@[simp] theorem written_relocate : (token.relocate place).written = token.written := rfl

@[simp] theorem relocate_comma (offset start : Nat) :
    (comma start).relocate (Span.shift offset) = comma (offset + start) := by
  simp [comma, relocate, Span.shift, Nat.add_assoc]

theorem relocate_shift_zero : relocate (Span.shift 0) = id := by
  funext token
  simp [relocate, Span.shift_zero]

theorem relocate_comp_shift (offset offset' : Nat) :
    relocate (Span.shift offset) ∘ relocate (Span.shift offset') =
      relocate (Span.shift (offset + offset')) := by
  funext token
  simp [relocate, Span.shift_shift]

theorem promote_relocate (previous next : Option Kind) :
    (token.relocate place).promote previous next =
      (token.promote previous next).relocate place := by
  unfold promote isKeyword relocate
  split <;> rfl

end Relocate

/-- Promotion looks at no places. -/
theorem promoteFrom_map_relocate (place : Span → Span) (previous : Option Kind)
    (tokens : List Token) :
    promoteFrom previous (tokens.map (relocate place)) =
      (promoteFrom previous tokens).map (relocate place) :=
  promoteFrom_map (kind_relocate place)
    (fun previous next token => promote_relocate place token previous next) previous tokens

/-- Only a sign of assignment makes a difference to what stands behind it. -/
theorem promoteFrom_of_ne_assign {previous : Option Kind} (h : previous ≠ some .assign)
    (tokens : List Token) : promoteFrom previous tokens = promoteFrom none tokens := by
  cases tokens with
  | nil => rfl
  | cons token rest =>
      have hpromote (next : Option Kind) :
          token.promote previous next = token.promote none next := by
        have hprevious : (previous == some Kind.assign) = false := beq_eq_false_iff_ne.mpr h
        simp [promote, hprevious]
      simp only [promoteFrom, hpromote]

/-- For promotion a comma ends a text and begins another. -/
theorem promoteFrom_append_comma {separator : Token} (h : separator.kind = .comma)
    (previous : Option Kind) (front back : List Token) :
    promoteFrom previous (front ++ separator :: back) =
      promoteFrom previous front ++ separator :: promoteFrom none back := by
  induction front generalizing previous with
  | nil =>
      have hkept (next : Option Kind) : separator.promote previous next = separator := by
        simp [promote, isKeyword, h, Kind.isConnector, Kind.operator?]
      simp only [List.nil_append, promoteFrom, hkept, h]
      rw [promoteFrom_of_ne_assign (by decide)]
  | cons token front ih =>
      have hpromote : token.promote previous ((front ++ separator :: back).head?.map kind) =
          token.promote previous (front.head?.map kind) := by
        cases front with
        | nil => simp [promote, closes, h]
        | cons => rfl
      simp only [List.cons_append, promoteFrom, hpromote, ih]

theorem ofLexemes_append (start : Nat) (front back : List Lexeme) :
    ofLexemes start (front ++ back) =
      ofLexemes start front ++
        ofLexemes (start + Text.width (front.flatMap Lexeme.chars)) back := by
  induction front generalizing start with
  | nil => rfl
  | cons lexeme front ih => simp [ofLexemes, ih, Lexeme.chars, Nat.add_assoc]

theorem ofLexemes_add (offset start : Nat) (lexemes : List Lexeme) :
    ofLexemes (offset + start) lexemes =
      (ofLexemes start lexemes).map (relocate (Span.shift offset)) := by
  induction lexemes generalizing start with
  | nil => rfl
  | cons lexeme rest ih => simp [ofLexemes, relocate, Span.shift, Nat.add_assoc, ih]

end Token

namespace Unrecognized

/-- A stretch behind some more bytes. -/
def shift (offset : Nat) (stretch : Unrecognized) : Unrecognized :=
  { stretch with span := stretch.span.shift offset }

theorem shift_zero : shift 0 = id := by
  funext stretch
  simp [shift, Span.shift_zero]

theorem shift_comp_shift (offset offset' : Nat) :
    shift offset ∘ shift offset' = shift (offset + offset') := by
  funext stretch
  simp [shift, Span.shift_shift]

theorem ofGap_add (offset start : Nat) (gap : List Char) :
    ofGap (offset + start) gap = (ofGap start gap).map (shift offset) := by
  unfold ofGap
  dsimp only
  split <;> simp [shift, Span.shift, Nat.add_assoc]

theorem ofScan_add (offset start : Nat) (lexemes : List Lexeme) (trail : List Char) :
    ofScan (offset + start) lexemes trail = (ofScan start lexemes trail).map (shift offset) := by
  induction lexemes generalizing start with
  | nil => exact ofGap_add offset start trail
  | cons lexeme rest ih => simp [ofScan, ofGap_add, Nat.add_assoc, ih]

/-- What is passed over in front of a lexeme is what is passed over at the end
of a text that stops there. -/
theorem ofScan_append_cons (start : Nat) (front : List Lexeme) (lexeme : Lexeme)
    (back : List Lexeme) (trail : List Char) :
    ofScan start (front ++ lexeme :: back) trail =
      ofScan start front lexeme.lead ++
        ofScan (start + Text.width (front.flatMap Lexeme.chars) + Text.width lexeme.chars)
          back trail := by
  induction front generalizing start with
  | nil => rfl
  | cons first front ih => simp [ofScan, ih, Nat.add_assoc]

end Unrecognized

namespace Transcript

/-- A text is as wide as its lexemes and what stands behind them. -/
theorem utf8ByteSize_eq (source : String) :
    source.utf8ByteSize =
      Text.width ((Scan.ofText source.toList).lexemes.flatMap Lexeme.chars) +
        Text.width (Scan.ofText source.toList).trail := by
  rw [← Text.width_append, ← Scan.chars, Scan.chars_ofText, Text.width_toList]

theorem ofText_toList_append_comma (source rest : String) :
    Scan.ofText (source ++ "," ++ rest).toList =
      ⟨(Scan.ofText source.toList).lexemes ++
          ⟨(Scan.ofText source.toList).trail, [','], .comma, ","⟩ ::
            (Scan.ofText rest.toList).lexemes,
        (Scan.ofText rest.toList).trail⟩ := by
  rw [← Scan.ofText_append_comma]
  simp

/-- The tokens of a text behind a comma are its own, moved behind the comma. -/
theorem tokens_ofSource_append_comma (source rest : String) :
    (ofSource (source ++ "," ++ rest)).tokens =
      (ofSource source).tokens ++ Token.comma source.utf8ByteSize ::
        (ofSource rest).tokens.map (Token.relocate (Span.shift (source.utf8ByteSize + 1))) := by
  have hwidth := utf8ByteSize_eq source
  have hcomma : ','.utf8Size = 1 := rfl
  have hlexemes : Token.ofLexemes 0 (Lexeme.mergeCompounds
      (Scan.ofText (source ++ "," ++ rest).toList).lexemes) =
        Token.ofLexemes 0 (Lexeme.mergeCompounds (Scan.ofText source.toList).lexemes) ++
          Token.comma source.utf8ByteSize ::
            (Token.ofLexemes 0 (Lexeme.mergeCompounds (Scan.ofText rest.toList).lexemes)).map
              (Token.relocate (Span.shift (source.utf8ByteSize + 1))) := by
    rw [ofText_toList_append_comma, Lexeme.mergeCompounds_append_comma rfl,
      Token.ofLexemes_append, Lexeme.flatMap_chars_mergeCompounds, Token.ofLexemes,
      ← Token.ofLexemes_add]
    simp [Token.comma, hwidth, hcomma]
  unfold ofSource Token.promoteKeywords
  dsimp only
  rw [hlexemes, Token.promoteFrom_append_comma rfl, Token.promoteFrom_map_relocate]

/-- Nothing is unrecognized in two texts with a comma between them but what is
unrecognized in each of them. -/
theorem unrecognized_ofSource_append_comma (source rest : String) :
    (ofSource (source ++ "," ++ rest)).unrecognized =
      (ofSource source).unrecognized ++
        (ofSource rest).unrecognized.map (Unrecognized.shift (source.utf8ByteSize + 1)) := by
  have hwidth := utf8ByteSize_eq source
  have hcomma : ','.utf8Size = 1 := rfl
  unfold ofSource
  dsimp only
  rw [ofText_toList_append_comma, Unrecognized.ofScan_append_cons, ← Unrecognized.ofScan_add]
  simp [Lexeme.chars, hwidth, hcomma, Nat.add_assoc]

end Transcript
end SpokenArithmetic
