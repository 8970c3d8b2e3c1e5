/-!
# Width of a text

Positions in a sentence count the bytes of its UTF-8 form, so the width of a
text is the number of bytes that it takes there.
-/

namespace SpokenArithmetic
namespace Text

/-- The number of bytes of a text in UTF-8. -/
def width : List Char → Nat
  | [] => 0
  | c :: rest => c.utf8Size + width rest

@[simp] theorem width_nil : width [] = 0 := rfl

@[simp] theorem width_cons (c : Char) (cs : List Char) :
    width (c :: cs) = c.utf8Size + width cs := rfl

@[simp] theorem width_append (cs ds : List Char) :
    width (cs ++ ds) = width cs + width ds := by
  induction cs with
  | nil => simp
  | cons c cs ih =>
      rw [List.cons_append, width_cons, width_cons, ih]
      omega

/-- Only the empty text has no width. -/
theorem width_pos {cs : List Char} (h : cs ≠ []) : 0 < width cs := by
  cases cs with
  | nil => exact absurd rfl h
  | cons c rest =>
      have := c.utf8Size_pos
      rw [width_cons]
      omega

/-- The width agrees with the size that a string keeps of itself. -/
theorem utf8ByteSize_ofList (cs : List Char) :
    (String.ofList cs).utf8ByteSize = width cs := by
  rw [← String.size_toByteArray, String.toByteArray_ofList]
  induction cs with
  | nil => rfl
  | cons c rest ih =>
      rw [List.utf8Encode_cons, ByteArray.size_append, ih, width_cons,
        List.utf8Encode_singleton, List.size_toByteArray, String.length_utf8EncodeChar]

theorem width_toList (source : String) : width source.toList = source.utf8ByteSize := by
  rw [← utf8ByteSize_ofList, String.ofList_toList]

end Text
end SpokenArithmetic
