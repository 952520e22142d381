import NodePipeline.Proofs.Bytes

/-!
# Characters among bytes

Where characters stand among the UTF-8 bytes of a text. A position behind a number of its
characters is on a boundary, what stands between two such positions are the characters there,
and the byte at such a position tells an ASCII character from every other one.
-/

namespace NodePipeline.Text

/-- The number of bytes that characters take. -/
def width : List Char → Nat
  | [] => 0
  | c :: rest => c.utf8Size + width rest

@[simp] theorem width_nil : width [] = 0 := rfl

@[simp] theorem width_cons (c : Char) (cs : List Char) :
    width (c :: cs) = c.utf8Size + width cs := rfl

@[simp] theorem width_append (xs ys : List Char) : width (xs ++ ys) = width xs + width ys := by
  induction xs with
  | nil => exact (Nat.zero_add _).symm
  | cons c rest ih => rw [List.cons_append, width_cons, width_cons, ih, Nat.add_assoc]

theorem width_pos {cs : List Char} (h : cs ≠ []) : 0 < width cs := by
  obtain ⟨c, rest, rfl⟩ := List.exists_cons_of_ne_nil h
  have := c.utf8Size_pos
  rw [width_cons]
  omega

theorem ofString_ofList (cs : List Char) :
    Bytes.ofString (String.ofList cs) = cs.flatMap String.utf8EncodeChar := by
  show (String.ofList cs).toByteArray.data.toList = _
  rw [String.toByteArray_ofList, List.utf8Encode, List.toList_data_toByteArray]

@[simp] theorem length_flatMap_utf8EncodeChar (cs : List Char) :
    (cs.flatMap String.utf8EncodeChar).length = width cs := by
  induction cs with
  | nil => rfl
  | cons c rest ih =>
      rw [List.flatMap_cons, List.length_append, String.length_utf8EncodeChar, ih, width_cons]

@[simp] theorem utf8ByteSize_ofList (cs : List Char) :
    (String.ofList cs).utf8ByteSize = width cs := by
  rw [← Bytes.length_ofString, ofString_ofList, length_flatMap_utf8EncodeChar]

variable {source : String} {before between after rest : List Char} {c : Char}

theorem utf8ByteSize_eq (source : String) : source.utf8ByteSize = width source.toList := by
  rw [← utf8ByteSize_ofList, String.ofList_toList]

/-! ## Boundaries -/

theorem isValid_width (h : source.toList = before ++ after) :
    String.Pos.Raw.IsValid source ⟨width before⟩ := by
  refine String.Pos.Raw.isValid_iff_exists_append.2
    ⟨String.ofList before, String.ofList after, ?_, ?_⟩
  · rw [← String.ofList_append, ← h, String.ofList_toList]
  · rw [← utf8ByteSize_ofList]
    rfl

/-- What is cut out between two boundaries. -/
theorem extract_eq (h : source.toList = before ++ between ++ after)
    {start stop : source.Pos} (hstart : start.offset = ⟨width before⟩)
    (hstop : stop.offset = ⟨width before + width between⟩) :
    source.extract start stop = String.ofList between := by
  have hsource : source.toByteArray
      = before.utf8Encode ++ between.utf8Encode ++ after.utf8Encode := by
    rw [← String.ofList_toList (s := source), String.toByteArray_ofList, h,
      List.utf8Encode_append, List.utf8Encode_append]
  have hsize (cs : List Char) : cs.utf8Encode.size = width cs := by
    rw [← String.toByteArray_ofList, String.size_toByteArray, utf8ByteSize_ofList]
  rw [← String.toByteArray_inj, String.toByteArray_extract, hstart, hstop, hsource,
    String.toByteArray_ofList, ByteArray.append_assoc]
  show ByteArray.extract _ (width before + 0) (width before + width between) = _
  rw [ByteArray.extract_append_size_add' (hsize before).symm,
    ByteArray.extract_append_eq_left (hsize between).symm]

/-! ## Bytes of characters -/

/-- The byte at the start of a character is the first one of the character. -/
theorem ofString_getElem? (h : source.toList = before ++ c :: rest) :
    (Bytes.ofString source)[width before]? = (String.utf8EncodeChar c).head? := by
  obtain ⟨b, more, hc⟩ := List.exists_cons_of_ne_nil (String.utf8EncodeChar_ne_nil (c := c))
  rw [← String.ofList_toList (s := source), h, ofString_ofList, List.flatMap_append,
    List.getElem?_append_right (Nat.le_of_eq (length_flatMap_utf8EncodeChar before)),
    length_flatMap_utf8EncodeChar, Nat.sub_self, List.flatMap_cons, hc]
  rfl

/-- A character of more than one byte starts with one that is no ASCII character. -/
theorem le_head_utf8EncodeChar (h : c.utf8Size ≠ 1) :
    ∀ b ∈ (String.utf8EncodeChar c).head?, 128 ≤ b.toNat := by
  have hor (x y : UInt8) (hy : 128 ≤ y.toNat) : 128 ≤ (x ||| y).toNat := by
    rw [UInt8.toNat_or]
    exact Nat.le_trans hy Nat.right_le_or
  have hpos := c.utf8Size_pos
  have hfour := c.utf8Size_le_four
  intro b hb
  obtain hsize | hsize | hsize : c.utf8Size = 2 ∨ c.utf8Size = 3 ∨ c.utf8Size = 4 := by omega
  · rw [String.utf8EncodeChar_eq_cons_cons hsize] at hb
    cases hb
    exact hor _ _ (by decide)
  · rw [String.utf8EncodeChar_eq_cons_cons_cons hsize] at hb
    cases hb
    exact hor _ _ (by decide)
  · rw [String.utf8EncodeChar_eq_cons_cons_cons_cons hsize] at hb
    cases hb
    exact hor _ _ (by decide)

end NodePipeline.Text
