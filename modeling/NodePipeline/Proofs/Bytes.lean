import Mathlib.Algebra.Group.Int.Defs
import Mathlib.Algebra.Group.Nat.Defs
import NodePipeline.Bytes

/-!
# Numbers and texts as bytes

Spelling a number in a fixed width and reading it back gives the number modulo
the power of 256 that the width stands for. A text is read back from its bytes.
-/

namespace NodePipeline.Bytes

/-! ## Numbers -/

@[simp] theorem length_littleEndian (width n : Nat) : (littleEndian width n).length = width := by
  induction width generalizing n with
  | zero => rfl
  | succ width ih => rw [littleEndian, List.length_cons, ih]

@[simp] theorem length_bigEndian (width n : Nat) : (bigEndian width n).length = width := by
  rw [bigEndian, List.length_reverse, length_littleEndian]

theorem natOfLittleEndian_littleEndian (width n : Nat) :
    natOfLittleEndian (littleEndian width n) = n % 256 ^ width := by
  induction width generalizing n with
  | zero => simp [littleEndian, natOfLittleEndian, Nat.mod_one]
  | succ width ih =>
      have hbyte : (UInt8.ofNat n).toNat = n % 256 := by simp
      rw [littleEndian, natOfLittleEndian, ih, hbyte, Nat.pow_succ, Nat.mul_comm (256 ^ width),
        Nat.mod_mul]

theorem natOfLittleEndian_of_lt {width n : Nat} (h : n < 256 ^ width) :
    natOfLittleEndian (littleEndian width n) = n := by
  rw [natOfLittleEndian_littleEndian, Nat.mod_eq_of_lt h]

theorem natOfBigEndian_bigEndian (width n : Nat) :
    natOfBigEndian (bigEndian width n) = n % 256 ^ width := by
  rw [natOfBigEndian, bigEndian, List.reverse_reverse, natOfLittleEndian_littleEndian]

theorem natOfBigEndian_of_lt {width n : Nat} (h : n < 256 ^ width) :
    natOfBigEndian (bigEndian width n) = n := by
  rw [natOfBigEndian_bigEndian, Nat.mod_eq_of_lt h]

theorem natOfLittleEndian_lt (bytes : Bytes) : natOfLittleEndian bytes < 256 ^ bytes.length := by
  induction bytes with
  | nil => decide
  | cons b rest ih =>
      have hb := b.toNat_lt
      rw [natOfLittleEndian, List.length_cons, Nat.pow_succ]
      omega

theorem natOfBigEndian_lt (bytes : Bytes) : natOfBigEndian bytes < 256 ^ bytes.length := by
  rw [natOfBigEndian, ← List.length_reverse]
  exact natOfLittleEndian_lt bytes.reverse

theorem littleEndian_inj {width m n : Nat} (hm : m < 256 ^ width) (hn : n < 256 ^ width)
    (h : littleEndian width m = littleEndian width n) : m = n := by
  rw [← natOfLittleEndian_of_lt hm, h, natOfLittleEndian_of_lt hn]

theorem unsigned_lt (width : Nat) (i : Int) : unsigned width i < 256 ^ width := by
  have hpos : (0 : Int) < ((256 ^ width : Nat) : Int) := by
    exact_mod_cast Nat.pow_pos (by decide)
  have hmod := Int.emod_lt_of_pos i hpos
  have hnonneg := Int.emod_nonneg i (Int.ne_of_gt hpos)
  show (i % ((256 ^ width : Nat) : Int)).toNat < 256 ^ width
  omega

/-- An integer that fits is read back from the number that stands for it. -/
theorem signed_unsigned {width : Nat} {i : Int} (hlow : -(256 ^ width : Nat) ≤ 2 * i)
    (hhigh : 2 * i < (256 ^ width : Nat)) : signed width (unsigned width i) = i := by
  have hpos : (0 : Int) < ((256 ^ width : Nat) : Int) := by
    exact_mod_cast Nat.pow_pos (by decide)
  show (if 2 * (i % ((256 ^ width : Nat) : Int)).toNat < 256 ^ width then
      (((i % ((256 ^ width : Nat) : Int)).toNat : Nat) : Int)
    else (((i % ((256 ^ width : Nat) : Int)).toNat : Nat) : Int) - ((256 ^ width : Nat) : Int)) = i
  generalize 256 ^ width = bound at hlow hhigh hpos
  by_cases hi : 0 ≤ i
  · have hmod : i % (bound : Int) = i := Int.emod_eq_of_lt hi (by omega)
    rw [hmod, if_pos (by omega)]
    omega
  · have hmod : i % (bound : Int) = i + bound := by
      rw [← Int.add_emod_right, Int.emod_eq_of_lt (by omega) (by omega)]
    rw [hmod, if_neg (by omega)]
    omega

/-- What is read in two's complement fits. -/
theorem signed_bounds {width n : Nat} (h : n < 256 ^ width) :
    -(256 ^ width : Nat) ≤ 2 * signed width n ∧ 2 * signed width n < (256 ^ width : Nat) := by
  have hsigned : signed width n
      = if 2 * n < 256 ^ width then (n : Int) else (n : Int) - (256 ^ width : Nat) := rfl
  rw [hsigned]
  generalize 256 ^ width = bound at h ⊢
  split <;> omega

theorem signed_unsigned_int64 (i : Int64) : signed 8 (unsigned 8 i.toInt) = i.toInt := by
  have hlow := i.le_toInt
  have hhigh := i.toInt_lt
  have hbound : ((256 ^ 8 : Nat) : Int) = 2 ^ 64 := by decide
  exact signed_unsigned (by omega) (by omega)

/-! ## Texts -/

@[simp] theorem length_ofString (s : String) : (ofString s).length = s.utf8ByteSize := by
  rw [ofString, Array.length_toList]
  rfl

theorem ofString_inj {s t : String} (h : ofString s = ofString t) : s = t := by
  rw [← String.toByteArray_inj]
  exact ByteArray.ext (Array.toList_inj.1 h)

@[simp] theorem toString?_ofString (s : String) : toString? (ofString s) = some s := by
  have hbytes : (⟨(ofString s).toArray⟩ : ByteArray) = s.toByteArray := by
    rw [ofString, Array.toArray_toList]
    rfl
  rw [toString?, hbytes, String.fromUTF8?, dif_pos s.isValidUTF8]
  rfl

theorem ofString_of_toString? {bytes : Bytes} {s : String} (h : toString? bytes = some s) :
    ofString s = bytes := by
  unfold toString? String.fromUTF8? at h
  split at h
  · obtain rfl := Option.some.inj h
    rfl
  · cases h

theorem ofString_append (s t : String) : ofString (s ++ t) = ofString s ++ ofString t := by
  show (s ++ t).toByteArray.data.toList = _
  rw [String.toByteArray_append, ByteArray.toList_data_append]
  rfl

/-- A character of one byte is this byte. -/
theorem ofString_singleton {c : Char} (hc : c.utf8Size = 1) :
    ofString (String.ofList [c]) = [c.val.toUInt8] := by
  show (String.ofList [c]).toByteArray.data.toList = _
  rw [String.toByteArray_ofList, List.utf8Encode]
  simp [String.utf8EncodeChar_eq_singleton hc]

/-- A character takes at most four bytes. -/
theorem utf8ByteSize_ofList_le (cs : List Char) :
    (String.ofList cs).utf8ByteSize ≤ 4 * cs.length := by
  rw [← String.size_toByteArray, String.toByteArray_ofList]
  induction cs with
  | nil => simp
  | cons c rest ih =>
      have hchar : [c].utf8Encode.size = c.utf8Size := by simp [List.utf8Encode]
      have hbound := c.utf8Size_le_four
      rw [List.utf8Encode_cons, ByteArray.size_append, List.length_cons, hchar]
      omega

/-- Characters of one byte each take as many bytes as there are. -/
theorem utf8ByteSize_ofList_of_narrow {cs : List Char} (h : ∀ c ∈ cs, c.utf8Size = 1) :
    (String.ofList cs).utf8ByteSize = cs.length := by
  rw [← String.size_toByteArray, String.toByteArray_ofList]
  induction cs with
  | nil => rfl
  | cons c rest ih =>
      obtain ⟨hfirst, hrest⟩ := List.forall_mem_cons.1 h
      have hchar : [c].utf8Encode.size = c.utf8Size := by simp [List.utf8Encode]
      rw [List.utf8Encode_cons, ByteArray.size_append, List.length_cons, hchar, hfirst, ih hrest]
      omega

theorem utf8Size_of_isAlphanum {c : Char} (h : c.isAlphanum = true) : c.utf8Size = 1 := by
  rw [Char.utf8Size_eq_one_iff]
  unfold Char.isAlphanum Char.isAlpha Char.isUpper Char.isLower Char.isDigit at h
  simp only [Bool.or_eq_true, Bool.and_eq_true, decide_eq_true_eq] at h
  rcases h with (⟨-, hle⟩ | ⟨-, hle⟩) | ⟨-, hle⟩
  · exact UInt32.le_trans hle (by decide)
  · exact UInt32.le_trans hle (by decide)
  · exact UInt32.le_trans hle (by decide)

end NodePipeline.Bytes
