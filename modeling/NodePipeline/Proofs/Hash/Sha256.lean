import NodePipeline.Hash.Sha256
import NodePipeline.Proofs.Bytes

/-!
# The form of a hash

A hash in hexadecimal digits has sixty-four of them, all letters and digits.
-/

namespace NodePipeline

namespace Bytes

theorem length_toList_hex (bytes : Bytes) : bytes.hex.toList.length = 2 * bytes.length := by
  rw [hex, String.toList_ofList]
  induction bytes with
  | nil => rfl
  | cons b rest ih =>
      rw [List.flatMap_cons, List.length_append, ih, List.length_cons, List.length_cons]
      simp only [List.length_cons, List.length_nil]
      omega

theorem isAlphanum_hexDigit : ∀ n < 16, (hexDigit n).isAlphanum = true := by decide

theorem isAlphanum_hex (bytes : Bytes) : ∀ c ∈ bytes.hex.toList, c.isAlphanum = true := by
  intro c hc
  rw [hex, String.toList_ofList, List.mem_flatMap] at hc
  obtain ⟨b, -, hc⟩ := hc
  have hb := b.toNat_lt
  simp only [List.mem_cons, List.not_mem_nil, or_false] at hc
  rcases hc with rfl | rfl
  · exact isAlphanum_hexDigit _ (by omega)
  · exact isAlphanum_hexDigit _ (by omega)

end Bytes

namespace Sha256

theorem length_hash (message : Bytes) : (hash message).length = 32 := by
  unfold hash State.toWords
  simp

theorem length_toList_hexHash (message : Bytes) : (hexHash message).toList.length = 64 := by
  rw [hexHash, Bytes.length_toList_hex, length_hash]

theorem utf8ByteSize_hexHash (message : Bytes) : (hexHash message).utf8ByteSize < 2 ^ 64 := by
  have hbound := Bytes.utf8ByteSize_ofList_le (hexHash message).toList
  rw [String.ofList_toList, length_toList_hexHash] at hbound
  omega

end Sha256

end NodePipeline
