import NodePipeline.Artifact.ArrowStream
import NodePipeline.Proofs.Hash.Evaluation
import NodePipeline.Proofs.Hash.Sha256

/-!
# The primitives that programs run with

SHA-256 as the hash and Arrow streams as the stored form of tables.
-/

namespace NodePipeline

def Primitives.standard : Primitives := ⟨Sha256.hexHash, ArrowStream.write, ArrowStream.read⟩

/-- Hashes are spelled in sixty-four letters and digits. -/
structure Primitives.SpellsHashes (p : Primitives) : Prop where
  length : ∀ m, (p.hash m).toList.length = 64
  alphanum : ∀ m, ∀ c ∈ (p.hash m).toList, c.isAlphanum = true

theorem Primitives.spellsHashes_standard : Primitives.standard.SpellsHashes where
  length := Sha256.length_toList_hexHash
  alphanum _ := Bytes.isAlphanum_hex _

theorem Primitives.utf8ByteSize_standard_hash (m : Bytes) :
    (Primitives.standard.hash m).utf8ByteSize < 2 ^ 64 := Sha256.utf8ByteSize_hexHash m

/-- The same primitives, with the hash in the form in which given messages are hashed. -/
def Primitives.byLists : Primitives :=
  { Primitives.standard with hash := fun m => (Sha256.hashByLists m).hex }

theorem Primitives.standard_eq_byLists : Primitives.standard = Primitives.byLists := by
  have hhash : Sha256.hexHash = fun m => (Sha256.hashByLists m).hex := by
    funext m
    rw [Sha256.hexHash, Sha256.hash_eq_hashByLists]
  rw [byLists, ← hhash]
  rfl

/-- Primitives with a hash that spells its input, a character for every byte. -/
def Primitives.transparent : Primitives :=
  { Primitives.standard with
    hash := fun m => String.ofList (m.map fun byte => Char.ofNat byte.toNat) }

end NodePipeline
