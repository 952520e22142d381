import Mathlib.Data.List.GetD
import NodePipeline.Hash.Sha256

/-!
# The hash by lists

SHA-256 without arrays. A window of sixteen words moves along the message schedule,
and the rounds take their constants and words from the heads of two lists, so that
no word is looked up by its index. It is the same function, in the form in which
hashes of given messages are evaluated.
-/

namespace NodePipeline.Sha256

/-- The word that follows a window of sixteen, from those of them that it is made of. -/
def nextWord (x₀ x₁ x₉ x₁₄ : UInt32) : UInt32 :=
  let s0 := rotateRight x₁ 7 ^^^ rotateRight x₁ 18 ^^^ (x₁ >>> 3)
  let s1 := rotateRight x₁₄ 17 ^^^ rotateRight x₁₄ 19 ^^^ (x₁₄ >>> 10)
  x₀ + s0 + x₉ + s1

/-- A window of sixteen words, and as many more behind it as are asked for. -/
def extend : Nat → List UInt32 → List UInt32
  | n + 1, [x₀, x₁, x₂, x₃, x₄, x₅, x₆, x₇, x₈, x₉, x₁₀, x₁₁, x₁₂, x₁₃, x₁₄, x₁₅] =>
      x₀ :: extend n [x₁, x₂, x₃, x₄, x₅, x₆, x₇, x₈, x₉, x₁₀, x₁₁, x₁₂, x₁₃, x₁₄, x₁₅,
        nextWord x₀ x₁ x₉ x₁₄]
  | _, window => window

def State.absorb (s : State) (block : List UInt32) : State :=
  s.add ((roundConstants.toList.zip (extend 48 block)).foldl (fun t p => t.round p.1 p.2) s)

def hashByLists (message : Bytes) : Bytes :=
  let ws := words (pad message)
  let final := (blocks (ws.length / 16) ws).foldl State.absorb State.initial
  final.toWords.flatMap fun w => Bytes.bigEndian 4 w.toNat

/-! ## The message schedule -/

/-- What one step of the schedule pushes, behind words that the window has left. -/
def pushNext (w : Array UInt32) (i : Nat) : Array UInt32 :=
  w.push (nextWord (w.getD i 0) (w.getD (i + 1) 0) (w.getD (i + 9) 0) (w.getD (i + 14) 0))

theorem schedule_eq_foldl (block : List UInt32) :
    schedule block = (List.range 48).foldl pushNext block.toArray := rfl

theorem getD_behind (passed window : List UInt32) (k : Nat) :
    (passed ++ window).toArray.getD (passed.length + k) 0 = window.getD k 0 := by
  rw [Array.getD_eq_getD_getElem?, List.getElem?_toArray, List.getElem?_append_right (by omega),
    Nat.add_sub_cancel_left, List.getD_eq_getElem?_getD]

theorem foldl_pushNext (n : Nat) (passed : List UInt32) {window : List UInt32}
    (h : window.length = 16) :
    (List.range' passed.length n).foldl pushNext (passed ++ window).toArray
      = (passed ++ extend n window).toArray := by
  induction n generalizing passed window with
  | zero => rfl
  | succ n ih =>
      match window, h with
      | [x₀, x₁, x₂, x₃, x₄, x₅, x₆, x₇, x₈, x₉, x₁₀, x₁₁, x₁₂, x₁₃, x₁₄, x₁₅], _ =>
        have hpush : ∀ window : List UInt32,
            pushNext (passed ++ window).toArray passed.length = (passed ++ (window ++
              [nextWord (window.getD 0 0) (window.getD 1 0) (window.getD 9 0)
                (window.getD 14 0)])).toArray := by
          intro window
          have hfirst := getD_behind passed window 0
          rw [Nat.add_zero] at hfirst
          rw [pushNext, hfirst, getD_behind, getD_behind, getD_behind, List.push_toArray,
            List.append_assoc]
        have hnext := @ih (passed ++ [x₀]) [x₁, x₂, x₃, x₄, x₅, x₆, x₇, x₈, x₉, x₁₀,
          x₁₁, x₁₂, x₁₃, x₁₄, x₁₅, nextWord x₀ x₁ x₉ x₁₄] rfl
        rw [List.length_append, List.append_assoc, List.append_assoc] at hnext
        rw [List.range'_succ, List.foldl_cons, hpush]
        exact hnext

theorem schedule_eq_extend {block : List UInt32} (h : block.length = 16) :
    schedule block = (extend 48 block).toArray := by
  rw [schedule_eq_foldl, List.range_eq_range']
  exact foldl_pushNext 48 [] h

theorem length_extend (n : Nat) {window : List UInt32} (h : window.length = 16) :
    (extend n window).length = n + 16 := by
  induction n generalizing window with
  | zero => exact h
  | succ n ih =>
      match window, h with
      | [x₀, x₁, x₂, x₃, x₄, x₅, x₆, x₇, x₈, x₉, x₁₀, x₁₁, x₁₂, x₁₃, x₁₄, x₁₅], _ =>
        rw [extend, List.length_cons, ih rfl]

/-! ## The rounds -/

theorem foldl_round {ks ws : Array UInt32} {n : Nat} (hks : ks.size = n) (hws : ws.size = n)
    (s : State) :
    (List.range n).foldl (fun t i => t.round (ks.getD i 0) (ws.getD i 0)) s
      = (ks.toList.zip ws.toList).foldl (fun t p => t.round p.1 p.2) s := by
  have hzip : ks.toList.zip ws.toList
      = (List.range n).map fun i => (ks.getD i 0, ws.getD i 0) := by
    apply List.ext_getElem
    · simp [hks, hws]
    · intro i hi _
      rw [List.length_zip, Array.length_toList, Array.length_toList] at hi
      have hi' : i < ks.size ∧ i < ws.size := by omega
      simp [hi'.1, hi'.2]
  rw [hzip, List.foldl_map]

theorem compress_eq_absorb (s : State) {block : List UInt32} (h : block.length = 16) :
    s.compress block = s.absorb block := by
  have hconstants : roundConstants.size = 64 := rfl
  have hwords : (extend 48 block).toArray.size = 64 := length_extend 48 h
  rw [State.compress, State.absorb, schedule_eq_extend h, foldl_round hconstants hwords]

theorem length_of_mem_blocks {n : Nat} {ws block : List UInt32} (h : 16 * n ≤ ws.length)
    (hblock : block ∈ blocks n ws) : block.length = 16 := by
  induction n generalizing ws with
  | zero => cases hblock
  | succ n ih =>
      rcases List.mem_cons.1 hblock with rfl | hrest
      · rw [List.length_take]
        omega
      · exact ih (by rw [List.length_drop]; omega) hrest

theorem foldl_compress {bs : List (List UInt32)} (h : ∀ block ∈ bs, block.length = 16)
    (s : State) : bs.foldl State.compress s = bs.foldl State.absorb s := by
  induction bs generalizing s with
  | nil => rw [List.foldl_nil, List.foldl_nil]
  | cons block rest ih =>
      rw [List.foldl_cons, List.foldl_cons, compress_eq_absorb s (h block List.mem_cons_self),
        ih fun b hb => h b (List.mem_cons_of_mem _ hb)]

theorem hash_eq_hashByLists (message : Bytes) : hash message = hashByLists message := by
  have hlengths : ∀ block ∈ blocks ((words (pad message)).length / 16) (words (pad message)),
      block.length = 16 := fun _ => length_of_mem_blocks (by omega)
  have hfinal := foldl_compress hlengths State.initial
  exact congrArg (fun final : State => final.toWords.flatMap fun w => Bytes.bigEndian 4 w.toNat)
    hfinal

end NodePipeline.Sha256
