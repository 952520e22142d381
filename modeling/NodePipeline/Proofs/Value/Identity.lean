import NodePipeline.Pipeline.Basic

/-!
# Identity of values

Unlike the equality of programs, `Value.identical` decides equality itself: zeros
differ by their sign, and a NaN is identical to itself.
-/

namespace NodePipeline

namespace Value

mutual

def identical : Value → Value → Bool
  | .null, .null => true
  | .bool a, .bool b => a == b
  | .int a, .int b => a == b
  | .float a, .float b => a == b
  | .str a, .str b => a == b
  | .list a, .list b => identicalItems a b
  | .dict a, .dict b => identicalEntries a b
  | .table a, .table b => a == b
  | .function p b c, .function p' b' c' => p == p' && b == b' && identicalEntries c c'
  | .pipeline a, .pipeline b => identicalNodes a b
  | _, _ => false
termination_by structural a _ => a

def identicalItems : List Value → List Value → Bool
  | [], [] => true
  | a :: as, b :: bs => identical a b && identicalItems as bs
  | _, _ => false
termination_by structural as _ => as

def identicalEntries : List (String × Value) → List (String × Value) → Bool
  | [], [] => true
  | (k, a) :: as, (l, b) :: bs => k == l && identical a b && identicalEntries as bs
  | _, _ => false
termination_by structural as _ => as

def identicalNodes : List (Node Value) → List (Node Value) → Bool
  | [], [] => true
  | ⟨n, b, d, x, v, f⟩ :: as, ⟨n', b', d', x', v', f'⟩ :: bs =>
      n == n' && b == b' && d == d' && x == x' && identical v v' && f == f'
        && identicalNodes as bs
  | _, _ => false
termination_by structural as _ => as

end

mutual

theorem identical_iff (a b : Value) : identical a b = true ↔ a = b := by
  cases a with
  | list as => cases b <;> simp [identical, identicalItems_iff as]
  | dict as => cases b <;> simp [identical, identicalEntries_iff as]
  | function p s c => cases b <;> simp [identical, identicalEntries_iff c, and_assoc]
  | pipeline as => cases b <;> simp [identical, identicalNodes_iff as]
  | _ => cases b <;> simp [identical]
termination_by structural a

theorem identicalItems_iff (as bs : List Value) : identicalItems as bs = true ↔ as = bs := by
  cases as with
  | nil => cases bs <;> simp [identicalItems]
  | cons a as =>
      cases bs with
      | nil => simp [identicalItems]
      | cons b bs => simp [identicalItems, identical_iff a b, identicalItems_iff as bs]
termination_by structural as

theorem identicalEntries_iff (as bs : List (String × Value)) :
    identicalEntries as bs = true ↔ as = bs := by
  cases as with
  | nil => cases bs <;> simp [identicalEntries]
  | cons a as =>
      obtain ⟨k, a⟩ := a
      cases bs with
      | nil => simp [identicalEntries]
      | cons b bs =>
          obtain ⟨l, b⟩ := b
          simp [identicalEntries, identical_iff a b, identicalEntries_iff as bs]
termination_by structural as

theorem identicalNodes_iff (as bs : List (Node Value)) :
    identicalNodes as bs = true ↔ as = bs := by
  cases as with
  | nil => cases bs <;> simp [identicalNodes]
  | cons a as =>
      obtain ⟨n, b, d, x, v, f⟩ := a
      cases bs with
      | nil => simp [identicalNodes]
      | cons c bs =>
          obtain ⟨n', b', d', x', v', f'⟩ := c
          simp [identicalNodes, identical_iff v v', identicalNodes_iff as bs, and_assoc]
termination_by structural as

end

instance : DecidableEq Value := fun a b => decidable_of_iff _ (identical_iff a b)

end Value

deriving instance DecidableEq for Node
deriving instance DecidableEq for Pipeline

instance decidableEqExcept {ε α : Type} [DecidableEq ε] [DecidableEq α] :
    DecidableEq (Except ε α)
  | .ok a, .ok b => decidable_of_iff (a = b) (by simp)
  | .error a, .error b => decidable_of_iff (a = b) (by simp)
  | .ok _, .error _ => isFalse (by simp)
  | .error _, .ok _ => isFalse (by simp)

end NodePipeline
