import Mathlib.Data.List.Basic
import NodePipeline.Text.Characters

/-!
# Texts without blanks at their ends

Removing the blanks at the ends of a text changes nothing if its first and its last
character are none.
-/

namespace NodePipeline.Text

theorem isBlank_of_isDigit {c : Char} (h : c.isDigit = true) : isBlank c = false := by
  have hall : ∀ n : Fin 10, isBlank (Char.ofNat (48 + n)) = false := by decide
  simp only [Char.isDigit, Bool.and_eq_true, decide_eq_true_eq] at h
  have hlow : 48 ≤ c.toNat := h.1
  have hhigh : c.toNat ≤ 57 := h.2
  have hc : Char.ofNat (48 + (⟨c.toNat - 48, by omega⟩ : Fin 10)) = c := by
    show Char.ofNat (48 + (c.toNat - 48)) = c
    rw [Nat.add_sub_cancel' hlow, Char.ofNat_toNat]
  rw [← hc]
  exact hall _

theorem trimLeft_cons {c : Char} (h : isBlank c = false) (rest : List Char) :
    trimLeft (c :: rest) = c :: rest := by
  rw [trimLeft, List.dropWhile_cons, h]
  rfl

/-- Neither end of the text is a blank. -/
structure Trimmed (cs : List Char) : Prop where
  head : ∀ c, cs.head? = some c → isBlank c = false
  last : ∀ c, cs.getLast? = some c → isBlank c = false

variable {cs xs ys : List Char}

theorem trimmed_of_forall (h : ∀ c ∈ cs, isBlank c = false) : Trimmed cs :=
  ⟨fun c hc => h c (List.mem_of_head? hc), fun c hc => h c (List.mem_of_getLast? hc)⟩

/-- What stands between the ends does not matter. -/
theorem Trimmed.append (hxs : Trimmed xs) (hys : Trimmed ys) (hx : xs ≠ []) (hy : ys ≠ [])
    (between : List Char) : Trimmed (xs ++ between ++ ys) where
  head c hc := by
    rw [List.append_assoc, List.head?_append_of_ne_nil _ hx] at hc
    exact hxs.head c hc
  last c hc := by
    rw [List.getLast?_append_of_ne_nil _ hy] at hc
    exact hys.last c hc

theorem trimLeft_of_head (h : ∀ c, cs.head? = some c → isBlank c = false) : trimLeft cs = cs := by
  cases cs with
  | nil => rfl
  | cons c rest => exact trimLeft_cons (h c rfl) rest

theorem trim_of_trimmed (h : Trimmed cs) : trim (String.ofList cs) = String.ofList cs := by
  have hlast : trimLeft cs.reverse = cs.reverse :=
    trimLeft_of_head fun c hc => h.last c (List.head?_reverse ▸ hc)
  rw [trim, String.toList_ofList, trimLeft_of_head h.head, trimRight, hlast, List.reverse_reverse]

end NodePipeline.Text
