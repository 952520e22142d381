import Mathlib.Data.List.TakeWhile
import NodePipeline.Pipeline.Query
import NodePipeline.Proofs.Pipeline.Lineage

/-!
# Outlines

A forest is printed as an outline: what is shown below a line follows it, one level deeper.
The indentation alone tells which lines stand in the block of a line and which of them are
its children.
-/

namespace NodePipeline

section Lists

variable {α β : Type} {p : α → Bool} {f : α → β} {x y head : α}
  {xs ys below rest before after : List α}

/-- A place in a list with a head and two parts. -/
theorem split_cases (h : head :: (below ++ rest) = before ++ x :: after) :
    (before = [] ∧ x = head ∧ after = below ++ rest) ∨
      (∃ inner last, before = head :: inner ∧ below = inner ++ x :: last ∧ after = last ++ rest) ∨
      ∃ inner, before = head :: (below ++ inner) ∧ rest = inner ++ x :: after := by
  cases before with
  | nil =>
      obtain ⟨rfl, rfl⟩ := List.cons.inj h
      exact Or.inl ⟨rfl, rfl, rfl⟩
  | cons first inner =>
      obtain ⟨rfl, htail⟩ := List.cons.inj h
      right
      rcases List.append_eq_append_iff.1 htail with ⟨more, rfl, hrest⟩ | ⟨more, rfl, hrest⟩
      · exact Or.inr ⟨more, rfl, hrest⟩
      · cases more with
        | nil => exact Or.inr ⟨[], by simp, hrest.symm⟩
        | cons second more =>
            obtain ⟨rfl, rfl⟩ := List.cons.inj hrest
            exact Or.inl ⟨inner, more, rfl, rfl, rfl⟩

/-- What is taken ends before a list whose head is not taken. -/
theorem takeWhile_append_of_head (h : ∀ y ∈ ys.head?, p y = false) :
    (xs ++ ys).takeWhile p = xs.takeWhile p := by
  induction xs with
  | nil =>
      cases ys with
      | nil => rfl
      | cons y rest =>
          rw [List.nil_append, List.takeWhile_cons, h y rfl]
          rfl
  | cons x rest ih =>
      rw [List.cons_append, List.takeWhile_cons, List.takeWhile_cons, ih]

/-- Where the chosen members have different images, an image tells the place. -/
theorem index_unique (h : ((xs.filter p).map f).Nodup) {i j : Nat} (hi : xs[i]? = some x)
    (hj : xs[j]? = some y) (hx : p x = true) (hy : p y = true) (heq : f x = f y) : i = j := by
  rw [List.Nodup, List.pairwise_map, List.pairwise_filter, List.pairwise_iff_getElem] at h
  obtain ⟨hi', rfl⟩ := List.getElem?_eq_some_iff.1 hi
  obtain ⟨hj', rfl⟩ := List.getElem?_eq_some_iff.1 hj
  rcases Nat.lt_trichotomy i j with hlt | heq' | hlt
  · exact absurd heq (h i j hi' hj' hlt hx hy)
  · exact heq'
  · exact absurd heq.symm (h j i hj' hi' hlt hy hx)

end Lists

/-! ## Blocks -/

variable {deps : String → List String} {depth i j : Nat} {names : List String}
  {line : TraceLine} {lines before after : List TraceLine} {a b : String}

/-- What is shown below a line: nothing if it has been shown further up. -/
def shownBelow (deps : String → List String) (line : TraceLine) : List String :=
  if line.seeAbove then [] else deps line.name

@[simp] theorem shownBelow_again (depth : Nat) (name : String) :
    shownBelow deps ⟨depth, name, true⟩ = [] := rfl

@[simp] theorem shownBelow_first (depth : Nat) (name : String) :
    shownBelow deps ⟨depth, name, false⟩ = deps name := rfl

theorem shownBelow_of_seeAbove (h : line.seeAbove = false) :
    shownBelow deps line = deps line.name := by
  unfold shownBelow
  rw [h]
  rfl

theorem mem_shownBelow (h : b ∈ shownBelow deps line) : b ∈ deps line.name := by
  unfold shownBelow at h
  split at h
  · cases h
  · exact h

/-- The blocks of the names, one after the other: a line for each, and then the blocks of what
is shown below it. -/
inductive Blocks (deps : String → List String) : Nat → List String → List TraceLine → Prop
  | nil (depth : Nat) : Blocks deps depth [] []
  | cons {depth : Nat} {name : String} {seeAbove : Bool} {rest : List String}
      {below lines : List TraceLine} :
      Blocks deps (depth + 1) (shownBelow deps ⟨depth, name, seeAbove⟩) below →
      Blocks deps depth rest lines →
      Blocks deps depth (name :: rest) (⟨depth, name, seeAbove⟩ :: (below ++ lines))

namespace Blocks

theorem depth_le (h : Blocks deps depth names lines) : ∀ l ∈ lines, depth ≤ l.depth := by
  induction h with
  | nil depth => exact fun l hl => nomatch hl
  | cons _ _ ihbelow ihrest =>
      intro l hl
      rcases List.mem_cons.1 hl with rfl | hl
      · exact Nat.le_refl _
      · rcases List.mem_append.1 hl with hl | hl
        · exact Nat.le_of_succ_le (ihbelow l hl)
        · exact ihrest l hl

theorem head_depth (h : Blocks deps depth names lines) : ∀ l ∈ lines.head?, l.depth = depth := by
  cases h with
  | nil => exact fun l hl => nomatch hl
  | cons _ _ =>
      intro l hl
      obtain rfl := Option.some.inj hl
      rfl

/-- All lines are for nodes that the names lead to. -/
theorem reaches (h : Blocks deps depth names lines) : ∀ l ∈ lines, ∃ name ∈ names,
    Relation.ReflTransGen (Follows deps) name l.name := by
  induction h with
  | nil depth => exact fun l hl => nomatch hl
  | cons _ _ ihbelow ihrest =>
      intro l hl
      rcases List.mem_cons.1 hl with rfl | hl
      · exact ⟨_, List.mem_cons_self, .refl⟩
      · rcases List.mem_append.1 hl with hl | hl
        · obtain ⟨name, hname, hreach⟩ := ihbelow l hl
          exact ⟨_, List.mem_cons_self, .head (mem_shownBelow hname) hreach⟩
        · obtain ⟨name, hname, hreach⟩ := ihrest l hl
          exact ⟨name, List.mem_cons_of_mem _ hname, hreach⟩

/-- The lines of the least depth are for the names, in their order. -/
theorem children (h : Blocks deps depth names lines) :
    (lines.filter fun l => l.depth == depth).map TraceLine.name = names := by
  induction h with
  | nil depth => rfl
  | @cons depth name seeAbove rest below lines hbelow _ _ ihrest =>
      have hnone : below.filter (fun l => l.depth == depth) = [] := by
        refine List.filter_eq_nil_iff.2 fun l hl => ?_
        have := hbelow.depth_le l hl
        rw [beq_iff_eq]
        omega
      rw [List.filter_cons, if_pos (beq_self_eq_true depth), List.filter_append, hnone,
        List.nil_append, List.map_cons, ihrest]

/-- Every line but those for the names is shown below one. -/
theorem length_eq (h : Blocks deps depth names lines) :
    lines.length = names.length + (lines.flatMap (shownBelow deps)).length := by
  induction h with
  | nil depth => rfl
  | cons _ _ ihbelow ihrest =>
      simp only [List.length_cons, List.length_append, List.flatMap_cons, List.flatMap_append]
      omega

/-- After a line, as far as it is deeper, stand the blocks of what is shown below it. -/
theorem split (h : Blocks deps depth names (before ++ line :: after)) :
    Blocks deps (line.depth + 1) (shownBelow deps line)
      (after.takeWhile fun l => decide (line.depth < l.depth)) := by
  generalize hall : before ++ line :: after = lines at h
  induction h generalizing before after with
  | nil depth => simp at hall
  | @cons depth name seeAbove rest below lines hbelow hrest ihbelow ihrest =>
      have hhead : ∀ d, depth ≤ d → ∀ l ∈ lines.head?, decide (d < l.depth) = false := by
        intro d hd l hl
        have := hrest.head_depth l hl
        exact decide_eq_false (by omega)
      -- The line is the head, or it stands in the block of the head, or behind that block.
      rcases split_cases hall.symm with ⟨-, rfl, rfl⟩ | ⟨inner, last, -, hin, rfl⟩ | ⟨inner, -, hin⟩
      · rw [takeWhile_append_of_head (hhead depth (Nat.le_refl _))]
        have hall : below.takeWhile (fun l => decide (depth < l.depth)) = below := by
          refine List.takeWhile_eq_self_iff.2 fun l hl => decide_eq_true ?_
          exact hbelow.depth_le l hl
        rw [hall]
        exact hbelow
      · have hdepth : depth + 1 ≤ line.depth := hbelow.depth_le line (by simp [hin])
        rw [takeWhile_append_of_head (hhead line.depth (by omega))]
        exact ihbelow hin.symm
      · exact ihrest hin.symm

end Blocks

/-! ## What the indentation tells -/

/-- The lines after the one at a place, as long as they are deeper. -/
def blockAt (lines : List TraceLine) (i : Nat) : List TraceLine :=
  match lines[i]? with
  | some line => (lines.drop (i + 1)).takeWhile fun l => decide (line.depth < l.depth)
  | none => []

theorem take_append_drop_of_getElem? (h : lines[i]? = some line) :
    lines.take i ++ line :: lines.drop (i + 1) = lines := by
  obtain ⟨hi, rfl⟩ := List.getElem?_eq_some_iff.1 h
  rw [← List.drop_eq_getElem_cons hi, List.take_append_drop]

theorem Blocks.block (h : Blocks deps depth names lines) (hi : lines[i]? = some line) :
    Blocks deps (line.depth + 1) (shownBelow deps line) (blockAt lines i) := by
  rw [← take_append_drop_of_getElem? hi] at h
  unfold blockAt
  rw [hi]
  exact h.split

/-- The lines of a block stand right after the line that it belongs to. -/
theorem getElem?_blockAt {k : Nat} (hk : k < (blockAt lines i).length) :
    (blockAt lines i)[k]? = lines[i + 1 + k]? := by
  unfold blockAt at hk ⊢
  cases hi : lines[i]? with
  | none => simp [hi] at hk
  | some line =>
      simp only [hi] at hk ⊢
      have hprefix := List.takeWhile_prefix (l := lines.drop (i + 1))
        fun l => decide (line.depth < l.depth)
      rw [List.getElem?_eq_getElem hk, hprefix.getElem hk, ← List.getElem?_eq_getElem,
        List.getElem?_drop]

theorem mem_of_mem_blockAt (h : line ∈ blockAt lines i) : line ∈ lines := by
  obtain ⟨k, hk⟩ := List.mem_iff_getElem?.1 h
  rw [getElem?_blockAt (List.getElem?_eq_some_iff.1 hk).1] at hk
  exact List.mem_of_getElem? hk

/-- The line at that place is for the second node, in the block of a line for the first one
and one level deeper. -/
def ShowsEdge (lines : List TraceLine) (a b : String) (j : Nat) : Prop :=
  ∃ i parent child, lines[i]? = some parent ∧ parent.name = a ∧
    lines[j]? = some child ∧ child.name = b ∧
    i < j ∧ j ≤ i + (blockAt lines i).length ∧ child.depth = parent.depth + 1

/-- Only what depends on something has children. -/
theorem Blocks.of_showsEdge (h : Blocks deps depth names lines) (hedge : ShowsEdge lines a b j) :
    ∃ i parent k child, lines[i]? = some parent ∧ parent.name = a ∧ j = i + 1 + k ∧
      (blockAt lines i)[k]? = some child ∧ child.name = b ∧ child.depth = parent.depth + 1 ∧
      b ∈ shownBelow deps parent := by
  obtain ⟨i, parent, child, hi, rfl, hj, rfl, hlt, hle, hdepth⟩ := hedge
  obtain ⟨k, rfl⟩ : ∃ k, j = i + 1 + k := ⟨j - (i + 1), by omega⟩
  have hk : (blockAt lines i)[k]? = some child := by
    rw [getElem?_blockAt (by omega), hj]
  refine ⟨i, parent, k, child, hi, rfl, rfl, hk, rfl, hdepth, ?_⟩
  rw [← (h.block hi).children]
  refine List.mem_map_of_mem (List.mem_filter.2 ⟨List.mem_of_getElem? hk, ?_⟩)
  exact beq_iff_eq.2 hdepth

/-- The lines below which something is shown, by their names. -/
def openers (deps : String → List String) (lines : List TraceLine) : List String :=
  (lines.filter fun l => !(shownBelow deps l).isEmpty).map TraceLine.name

theorem mem_openers : a ∈ openers deps lines ↔
    ∃ l ∈ lines, l.name = a ∧ l.seeAbove = false ∧ deps a ≠ [] := by
  unfold openers
  rw [List.mem_map]
  constructor
  · rintro ⟨l, hl, rfl⟩
    obtain ⟨hmem, hshown⟩ := List.mem_filter.1 hl
    cases hmark : l.seeAbove with
    | true => simp [shownBelow, hmark] at hshown
    | false =>
        rw [shownBelow_of_seeAbove hmark] at hshown
        exact ⟨l, hmem, rfl, hmark, by simpa using hshown⟩
  · rintro ⟨l, hmem, rfl, hmark, hdeps⟩
    refine ⟨l, List.mem_filter.2 ⟨hmem, ?_⟩, rfl⟩
    simpa [shownBelow_of_seeAbove hmark] using hdeps

theorem openers_mono {more : List TraceLine} (h : lines ⊆ more) :
    openers deps lines ⊆ openers deps more := by
  intro x hx
  obtain ⟨l, hl, hname⟩ := mem_openers.1 hx
  exact mem_openers.2 ⟨l, h hl, hname⟩

/-- What is shown below the lines is shown below the openers. -/
theorem flatMap_shownBelow (deps : String → List String) (lines : List TraceLine) :
    lines.flatMap (shownBelow deps) = (openers deps lines).flatMap deps := by
  induction lines with
  | nil => rfl
  | cons line rest ih =>
      unfold openers at ih ⊢
      rw [List.flatMap_cons, ih, List.filter_cons]
      unfold shownBelow
      cases line.seeAbove with
      | true => simp
      | false =>
          cases hdeps : deps line.name with
          | nil => simp
          | cons first more => simp [hdeps]

/-- Below an opener its dependencies are shown. -/
theorem Blocks.of_opener (h : Blocks deps depth names lines) (ha : a ∈ openers deps lines) :
    ∃ i line, lines[i]? = some line ∧ line.name = a ∧ line.seeAbove = false ∧
      Blocks deps (line.depth + 1) (deps a) (blockAt lines i) := by
  obtain ⟨line, hline, rfl, hmark, -⟩ := mem_openers.1 ha
  obtain ⟨i, hi⟩ := List.mem_iff_getElem?.1 hline
  refine ⟨i, line, hi, rfl, hmark, ?_⟩
  have hblock := h.block hi
  rwa [shownBelow_of_seeAbove hmark] at hblock

/-- Where the dependencies of a node are shown once, the place is known. -/
theorem opener_unique (honce : (openers deps lines).Nodup) {line' : TraceLine}
    (hi : lines[i]? = some line) (hj : lines[j]? = some line') (hname : line.name = line'.name)
    (hmark : line.seeAbove = false) (hmark' : line'.seeAbove = false)
    (hdeps : deps line.name ≠ []) : i = j := by
  apply index_unique honce hi hj _ _ hname
  · simpa [shownBelow_of_seeAbove hmark] using hdeps
  · simpa [shownBelow_of_seeAbove hmark', ← hname] using hdeps

/-- Each of the dependencies of such a node has one line there. -/
theorem Blocks.showsEdge_unique (h : Blocks deps depth names lines)
    (honce : (openers deps lines).Nodup) (ha : a ∈ openers deps lines)
    (hnodup : (deps a).Nodup) (hb : b ∈ deps a) : ∃! j, ShowsEdge lines a b j := by
  obtain ⟨i, line, hi, rfl, hmark, hblock⟩ := h.of_opener ha
  have hchildren := hblock.children
  obtain ⟨child, hchild, hname⟩ := List.mem_map.1 (hchildren ▸ hb)
  obtain ⟨hmem, hdepth⟩ := List.mem_filter.1 hchild
  obtain ⟨k, hk⟩ := List.mem_iff_getElem?.1 hmem
  have hlt := (List.getElem?_eq_some_iff.1 hk).1
  refine ⟨i + 1 + k, ⟨i, line, child, hi, rfl, ?_, hname, by omega, by omega,
    beq_iff_eq.1 hdepth⟩, fun j hj => ?_⟩
  · rw [← getElem?_blockAt hlt, hk]
  · obtain ⟨i', parent, k', child', hi', hparent, rfl, hk', hname', hdepth', hb'⟩ :=
      h.of_showsEdge hj
    have hmark' : parent.seeAbove = false := by
      cases hcase : parent.seeAbove with
      | false => rfl
      | true => simp [shownBelow, hcase] at hb'
    obtain rfl : i' = i := opener_unique honce hi' hi hparent hmark' hmark
      (List.ne_nil_of_mem (mem_shownBelow hb'))
    obtain rfl : parent = line := Option.some.inj (hi'.symm.trans hi)
    have hnames : (((blockAt lines i').filter fun l => l.depth == parent.depth + 1).map
        TraceLine.name).Nodup := hchildren.symm ▸ hnodup
    have hchild' : (child'.depth == parent.depth + 1) = true := beq_iff_eq.2 hdepth'
    obtain rfl : k' = k := index_unique hnames hk' hk hchild' hdepth (hname'.trans hname.symm)
    rfl

end NodePipeline
