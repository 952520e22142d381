import Mathlib.Data.List.Forall2
import NodePipeline.Value.Columns
import NodePipeline.Proofs.Binary64.Nearest
import NodePipeline.Proofs.Results

/-!
# Columns and their cells

A type of cell fits in itself, and integers fit among floats. The type of a column is the
one of its cells' types that all others fit in, so it does not depend on the order of the
cells, and a column is refused exactly if there is no such type. Every cell is then stored:
what is read back are the cells that were given, with integers beside floats rounded to
the nearest float.
-/

namespace NodePipeline

/-- The type of cell that a value fills when it is alone. -/
def Value.cellType? : Value → Option CellType
  | .int _ => some .int
  | .float _ => some .float
  | .str _ => some .text
  | .bool _ => some .flag
  | _ => none

namespace CellType

/-- Cells of the first type can stand in a column of the second. -/
def FitsIn (s t : CellType) : Prop := s = t ∨ (s = .int ∧ t = .float)

instance (s t : CellType) : Decidable (s.FitsIn t) := inferInstanceAs (Decidable (_ ∨ _))

theorem FitsIn.refl (t : CellType) : t.FitsIn t := Or.inl rfl

theorem FitsIn.trans {r s t : CellType} : r.FitsIn s → s.FitsIn t → r.FitsIn t := by
  cases r <;> cases s <;> cases t <;> decide

theorem FitsIn.antisymm {s t : CellType} : s.FitsIn t → t.FitsIn s → s = t := by
  cases s <;> cases t <;> decide

/-- Of two types that fit in a third, one fits in the other. -/
theorem FitsIn.total {r s t : CellType} : r.FitsIn t → s.FitsIn t → r.FitsIn s ∨ s.FitsIn r := by
  cases r <;> cases s <;> cases t <;> decide

/-- The type among these that all of them fit in; none if there are no types. -/
def IsWidest (types : List CellType) : Option CellType → Prop
  | none => types = []
  | some t => t ∈ types ∧ ∀ s ∈ types, s.FitsIn t

theorem IsWidest.unique {types : List CellType} {r r' : Option CellType} (h : IsWidest types r)
    (h' : IsWidest types r') : r = r' := by
  cases r with
  | none =>
      obtain rfl := h
      cases r' with
      | none => rfl
      | some t => cases h'.1
  | some t =>
      cases r' with
      | none =>
          obtain rfl := h'
          cases h.1
      | some t' => exact congrArg some ((h'.2 t h.1).antisymm (h.2 t' h'.1))

/-- Only which types there are decides about the widest. -/
theorem IsWidest.of_perm {types types' : List CellType} (hperm : types.Perm types')
    {r : Option CellType} (h : IsWidest types r) : IsWidest types' r := by
  cases r with
  | none =>
      obtain rfl := h
      exact hperm.nil_eq.symm
  | some t => exact ⟨hperm.mem_iff.1 h.1, fun s hs => h.2 s (hperm.mem_iff.2 hs)⟩

/-- Types that fit in one type have a widest among them. -/
theorem exists_isWidest {types : List CellType} {top : CellType}
    (h : ∀ s ∈ types, s.FitsIn top) : ∃ r, IsWidest types r := by
  induction types with
  | nil => exact ⟨none, rfl⟩
  | cons t rest ih =>
      obtain ⟨r, hr⟩ := ih fun s hs => h s (List.mem_cons_of_mem t hs)
      cases r with
      | none =>
          obtain rfl := hr
          exact ⟨some t, List.mem_cons_self, fun s hs => List.mem_singleton.1 hs ▸ FitsIn.refl s⟩
      | some r =>
          have htop := h t List.mem_cons_self
          rcases htop.total (h r (List.mem_cons_of_mem t hr.1)) with hfits | hfits
          · exact ⟨some r, List.mem_cons_of_mem t hr.1, List.forall_mem_cons.2 ⟨hfits, hr.2⟩⟩
          · exact ⟨some t, List.mem_cons_self,
              List.forall_mem_cons.2 ⟨FitsIn.refl t, fun s hs => (hr.2 s hs).trans hfits⟩⟩

theorem IsWidest.exists_left {types more : List CellType} {r : Option CellType}
    (h : IsWidest (types ++ more) r) : ∃ first, IsWidest types first := by
  cases r with
  | none => exact ⟨none, (List.append_eq_nil_iff.1 h).1⟩
  | some t => exact exists_isWidest fun s hs => h.2 s (List.mem_append_left more hs)

theorem isWidest_toList {type r : Option CellType} : IsWidest type.toList r ↔ type = r := by
  have hself : IsWidest type.toList type := by
    cases type with
    | none => rfl
    | some t => exact ⟨List.mem_cons_self, fun s hs => List.mem_singleton.1 hs ▸ FitsIn.refl s⟩
  exact ⟨hself.unique, fun h => h ▸ hself⟩

/-- Some of the types may be replaced with their widest. -/
theorem isWidest_append {first : Option CellType} {types more : List CellType}
    (hfirst : IsWidest types first) {r : Option CellType} :
    IsWidest (first.toList ++ more) r ↔ IsWidest (types ++ more) r := by
  cases first with
  | none =>
      obtain rfl := hfirst
      rfl
  | some f =>
      have hfits : ∀ t, (∀ s ∈ f :: more, s.FitsIn t) ↔ ∀ s ∈ types ++ more, s.FitsIn t := by
        intro t
        rw [List.forall_mem_cons, List.forall_mem_append]
        exact and_congr_left fun _ =>
          ⟨fun h s hs => (hfirst.2 s hs).trans h, fun h => h f hfirst.1⟩
      cases r with
      | none =>
          refine ⟨fun h => absurd h (List.cons_ne_nil _ _), fun h => ?_⟩
          obtain ⟨rfl, -⟩ := List.append_eq_nil_iff.1 h
          cases hfirst.1
      | some t =>
          refine ⟨fun ⟨hmem, h⟩ => ⟨?_, (hfits t).1 h⟩, fun ⟨hmem, h⟩ => ⟨?_, (hfits t).2 h⟩⟩
          · rcases List.mem_cons.1 hmem with rfl | hmem
            · exact List.mem_append_left _ hfirst.1
            · exact List.mem_append_right _ hmem
          · rcases List.mem_append.1 hmem with hmem | hmem
            · have hf := ((hfits t).2 h) f List.mem_cons_self
              rw [(hfirst.2 t hmem).antisymm hf]
              exact List.mem_cons_self
            · exact List.mem_cons_of_mem _ hmem

end CellType

namespace Cells

variable {name : String}

/-! ## The type of a column -/

/-- The value can be a cell. -/
def Scalar (v : Value) : Prop := v = .null ∨ v.cellType?.isSome

theorem typeOf_eq_ok {v : Value} {type : Option CellType} :
    typeOf name v = .ok type ↔ Scalar v ∧ v.cellType? = type := by
  unfold Scalar
  cases v <;> simp [typeOf, Value.cellType?]

theorem join_eq_ok {a b t : CellType} :
    join name a b = .ok t ↔ (t = a ∨ t = b) ∧ a.FitsIn t ∧ b.FitsIn t := by
  cases a <;> cases b <;> cases t <;> simp [join, CellType.FitsIn]

theorem widen_of_typeOf {seen type next : Option CellType} {v : Value}
    (htype : typeOf name v = .ok type) :
    widen name seen v = .ok next ↔ CellType.IsWidest (seen.toList ++ type.toList) next := by
  unfold widen
  rw [htype]
  cases type with
  | none =>
      rw [Option.toList_none, List.append_nil, CellType.isWidest_toList]
      show Except.ok seen = .ok next ↔ _
      exact ⟨Except.ok.inj, congrArg _⟩
  | some second =>
      cases seen with
      | none =>
          rw [Option.toList_none, List.nil_append, CellType.isWidest_toList]
          show Except.ok (some second) = .ok next ↔ _
          exact ⟨Except.ok.inj, congrArg _⟩
      | some first =>
          show (join name first second >>= fun t => .ok (some t)) = .ok next ↔ _
          rw [bind_eq_ok]
          cases next with
          | none => exact ⟨fun ⟨_, _, h⟩ => (nomatch h), fun h => absurd h (List.cons_ne_nil _ _)⟩
          | some t =>
              rw [Option.toList_some, Option.toList_some, List.singleton_append]
              unfold CellType.IsWidest
              simp [join_eq_ok]

/-- One more cell either has a place with the cells so far, or there is no type for all. -/
theorem widen_eq_ok {seen next : Option CellType} {v : Value} :
    widen name seen v = .ok next ↔
      Scalar v ∧ CellType.IsWidest (seen.toList ++ v.cellType?.toList) next := by
  constructor
  · intro h
    obtain ⟨type, htype, -⟩ := bind_eq_ok.1 h
    obtain ⟨hscalar, rfl⟩ := typeOf_eq_ok.1 htype
    exact ⟨hscalar, (widen_of_typeOf htype).1 h⟩
  · rintro ⟨hscalar, hwidest⟩
    exact (widen_of_typeOf (typeOf_eq_ok.2 ⟨hscalar, rfl⟩)).2 hwidest

/-- The widest of all types is found cell by cell. -/
theorem foldlM_widen_eq_ok {values : List Value} {seen r : Option CellType} :
    values.foldlM (widen name) seen = .ok r ↔
      (∀ v ∈ values, Scalar v) ∧
        CellType.IsWidest (seen.toList ++ values.filterMap Value.cellType?) r := by
  induction values generalizing seen with
  | nil =>
      rw [List.foldlM_nil, List.filterMap_nil, List.append_nil, CellType.isWidest_toList]
      exact ⟨fun h => ⟨fun v hv => (nomatch hv), Except.ok.inj h⟩, fun h => congrArg _ h.2⟩
  | cons v rest ih =>
      have hcons : (v :: rest).filterMap Value.cellType?
          = v.cellType?.toList ++ rest.filterMap Value.cellType? := by
        rw [List.filterMap_cons]
        cases v.cellType? <;> rfl
      rw [List.foldlM_cons, bind_eq_ok, hcons, ← List.append_assoc, List.forall_mem_cons]
      constructor
      · rintro ⟨next, hnext, hrest⟩
        obtain ⟨hscalar, hwidest⟩ := widen_eq_ok.1 hnext
        obtain ⟨hscalars, hr⟩ := ih.1 hrest
        exact ⟨⟨hscalar, hscalars⟩, (CellType.isWidest_append hwidest).1 hr⟩
      · rintro ⟨⟨hscalar, hscalars⟩, hr⟩
        obtain ⟨next, hwidest⟩ := hr.exists_left
        exact ⟨next, widen_eq_ok.2 ⟨hscalar, hwidest⟩,
          ih.2 ⟨hscalars, (CellType.isWidest_append hwidest).2 hr⟩⟩

theorem commonType_eq_ok {values : List Value} {t : CellType} :
    commonType name values = .ok t ↔ (∀ v ∈ values, Scalar v) ∧
      ∃ r, CellType.IsWidest (values.filterMap Value.cellType?) r ∧ r.getD .int = t := by
  unfold commonType
  rw [bind_eq_ok]
  simp only [foldlM_widen_eq_ok, Option.toList_none, List.nil_append]
  constructor
  · rintro ⟨r, ⟨hscalar, hr⟩, h⟩
    exact ⟨hscalar, r, hr, Except.ok.inj h⟩
  · rintro ⟨hscalar, r, hr, rfl⟩
    exact ⟨r, ⟨hscalar, hr⟩, rfl⟩

/-- **The order of the cells does not matter**, neither for whether they have a common type nor
for which one. -/
theorem commonType_perm {values values' : List Value} (hperm : values.Perm values')
    {t : CellType} : commonType name values = .ok t ↔ commonType name values' = .ok t := by
  have hone : ∀ {xs ys : List Value}, xs.Perm ys → commonType name xs = .ok t →
      commonType name ys = .ok t := by
    intro xs ys hperm h
    obtain ⟨hscalar, r, hr, ht⟩ := commonType_eq_ok.1 h
    exact commonType_eq_ok.2 ⟨fun v hv => hscalar v (hperm.mem_iff.2 hv), r,
      hr.of_perm (hperm.filterMap _), ht⟩
  exact ⟨hone hperm, hone hperm.symm⟩

/-- The value stands for an absent cell, or it fills a cell in a column of that type. -/
def Fills (t : CellType) (v : Value) : Prop :=
  v = .null ∨ ∃ s, v.cellType? = some s ∧ s.FitsIn t

theorem forall_fills {values : List Value} {t : CellType} :
    (∀ v ∈ values, Fills t v) ↔ (∀ v ∈ values, Scalar v) ∧
      ∀ s ∈ values.filterMap Value.cellType?, s.FitsIn t := by
  constructor
  · intro h
    refine ⟨fun v hv => (h v hv).imp_right fun ⟨s, hs, _⟩ => hs ▸ rfl, fun s hs => ?_⟩
    obtain ⟨v, hv, hs⟩ := List.mem_filterMap.1 hs
    rcases h v hv with rfl | ⟨s', hs', hfits⟩
    · cases hs
    · obtain rfl := Option.some.inj (hs'.symm.trans hs)
      exact hfits
  · rintro ⟨hscalar, h⟩ v hv
    refine (hscalar v hv).imp_right fun hsome => ?_
    obtain ⟨s, hs⟩ := Option.isSome_iff_exists.1 hsome
    exact ⟨s, hs, h s (List.mem_filterMap.2 ⟨v, hv, hs⟩)⟩

/-- The cells that are not absent are all of one kind, or all numbers. -/
def Uniform (values : List Value) : Prop :=
  (∀ v ∈ values, v ≠ .null → v.kind = .bool) ∨ (∀ v ∈ values, v ≠ .null → v.kind = .string) ∨
    ∀ v ∈ values, v ≠ .null → v.kind = .int ∨ v.kind = .float

theorem Uniform.of_perm {values values' : List Value} (hperm : values.Perm values')
    (h : Uniform values) : Uniform values' :=
  h.imp (fun h v hv => h v (hperm.mem_iff.2 hv))
    (Or.imp (fun h v hv => h v (hperm.mem_iff.2 hv)) fun h v hv => h v (hperm.mem_iff.2 hv))

theorem uniform_iff {values : List Value} :
    Uniform values ↔ ∃ t, ∀ v ∈ values, Fills t v := by
  have hflag : ∀ v : Value, (v ≠ .null → v.kind = .bool) ↔ Fills .flag v := fun v => by
    cases v <;> simp [Value.kind, Fills, Value.cellType?, CellType.FitsIn]
  have htext : ∀ v : Value, (v ≠ .null → v.kind = .string) ↔ Fills .text v := fun v => by
    cases v <;> simp [Value.kind, Fills, Value.cellType?, CellType.FitsIn]
  have hfloat : ∀ v : Value, (v ≠ .null → v.kind = .int ∨ v.kind = .float) ↔ Fills .float v :=
    fun v => by cases v <;> simp [Value.kind, Fills, Value.cellType?, CellType.FitsIn]
  simp only [Uniform, hflag, htext, hfloat]
  constructor
  · rintro (h | h | h)
    · exact ⟨.flag, h⟩
    · exact ⟨.text, h⟩
    · exact ⟨.float, h⟩
  · rintro ⟨t, h⟩
    cases t with
    | flag => exact Or.inl h
    | text => exact Or.inr (Or.inl h)
    | float => exact Or.inr (Or.inr h)
    | int =>
        -- Integers fit in a column of integers, and so among floats.
        refine Or.inr (Or.inr fun v hv => (h v hv).imp_right ?_)
        rintro ⟨s, hs, hfits⟩
        exact ⟨s, hs, hfits.trans (Or.inr ⟨rfl, rfl⟩)⟩

/-- The values of a column that has a type all fill a cell in it. -/
theorem fills_of_commonType {values : List Value} {t : CellType}
    (h : commonType name values = .ok t) : ∀ v ∈ values, Fills t v := by
  obtain ⟨hscalar, r, hr, rfl⟩ := commonType_eq_ok.1 h
  refine forall_fills.2 ⟨hscalar, ?_⟩
  cases r with
  | none =>
      rw [show values.filterMap Value.cellType? = [] from hr]
      exact fun s hs => nomatch hs
  | some t => exact hr.2

theorem exists_commonType_iff (name : String) {values : List Value} :
    (∃ t, commonType name values = .ok t) ↔ Uniform values := by
  rw [uniform_iff]
  constructor
  · rintro ⟨t, h⟩
    exact ⟨t, fills_of_commonType h⟩
  · rintro ⟨t, h⟩
    obtain ⟨hscalar, htop⟩ := forall_fills.1 h
    obtain ⟨r, hr⟩ := CellType.exists_isWidest htop
    exact ⟨r.getD .int, commonType_eq_ok.2 ⟨hscalar, r, hr, rfl⟩⟩

/-! ## Reading a column -/

def HoldsFloat (values : List Value) : Prop := ∃ x, Value.float x ∈ values

/-- The value that is read where this one was stored. Beside floats an integer becomes the
nearest float. -/
def ReadAs (besideFloat : Prop) : Value → Value → Prop
  | .int i, w => (besideFloat ∧ ∃ x : Binary64, w = .float x ∧ x.IsNearest i.toInt) ∨
      (¬besideFloat ∧ w = .int i)
  | v, w => w = v

/-- The values that are read from the cells of a type. -/
def readBack (t : CellType) (v : Value) : Value :=
  match t with
  | .int => ((intCell v).map Value.int).getD .null
  | .float => ((floatCell v).map Value.float).getD .null
  | .text => ((textCell v).map Value.str).getD .null
  | .flag => ((flagCell v).map Value.bool).getD .null

theorem values?_ofValues (t : CellType) (values : List Value) :
    (ofValues t values).values? = some (values.map (readBack t)) := by
  cases t <;> simp only [ofValues, values?, List.map_map] <;> rfl

theorem natAbs_toInt_lt (i : Int64) : i.toInt.natAbs < 2 ^ 64 := by
  have := i.toInt_lt
  have := i.le_toInt
  omega

/-- No cell is lost in a column that it fits in. -/
theorem readAs_readBack {t : CellType} {besideFloat : Prop} (hfloat : besideFloat ↔ t = .float)
    {v : Value} (hv : Fills t v) : ReadAs besideFloat v (readBack t v) := by
  rcases hv with rfl | ⟨s, hs, hfits⟩
  · cases t <;> rfl
  · cases v with
    | int i =>
        obtain rfl := Option.some.inj hs
        rcases hfits with rfl | ⟨-, rfl⟩
        · exact Or.inr ⟨mt hfloat.1 (by decide), rfl⟩
        · exact Or.inl ⟨hfloat.2 rfl, _, rfl, Binary64.isNearest_ofInt (natAbs_toInt_lt i)⟩
    | float _ | str _ | bool _ =>
        obtain rfl := Option.some.inj hs
        rcases hfits with rfl | ⟨h, -⟩
        · rfl
        · cases h
    | _ => cases hs

/-- A column is one of floats exactly if it holds a float. -/
theorem holdsFloat_iff {values : List Value} {t : CellType}
    (h : commonType name values = .ok t) : HoldsFloat values ↔ t = .float := by
  obtain ⟨-, r, hr, rfl⟩ := commonType_eq_ok.1 h
  have hmem : HoldsFloat values ↔ .float ∈ values.filterMap Value.cellType? := by
    rw [List.mem_filterMap]
    constructor
    · rintro ⟨x, hx⟩
      exact ⟨_, hx, rfl⟩
    · rintro ⟨v, hv, htype⟩
      cases v with
      | float x => exact ⟨x, hv⟩
      | _ => cases htype
  rw [hmem]
  cases r with
  | none =>
      rw [show values.filterMap Value.cellType? = [] from hr]
      exact ⟨fun h => (nomatch h), fun h => (nomatch h)⟩
  | some t =>
      constructor
      · intro hfloat
        rcases hr.2 _ hfloat with h | ⟨h, -⟩
        · exact h.symm
        · cases h
      · rintro rfl
        exact hr.1

theorem forall₂_readAs {values : List Value} {t : CellType}
    (h : commonType name values = .ok t) :
    List.Forall₂ (ReadAs (HoldsFloat values)) values (values.map (readBack t)) := by
  rw [List.forall₂_map_right_iff, List.forall₂_same]
  exact fun v hv => readAs_readBack (holdsFloat_iff h) (fills_of_commonType h v hv)

end Cells

/-! ## Tables -/

/-- The column of cells that fit together. -/
def Column.ofUniform (column : String × List Value) : Column :=
  ⟨column.1, .ofValues ((Cells.commonType column.1 column.2).toOption.getD .int) column.2, true⟩

theorem Column.ofValues_eq_ok {name : String} {values : List Value} {column : Column} :
    ofValues name values = .ok column ↔
      Cells.Uniform values ∧ column = ofUniform (name, values) := by
  unfold ofValues ofUniform
  rw [bind_eq_ok, ← Cells.exists_commonType_iff name]
  constructor
  · rintro ⟨t, ht, h⟩
    refine ⟨⟨t, ht⟩, ?_⟩
    rw [ht]
    exact (Except.ok.inj h).symm
  · rintro ⟨⟨t, ht⟩, rfl⟩
    refine ⟨t, ht, ?_⟩
    rw [ht]
    rfl

theorem Column.mapM_ofValues_eq_ok {columns : List (String × List Value)} {made : List Column} :
    columns.mapM (fun c => ofValues c.1 c.2) = .ok made ↔
      (∀ c ∈ columns, Cells.Uniform c.2) ∧ made = columns.map ofUniform := by
  have hmap : (∀ c ∈ columns, Cells.Uniform c.2) →
      columns.mapM (fun c => ofValues c.1 c.2) = .ok (columns.map ofUniform) :=
    fun h => mapM_eq_ok_of fun c hc => ofValues_eq_ok.2 ⟨h c hc, rfl⟩
  constructor
  · intro h
    have huniform : ∀ c ∈ columns, Cells.Uniform c.2 := fun c hc => by
      obtain ⟨column, hcolumn⟩ := ok_of_mapM_eq_ok h c hc
      exact (ofValues_eq_ok.1 hcolumn).1
    exact ⟨huniform, Except.ok.inj (h.symm.trans (hmap huniform))⟩
  · rintro ⟨h, rfl⟩
    exact hmap h

theorem Column.length_ofUniform (c : String × List Value) :
    (ofUniform c).cells.length = c.2.length := by
  unfold ofUniform
  generalize (Cells.commonType c.1 c.2).toOption.getD .int = t
  cases t <;> simp [Cells.ofValues, Cells.length]

namespace Table

theorem ofColumns_eq_ok {columns : List (String × List Value)} {t : Table} :
    ofColumns columns = .ok t ↔ columns ≠ [] ∧ (∀ c ∈ columns, c.2.length = t.rows) ∧
      (∀ c ∈ columns, Cells.Uniform c.2) ∧ t.columns = columns.map Column.ofUniform := by
  unfold ofColumns
  rw [bind_eq_ok]
  simp only [Column.mapM_ofValues_eq_ok]
  cases columns with
  | nil =>
      constructor
      · rintro ⟨made, ⟨-, rfl⟩, h⟩
        cases h
      · exact fun h => absurd rfl h.1
  | cons first rest =>
      have hall : ∀ rows, (rest.map Column.ofUniform).all (·.cells.length == rows) = true ↔
          ∀ c ∈ rest, c.2.length = rows := by
        intro rows
        simp [Column.length_ofUniform]
      have hfirst := Column.length_ofUniform first
      constructor
      · rintro ⟨made, ⟨huniform, rfl⟩, h⟩
        rw [List.map_cons] at h
        dsimp only at h
        rw [hfirst] at h
        split at h
        · next hrest =>
            obtain rfl := Except.ok.inj h
            exact ⟨List.cons_ne_nil _ _, List.forall_mem_cons.2 ⟨rfl, (hall _).1 hrest⟩,
              huniform, rfl⟩
        · cases h
      · rintro ⟨-, hrows, huniform, hcolumns⟩
        obtain ⟨hrows, hrest⟩ := List.forall_mem_cons.1 hrows
        refine ⟨_, ⟨huniform, rfl⟩, ?_⟩
        rw [List.map_cons]
        dsimp only
        rw [hfirst, hrows, if_pos ((hall _).2 hrest)]
        cases t
        obtain rfl := hcolumns
        rfl

theorem exists_ofColumns_iff {columns : List (String × List Value)} :
    (∃ t, ofColumns columns = .ok t) ↔ columns ≠ [] ∧
      (∀ c ∈ columns, ∀ c' ∈ columns, c.2.length = c'.2.length) ∧
      ∀ c ∈ columns, Cells.Uniform c.2 := by
  constructor
  · rintro ⟨t, h⟩
    obtain ⟨hne, hrows, huniform, -⟩ := ofColumns_eq_ok.1 h
    exact ⟨hne, fun c hc c' hc' => (hrows c hc).trans (hrows c' hc').symm, huniform⟩
  · rintro ⟨hne, hlength, huniform⟩
    obtain ⟨first, hfirst⟩ := List.exists_mem_of_ne_nil columns hne
    exact ⟨⟨columns.map Column.ofUniform, first.2.length⟩,
      ofColumns_eq_ok.2 ⟨hne, fun c hc => hlength c hc first hfirst, huniform, rfl⟩⟩

/-- A name is looked up among the columns that were given. -/
theorem columnValues?_of_ofColumns {columns : List (String × List Value)} {t : Table}
    (h : ofColumns columns = .ok t) (name : String) :
    t.columnValues? name
      = (columns.find? (·.1 == name)).bind fun c => (Column.ofUniform c).cells.values? := by
  obtain ⟨-, -, -, hcolumns⟩ := ofColumns_eq_ok.1 h
  unfold columnValues? column?
  rw [hcolumns, List.find?_map, Option.bind_map]
  rfl

theorem readAs_columnValues? {columns : List (String × List Value)} {t : Table}
    (h : ofColumns columns = .ok t) {name : String} {c : String × List Value}
    (hfind : columns.find? (·.1 == name) = some c) :
    ∃ cells, t.columnValues? name = some cells ∧
      List.Forall₂ (Cells.ReadAs (Cells.HoldsFloat c.2)) c.2 cells := by
  obtain ⟨-, -, huniform, -⟩ := ofColumns_eq_ok.1 h
  obtain ⟨type, htype⟩ := (Cells.exists_commonType_iff c.1).2
    (huniform c (List.mem_of_find?_eq_some hfind))
  refine ⟨c.2.map (Cells.readBack type), ?_, Cells.forall₂_readAs htype⟩
  rw [columnValues?_of_ofColumns h, hfind, Option.bind_some]
  unfold Column.ofUniform
  rw [htype]
  exact Cells.values?_ofValues type c.2

/-- The names of the columns and the types of their cells. -/
def schema (t : Table) : List (String × ArrowType) :=
  t.columns.map fun column => (column.name, column.cells.type)

/-- The same columns, with the cells of each one in some order. -/
def Shuffled (columns columns' : List (String × List Value)) : Prop :=
  List.Forall₂ (fun c c' => c.1 = c'.1 ∧ c.2.Perm c'.2) columns columns'

theorem Shuffled.symm {columns columns' : List (String × List Value)}
    (h : Shuffled columns columns') : Shuffled columns' columns :=
  List.Forall₂.flip (h.imp fun _ _ ⟨hname, hperm⟩ => ⟨hname.symm, hperm.symm⟩)

theorem Shuffled.forall_mem {P : List Value → Prop}
    (hP : ∀ values values', values.Perm values' → P values → P values')
    {columns columns' : List (String × List Value)} (h : Shuffled columns columns') :
    (∀ c ∈ columns, P c.2) → ∀ c ∈ columns', P c.2 := by
  induction h with
  | nil => exact id
  | cons hc _ ih =>
      rw [List.forall_mem_cons, List.forall_mem_cons]
      exact And.imp (hP _ _ hc.2) ih

theorem type_ofUniform {c c' : String × List Value} (hname : c.1 = c'.1)
    (hperm : c.2.Perm c'.2) :
    (Column.ofUniform c).cells.type = (Column.ofUniform c').cells.type := by
  have hcommon : (Cells.commonType c.1 c.2).toOption = (Cells.commonType c'.1 c'.2).toOption := by
    refine Option.ext fun t => ?_
    rw [toOption_eq_some, toOption_eq_some, Cells.commonType_perm hperm, hname]
  unfold Column.ofUniform
  rw [hcommon]
  generalize (Cells.commonType c'.1 c'.2).toOption.getD .int = t
  cases t <;> rfl

theorem ofColumns_of_shuffled {columns columns' : List (String × List Value)}
    (h : Shuffled columns columns') {t : Table} (ht : ofColumns columns = .ok t) :
    ∃ t', ofColumns columns' = .ok t' ∧ t'.schema = t.schema := by
  obtain ⟨hne, hrows, huniform, hcolumns⟩ := ofColumns_eq_ok.1 ht
  refine ⟨⟨columns'.map Column.ofUniform, t.rows⟩, ofColumns_eq_ok.2 ⟨?_, ?_, ?_, rfl⟩, ?_⟩
  · rw [← List.length_pos_iff, ← h.length_eq, List.length_pos_iff]
    exact hne
  · exact h.forall_mem (fun _ _ hperm hlength => hperm.length_eq.symm.trans hlength) hrows
  · exact h.forall_mem (fun _ _ hperm => Cells.Uniform.of_perm hperm) huniform
  · unfold schema
    rw [hcolumns, List.map_map, List.map_map]
    clear ht hne hrows huniform hcolumns
    induction h with
    | nil => rfl
    | cons hc _ ih =>
        rw [List.map_cons, List.map_cons, ih]
        exact congrArg (· :: _) (Prod.ext hc.1.symm (type_ofUniform hc.1 hc.2).symm)

theorem schema_of_shuffled {columns columns' : List (String × List Value)}
    (h : Shuffled columns columns') :
    (ofColumns columns).toOption.map schema = (ofColumns columns').toOption.map schema := by
  have hone : ∀ {xs ys : List (String × List Value)}, Shuffled xs ys → ∀ s,
      (ofColumns xs).toOption.map schema = some s →
        (ofColumns ys).toOption.map schema = some s := by
    intro xs ys h s hs
    obtain ⟨t, ht, rfl⟩ := ok_of_toOption_map hs
    obtain ⟨t', ht', hschema⟩ := ofColumns_of_shuffled h ht
    rw [ht', ← hschema]
    rfl
  exact Option.ext fun s => ⟨hone h s, hone h.symm s⟩

/-- **Uniform columns make a table that gives their cells back.** Columns are accepted exactly if
there is one, they are equally long and each is uniform. A name then finds the cells of the first
column with it, where integers beside floats have become the nearest floats. The order of the
cells decides neither about acceptance nor about the types of the columns. -/
theorem ofColumns_uniform (columns : List (String × List Value)) :
    ((∃ t, ofColumns columns = .ok t) ↔ columns ≠ [] ∧
      (∀ c ∈ columns, ∀ c' ∈ columns, c.2.length = c'.2.length) ∧
      ∀ c ∈ columns, Cells.Uniform c.2) ∧
    (∀ t, ofColumns columns = .ok t → ∀ name,
      (∀ c, columns.find? (·.1 == name) = some c → ∃ cells, t.columnValues? name = some cells ∧
        List.Forall₂ (Cells.ReadAs (Cells.HoldsFloat c.2)) c.2 cells) ∧
      (columns.find? (·.1 == name) = none → t.columnValues? name = none)) ∧
    ∀ columns', Shuffled columns columns' →
      (ofColumns columns).toOption.map schema = (ofColumns columns').toOption.map schema := by
  refine ⟨exists_ofColumns_iff, fun t ht name => ⟨fun c hc => ?_, fun hnone => ?_⟩, fun _ h => ?_⟩
  · exact readAs_columnValues? ht hc
  · rw [columnValues?_of_ofColumns ht, hnone]
    rfl
  · exact schema_of_shuffled h

/-- An absent cell, an integer between two floats, and a float. -/
def numbers : List Value := [.null, .int 9007199254740993, .float ⟨0x3ff8000000000000⟩]

def twinColumns : List (String × List Value) :=
  [("n", numbers), ("n", [.str "", .null, .str "b"])]

/-- Both columns with their cells in another order. -/
def twinColumnsShuffled : List (String × List Value) :=
  [("n", [.float ⟨0x3ff8000000000000⟩, .null, .int 9007199254740993]),
    ("n", [.null, .str "b", .str ""])]

theorem ofColumns_uniform_twinColumns :
    ∃ t, ofColumns twinColumns = .ok t ∧
      (∃ cells, t.columnValues? "n" = some cells ∧
        List.Forall₂ (Cells.ReadAs (Cells.HoldsFloat numbers)) numbers cells) ∧
      t.columnValues? "m" = none ∧
      (ofColumns twinColumns).toOption.map schema
        = (ofColumns twinColumnsShuffled).toOption.map schema := by
  obtain ⟨haccepted, hread, hshuffled⟩ := ofColumns_uniform twinColumns
  obtain ⟨t, ht⟩ := haccepted.2 (by simp [twinColumns, numbers, Cells.Uniform, Value.kind])
  refine ⟨t, ht, (hread t ht "n").1 ("n", numbers) rfl, (hread t ht "m").2 rfl,
    hshuffled _ (.cons ⟨rfl, ?_⟩ (.cons ⟨rfl, ?_⟩ .nil))⟩
  · exact ((List.Perm.swap _ _ _).cons _).trans (List.Perm.swap _ _ _)
  · exact (List.Perm.swap _ _ _).trans ((List.Perm.swap _ _ _).cons _)

end Table

end NodePipeline
