import NodePipeline.Artifact.Format
import NodePipeline.Proofs.Artifact.Stored
import NodePipeline.Proofs.Primitives
import NodePipeline.Proofs.Results
import NodePipeline.Proofs.Value.Data
import NodePipeline.Proofs.Value.Identity

/-!
# Artifacts hold their values

Data is stored, the form of its artifact tells tables from other values, and
decoding gives nothing but the value that was stored.
-/

namespace NodePipeline

namespace Value

/-- The tables that occur inside a value: stored in an envelope, as an array of bytes. -/
def innerTables : Value → List Table
  | .table _ => []
  | v => v.tables

end Value

namespace Stored

variable {store : Table → Bytes}

/-! ## Stored forms of data -/

theorem height_list_eq {ss : List Stored} {vs : List Value} (hlen : ss.length = vs.length)
    (h : heightOfItems ss = Value.heightOfItems vs) :
    (list ss).height = (Value.list vs).height := by
  cases vs with
  | nil =>
      obtain rfl := List.length_eq_zero_iff.1 hlen
      rfl
  | cons v rest =>
      cases ss with
      | nil => simp at hlen
      | cons s more => rw [height, Value.height, h]

theorem height_dict_eq {ss : List (String × Stored)} {vs : List (String × Value)}
    (hlen : ss.length = vs.length) (h : heightOfEntries ss = Value.heightOfEntries vs) :
    (dict ss).height = (Value.dict vs).height := by
  cases vs with
  | nil =>
      obtain rfl := List.length_eq_zero_iff.1 hlen
      rfl
  | cons v rest =>
      cases ss with
      | nil => simp at hlen
      | cons s more => rw [height, Value.height, h]

mutual

theorem ofValue_of_isData (v : Value) (location : String) (hdata : v.IsData (2 ^ 32))
    (hord : v.Ordered) (htables : ∀ t ∈ v.tables, (store t).length < 2 ^ 32) :
    ∃ s, ofValue store location v = .ok s ∧ s.Fits ∧ s.height = v.height ∧
      ∀ load, (∀ t ∈ v.tables, load (store t) = .ok t) → s.toValue load = .ok v := by
  cases v with
  | null => exact ⟨.null, rfl, trivial, rfl, fun _ _ => rfl⟩
  | bool b => exact ⟨.bool b, rfl, trivial, rfl, fun _ _ => rfl⟩
  | int i => exact ⟨.int i, rfl, trivial, rfl, fun _ _ => rfl⟩
  | float x => exact ⟨.float x, rfl, trivial, rfl, fun _ _ => rfl⟩
  | str s => exact ⟨.str s, rfl, hdata, rfl, fun _ _ => rfl⟩
  | list items =>
      obtain ⟨ss, hss, hlen, hfits, hheight, hback⟩ :=
        ofItems_of_isData items location 0 hdata.2 hord htables
      refine ⟨.list ss, ?_, ⟨hlen ▸ hdata.1, hfits⟩, height_list_eq hlen hheight,
        fun load hload => ?_⟩
      · rw [ofValue, hss]
        rfl
      · rw [toValue, hback load hload]
        rfl
  | dict entries =>
      obtain ⟨ss, hss, hnames, hfits, hheight, hback⟩ :=
        ofEntries_of_isData entries location hdata.2 hord.2 htables
      have hlen : ss.length = entries.length := by
        rw [← List.length_map (f := Prod.fst), hnames, List.length_map]
      refine ⟨.dict ss, ?_, ⟨hlen ▸ hdata.1, ?_, hfits⟩, height_dict_eq hlen hheight,
        fun load hload => ?_⟩
      · rw [ofValue, hss]
        rfl
      · unfold Entries.Sorted Entries.names
        rw [hnames]
        exact hord.1
      · rw [toValue, hback load hload]
        rfl
  | table t =>
      refine ⟨.table (store t), rfl, htables t List.mem_cons_self, rfl, fun load hload => ?_⟩
      rw [toValue, hload t List.mem_cons_self]
  | function params body captured => exact absurd hdata id
  | pipeline nodes => exact absurd hdata id
termination_by structural v

theorem ofItems_of_isData (items : List Value) (location : String) (index : Nat)
    (hdata : Value.IsDataItems (2 ^ 32) items) (hord : Value.OrderedItems items)
    (htables : ∀ t ∈ Value.tablesOfItems items, (store t).length < 2 ^ 32) :
    ∃ ss, ofItems store location index items = .ok ss ∧ ss.length = items.length ∧
      FitsItems ss ∧ heightOfItems ss = Value.heightOfItems items ∧
      ∀ load, (∀ t ∈ Value.tablesOfItems items, load (store t) = .ok t) →
        toItems load ss = .ok items := by
  cases items with
  | nil => exact ⟨[], rfl, rfl, trivial, rfl, fun _ _ => rfl⟩
  | cons item rest =>
      obtain ⟨s, hs, hfits, hheight, hback⟩ := ofValue_of_isData item _ hdata.1 hord.1
        fun t ht => htables t (List.mem_append_left _ ht)
      obtain ⟨ss, hss, hlen, hfitsRest, hheightRest, hbackRest⟩ :=
        ofItems_of_isData rest location (index + 1) hdata.2 hord.2
          fun t ht => htables t (List.mem_append_right _ ht)
      refine ⟨s :: ss, ?_, by rw [List.length_cons, hlen, List.length_cons], ⟨hfits, hfitsRest⟩,
        by rw [heightOfItems, Value.heightOfItems, hheight, hheightRest], fun load hload => ?_⟩
      · rw [ofItems, hs, hss]
        rfl
      · rw [toItems, hback load fun t ht => hload t (List.mem_append_left _ ht),
          hbackRest load fun t ht => hload t (List.mem_append_right _ ht)]
        rfl
termination_by structural items

theorem ofEntries_of_isData (entries : List (String × Value)) (location : String)
    (hdata : Value.IsDataEntries (2 ^ 32) entries) (hord : Value.OrderedEntries entries)
    (htables : ∀ t ∈ Value.tablesOfEntries entries, (store t).length < 2 ^ 32) :
    ∃ ss, ofEntries store location entries = .ok ss ∧
      ss.map Prod.fst = entries.map Prod.fst ∧ FitsEntries ss ∧
      heightOfEntries ss = Value.heightOfEntries entries ∧
      ∀ load, (∀ t ∈ Value.tablesOfEntries entries, load (store t) = .ok t) →
        toEntries load ss = .ok entries := by
  cases entries with
  | nil => exact ⟨[], rfl, rfl, trivial, rfl, fun _ _ => rfl⟩
  | cons entry rest =>
      obtain ⟨key, item⟩ := entry
      obtain ⟨s, hs, hfits, hheight, hback⟩ := ofValue_of_isData item _ hdata.2.1 hord.1
        fun t ht => htables t (List.mem_append_left _ ht)
      obtain ⟨ss, hss, hnames, hfitsRest, hheightRest, hbackRest⟩ :=
        ofEntries_of_isData rest location hdata.2.2 hord.2
          fun t ht => htables t (List.mem_append_right _ ht)
      refine ⟨(key, s) :: ss, ?_, by rw [List.map_cons, hnames, List.map_cons],
        ⟨hdata.1, hfits, hfitsRest⟩,
        by rw [heightOfEntries, Value.heightOfEntries, hheight, hheightRest], fun load hload => ?_⟩
      · rw [ofEntries, hs, hss]
        rfl
      · rw [toEntries, hback load fun t ht => hload t (List.mem_append_left _ ht),
          hbackRest load fun t ht => hload t (List.mem_append_right _ ht)]
        rfl
termination_by structural entries

end

mutual

/-- All data is stored, however long the stored forms of its tables are. -/
theorem exists_ofValue {bound : Nat} (v : Value) (location : String) (h : v.IsData bound) :
    ∃ s, ofValue store location v = .ok s := by
  cases v with
  | list items =>
      obtain ⟨ss, hss⟩ := exists_ofItems items location 0 h.2
      refine ⟨.list ss, ?_⟩
      rw [ofValue, hss]
      rfl
  | dict entries =>
      obtain ⟨ss, hss⟩ := exists_ofEntries entries location h.2
      refine ⟨.dict ss, ?_⟩
      rw [ofValue, hss]
      rfl
  | function | pipeline => exact absurd h id
  | _ => exact ⟨_, rfl⟩
termination_by structural v

theorem exists_ofItems {bound : Nat} (items : List Value) (location : String) (index : Nat)
    (h : Value.IsDataItems bound items) : ∃ ss, ofItems store location index items = .ok ss := by
  cases items with
  | nil => exact ⟨[], rfl⟩
  | cons item rest =>
      obtain ⟨s, hs⟩ := exists_ofValue item (location ++ "[" ++ toString index ++ "]") h.1
      obtain ⟨ss, hss⟩ := exists_ofItems rest location (index + 1) h.2
      refine ⟨s :: ss, ?_⟩
      rw [ofItems, hs, hss]
      rfl
termination_by structural items

theorem exists_ofEntries {bound : Nat} (entries : List (String × Value)) (location : String)
    (h : Value.IsDataEntries bound entries) : ∃ ss, ofEntries store location entries = .ok ss := by
  cases entries with
  | nil => exact ⟨[], rfl⟩
  | cons entry rest =>
      obtain ⟨key, item⟩ := entry
      obtain ⟨s, hs⟩ := exists_ofValue item (location ++ "." ++ key) h.2.1
      obtain ⟨ss, hss⟩ := exists_ofEntries rest location h.2.2
      refine ⟨(key, s) :: ss, ?_⟩
      rw [ofEntries, hs, hss]
      rfl
termination_by structural entries

end

mutual

/-- Only data is stored. -/
theorem isData_of_ofValue {bound : Nat} (v : Value) {location : String} {s : Stored}
    (h : ofValue store location v = .ok s) (hshort : v.Short bound) : v.IsData bound := by
  cases v with
  | str s => exact hshort
  | list items =>
      obtain ⟨ss, hss, -⟩ := map_eq_ok.1 h
      exact ⟨hshort.1, isData_of_ofItems items hss hshort.2⟩
  | dict entries =>
      obtain ⟨ss, hss, -⟩ := map_eq_ok.1 h
      exact ⟨hshort.1, isData_of_ofEntries entries hss hshort.2⟩
  | function params body captured => cases h
  | pipeline nodes => cases h
  | _ => trivial
termination_by structural v

theorem isData_of_ofItems {bound : Nat} (items : List Value) {location : String} {index : Nat}
    {ss : List Stored} (h : ofItems store location index items = .ok ss)
    (hshort : Value.ShortItems bound items) : Value.IsDataItems bound items := by
  cases items with
  | nil => trivial
  | cons item rest =>
      obtain ⟨s, hs, h⟩ := bind_eq_ok.1 h
      obtain ⟨more, hmore, -⟩ := bind_eq_ok.1 h
      exact ⟨isData_of_ofValue item hs hshort.1, isData_of_ofItems rest hmore hshort.2⟩
termination_by structural items

theorem isData_of_ofEntries {bound : Nat} (entries : List (String × Value)) {location : String}
    {ss : List (String × Stored)} (h : ofEntries store location entries = .ok ss)
    (hshort : Value.ShortEntries bound entries) : Value.IsDataEntries bound entries := by
  cases entries with
  | nil => trivial
  | cons entry rest =>
      obtain ⟨key, item⟩ := entry
      obtain ⟨s, hs, h⟩ := bind_eq_ok.1 h
      obtain ⟨more, hmore, -⟩ := bind_eq_ok.1 h
      exact ⟨hshort.1, isData_of_ofValue item hs hshort.2.1,
        isData_of_ofEntries rest hmore hshort.2.2⟩
termination_by structural entries

end

end Stored

/-! ## Formats -/

theorem detect_envelope (s : Stored) :
    ArtifactFormat.detect s.envelope.write = .ok .messagePack := by
  obtain ⟨rest, hrest⟩ : ∃ rest, s.envelope.write = 0x82 :: rest := ⟨_, rfl⟩
  rw [hrest]
  rfl

theorem detect_of_marker {bytes : Bytes} (h : ArrowStream.marker <+: bytes) :
    ArtifactFormat.detect bytes = .ok .arrow := by
  obtain ⟨rest, rfl⟩ := h
  have hmarker : ArrowStream.marker.isPrefixOf (ArrowStream.marker ++ rest) = true :=
    List.isPrefixOf_iff_prefix.2 ⟨rest, rfl⟩
  unfold ArtifactFormat.detect
  rw [if_neg (by simp [ArrowStream.marker]), if_pos hmarker]

/-! ## Artifacts -/

namespace Value

variable {p : Primitives}

theorem ofArtifact_table {t : Table} (ht : p.KeepsTable t)
    (hmarker : ArrowStream.marker <+: p.writeTable t) :
    ofArtifact p (p.writeTable t) = .ok (.table t) := by
  unfold ofArtifact
  rw [detect_of_marker hmarker]
  simp only [bind, Except.bind, readTable]
  rw [show p.readTable (p.writeTable t) = .ok t from ht]
  rfl

theorem toArtifact_of_not_table {v : Value} (h : ∀ t, v ≠ .table t) :
    v.toArtifact p = (Stored.ofValue p.writeTable "" v).map fun s => s.envelope.write := by
  cases v with
  | table t => exact absurd rfl (h t)
  | _ => rfl

theorem ofValue_of_not_table {v : Value} (h : ∀ t, v ≠ .table t) :
    ArtifactFormat.ofValue v = .messagePack := by
  cases v with
  | table t => exact absurd rfl (h t)
  | _ => rfl

theorem innerTables_of_not_table {v : Value} (h : ∀ t, v ≠ .table t) : v.innerTables = v.tables := by
  cases v with
  | table t => exact absurd rfl (h t)
  | _ => rfl

theorem isData_of_toArtifact {bound : Nat} {v : Value} {bytes : Bytes}
    (h : v.toArtifact p = .ok bytes) (hshort : v.Short bound) : v.IsData bound := by
  by_cases htable : ∃ t, v = .table t
  · obtain ⟨t, rfl⟩ := htable
    trivial
  · rw [toArtifact_of_not_table fun t ht => htable ⟨t, ht⟩] at h
    obtain ⟨s, hs, -⟩ := map_eq_ok.1 h
    exact Stored.isData_of_ofValue v hs hshort

theorem exists_toArtifact {bound : Nat} {v : Value} (h : v.IsData bound) :
    ∃ bytes, v.toArtifact p = .ok bytes := by
  by_cases htable : ∃ t, v = .table t
  · obtain ⟨t, rfl⟩ := htable
    exact ⟨p.writeTable t, rfl⟩
  · have hstored : ∃ s, Stored.ofValue p.writeTable "" v = .ok s := Stored.exists_ofValue v "" h
    obtain ⟨s, hs⟩ := hstored
    refine ⟨s.envelope.write, ?_⟩
    rw [toArtifact_of_not_table fun t ht => htable ⟨t, ht⟩, hs]
    rfl

/-- Data is stored in the format of its kind, and read back unless it nests too deep. -/
theorem artifact_of_isData {v : Value} (hord : v.Ordered) (hdata : v.IsData (2 ^ 32))
    (htables : ∀ t ∈ v.tables, p.KeepsTable t)
    (hmarker : ∀ t ∈ v.tables, ArrowStream.marker <+: p.writeTable t)
    (hinner : ∀ t ∈ v.innerTables, (p.writeTable t).length < 2 ^ 32) :
    ∃ bytes, v.toArtifact p = .ok bytes ∧
      ArtifactFormat.detect bytes = .ok (ArtifactFormat.ofValue v) ∧
      ofArtifact p bytes = if v.height ≤ 510 then .ok v
        else .error (.corrupt none (.invalidPayload "not a stored value")) := by
  by_cases htable : ∃ t, v = .table t
  · obtain ⟨t, rfl⟩ := htable
    have hmarked := hmarker t List.mem_cons_self
    have hback := ofArtifact_table (htables t List.mem_cons_self) hmarked
    exact ⟨p.writeTable t, rfl, detect_of_marker hmarked, hback⟩
  · have hnot : ∀ t, v ≠ .table t := fun t ht => htable ⟨t, ht⟩
    rw [innerTables_of_not_table hnot] at hinner
    obtain ⟨s, hs, hfits, hheight, hload⟩ :=
      Stored.ofValue_of_isData v "" hdata hord hinner
    refine ⟨s.envelope.write, ?_, ?_, ?_⟩
    · rw [toArtifact_of_not_table hnot, hs]
      rfl
    · rw [detect_envelope, ofValue_of_not_table hnot]
    · unfold ofArtifact
      rw [detect_envelope]
      simp only [bind, Except.bind, readEnvelope, Stored.read?_write_envelope hfits, hheight]
      by_cases h : v.height ≤ 510
      · rw [if_pos h, if_pos h]
        simp only [ne_eq, not_true_eq_false, if_false, hload p.readTable htables]
      · rw [if_neg h, if_neg h]

/-- What storing takes of a value: that it is in order and short enough to be spelled, and of
the stored form of its tables that it is read back, that it begins with the marker, and that
inside of other values it is no longer than an array can be. -/
structure Storable (p : Primitives) (v : Value) : Prop where
  ordered : v.Ordered
  short : v.Short (2 ^ 32)
  kept : ∀ t ∈ v.tables, p.KeepsTable t
  marked : ∀ t ∈ v.tables, ArrowStream.marker <+: p.writeTable t
  inner : ∀ t ∈ v.innerTables, (p.writeTable t).length < 2 ^ 32

/-- What has been stored is read back, unless it nests too deep. -/
theorem Storable.ofArtifact_eq {v : Value} {bytes : Bytes} (h : Storable p v)
    (hbytes : v.toArtifact p = .ok bytes) :
    ofArtifact p bytes = if v.height ≤ 510 then .ok v
      else .error (.corrupt none (.invalidPayload "not a stored value")) := by
  obtain ⟨bytes', hbytes', -, hback⟩ := artifact_of_isData h.ordered
    (isData_of_toArtifact hbytes h.short) h.kept h.marked h.inner
  obtain rfl : bytes' = bytes := Except.ok.inj (hbytes'.symm.trans hbytes)
  exact hback

end Value

/-- A table with an absent cell. -/
def flagTable : Table := ⟨[⟨"flag", .flags [some true, none], true⟩], 2⟩

theorem keepsTable_flagTable : Primitives.standard.KeepsTable flagTable := by
  unfold Primitives.KeepsTable
  decide +kernel

end NodePipeline
