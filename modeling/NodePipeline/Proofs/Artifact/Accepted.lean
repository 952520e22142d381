import NodePipeline.Proofs.Artifact.Reading
import NodePipeline.Proofs.Artifact.Overlong

/-!
# Accepted artifacts

Reading takes far more spellings than writing makes. Whatever is accepted is data within the
bounds of the format: its lengths came from lengths of four bytes, its dictionaries were put
in order, and every list and dictionary of it took two levels of the message or more. So it
can be stored, and what is stored then is accepted again.
-/

namespace NodePipeline

namespace Stored

/-! ## Members of lists and dictionaries -/

theorem fitsItems_iff {items : List Stored} : FitsItems items ↔ ∀ s ∈ items, s.Fits := by
  induction items with
  | nil => simp [FitsItems]
  | cons item rest ih => rw [FitsItems, ih, List.forall_mem_cons]

theorem fitsEntries_iff {entries : List (String × Stored)} :
    FitsEntries entries ↔ ∀ e ∈ entries, e.1.utf8ByteSize < 2 ^ 32 ∧ e.2.Fits := by
  induction entries with
  | nil => simp [FitsEntries]
  | cons entry rest ih => rw [FitsEntries, ih, List.forall_mem_cons, and_assoc]

theorem heightOfItems_le_iff {items : List Stored} {limit : Nat} :
    heightOfItems items ≤ limit ↔ ∀ s ∈ items, s.height ≤ limit := by
  induction items with
  | nil => simp [heightOfItems]
  | cons item rest ih => rw [heightOfItems, Nat.max_le, ih, List.forall_mem_cons]

theorem heightOfEntries_le_iff {entries : List (String × Stored)} {limit : Nat} :
    heightOfEntries entries ≤ limit ↔ ∀ e ∈ entries, e.2.height ≤ limit := by
  induction entries with
  | nil => simp [heightOfEntries]
  | cons entry rest ih => rw [heightOfEntries, Nat.max_le, ih, List.forall_mem_cons]

/-! ## Parts of a message -/

theorem length_of_textOf? {m : Msg} {s : String} (h : textOf? m = some s) (hm : m.Fits) :
    s.utf8ByteSize < 2 ^ 32 := by
  unfold textOf? at h
  split at h
  · next bytes =>
      rw [← Bytes.length_ofString, Bytes.ofString_of_toString? h]
      exact hm
  · next bytes =>
      rw [← Bytes.length_ofString, Bytes.ofString_of_toString? h]
      exact hm
  · cases h

theorem length_of_tableBytesOf? {held : Bool} {m : Msg} {bytes : Bytes}
    (h : tableBytesOf? held m = some bytes) (hm : m.Fits) : bytes.length < 2 ^ 32 := by
  unfold tableBytesOf? at h
  split at h
  · next items =>
      rw [(mapM_eq_some h).1]
      exact hm.1
  · split at h
    · cases h
    · obtain rfl := Option.some.inj h
      exact hm
  · cases h

/-- The fields that are taken from a map are values of the map. -/
theorem fieldsOf?_sound {held : Bool} {names : List String} {entries : List (Msg × Msg)}
    {fields : List (Nat × Msg)} (h : fieldsOf? held names entries = some fields) :
    ∀ f ∈ fields, ∃ key, (key, f.2) ∈ entries := by
  induction entries generalizing fields with
  | nil =>
      obtain rfl := Option.some.inj h
      exact fun f hf => nomatch hf
  | cons entry rest ih =>
      obtain ⟨key, value⟩ := entry
      obtain ⟨place, -, h⟩ := Option.bind_eq_some_iff.1 h
      obtain ⟨more, hmore, h⟩ := Option.bind_eq_some_iff.1 h
      obtain rfl := Option.some.inj h
      intro f hf
      have hrest (hf : f ∈ more) : ∃ other, (other, f.2) ∈ (key, value) :: rest :=
        (ih hmore f hf).imp fun _ => List.mem_cons_of_mem _
      cases place with
      | none => exact hrest hf
      | some i =>
          rcases List.mem_cons.1 hf with heq | hf
          · exact ⟨key, heq ▸ List.mem_cons_self⟩
          · exact hrest hf

/-- A message that is part of an array or a map fits, and nests less deep. -/
def PartOf (m whole : Msg) : Prop := m.Fits ∧ m.depth + 1 ≤ whole.depth

theorem partOf_arr {m : Msg} {items : List Msg} (hitems : (Msg.arr items).Fits) (hm : m ∈ items) :
    PartOf m (.arr items) :=
  ⟨Msg.fitsItems_iff.1 hitems.2 m hm,
    Nat.succ_le_succ (Msg.depthOfItems_le_iff.1 (Nat.le_refl _) m hm)⟩

theorem partOf_map {e : Msg × Msg} {entries : List (Msg × Msg)}
    (hentries : (Msg.map entries).Fits) (he : e ∈ entries) :
    PartOf e.1 (.map entries) ∧ PartOf e.2 (.map entries) := by
  obtain ⟨hkey, hvalue⟩ := Msg.fitsEntries_iff.1 hentries.2 e he
  obtain ⟨hkeyDepth, hvalueDepth⟩ := Msg.depthOfEntries_le_iff.1 (Nat.le_refl _) e he
  exact ⟨⟨hkey, Nat.succ_le_succ hkeyDepth⟩, ⟨hvalue, Nat.succ_le_succ hvalueDepth⟩⟩

theorem partOf_field {held : Bool} {names : List String} {entries : List (Msg × Msg)}
    {fields : List (Nat × Msg)} (hentries : (Msg.map entries).Fits)
    (h : fieldsOf? held names entries = some fields) :
    ∀ f ∈ fields, PartOf f.2 (.map entries) := by
  intro f hf
  obtain ⟨key, hkey⟩ := fieldsOf?_sound h f hf
  exact (partOf_map hentries hkey).2

theorem partsOf?_sound {held : Bool} {m : Msg} {parts : Parts} (h : partsOf? held m = some parts)
    (hm : m.Fits) : PartOf parts.contents m := by
  unfold partsOf? at h
  split at h
  · obtain ⟨fields, hfields, h⟩ := Option.bind_eq_some_iff.1 h
    have hpart := partOf_field hm hfields
    split at h
    · obtain ⟨tag, -, h⟩ := Option.bind_eq_some_iff.1 h
      split at h
      · obtain rfl := Option.some.inj h
        exact ⟨trivial, Nat.le_add_left 1 _⟩
      · cases h
    · obtain ⟨tag, -, h⟩ := Option.bind_eq_some_iff.1 h
      obtain rfl := Option.some.inj h
      exact hpart _ (List.mem_cons_of_mem _ List.mem_cons_self)
    · obtain ⟨tag, -, h⟩ := Option.bind_eq_some_iff.1 h
      obtain rfl := Option.some.inj h
      exact hpart _ List.mem_cons_self
    · cases h
  · obtain ⟨tag, -, h⟩ := Option.bind_eq_some_iff.1 h
    obtain rfl := Option.some.inj h
    exact partOf_arr hm (List.mem_cons_of_mem _ List.mem_cons_self)
  · cases h

/-! ## Messages of stored values -/

/-- A stored value that fits, and that a message of the given depth has room for. -/
def FitsIn (s : Stored) (depth : Nat) : Prop := s.Fits ∧ 2 * s.height + 1 ≤ depth

theorem FitsIn.mono {s : Stored} {depth depth' : Nat} (h : s.FitsIn depth)
    (hle : depth ≤ depth') : s.FitsIn depth' := ⟨h.1, Nat.le_trans h.2 hle⟩

/-- A list takes two levels more than its items. -/
theorem FitsIn.list {items : List Stored} {depth : Nat} (hlen : items.length < 2 ^ 32)
    (h : ∀ s ∈ items, s.FitsIn depth) : (Stored.list items).FitsIn (depth + 2) := by
  refine ⟨⟨hlen, fitsItems_iff.2 fun s hs => (h s hs).1⟩, ?_⟩
  cases items with
  | nil => exact Nat.le_add_left 1 (depth + 1)
  | cons item rest =>
      -- Halving rounds down, which is right only because an item leaves room for one level.
      have hitem := (h item List.mem_cons_self).2
      have hall : heightOfItems (item :: rest) ≤ (depth - 1) / 2 := by
        rw [heightOfItems_le_iff]
        intro s hs
        have hs := (h s hs).2
        omega
      rw [height]
      omega

/-- Putting entries in order keeps what fits of them; an entry may be lost to a later one. -/
theorem FitsIn.dict {entries : List (String × Stored)} {depth : Nat}
    (hlen : entries.length < 2 ^ 32)
    (h : ∀ e ∈ entries, e.1.utf8ByteSize < 2 ^ 32 ∧ e.2.FitsIn depth) :
    (Stored.dict (Entries.ofList entries)).FitsIn (depth + 2) := by
  have hmem : ∀ e ∈ Entries.ofList entries, e.1.utf8ByteSize < 2 ^ 32 ∧ e.2.FitsIn depth :=
    fun e he => h e (Entries.mem_of_mem_ofList he)
  have hlen' := Nat.lt_of_le_of_lt (Entries.length_ofList_le entries) hlen
  have hsorted := Entries.ofList_sorted entries
  -- Of the map nothing else counts from here on, so it is one list of entries like another.
  generalize Entries.ofList entries = es at hmem hlen' hsorted
  refine ⟨⟨hlen', hsorted, fitsEntries_iff.2 fun e he => ⟨(hmem e he).1, (hmem e he).2.1⟩⟩, ?_⟩
  cases es with
  | nil => exact Nat.le_add_left 1 (depth + 1)
  | cons entry rest =>
      have hentry := (hmem entry List.mem_cons_self).2.2
      have hall : heightOfEntries (entry :: rest) ≤ (depth - 1) / 2 := by
        rw [heightOfEntries_le_iff]
        intro e he
        have he := (hmem e he).2.2
        omega
      rw [height]
      omega

section Parts

variable {read : Msg → Option Stored}
  (hread : ∀ {m : Msg} {s : Stored}, read m = some s → m.Fits → s.FitsIn m.depth)

include hread

theorem items_fitIn {items : List Msg} {ss : List Stored} (hfits : (Msg.arr items).Fits)
    (h : items.mapM read = some ss) :
    ss.length < 2 ^ 32 ∧ ∀ s ∈ ss, s.FitsIn (Msg.depthOfItems items) := by
  obtain ⟨hlen, hmem⟩ := mapM_eq_some h
  refine ⟨hlen ▸ hfits.1, fun s hs => ?_⟩
  obtain ⟨item, hitem, hof⟩ := hmem s hs
  obtain ⟨hfitsItem, hdepthItem⟩ := partOf_arr hfits hitem
  exact (hread hof hfitsItem).mono (Nat.le_of_succ_le_succ hdepthItem)

theorem entries_fitIn {entries : List (Msg × Msg)} {es : List (String × Stored)}
    (hfits : (Msg.map entries).Fits)
    (h : (entries.mapM fun (key, item) => do return (← textOf? key, ← read item)) = some es) :
    es.length < 2 ^ 32 ∧
      ∀ e ∈ es, e.1.utf8ByteSize < 2 ^ 32 ∧ e.2.FitsIn (Msg.depthOfEntries entries) := by
  obtain ⟨hlen, hmem⟩ := mapM_eq_some h
  refine ⟨hlen ▸ hfits.1, fun e he => ?_⟩
  obtain ⟨⟨key, item⟩, hentry, hof⟩ := hmem e he
  obtain ⟨text, htext, hof⟩ := Option.bind_eq_some_iff.1 hof
  obtain ⟨s, hs, hof⟩ := Option.bind_eq_some_iff.1 hof
  obtain rfl := Option.some.inj hof
  obtain ⟨⟨hfitsKey, -⟩, hfitsItem, hdepthItem⟩ := partOf_map hfits hentry
  exact ⟨length_of_textOf? htext hfitsKey,
    (hread hs hfitsItem).mono (Nat.le_of_succ_le_succ hdepthItem)⟩

end Parts

/-- **Every spelling takes the depth** that writing takes, or more. -/
theorem ofMsg_sound {fuel : Nat} {held : Bool} {m : Msg} {s : Stored}
    (h : ofMsg fuel held m = some s) (hm : m.Fits) : s.FitsIn m.depth := by
  induction fuel generalizing held m s with
  | zero => cases h
  | succ fuel ih =>
      rw [ofMsg] at h
      obtain ⟨⟨tag, contents, held'⟩, hparts, h⟩ := Option.bind_eq_some_iff.1 h
      obtain ⟨hfits, hdepth⟩ := partsOf?_sound hparts hm
      dsimp only at h hfits hdepth
      -- What is not a list or a dictionary needs the one level of its own message.
      have hflat : 2 * 0 + 1 ≤ m.depth := Nat.le_trans (Nat.le_add_left 1 _) hdepth
      split at h
      · obtain rfl := Option.some.inj h
        exact ⟨trivial, hflat⟩
      · obtain rfl := Option.some.inj h
        exact ⟨trivial, hflat⟩
      · obtain ⟨i, -, h⟩ := Option.bind_eq_some_iff.1 h
        obtain rfl := Option.some.inj h
        exact ⟨trivial, hflat⟩
      · obtain ⟨x, -, h⟩ := Option.bind_eq_some_iff.1 h
        obtain rfl := Option.some.inj h
        exact ⟨trivial, hflat⟩
      · obtain ⟨s, hs, h⟩ := Option.bind_eq_some_iff.1 h
        obtain rfl := Option.some.inj h
        exact ⟨length_of_textOf? hs hfits, hflat⟩
      · next items =>
          obtain ⟨ss, hss, h⟩ := Option.bind_eq_some_iff.1 h
          obtain rfl := Option.some.inj h
          obtain ⟨hlen, hitems⟩ := items_fitIn ih hfits hss
          exact (FitsIn.list hlen hitems).mono hdepth
      · split at h
        · cases h
        · obtain rfl := Option.some.inj h
          exact ⟨⟨by decide, trivial⟩, hflat⟩
      · next entries =>
          obtain ⟨es, hes, h⟩ := Option.bind_eq_some_iff.1 h
          obtain rfl := Option.some.inj h
          obtain ⟨hlen, hentries⟩ := entries_fitIn ih hfits hes
          exact (FitsIn.dict hlen hentries).mono hdepth
      · obtain ⟨bytes, hbytes, h⟩ := Option.bind_eq_some_iff.1 h
        obtain rfl := Option.some.inj h
        exact ⟨length_of_tableBytesOf? hbytes hfits, hflat⟩
      · cases h

theorem openEnvelope?_sound {m value : Msg} {version : Nat}
    (h : openEnvelope? m = some (version, value)) (hm : m.Fits) : PartOf value m := by
  unfold openEnvelope? at h
  split at h
  · obtain ⟨fields, hfields, h⟩ := Option.bind_eq_some_iff.1 h
    have hpart := partOf_field hm hfields
    split at h
    · obtain ⟨number, -, h⟩ := Option.bind_eq_some_iff.1 h
      obtain ⟨-, rfl⟩ := Prod.mk.inj (Option.some.inj h)
      exact hpart _ (List.mem_cons_of_mem _ List.mem_cons_self)
    · obtain ⟨number, -, h⟩ := Option.bind_eq_some_iff.1 h
      obtain ⟨-, rfl⟩ := Prod.mk.inj (Option.some.inj h)
      exact hpart _ List.mem_cons_self
    · cases h
  · obtain ⟨number, -, h⟩ := Option.bind_eq_some_iff.1 h
    obtain ⟨-, rfl⟩ := Prod.mk.inj (Option.some.inj h)
    exact partOf_arr hm (List.mem_cons_of_mem _ List.mem_cons_self)
  · cases h

/-- What an envelope is read as fits, and nests no deeper than can be read back. -/
theorem read?_sound {bytes : Bytes} {version : Nat} {s : Stored}
    (h : read? bytes = some (version, s)) : s.Fits ∧ s.height ≤ 510 := by
  obtain ⟨⟨m, rest⟩, hm, h⟩ := Option.bind_eq_some_iff.1 h
  obtain ⟨⟨version', value⟩, hvalue, h⟩ := Option.bind_eq_some_iff.1 h
  obtain ⟨s', hs, h⟩ := Option.bind_eq_some_iff.1 h
  obtain ⟨-, rfl⟩ := Prod.mk.inj (Option.some.inj h)
  obtain ⟨hfits, hdepth⟩ := Msg.read_sound hm
  obtain ⟨hfitsValue, hdepthValue⟩ := openEnvelope?_sound hvalue hfits
  obtain ⟨hfitsStored, hheight⟩ := ofMsg_sound hs hfitsValue
  refine ⟨hfitsStored, ?_⟩
  -- The envelope takes one level of 1023, and a height of 511 would take 1023 more.
  unfold depthLimit at hdepth
  omega

/-! ## Values of stored values -/

mutual

theorem toValue_sound (s : Stored) {load : Bytes → Except TableFault Table} {v : Value}
    (h : s.toValue load = .ok v) (hs : s.Fits) :
    v.Ordered ∧ v.IsData (2 ^ 32) ∧ s.height = v.height ∧
      ∀ t ∈ v.tables, ∃ stored, load stored = .ok t := by
  cases s with
  | null | bool | int | float =>
      obtain rfl := Except.ok.inj h
      exact ⟨trivial, trivial, rfl, fun t ht => nomatch ht⟩
  | str s =>
      obtain rfl := Except.ok.inj h
      exact ⟨trivial, hs, rfl, fun t ht => nomatch ht⟩
  | list items =>
      obtain ⟨vs, hvs, rfl⟩ := map_eq_ok.1 h
      obtain ⟨hlen, hord, hdata, hheight, htables⟩ := toItems_sound items hvs hs.2
      exact ⟨hord, ⟨hlen ▸ hs.1, hdata⟩, height_list_eq hlen hheight, htables⟩
  | dict entries =>
      obtain ⟨vs, hvs, rfl⟩ := map_eq_ok.1 h
      obtain ⟨hnames, hord, hdata, hheight, htables⟩ := toEntries_sound entries hvs hs.2.2
      have hlen : entries.length = vs.length := by
        rw [← List.length_map (f := Prod.fst), hnames, List.length_map]
      refine ⟨⟨?_, hord⟩, ⟨hlen ▸ hs.1, hdata⟩, height_dict_eq hlen hheight, htables⟩
      unfold Entries.Sorted Entries.names
      rw [← hnames]
      exact hs.2.1
  | table bytes =>
      rw [toValue] at h
      split at h
      · next t ht =>
          obtain rfl := Except.ok.inj h
          refine ⟨trivial, trivial, rfl, fun t' ht' => ⟨bytes, ?_⟩⟩
          rw [List.mem_singleton.1 ht', ht]
      · cases h
termination_by structural s

theorem toItems_sound (items : List Stored) {load : Bytes → Except TableFault Table}
    {vs : List Value} (h : toItems load items = .ok vs) (hitems : FitsItems items) :
    items.length = vs.length ∧ Value.OrderedItems vs ∧ Value.IsDataItems (2 ^ 32) vs ∧
      heightOfItems items = Value.heightOfItems vs ∧
      ∀ t ∈ Value.tablesOfItems vs, ∃ stored, load stored = .ok t := by
  cases items with
  | nil =>
      obtain rfl := Except.ok.inj h
      exact ⟨rfl, trivial, trivial, rfl, fun t ht => nomatch ht⟩
  | cons item rest =>
      obtain ⟨v, hv, h⟩ := bind_eq_ok.1 h
      obtain ⟨more, hmore, h⟩ := bind_eq_ok.1 h
      obtain rfl := Except.ok.inj h
      obtain ⟨hord, hdata, hheight, htables⟩ := toValue_sound item hv hitems.1
      obtain ⟨hlen, hordRest, hdataRest, hheightRest, htablesRest⟩ :=
        toItems_sound rest hmore hitems.2
      refine ⟨congrArg (· + 1) hlen, ⟨hord, hordRest⟩, ⟨hdata, hdataRest⟩, ?_, ?_⟩
      · rw [heightOfItems, Value.heightOfItems, hheight, hheightRest]
      · exact List.forall_mem_append.2 ⟨htables, htablesRest⟩
termination_by structural items

theorem toEntries_sound (entries : List (String × Stored))
    {load : Bytes → Except TableFault Table} {vs : List (String × Value)}
    (h : toEntries load entries = .ok vs) (hentries : FitsEntries entries) :
    entries.map Prod.fst = vs.map Prod.fst ∧ Value.OrderedEntries vs ∧
      Value.IsDataEntries (2 ^ 32) vs ∧ heightOfEntries entries = Value.heightOfEntries vs ∧
      ∀ t ∈ Value.tablesOfEntries vs, ∃ stored, load stored = .ok t := by
  cases entries with
  | nil =>
      obtain rfl := Except.ok.inj h
      exact ⟨rfl, trivial, trivial, rfl, fun t ht => nomatch ht⟩
  | cons entry rest =>
      obtain ⟨key, item⟩ := entry
      obtain ⟨v, hv, h⟩ := bind_eq_ok.1 h
      obtain ⟨more, hmore, h⟩ := bind_eq_ok.1 h
      obtain rfl := Except.ok.inj h
      obtain ⟨hord, hdata, hheight, htables⟩ := toValue_sound item hv hentries.2.1
      obtain ⟨hnames, hordRest, hdataRest, hheightRest, htablesRest⟩ :=
        toEntries_sound rest hmore hentries.2.2
      refine ⟨?_, ⟨hord, hordRest⟩, ⟨hentries.1, hdata, hdataRest⟩, ?_, ?_⟩
      · rw [List.map_cons, hnames, List.map_cons]
      · rw [heightOfEntries, Value.heightOfEntries, hheight, hheightRest]
      · exact List.forall_mem_append.2 ⟨htables, htablesRest⟩
termination_by structural entries

end

end Stored

/-! ## Accepted values -/

/-- What is known of a value that an artifact was read as. -/
structure Value.Accepted (p : Primitives) (v : Value) : Prop where
  ordered : v.Ordered
  data : v.IsData (2 ^ 32)
  height : v.height ≤ 510
  tables : ∀ t ∈ v.tables, ∃ stored, p.readTable stored = .ok t

namespace Value

variable {p : Primitives}

theorem accepted_of_readEnvelope {bytes : Bytes} {v : Value}
    (h : readEnvelope p bytes = .ok v) : v.Accepted p := by
  unfold readEnvelope at h
  split at h
  · cases h
  · next version stored hread =>
      split at h
      · cases h
      · split at h
        · next hload =>
            obtain rfl := Except.ok.inj h
            obtain ⟨hfits, hheight⟩ := Stored.read?_sound hread
            obtain ⟨hord, hdata, heq, htables⟩ := Stored.toValue_sound stored hload hfits
            exact ⟨hord, hdata, heq ▸ hheight, htables⟩
        · cases h

theorem accepted_of_ofArtifact {bytes : Bytes} {v : Value}
    (h : ofArtifact p bytes = .ok v) : v.Accepted p := by
  obtain ⟨format, -, h⟩ := bind_eq_ok.1 h
  cases format with
  | arrow =>
      obtain ⟨t, ht, h⟩ := bind_eq_ok.1 h
      obtain rfl := Except.ok.inj h
      refine ⟨trivial, trivial, Nat.zero_le _, fun t' ht' => ⟨bytes, ?_⟩⟩
      obtain rfl := List.mem_singleton.1 ht'
      unfold readTable at ht
      split at ht
      · next hread => rw [hread, Except.ok.inj ht]
      · cases ht
  | messagePack => exact accepted_of_readEnvelope h

theorem Accepted.ofArtifact_eq {v : Value} {bytes : Bytes} (h : v.Accepted p)
    (hbytes : v.toArtifact p = .ok bytes)
    (htables : ∀ t ∈ v.tables, p.KeepsTable t ∧ ArrowStream.marker <+: p.writeTable t)
    (hinner : ∀ t ∈ v.innerTables, (p.writeTable t).length < 2 ^ 32) :
    ofArtifact p bytes = .ok v := by
  obtain ⟨bytes', hbytes', -, hback⟩ := artifact_of_isData h.ordered h.data
    (fun t ht => (htables t ht).1) (fun t ht => (htables t ht).2) hinner
  obtain rfl : bytes' = bytes := Except.ok.inj (hbytes'.symm.trans hbytes)
  rw [hback, if_pos h.height]

end Value

/-- **Accepted artifacts are in reach of writing.** Whatever bytes are decoded, in whatever
spelling, the value holds no function and no pipeline, all its tables are decoded ones, it can
be stored, and what is stored then is decoded to the same value. The last takes of the
format of tables that it keeps the tables of this value and begins with the marker, and that
inside of other values they are no longer than an array can be. -/
theorem accepted_artifact_is_stored_again (p : Primitives) {bytes : Bytes} {v : Value}
    (h : Value.ofArtifact p bytes = .ok v) :
    (∀ w, Value.Occurs w v → w.kind ≠ .function ∧ w.kind ≠ .pipeline) ∧
    (∀ t ∈ v.tables, ∃ stored, p.readTable stored = .ok t) ∧
    ∃ again, v.toArtifact p = .ok again ∧
      ((∀ t ∈ v.tables, p.KeepsTable t ∧ ArrowStream.marker <+: p.writeTable t) →
        (∀ t ∈ v.innerTables, (p.writeTable t).length < 2 ^ 32) →
        Value.ofArtifact p again = .ok v) := by
  have haccepted := Value.accepted_of_ofArtifact h
  obtain ⟨again, hagain⟩ := Value.exists_toArtifact (p := p) haccepted.data
  exact ⟨fun w hw => (haccepted.data.of_occurs hw).kind_ne, haccepted.tables, again, hagain,
    haccepted.ofArtifact_eq hagain⟩

/-- An envelope and values as arrays, wide numbers, tags and field names by their places,
contents before their tag, a whole number for a float, a key and a table as binary, a key that
comes twice, an unknown field, and a byte behind it all. -/
def foreignArtifact : Bytes :=
  Msg.write (.arr [.unsigned 2 1, .arr [.unsigned 1 6, .map [
    (.bin (Bytes.ofString "n"), .arr [.ofText "Null", .nil]),
    (.ofText "t", .arr [.unsigned 4 7, .bin (ArrowStream.write flagTable)]),
    (.ofText "n", .map [(.ofText "v", .signed 8 7), (.ofText "note", .ext),
      (.ofText "t", .ofText "Int")]),
    (.ofText "x", .map [(.unsigned 1 0, .unsigned 1 3), (.unsigned 1 1, .unsigned 2 3)])]]])
  ++ [0]

def foreignValue : Value :=
  .dict [("n", .int 7), ("t", .table flagTable), ("x", .float ⟨0x4008000000000000⟩)]

theorem foreign_artifact_is_stored_again :
    Value.ofArtifact .standard foreignArtifact = .ok foreignValue ∧
    ∃ again, foreignValue.toArtifact .standard = .ok again ∧ again ≠ foreignArtifact ∧
      Value.ofArtifact .standard again = .ok foreignValue := by
  have hread : Value.ofArtifact .standard foreignArtifact = .ok foreignValue := by decide +kernel
  have htables : ∀ t ∈ foreignValue.tables, t = flagTable := fun t ht => List.mem_singleton.1 ht
  obtain ⟨-, -, again, hagain, hback⟩ := accepted_artifact_is_stored_again .standard hread
  refine ⟨hread, again, hagain, ?_, hback (fun t ht => ?_) fun t ht => ?_⟩
  · rintro rfl
    exact absurd hagain (by decide +kernel)
  · obtain rfl := htables t ht
    exact ⟨keepsTable_flagTable, by decide +kernel⟩
  · obtain rfl := htables t ht
    decide +kernel

/-- The same primitives, with a format that takes no table that it would not read back. -/
def Primitives.faithful : Primitives :=
  { Primitives.standard with
    readTable := fun bytes =>
      match ArrowStream.read bytes with
      | .ok t =>
          if ArrowStream.read (ArrowStream.write t) = .ok t then .ok t
          else .error (.batch "not read back")
      | .error fault => .error fault }

theorem Primitives.readTable_faithful {bytes : Bytes} {t : Table}
    (hread : ArrowStream.read bytes = .ok t)
    (hback : ArrowStream.read (ArrowStream.write t) = .ok t) :
    Primitives.faithful.readTable bytes = .ok t := by
  simp only [Primitives.faithful, hread, hback, if_true]

theorem Primitives.keepsTable_faithful {bytes : Bytes} {t : Table}
    (h : Primitives.faithful.readTable bytes = .ok t) : Primitives.faithful.KeepsTable t := by
  simp only [Primitives.faithful] at h
  split at h
  · split at h
    · next hback =>
        obtain rfl := Except.ok.inj h
        exact readTable_faithful hback hback
    · cases h
  · cases h

/-- A stream of announced records inside a list. -/
def recordsArtifact : Bytes :=
  (Stored.list [.table (ArrowStream.recordsStream ArrowStream.overlongRows [])]).envelope.write

def recordsValue : Value := .list [.table (ArrowStream.emptyRecords ArrowStream.overlongRows)]

/-- **A table can outgrow the array it is stored as.** The format keeps every table that it
takes, an artifact is decoded, and what is stored then is refused: the table inside is four
gigabytes long, its array spells a length of zero, and no bytes are no table. -/
theorem overlong_table_is_lost :
    (∀ bytes t, Primitives.faithful.readTable bytes = .ok t →
      Primitives.faithful.KeepsTable t ∧ ArrowStream.marker <+: Primitives.faithful.writeTable t) ∧
    Value.ofArtifact .faithful recordsArtifact = .ok recordsValue ∧
    ∃ again, recordsValue.toArtifact .faithful = .ok again ∧
      (Stored.list [.table []]).envelope.write <+: again ∧
      Value.ofArtifact .faithful again = .error (.corrupt none (.invalidStream "no message")) := by
  refine ⟨fun bytes t h => ⟨Primitives.keepsTable_faithful h, ArrowStream.marker_prefix_write t⟩,
    ?_, (Stored.list [.table (ArrowStream.write _)]).envelope.write, rfl, ?_, ?_⟩
  · have hlen : (ArrowStream.recordsStream ArrowStream.overlongRows []).length = 288 :=
      ArrowStream.length_recordsStream ArrowStream.legible_overlongRows.1
    have hcut : (ArrowStream.recordsStream ArrowStream.overlongRows []).take
        (Msg.spelledLength (ArrowStream.recordsStream ArrowStream.overlongRows []).length)
        = ArrowStream.recordsStream ArrowStream.overlongRows [] := by
      rw [hlen]
      exact List.take_of_length_le (Nat.le_of_eq hlen)
    have hread := Primitives.readTable_faithful ArrowStream.read_announced
      ArrowStream.read_write_overlong
    rw [recordsArtifact, Value.ofArtifact_cut, hcut, hread]
    rfl
  · obtain ⟨rest, hrest⟩ := Stored.write_envelope_cut
      (ArrowStream.write (ArrowStream.emptyRecords ArrowStream.overlongRows))
    rw [ArrowStream.length_write_overlong] at hrest
    exact ⟨rest, hrest.symm⟩
  · rw [Value.ofArtifact_cut, ArrowStream.length_write_overlong]
    rfl

end NodePipeline
