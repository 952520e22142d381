import NodePipeline.Artifact.Stored
import NodePipeline.Proofs.Artifact.MessagePack
import NodePipeline.Proofs.Bindings

/-!
# Reading stored values

A stored value is read back from its message, and from the bytes of its envelope
exactly if its lists and dictionaries nest at most 510 deep: each of them takes two
levels of the message, and the reader stops at 1023.
-/

namespace NodePipeline.Stored

/-! ## Stored values that have a message -/

mutual

/-- Lengths fit into four bytes, and dictionaries are ordered. -/
def Fits : Stored → Prop
  | .str s => s.utf8ByteSize < 2 ^ 32
  | .list items => items.length < 2 ^ 32 ∧ FitsItems items
  | .dict entries =>
      entries.length < 2 ^ 32 ∧ Entries.Sorted entries ∧ FitsEntries entries
  | .table bytes => bytes.length < 2 ^ 32
  | _ => True

def FitsItems : List Stored → Prop
  | [] => True
  | item :: rest => Fits item ∧ FitsItems rest

def FitsEntries : List (String × Stored) → Prop
  | [] => True
  | (key, item) :: rest => key.utf8ByteSize < 2 ^ 32 ∧ Fits item ∧ FitsEntries rest

end

mutual

/-- How deep lists and dictionaries with contents nest. -/
def height : Stored → Nat
  | .list [] => 0
  | .list (item :: rest) => heightOfItems (item :: rest) + 1
  | .dict [] => 0
  | .dict (entry :: rest) => heightOfEntries (entry :: rest) + 1
  | _ => 0

def heightOfItems : List Stored → Nat
  | [] => 0
  | item :: rest => max (height item) (heightOfItems rest)

def heightOfEntries : List (String × Stored) → Nat
  | [] => 0
  | (_, item) :: rest => max (height item) (heightOfEntries rest)

end

/-! ## Numbers and texts -/

theorem fits_ofText {s : String} (h : s.utf8ByteSize < 2 ^ 32) : (Msg.ofText s).Fits := by
  show (Bytes.ofString s).length < 2 ^ 32
  rwa [Bytes.length_ofString]

theorem fits_ofInt {i : Int} (hlow : -(2 ^ 63) ≤ i) (hhigh : i < 2 ^ 63) : (Msg.ofInt i).Fits := by
  unfold Msg.ofInt
  split
  · split
    · exact ⟨by simp, by omega⟩
    · split
      · exact ⟨by simp, by omega⟩
      · split
        · exact ⟨by simp, by omega⟩
        · exact ⟨by simp, by omega⟩
  · split
    · exact ⟨by simp, by omega, by omega⟩
    · split
      · exact ⟨by simp, by omega, by omega⟩
      · split
        · exact ⟨by simp, by omega, by omega⟩
        · exact ⟨by simp, by omega, by omega⟩

theorem depth_ofInt (i : Int) : (Msg.ofInt i).depth = 0 := by
  unfold Msg.ofInt
  repeat' split
  all_goals rfl

theorem intOf?_ofInt (i : Int) : intOf? (Msg.ofInt i) = some i := by
  unfold Msg.ofInt
  repeat' split
  all_goals simp only [intOf?, Option.some.injEq]
  all_goals omega

-- From here on the form of a number counts no more, only what was shown of it. Unfolding it
-- would compare numbers with the bounds of the forms one by one.
attribute [local irreducible] Msg.ofInt

theorem int64Of?_ofInt (i : Int64) : int64Of? (Msg.ofInt i.toInt) = some i := by
  have hlow := i.le_toInt
  have hhigh := i.toInt_lt
  unfold int64Of?
  rw [intOf?_ofInt]
  simp only [bind, Option.bind]
  rw [if_pos ⟨by omega, by omega⟩, Int64.ofInt_toInt]

theorem byteOf?_ofInt (b : UInt8) : byteOf? (Msg.ofInt b.toNat) = some b := by
  have hbyte := b.toNat_lt
  unfold byteOf?
  rw [intOf?_ofInt]
  simp only [bind, Option.bind]
  rw [if_pos ⟨by omega, by omega⟩, Int.toNat_natCast, UInt8.ofNat_toNat]

theorem textOf?_ofText (s : String) : textOf? (Msg.ofText s) = some s := Bytes.toString?_ofString s

theorem tableBytesOf?_ofBytes (bytes : Bytes) :
    tableBytesOf? false (.arr (bytes.map fun b => .ofInt b.toNat)) = some bytes := by
  show (bytes.map fun b => Msg.ofInt b.toNat).mapM byteOf? = some bytes
  induction bytes with
  | nil => rfl
  | cons b rest ih =>
      rw [List.map_cons, List.mapM_cons, byteOf?_ofInt, ih]
      rfl

/-! ## Tags -/

theorem mapTagOf?_name (tag : Tag) : mapTagOf? false (.ofText tag.name) = some tag := by
  cases tag <;> decide +kernel

theorem partsOf?_tagged (tag : Tag) (contents : Msg) :
    partsOf? false (tagged tag contents) = some ⟨tag, contents, false⟩ := by
  have ht : nameOf? false ["t", "v"] (.ofText "t") = some (some 0) := by decide +kernel
  have hv : nameOf? false ["t", "v"] (.ofText "v") = some (some 1) := by decide +kernel
  simp only [tagged, partsOf?, fieldsOf?, ht, hv, bind, Option.bind, pure, mapTagOf?_name]

theorem partsOf?_null : partsOf? false (toMsg .null) = some ⟨.null, .nil, false⟩ := by
  have ht : nameOf? false ["t", "v"] (.ofText "t") = some (some 0) := by decide +kernel
  simp only [toMsg, partsOf?, fieldsOf?, ht, bind, Option.bind, pure, mapTagOf?_name, if_true]

/-! ## Messages of stored values -/

theorem fits_tagged (tag : Tag) {contents : Msg} (h : contents.Fits) :
    (tagged tag contents).Fits := by
  have ht : (Msg.ofText "t").Fits := fits_ofText (by decide +kernel)
  have hv : (Msg.ofText "v").Fits := fits_ofText (by decide +kernel)
  have hname : (Msg.ofText tag.name).Fits := fits_ofText (by cases tag <;> decide +kernel)
  exact ⟨by simp, ht, hname, hv, h, trivial⟩

theorem depth_tagged (tag : Tag) (contents : Msg) :
    (tagged tag contents).depth = contents.depth + 1 := by
  simp only [tagged, Msg.depth, Msg.depthOfEntries, Msg.ofText, Nat.max_zero, Nat.zero_max]

theorem fitsItems_bytes (bytes : Bytes) :
    Msg.FitsItems (bytes.map fun b => .ofInt b.toNat) := by
  induction bytes with
  | nil => trivial
  | cons b rest ih =>
      have hb := b.toNat_lt
      have hfits : (Msg.ofInt b.toNat).Fits := fits_ofInt (by omega) (by omega)
      rw [List.map_cons, Msg.FitsItems]
      exact ⟨hfits, ih⟩

theorem depthOfItems_bytes (bytes : Bytes) :
    Msg.depthOfItems (bytes.map fun b => .ofInt b.toNat) = 0 := by
  induction bytes with
  | nil => rfl
  | cons b rest ih =>
      rw [List.map_cons, Msg.depthOfItems, ih, depth_ofInt]
      rfl

theorem length_itemMsgs (items : List Stored) : (itemMsgs items).length = items.length := by
  induction items with
  | nil => rfl
  | cons item rest ih => rw [itemMsgs, List.length_cons, ih, List.length_cons]

theorem length_entryMsgs (entries : List (String × Stored)) :
    (entryMsgs entries).length = entries.length := by
  induction entries with
  | nil => rfl
  | cons entry rest ih => rw [entryMsgs, List.length_cons, ih, List.length_cons]

mutual

theorem fits_toMsg (s : Stored) (hs : s.Fits) : s.toMsg.Fits := by
  cases s with
  | null =>
      exact ⟨by decide, fits_ofText (by decide +kernel), fits_ofText (by decide +kernel), trivial⟩
  | bool b => exact fits_tagged .bool trivial
  | int i => exact fits_tagged .int (fits_ofInt i.le_toInt i.toInt_lt)
  | float x => exact fits_tagged .float trivial
  | str s => exact fits_tagged .str (fits_ofText hs)
  | list items =>
      exact fits_tagged .list ⟨(length_itemMsgs items).symm ▸ hs.1, fitsItems_itemMsgs items hs.2⟩
  | dict entries =>
      exact fits_tagged .dict
        ⟨(length_entryMsgs entries).symm ▸ hs.1, fitsEntries_entryMsgs entries hs.2.2⟩
  | table bytes =>
      refine fits_tagged .table ⟨?_, fitsItems_bytes bytes⟩
      rw [List.length_map]
      exact hs
termination_by structural s

theorem fitsItems_itemMsgs (items : List Stored) (h : FitsItems items) :
    Msg.FitsItems (itemMsgs items) := by
  cases items with
  | nil => trivial
  | cons item rest => exact ⟨fits_toMsg item h.1, fitsItems_itemMsgs rest h.2⟩
termination_by structural items

theorem fitsEntries_entryMsgs (entries : List (String × Stored)) (h : FitsEntries entries) :
    Msg.FitsEntries (entryMsgs entries) := by
  cases entries with
  | nil => trivial
  | cons entry rest =>
      obtain ⟨key, item⟩ := entry
      exact ⟨fits_ofText h.1, fits_toMsg item h.2.1, fitsEntries_entryMsgs rest h.2.2⟩
termination_by structural entries

end

mutual

/-- **Depth of a message.** Each list and dictionary takes two levels, and what is
innermost takes one, or two if it is empty or a table. -/
theorem depth_toMsg (s : Stored) :
    2 * s.height + 1 ≤ s.toMsg.depth ∧ s.toMsg.depth ≤ 2 * s.height + 2 := by
  cases s with
  | null => decide +kernel
  | bool b =>
      rw [toMsg, depth_tagged]
      exact ⟨Nat.le_refl 1, Nat.le_succ 1⟩
  | int i =>
      rw [toMsg, depth_tagged, depth_ofInt]
      exact ⟨Nat.le_refl 1, Nat.le_succ 1⟩
  | float x =>
      rw [toMsg, depth_tagged]
      exact ⟨Nat.le_refl 1, Nat.le_succ 1⟩
  | str s =>
      rw [toMsg, depth_tagged]
      exact ⟨Nat.le_refl 1, Nat.le_succ 1⟩
  | list items =>
      rw [toMsg, depth_tagged, Msg.depth]
      cases items with
      | nil => exact ⟨Nat.le_succ 1, Nat.le_refl 2⟩
      | cons item rest =>
          obtain ⟨hlow, hhigh⟩ := depthOfItems_itemMsgs (item :: rest)
          have hlow := hlow (by simp)
          rw [height]
          omega
  | dict entries =>
      rw [toMsg, depth_tagged, Msg.depth]
      cases entries with
      | nil => exact ⟨Nat.le_succ 1, Nat.le_refl 2⟩
      | cons entry rest =>
          obtain ⟨hlow, hhigh⟩ := depthOfEntries_entryMsgs (entry :: rest)
          have hlow := hlow (by simp)
          rw [height]
          omega
  | table bytes =>
      rw [toMsg, depth_tagged, Msg.depth, depthOfItems_bytes]
      exact ⟨Nat.le_succ 1, Nat.le_refl 2⟩
termination_by structural s

theorem depthOfItems_itemMsgs (items : List Stored) :
    (items ≠ [] → 2 * heightOfItems items + 1 ≤ Msg.depthOfItems (itemMsgs items)) ∧
      Msg.depthOfItems (itemMsgs items) ≤ 2 * heightOfItems items + 2 := by
  cases items with
  | nil => exact ⟨fun h => absurd rfl h, Nat.zero_le _⟩
  | cons item rest =>
      obtain ⟨hlow, hhigh⟩ := depth_toMsg item
      obtain ⟨hlowRest, hhighRest⟩ := depthOfItems_itemMsgs rest
      rw [itemMsgs, Msg.depthOfItems, heightOfItems]
      refine ⟨fun _ => ?_, by omega⟩
      cases rest with
      | nil =>
          rw [heightOfItems]
          omega
      | cons next more =>
          have hlowRest := hlowRest (by simp)
          omega
termination_by structural items

theorem depthOfEntries_entryMsgs (entries : List (String × Stored)) :
    (entries ≠ [] → 2 * heightOfEntries entries + 1 ≤ Msg.depthOfEntries (entryMsgs entries)) ∧
      Msg.depthOfEntries (entryMsgs entries) ≤ 2 * heightOfEntries entries + 2 := by
  cases entries with
  | nil => exact ⟨fun h => absurd rfl h, Nat.zero_le _⟩
  | cons entry rest =>
      obtain ⟨key, item⟩ := entry
      obtain ⟨hlow, hhigh⟩ := depth_toMsg item
      obtain ⟨hlowRest, hhighRest⟩ := depthOfEntries_entryMsgs rest
      have hkey : (Msg.ofText key).depth = 0 := rfl
      rw [entryMsgs, Msg.depthOfEntries, heightOfEntries, hkey]
      refine ⟨fun _ => ?_, by omega⟩
      cases rest with
      | nil =>
          rw [heightOfEntries]
          omega
      | cons next more =>
          have hlowRest := hlowRest (by simp)
          omega
termination_by structural entries

end

/-! ## Back from messages -/

/-- An entry of a dictionary from its message. -/
def entryOf? (fuel : Nat) (entry : Msg × Msg) : Option (String × Stored) := do
  return (← textOf? entry.1, ← ofMsg fuel false entry.2)

mutual

/-- A stored value is read back from its message. -/
theorem ofMsg_toMsg (s : Stored) (hs : s.Fits) (fuel : Nat) (hfuel : s.height < fuel) :
    ofMsg fuel false s.toMsg = some s := by
  obtain ⟨fuel, rfl⟩ : ∃ n, fuel = n + 1 := ⟨fuel - 1, by omega⟩
  cases s with
  | null =>
      rw [ofMsg, partsOf?_null]
      rfl
  | bool b =>
      rw [toMsg, ofMsg, partsOf?_tagged]
      rfl
  | int i =>
      rw [toMsg, ofMsg, partsOf?_tagged]
      simp only [bind, Option.bind, int64Of?_ofInt, pure]
  | float x =>
      rw [toMsg, ofMsg, partsOf?_tagged]
      rfl
  | str s =>
      rw [toMsg, ofMsg, partsOf?_tagged]
      simp only [bind, Option.bind, textOf?_ofText, pure]
  | list items =>
      rw [toMsg, ofMsg, partsOf?_tagged]
      have hitems : heightOfItems items < fuel ∨ items = [] := by
        cases items with
        | nil => exact Or.inr rfl
        | cons item rest =>
            rw [height] at hfuel
            exact Or.inl (by omega)
      simp only [bind, Option.bind, mapM_itemMsgs items hs.2 fuel hitems, pure]
  | dict entries =>
      rw [toMsg, ofMsg, partsOf?_tagged]
      have hentries : heightOfEntries entries < fuel ∨ entries = [] := by
        cases entries with
        | nil => exact Or.inr rfl
        | cons entry rest =>
            rw [height] at hfuel
            exact Or.inl (by omega)
      show ((entryMsgs entries).mapM (entryOf? fuel)).bind (fun es =>
        some (dict (Entries.ofList es))) = _
      rw [mapM_entryMsgs entries hs.2.2 fuel hentries, Option.bind_some,
        Entries.ofList_eq_self hs.2.1]
  | table bytes =>
      rw [toMsg, ofMsg, partsOf?_tagged]
      simp only [bind, Option.bind, tableBytesOf?_ofBytes, pure]
termination_by structural s

theorem mapM_itemMsgs (items : List Stored) (h : FitsItems items) (fuel : Nat)
    (hfuel : heightOfItems items < fuel ∨ items = []) :
    (itemMsgs items).mapM (ofMsg fuel false) = some items := by
  cases items with
  | nil => rfl
  | cons item rest =>
      have hlt : max item.height (heightOfItems rest) < fuel := hfuel.resolve_right (by simp)
      rw [itemMsgs, List.mapM_cons, ofMsg_toMsg item h.1 fuel (by omega),
        mapM_itemMsgs rest h.2 fuel (Or.inl (by omega))]
      rfl
termination_by structural items

theorem mapM_entryMsgs (entries : List (String × Stored)) (h : FitsEntries entries) (fuel : Nat)
    (hfuel : heightOfEntries entries < fuel ∨ entries = []) :
    (entryMsgs entries).mapM (entryOf? fuel) = some entries := by
  cases entries with
  | nil => rfl
  | cons entry rest =>
      obtain ⟨key, item⟩ := entry
      have hlt : max item.height (heightOfEntries rest) < fuel := hfuel.resolve_right (by simp)
      rw [entryMsgs, List.mapM_cons, mapM_entryMsgs rest h.2.2 fuel (Or.inl (by omega)), entryOf?,
        textOf?_ofText, ofMsg_toMsg item h.2.1 fuel (by omega)]
      rfl
termination_by structural entries

end

/-! ## Envelopes -/

theorem fits_envelope {s : Stored} (hs : s.Fits) : s.envelope.Fits := by
  have hversion : (Msg.ofText "format_version").Fits := fits_ofText (by decide +kernel)
  have hvalue : (Msg.ofText "value").Fits := fits_ofText (by decide +kernel)
  have hnumber : (Msg.ofInt formatVersion).Fits := fits_ofInt (by decide) (by decide)
  exact ⟨by simp, hversion, hnumber, hvalue, fits_toMsg s hs, trivial⟩

theorem depth_envelope (s : Stored) : s.envelope.depth = s.toMsg.depth + 1 := by
  simp only [envelope, Msg.depth, Msg.depthOfEntries, Msg.ofText, depth_ofInt, Nat.max_zero,
    Nat.zero_max]

theorem openEnvelope?_envelope (s : Stored) :
    openEnvelope? s.envelope = some (formatVersion, s.toMsg) := by
  have hversion : nameOf? false ["format_version", "value"] (.ofText "format_version")
      = some (some 0) := by decide +kernel
  have hvalue : nameOf? false ["format_version", "value"] (.ofText "value") = some (some 1) := by
    decide +kernel
  have hnumber : versionOf? (.ofInt formatVersion) = some formatVersion := by decide +kernel
  simp only [envelope, openEnvelope?, fieldsOf?, hversion, hvalue, hnumber, bind, Option.bind, pure]

/-- **Stored values are read back** exactly if they nest at most 510 deep, whatever follows
them. -/
theorem read?_write_append {s : Stored} (hs : s.Fits) (rest : Bytes) :
    read? (s.envelope.write ++ rest)
      = if s.height ≤ 510 then some (formatVersion, s) else none := by
  have hread := Msg.read_write s.envelope (fits_envelope hs) depthLimit rest
  obtain ⟨hlow, hhigh⟩ := depth_toMsg s
  rw [depth_envelope] at hread
  unfold read?
  rw [hread]
  by_cases hheight : s.height ≤ 510
  · have hdepth : s.toMsg.depth + 1 ≤ depthLimit := by
      unfold depthLimit
      omega
    have hfuel : s.height < depthLimit := by
      unfold depthLimit
      omega
    rw [if_pos hdepth, if_pos hheight]
    simp only [bind, Option.bind, openEnvelope?_envelope, ofMsg_toMsg s hs depthLimit hfuel, pure]
  · have hdepth : ¬ s.toMsg.depth + 1 ≤ depthLimit := by
      unfold depthLimit
      omega
    rw [if_neg hdepth, if_neg hheight]
    rfl

theorem read?_write_envelope {s : Stored} (hs : s.Fits) :
    read? s.envelope.write = if s.height ≤ 510 then some (formatVersion, s) else none := by
  rw [← read?_write_append hs [], List.append_nil]

end NodePipeline.Stored
