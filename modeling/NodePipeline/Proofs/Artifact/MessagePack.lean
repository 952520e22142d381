import NodePipeline.Artifact.MessagePack
import NodePipeline.Proofs.Bytes

/-!
# Reading what was written

A message is read back from its bytes, whatever follows them, if it nests no deeper
than the reader allows, and is refused otherwise. This holds at every width of a
number or a length, since the marker that the writer takes tells the reader the width.
-/

namespace NodePipeline.Msg

/-! ## Messages that have a form -/

mutual

/-- Numbers fit into the width of their form, and every length into four bytes. -/
def Fits : Msg → Prop
  | .unsigned width n => width ∈ [1, 2, 4, 8] ∧ n < 256 ^ width
  | .signed width i =>
      width ∈ [1, 2, 4, 8] ∧ -(256 ^ width : Nat) ≤ 2 * i ∧ 2 * i < (256 ^ width : Nat)
  | .str bytes => bytes.length < 2 ^ 32
  | .bin bytes => bytes.length < 2 ^ 32
  | .arr items => items.length < 2 ^ 32 ∧ FitsItems items
  | .map entries => entries.length < 2 ^ 32 ∧ FitsEntries entries
  | _ => True

def FitsItems : List Msg → Prop
  | [] => True
  | item :: rest => Fits item ∧ FitsItems rest

def FitsEntries : List (Msg × Msg) → Prop
  | [] => True
  | (key, value) :: rest => Fits key ∧ Fits value ∧ FitsEntries rest

end

mutual

/-- How deep arrays and maps nest, empty ones included. -/
def depth : Msg → Nat
  | .arr items => depthOfItems items + 1
  | .map entries => depthOfEntries entries + 1
  | _ => 0

def depthOfItems : List Msg → Nat
  | [] => 0
  | item :: rest => max (depth item) (depthOfItems rest)

def depthOfEntries : List (Msg × Msg) → Nat
  | [] => 0
  | (key, value) :: rest => max (max (depth key) (depth value)) (depthOfEntries rest)

end

/-! ## Parts of fixed length -/

theorem takeNat_append {width n : Nat} (h : n < 256 ^ width) (rest : Bytes) :
    takeNat width (Bytes.bigEndian width n ++ rest) = some (n, rest) := by
  have hlen := Bytes.length_bigEndian width n
  unfold takeNat
  rw [if_neg (by rw [List.length_append, hlen]; omega), List.take_left' hlen,
    List.drop_left' hlen, Bytes.natOfBigEndian_of_lt h]

theorem takeBytes_append (bytes rest : Bytes) :
    takeBytes bytes.length (bytes ++ rest) = some (bytes, rest) := by
  unfold takeBytes
  rw [if_neg (by rw [List.length_append]; omega), List.take_left, List.drop_left]

theorem takeCounted_append {width : Nat} {bytes : Bytes} (h : bytes.length < 256 ^ width)
    (rest : Bytes) :
    takeCounted width (Bytes.bigEndian width bytes.length ++ bytes ++ rest)
      = some (bytes, rest) := by
  unfold takeCounted
  rw [List.append_assoc, takeNat_append h]
  exact takeBytes_append bytes rest

/-! ## Heads -/

/-- The number in the first byte of a short form. -/
theorem toNat_ofNat_add {base n : Nat} (h : base + n < 256) :
    (UInt8.ofNat (base + n)).toNat = base + n := by
  rw [UInt8.toNat_ofNat']
  exact Nat.mod_eq_of_lt h

theorem readHead_unsigned {width n : Nat} (hwidth : width ∈ [1, 2, 4, 8]) (hn : n < 256 ^ width)
    (rest : Bytes) :
    readHead (writeUnsigned width n ++ rest) = some (.whole (.unsigned width n), rest) := by
  unfold writeUnsigned
  by_cases hsmall : width = 1 ∧ n < 128
  · obtain ⟨rfl, hn'⟩ := hsmall
    have hbyte : (UInt8.ofNat n).toNat = n := by
      simpa using toNat_ofNat_add (show 0 + n < 256 by omega)
    simp [hn', readHead, hbyte]
  · have hmarker : readHead (widthMarker 0xcc width :: (Bytes.bigEndian width n ++ rest))
        = readUnsigned width (Bytes.bigEndian width n ++ rest) := by
      simp only [List.mem_cons, List.not_mem_nil, or_false] at hwidth
      rcases hwidth with rfl | rfl | rfl | rfl <;> rfl
    rw [if_neg hsmall, List.cons_append, hmarker, readUnsigned, takeNat_append hn]
    rfl

theorem readHead_signed {width : Nat} {i : Int} (hwidth : width ∈ [1, 2, 4, 8])
    (hlow : -(256 ^ width : Nat) ≤ 2 * i) (hhigh : 2 * i < (256 ^ width : Nat)) (rest : Bytes) :
    readHead (writeSigned width i ++ rest) = some (.whole (.signed width i), rest) := by
  unfold writeSigned
  by_cases hsmall : width = 1 ∧ -32 ≤ i ∧ i < 0
  · obtain ⟨rfl, hi⟩ := hsmall
    have hbyte : (UInt8.ofNat (256 + i).toNat).toNat = (256 + i).toNat := by
      simpa using toNat_ofNat_add (show 0 + (256 + i).toNat < 256 by omega)
    rw [if_pos ⟨rfl, hi⟩, List.singleton_append, readHead]
    simp only [hbyte]
    rw [if_neg (by omega), if_neg (by omega), if_neg (by omega), if_neg (by omega),
      if_neg (by omega)]
    congr 4
    omega
  · have hmarker : readHead (widthMarker 0xd0 width ::
        (Bytes.bigEndian width (Bytes.unsigned width i) ++ rest))
        = readSigned width (Bytes.bigEndian width (Bytes.unsigned width i) ++ rest) := by
      simp only [List.mem_cons, List.not_mem_nil, or_false] at hwidth
      rcases hwidth with rfl | rfl | rfl | rfl <;> rfl
    rw [if_neg hsmall, List.cons_append, hmarker, readSigned,
      takeNat_append (Bytes.unsigned_lt width i)]
    simp only [Option.map_some, Bytes.signed_unsigned hlow hhigh]

theorem readHead_str {bytes : Bytes} (h : bytes.length < 2 ^ 32) (rest : Bytes) :
    readHead (strHead bytes.length ++ bytes ++ rest) = some (.whole (.str bytes), rest) := by
  unfold strHead
  split
  · next hn =>
      have hbyte := toNat_ofNat_add (show 0xa0 + bytes.length < 256 by omega)
      rw [List.singleton_append, List.cons_append, readHead]
      simp only [hbyte]
      rw [if_neg (by omega), if_neg (by omega), if_neg (by omega), if_pos (by omega),
        Nat.add_sub_cancel_left, takeBytes_append]
      rfl
  · split
    · next hn =>
        have hmarker : ∀ bs, readHead (0xd9 :: bs) = readStr 1 bs := fun _ => rfl
        rw [List.cons_append, List.cons_append, hmarker, readStr, takeCounted_append (by omega)]
        rfl
    · split
      · next hn =>
          have hmarker : ∀ bs, readHead (0xda :: bs) = readStr 2 bs := fun _ => rfl
          rw [List.cons_append, List.cons_append, hmarker, readStr, takeCounted_append (by omega)]
          rfl
      · have hmarker : ∀ bs, readHead (0xdb :: bs) = readStr 4 bs := fun _ => rfl
        rw [List.cons_append, List.cons_append, hmarker, readStr, takeCounted_append (by omega)]
        rfl

theorem readHead_bin {bytes : Bytes} (h : bytes.length < 2 ^ 32) (rest : Bytes) :
    readHead (binHead bytes.length ++ bytes ++ rest) = some (.whole (.bin bytes), rest) := by
  unfold binHead
  split
  · have hmarker : ∀ bs, readHead (0xc4 :: bs) = readBin 1 bs := fun _ => rfl
    rw [List.cons_append, List.cons_append, hmarker, readBin, takeCounted_append (by omega)]
    rfl
  · split
    · have hmarker : ∀ bs, readHead (0xc5 :: bs) = readBin 2 bs := fun _ => rfl
      rw [List.cons_append, List.cons_append, hmarker, readBin, takeCounted_append (by omega)]
      rfl
    · have hmarker : ∀ bs, readHead (0xc6 :: bs) = readBin 4 bs := fun _ => rfl
      rw [List.cons_append, List.cons_append, hmarker, readBin, takeCounted_append (by omega)]
      rfl

theorem readHead_arr {n : Nat} (h : n < 2 ^ 32) (rest : Bytes) :
    readHead (arrHead n ++ rest) = some (.arr n, rest) := by
  unfold arrHead
  split
  · next hn =>
      have hbyte := toNat_ofNat_add (show 0x90 + n < 256 by omega)
      rw [List.singleton_append, readHead]
      simp only [hbyte]
      rw [if_neg (by omega), if_neg (by omega), if_pos (by omega), Nat.add_sub_cancel_left]
  · split
    · have hmarker : ∀ bs, readHead (0xdc :: bs) = readArr 2 bs := fun _ => rfl
      rw [List.cons_append, hmarker, readArr, takeNat_append (by omega)]
      rfl
    · have hmarker : ∀ bs, readHead (0xdd :: bs) = readArr 4 bs := fun _ => rfl
      rw [List.cons_append, hmarker, readArr, takeNat_append (by omega)]
      rfl

theorem readHead_map {n : Nat} (h : n < 2 ^ 32) (rest : Bytes) :
    readHead (mapHead n ++ rest) = some (.map n, rest) := by
  unfold mapHead
  split
  · next hn =>
      have hbyte := toNat_ofNat_add (show 0x80 + n < 256 by omega)
      rw [List.singleton_append, readHead]
      simp only [hbyte]
      rw [if_neg (by omega), if_pos (by omega), Nat.add_sub_cancel_left]
  · split
    · have hmarker : ∀ bs, readHead (0xde :: bs) = readMap 2 bs := fun _ => rfl
      rw [List.cons_append, hmarker, readMap, takeNat_append (by omega)]
      rfl
    · have hmarker : ∀ bs, readHead (0xdf :: bs) = readMap 4 bs := fun _ => rfl
      rw [List.cons_append, hmarker, readMap, takeNat_append (by omega)]
      rfl

/-! ## Whole messages -/

theorem spelledLength_of_lt {n : Nat} (h : n < 2 ^ 32) : spelledLength n = n := Nat.mod_eq_of_lt h

theorem readHead_float (x : Binary64) (rest : Bytes) :
    readHead ((float x).write ++ rest) = some (.whole (.float x), rest) := by
  have hmarker : ∀ bs, readHead (0xcb :: bs)
      = (takeNat 8 bs).map fun found => (.whole (.float ⟨UInt64.ofNat found.1⟩), found.2) :=
    fun _ => rfl
  rw [write, List.cons_append, hmarker, takeNat_append x.bits.toNat_lt]
  simp only [Option.map_some, UInt64.ofNat_toNat]

/-- A message without arrays and maps is read at any depth. -/
theorem read_flat {m : Msg} {rest : Bytes} (hdepth : m.depth = 0)
    (h : readHead (m.write ++ rest) = some (.whole m, rest)) (limit : Nat) :
    read limit (m.write ++ rest) = if m.depth ≤ limit then some (m, rest) else none := by
  rw [hdepth, if_pos (Nat.zero_le limit)]
  cases limit <;> simp only [read, h]

theorem readMany_cons {α : Type} {item : Bytes → Option (α × Bytes)} {count : Nat}
    {bytes : Bytes} :
    readMany item (count + 1) bytes =
      match item bytes with
      | none => none
      | some (first, rest) =>
          (readMany item count rest).map fun (more, rest) => (first :: more, rest) := by
  rw [readMany]
  cases item bytes with
  | none => rfl
  | some found =>
      obtain ⟨first, rest⟩ := found
      simp only [bind, Option.bind]
      cases readMany item count rest <;> rfl

mutual

/-- **Messages are read back**, up to the depth that the reader allows. -/
theorem read_write (m : Msg) (hm : m.Fits) (limit : Nat) (rest : Bytes) :
    read limit (m.write ++ rest) = if m.depth ≤ limit then some (m, rest) else none := by
  cases m with
  | nil =>
      exact read_flat rfl rfl limit
  | bool b =>
      refine read_flat rfl ?_ limit
      cases b <;> rfl
  | unsigned width n =>
      exact read_flat rfl (readHead_unsigned hm.1 hm.2 rest) limit
  | signed width i =>
      exact read_flat rfl (readHead_signed hm.1 hm.2.1 hm.2.2 rest) limit
  | float x =>
      exact read_flat rfl (readHead_float x rest) limit
  | str bytes =>
      refine read_flat rfl ?_ limit
      rw [write, spelledLength_of_lt hm]
      exact readHead_str hm rest
  | bin bytes =>
      refine read_flat rfl ?_ limit
      rw [write, spelledLength_of_lt hm]
      exact readHead_bin hm rest
  | ext =>
      exact read_flat rfl rfl limit
  | arr items =>
      have hhead := readHead_arr hm.1 (writeItems items ++ rest)
      rw [← List.append_assoc] at hhead
      rw [write, spelledLength_of_lt hm.1]
      cases limit with
      | zero => simp only [read, hhead, depth, Nat.add_one_le_iff, Nat.not_lt_zero, if_false]
      | succ limit =>
          simp only [read, hhead, readMany_writeItems items hm.2 limit rest, depth,
            Nat.add_le_add_iff_right]
          split <;> rfl
  | map entries =>
      have hhead := readHead_map hm.1 (writeEntries entries ++ rest)
      rw [← List.append_assoc] at hhead
      rw [write, spelledLength_of_lt hm.1]
      cases limit with
      | zero => simp only [read, hhead, depth, Nat.add_one_le_iff, Nat.not_lt_zero, if_false]
      | succ limit =>
          simp only [read, hhead, readMany_writeEntries entries hm.2 limit rest, depth,
            Nat.add_le_add_iff_right]
          split <;> rfl
termination_by structural m

theorem readMany_writeItems (items : List Msg) (hitems : FitsItems items) (limit : Nat)
    (rest : Bytes) :
    readMany (read limit) items.length (writeItems items ++ rest)
      = if depthOfItems items ≤ limit then some (items, rest) else none := by
  cases items with
  | nil => simp only [depthOfItems, Nat.zero_le, if_true]; rfl
  | cons item more =>
      rw [List.length_cons, readMany_cons, writeItems, List.append_assoc,
        read_write item hitems.1 limit, depthOfItems]
      by_cases hitem : item.depth ≤ limit
      · rw [if_pos hitem]
        simp only [readMany_writeItems more hitems.2 limit rest]
        by_cases hmore : depthOfItems more ≤ limit
        · rw [if_pos hmore, if_pos (Nat.max_le.2 ⟨hitem, hmore⟩)]
          rfl
        · rw [if_neg hmore, if_neg fun h => hmore (Nat.max_le.1 h).2]
          rfl
      · rw [if_neg hitem, if_neg fun h => hitem (Nat.max_le.1 h).1]
termination_by structural items

theorem readMany_writeEntries (entries : List (Msg × Msg)) (hentries : FitsEntries entries)
    (limit : Nat) (rest : Bytes) :
    readMany (readPair (read limit)) entries.length (writeEntries entries ++ rest)
      = if depthOfEntries entries ≤ limit then some (entries, rest) else none := by
  cases entries with
  | nil => simp only [depthOfEntries, Nat.zero_le, if_true]; rfl
  | cons entry more =>
      obtain ⟨key, value⟩ := entry
      rw [List.length_cons, readMany_cons, writeEntries, List.append_assoc, List.append_assoc,
        readPair, read_write key hentries.1 limit, depthOfEntries]
      by_cases hkey : key.depth ≤ limit
      · rw [if_pos hkey]
        simp only [bind, Option.bind, read_write value hentries.2.1 limit]
        by_cases hvalue : value.depth ≤ limit
        · rw [if_pos hvalue]
          simp only [pure, readMany_writeEntries more hentries.2.2 limit rest]
          by_cases hmore : depthOfEntries more ≤ limit
          · rw [if_pos hmore, if_pos (Nat.max_le.2 ⟨Nat.max_le.2 ⟨hkey, hvalue⟩, hmore⟩)]
            rfl
          · rw [if_neg hmore, if_neg fun h => hmore (Nat.max_le.1 h).2]
            rfl
        · rw [if_neg hvalue, if_neg fun h => hvalue (Nat.max_le.1 (Nat.max_le.1 h).1).2]
      · rw [if_neg hkey, if_neg fun h => hkey (Nat.max_le.1 (Nat.max_le.1 h).1).1]
        rfl
termination_by structural entries

end

end NodePipeline.Msg
