import NodePipeline.Proofs.Artifact.MessagePack

/-!
# What reading gives

Whatever bytes are read, and in whatever forms they spell it: the message that comes out
fits its forms, and nests no deeper than the reader allows. So it can be written.
-/

namespace NodePipeline.Msg

/-! ## Members of arrays and maps -/

theorem fitsItems_iff {items : List Msg} : FitsItems items ↔ ∀ m ∈ items, m.Fits := by
  induction items with
  | nil => simp [FitsItems]
  | cons item rest ih => rw [FitsItems, ih, List.forall_mem_cons]

theorem fitsEntries_iff {entries : List (Msg × Msg)} :
    FitsEntries entries ↔ ∀ e ∈ entries, e.1.Fits ∧ e.2.Fits := by
  induction entries with
  | nil => simp [FitsEntries]
  | cons entry rest ih => rw [FitsEntries, ih, List.forall_mem_cons, and_assoc]

theorem depthOfItems_le_iff {items : List Msg} {limit : Nat} :
    depthOfItems items ≤ limit ↔ ∀ m ∈ items, m.depth ≤ limit := by
  induction items with
  | nil => simp [depthOfItems]
  | cons item rest ih => rw [depthOfItems, Nat.max_le, ih, List.forall_mem_cons]

theorem depthOfEntries_le_iff {entries : List (Msg × Msg)} {limit : Nat} :
    depthOfEntries entries ≤ limit ↔ ∀ e ∈ entries, e.1.depth ≤ limit ∧ e.2.depth ≤ limit := by
  induction entries with
  | nil => simp [depthOfEntries]
  | cons entry rest ih => rw [depthOfEntries, Nat.max_le, Nat.max_le, ih, List.forall_mem_cons]

/-! ## Parts of fixed length -/

theorem takeNat_sound {width n : Nat} {bytes rest : Bytes}
    (h : takeNat width bytes = some (n, rest)) : n < 256 ^ width := by
  unfold takeNat at h
  split at h
  · cases h
  · next hlen =>
      obtain ⟨rfl, -⟩ := Prod.mk.inj (Option.some.inj h)
      have hbound := Bytes.natOfBigEndian_lt (bytes.take width)
      rwa [List.length_take_of_le (Nat.le_of_not_lt hlen)] at hbound

theorem takeBytes_sound {n : Nat} {bytes s rest : Bytes}
    (h : takeBytes n bytes = some (s, rest)) : s.length = n := by
  unfold takeBytes at h
  split at h
  · cases h
  · next hlen =>
      obtain ⟨rfl, -⟩ := Prod.mk.inj (Option.some.inj h)
      exact List.length_take_of_le (Nat.le_of_not_lt hlen)

theorem takeCounted_sound {width : Nat} {bytes s rest : Bytes}
    (h : takeCounted width bytes = some (s, rest)) : s.length < 256 ^ width := by
  obtain ⟨⟨n, more⟩, hn, h⟩ := Option.bind_eq_some_iff.1 h
  rw [takeBytes_sound h]
  exact takeNat_sound hn

/-! ## Heads -/

/-- What a head announces fits; a message that is read at once nests nothing. -/
def Head.Fits : Head → Prop
  | .whole m => m.Fits ∧ m.depth = 0
  | .arr count => count < 2 ^ 32
  | .map count => count < 2 ^ 32

/-- A head that is made of a part, and fits for every part that can be read. -/
theorem Head.fits_of_map {α : Type} {found : Option (α × Bytes)} {f : α → Head} {head : Head}
    {rest : Bytes} (hf : ∀ a more, found = some (a, more) → (f a).Fits)
    (h : (found.map fun (a, more) => (f a, more)) = some (head, rest)) : head.Fits := by
  obtain ⟨⟨a, more⟩, hfound, heq⟩ := Option.map_eq_some_iff.1 h
  obtain ⟨rfl, -⟩ := Prod.mk.inj heq
  exact hf a more hfound

section

variable {width : Nat} {bytes rest : Bytes} {head : Head}

theorem readUnsigned_sound (hwidth : width ∈ [1, 2, 4, 8])
    (h : readUnsigned width bytes = some (head, rest)) : head.Fits :=
  Head.fits_of_map (f := fun n => .whole (.unsigned width n))
    (fun _ _ hn => ⟨⟨hwidth, takeNat_sound hn⟩, rfl⟩) h

theorem readSigned_sound (hwidth : width ∈ [1, 2, 4, 8])
    (h : readSigned width bytes = some (head, rest)) : head.Fits :=
  Head.fits_of_map (f := fun n => .whole (.signed width (Bytes.signed width n)))
    (fun _ _ hn => ⟨⟨hwidth, Bytes.signed_bounds (takeNat_sound hn)⟩, rfl⟩) h

theorem readStr_sound (hwidth : 256 ^ width ≤ 2 ^ 32)
    (h : readStr width bytes = some (head, rest)) : head.Fits :=
  Head.fits_of_map (f := fun s => .whole (.str s))
    (fun _ _ hs => ⟨Nat.lt_of_lt_of_le (takeCounted_sound hs) hwidth, rfl⟩) h

theorem readBin_sound (hwidth : 256 ^ width ≤ 2 ^ 32)
    (h : readBin width bytes = some (head, rest)) : head.Fits :=
  Head.fits_of_map (f := fun s => .whole (.bin s))
    (fun _ _ hs => ⟨Nat.lt_of_lt_of_le (takeCounted_sound hs) hwidth, rfl⟩) h

theorem readArr_sound (hwidth : 256 ^ width ≤ 2 ^ 32)
    (h : readArr width bytes = some (head, rest)) : head.Fits :=
  Head.fits_of_map (f := Head.arr)
    (fun _ _ hn => Nat.lt_of_lt_of_le (takeNat_sound hn) hwidth) h

theorem readMap_sound (hwidth : 256 ^ width ≤ 2 ^ 32)
    (h : readMap width bytes = some (head, rest)) : head.Fits :=
  Head.fits_of_map (f := Head.map)
    (fun _ _ hn => Nat.lt_of_lt_of_le (takeNat_sound hn) hwidth) h

theorem skipExt_sound (h : skipExt width bytes = some (head, rest)) : head.Fits := by
  obtain ⟨⟨n, more⟩, -, h⟩ := Option.bind_eq_some_iff.1 h
  obtain ⟨⟨s, more⟩, -, h⟩ := Option.bind_eq_some_iff.1 h
  obtain ⟨rfl, -⟩ := Prod.mk.inj (Option.some.inj h)
  exact ⟨trivial, rfl⟩

theorem readMarked_sound {marker : Nat} (h : readMarked marker bytes = some (head, rest)) :
    head.Fits := by
  unfold readMarked at h
  split at h
  case h_1 | h_2 | h_3 =>
    obtain ⟨rfl, -⟩ := Prod.mk.inj (Option.some.inj h)
    exact ⟨trivial, rfl⟩
  case h_4 | h_5 | h_6 => exact readBin_sound (by decide) h
  case h_7 | h_8 | h_9 => exact skipExt_sound h
  case h_10 =>
    exact Head.fits_of_map (f := fun n => .whole (.float (widenFloat n)))
      (fun _ _ _ => ⟨trivial, rfl⟩) h
  case h_11 =>
    exact Head.fits_of_map (f := fun n => .whole (.float ⟨UInt64.ofNat n⟩))
      (fun _ _ _ => ⟨trivial, rfl⟩) h
  case h_12 | h_13 | h_14 | h_15 => exact readUnsigned_sound (by decide) h
  case h_16 | h_17 | h_18 | h_19 => exact readSigned_sound (by decide) h
  case h_20 | h_21 | h_22 | h_23 | h_24 =>
    exact Head.fits_of_map (f := fun _ => .whole .ext) (fun _ _ _ => ⟨trivial, rfl⟩) h
  case h_25 | h_26 | h_27 => exact readStr_sound (by decide) h
  case h_28 | h_29 => exact readArr_sound (by decide) h
  case h_30 | h_31 => exact readMap_sound (by decide) h
  case h_32 => cases h

theorem readHead_sound (h : readHead bytes = some (head, rest)) : head.Fits := by
  cases bytes with
  | nil => cases h
  | cons first more =>
      have hfirst := first.toNat_lt
      simp only [readHead] at h
      split at h
      · obtain ⟨rfl, -⟩ := Prod.mk.inj (Option.some.inj h)
        exact ⟨⟨by decide, hfirst⟩, rfl⟩
      · split at h
        · obtain ⟨rfl, -⟩ := Prod.mk.inj (Option.some.inj h)
          exact show first.toNat - 0x80 < 2 ^ 32 by omega
        · split at h
          · obtain ⟨rfl, -⟩ := Prod.mk.inj (Option.some.inj h)
            exact show first.toNat - 0x90 < 2 ^ 32 by omega
          · split at h
            · refine Head.fits_of_map (f := fun s => .whole (.str s)) (fun s _ hs => ⟨?_, rfl⟩) h
              exact show s.length < 2 ^ 32 by rw [takeBytes_sound hs]; omega
            · split at h
              · exact readMarked_sound h
              · obtain ⟨rfl, -⟩ := Prod.mk.inj (Option.some.inj h)
                exact ⟨⟨by decide, by omega, by omega⟩, rfl⟩

end

/-! ## Whole messages -/

/-- As many items are read as were counted, and each as the reader of one item says. -/
theorem readMany_sound {α : Type} {item : Bytes → Option (α × Bytes)} {P : α → Prop}
    (hitem : ∀ bytes a rest, item bytes = some (a, rest) → P a) {count : Nat} {bytes : Bytes}
    {items : List α} {rest : Bytes} (h : readMany item count bytes = some (items, rest)) :
    items.length = count ∧ ∀ a ∈ items, P a := by
  induction count generalizing bytes items rest with
  | zero =>
      obtain ⟨rfl, -⟩ := Prod.mk.inj (Option.some.inj h)
      exact ⟨rfl, fun a ha => nomatch ha⟩
  | succ count ih =>
      obtain ⟨⟨first, tail⟩, hfirst, h⟩ := Option.bind_eq_some_iff.1 h
      obtain ⟨⟨more, tail'⟩, hmore, h⟩ := Option.bind_eq_some_iff.1 h
      obtain ⟨rfl, -⟩ := Prod.mk.inj (Option.some.inj h)
      obtain ⟨hlen, hall⟩ := ih hmore
      exact ⟨congrArg (· + 1) hlen, List.forall_mem_cons.2 ⟨hitem _ _ _ hfirst, hall⟩⟩

theorem readPair_sound {item : Bytes → Option (Msg × Bytes)} {P : Msg → Prop}
    (hitem : ∀ bytes m rest, item bytes = some (m, rest) → P m) (bytes : Bytes) (e : Msg × Msg)
    (rest : Bytes) (h : readPair item bytes = some (e, rest)) : P e.1 ∧ P e.2 := by
  obtain ⟨⟨key, tail⟩, hkey, h⟩ := Option.bind_eq_some_iff.1 h
  obtain ⟨⟨value, tail'⟩, hvalue, h⟩ := Option.bind_eq_some_iff.1 h
  obtain ⟨rfl, -⟩ := Prod.mk.inj (Option.some.inj h)
  exact ⟨hitem _ _ _ hkey, hitem _ _ _ hvalue⟩

/-- **Whatever is read fits**, and nests no deeper than allowed. -/
theorem read_sound {limit : Nat} {bytes rest : Bytes} {m : Msg}
    (h : read limit bytes = some (m, rest)) : m.Fits ∧ m.depth ≤ limit := by
  induction limit generalizing bytes rest m with
  | zero =>
      rw [read] at h
      split at h
      · next hhead =>
          obtain ⟨rfl, -⟩ := Prod.mk.inj (Option.some.inj h)
          obtain ⟨hfits, hdepth⟩ := readHead_sound hhead
          exact ⟨hfits, Nat.le_of_eq hdepth⟩
      · cases h
  | succ limit ih =>
      rw [read] at h
      split at h
      · cases h
      · next hhead =>
          obtain ⟨rfl, -⟩ := Prod.mk.inj (Option.some.inj h)
          obtain ⟨hfits, hdepth⟩ := readHead_sound hhead
          exact ⟨hfits, hdepth ▸ Nat.zero_le _⟩
      · next hhead =>
          have hcount := readHead_sound hhead
          obtain ⟨⟨items, tail⟩, hitems, heq⟩ := Option.map_eq_some_iff.1 h
          obtain ⟨rfl, -⟩ := Prod.mk.inj heq
          obtain ⟨rfl, hall⟩ := readMany_sound (fun _ _ _ => ih) hitems
          exact ⟨⟨hcount, fitsItems_iff.2 fun m hm => (hall m hm).1⟩,
            Nat.succ_le_succ (depthOfItems_le_iff.2 fun m hm => (hall m hm).2)⟩
      · next hhead =>
          have hcount := readHead_sound hhead
          obtain ⟨⟨entries, tail⟩, hentries, heq⟩ := Option.map_eq_some_iff.1 h
          obtain ⟨rfl, -⟩ := Prod.mk.inj heq
          obtain ⟨rfl, hall⟩ := readMany_sound (readPair_sound fun _ _ _ => ih) hentries
          exact ⟨⟨hcount, fitsEntries_iff.2 fun e he => ⟨(hall e he).1.1, (hall e he).2.1⟩⟩,
            Nat.succ_le_succ (depthOfEntries_le_iff.2 fun e he =>
              ⟨(hall e he).1.2, (hall e he).2.2⟩)⟩

end NodePipeline.Msg
