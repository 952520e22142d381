import NodePipeline.Proofs.Bytes
import NodePipeline.Proofs.Value.Data
import NodePipeline.Value.Digest

/-!
# Encodings of values

A value can be read off its encoding and the numbers of parameters and captured
bindings of the functions in it: no encoding begins another one with the same
numbers. The encoding itself does not hold these numbers, so that it tells apart
data, but not functions.
-/

namespace NodePipeline.Value

/-! ## Lengths and texts -/

theorem lengthBytes_append {m n : Nat} {r r' : Bytes} (hm : m < 2 ^ 64) (hn : n < 2 ^ 64)
    (h : lengthBytes m ++ r = lengthBytes n ++ r') : m = n ∧ r = r' := by
  obtain ⟨hlen, hrest⟩ := List.append_inj h (by simp [lengthBytes])
  exact ⟨Bytes.littleEndian_inj (by simpa using hm) (by simpa using hn) hlen, hrest⟩

/-- Bytes behind their number end where the number says. -/
theorem lengthBytes_append_bytes {a b r r' : Bytes} (ha : a.length < 2 ^ 64)
    (hb : b.length < 2 ^ 64)
    (h : lengthBytes a.length ++ (a ++ r) = lengthBytes b.length ++ (b ++ r')) :
    a = b ∧ r = r' := by
  obtain ⟨hlen, hrest⟩ := lengthBytes_append ha hb h
  exact List.append_inj hrest hlen

theorem textBytes_append {s t : String} {r r' : Bytes} (hs : s.utf8ByteSize < 2 ^ 64)
    (ht : t.utf8ByteSize < 2 ^ 64) (h : textBytes s ++ r = textBytes t ++ r') :
    s = t ∧ r = r' := by
  unfold textBytes at h
  simp only [List.append_assoc] at h
  obtain ⟨hbytes, hrest⟩ := lengthBytes_append_bytes (by simpa using hs) (by simpa using ht) h
  exact ⟨Bytes.ofString_inj hbytes, hrest⟩

/-- Texts one after the other are told apart if it is known how many they are. -/
theorem flatMap_textBytes_append {ss ts : List String} {r r' : Bytes}
    (hs : ∀ s ∈ ss, s.utf8ByteSize < 2 ^ 64) (ht : ∀ t ∈ ts, t.utf8ByteSize < 2 ^ 64)
    (hlen : ss.length = ts.length)
    (h : ss.flatMap textBytes ++ r = ts.flatMap textBytes ++ r') : ss = ts ∧ r = r' := by
  induction ss generalizing ts with
  | nil =>
      obtain rfl := List.length_eq_zero_iff.1 hlen.symm
      exact ⟨rfl, h⟩
  | cons s ss ih =>
      cases ts with
      | nil => simp at hlen
      | cons t ts =>
          obtain ⟨hs, hss⟩ := List.forall_mem_cons.1 hs
          obtain ⟨ht, hts⟩ := List.forall_mem_cons.1 ht
          rw [List.flatMap_cons, List.flatMap_cons, List.append_assoc, List.append_assoc] at h
          obtain ⟨rfl, hmore⟩ := textBytes_append hs ht h
          obtain ⟨rfl, hrest⟩ := ih hss hts (Nat.succ.inj hlen) hmore
          exact ⟨rfl, hrest⟩

theorem unsigned_inj {i j : Int64}
    (h : Bytes.littleEndian 8 (Bytes.unsigned 8 i.toInt)
      = Bytes.littleEndian 8 (Bytes.unsigned 8 j.toInt)) : i = j := by
  have hnum := Bytes.littleEndian_inj (Bytes.unsigned_lt 8 _) (Bytes.unsigned_lt 8 _) h
  rw [← Int64.toInt_inj, ← Bytes.signed_unsigned_int64 i, hnum, Bytes.signed_unsigned_int64]

/-! ## Kinds -/

/-- The first byte of an encoding. -/
def tag : Value → UInt8
  | .null => 0
  | .bool _ => 1
  | .int _ => 2
  | .float _ => 3
  | .str _ => 4
  | .list _ => 5
  | .dict _ => 6
  | .table _ => 7
  | .function .. => 8
  | .pipeline _ => 9

variable {store : Table → Bytes}

theorem encoding_tag {v : Value} {a : Bytes} (h : encoding store v = some a) :
    ∃ rest, a = tag v :: rest := by
  cases v with
  | pipeline nodes => simp [encoding] at h
  | _ =>
      simp only [encoding, Option.map_eq_some_iff, Option.some.injEq] at h
      first
        | exact ⟨_, h.symm⟩
        | obtain ⟨bytes, -, rfl⟩ := h
          exact ⟨_, rfl⟩

theorem tag_eq_of_encodings {v w : Value} {a b r r' : Bytes} (hv : encoding store v = some a)
    (hw : encoding store w = some b) (h : a ++ r = b ++ r') : tag v = tag w := by
  obtain ⟨as, rfl⟩ := encoding_tag hv
  obtain ⟨bs, rfl⟩ := encoding_tag hw
  exact (List.cons.inj h).1

theorem encodingItems_cons {item : Value} {rest : List Value} {a : Bytes}
    (h : encodingItems store (item :: rest) = some a) :
    ∃ b c, encoding store item = some b ∧ encodingItems store rest = some c ∧ a = b ++ c := by
  simp only [encodingItems, Option.bind_eq_bind, Option.bind_eq_some_iff, Option.pure_def,
    Option.some.injEq] at h
  obtain ⟨b, hb, c, hc, rfl⟩ := h
  exact ⟨b, c, hb, hc, rfl⟩

theorem encodingEntries_cons {key : String} {value : Value} {rest : List (String × Value)}
    {a : Bytes} (h : encodingEntries store ((key, value) :: rest) = some a) :
    ∃ b c, encoding store value = some b ∧ encodingEntries store rest = some c ∧
      a = textBytes key ++ (b ++ c) := by
  simp only [encodingEntries, Option.bind_eq_bind, Option.bind_eq_some_iff, Option.pure_def,
    Option.some.injEq, List.append_assoc] at h
  obtain ⟨b, hb, c, hc, rfl⟩ := h
  exact ⟨b, c, hb, hc, rfl⟩

/-! ## What an encoding holds -/

mutual

/-- Every length that an encoding spells fits into its eight bytes. -/
def LengthsFit (store : Table → Bytes) : Value → Prop
  | .str s => s.utf8ByteSize < 2 ^ 64
  | .list items => items.length < 2 ^ 64 ∧ LengthsFitItems store items
  | .dict entries => entries.length < 2 ^ 64 ∧ LengthsFitEntries store entries
  | .table t => (store t).length < 2 ^ 64
  | .function params body captured =>
      (∀ param ∈ params, param.utf8ByteSize < 2 ^ 64) ∧ body.utf8ByteSize < 2 ^ 64 ∧
        LengthsFitEntries store captured
  | _ => True

def LengthsFitItems (store : Table → Bytes) : List Value → Prop
  | [] => True
  | item :: rest => LengthsFit store item ∧ LengthsFitItems store rest

def LengthsFitEntries (store : Table → Bytes) : List (String × Value) → Prop
  | [] => True
  | (key, value) :: rest =>
      key.utf8ByteSize < 2 ^ 64 ∧ LengthsFit store value ∧ LengthsFitEntries store rest

end

mutual

/-- The same value, with the stored forms of tables in place of the tables. -/
def Alike (store : Table → Bytes) : Value → Value → Prop
  | .null, .null => True
  | .bool a, .bool b => a = b
  | .int i, .int j => i = j
  | .float x, .float y => x = y
  | .str s, .str t => s = t
  | .list items, .list others => AlikeItems store items others
  | .dict entries, .dict others => AlikeEntries store entries others
  | .table t, .table u => store t = store u
  | .function params body captured, .function params' body' captured' =>
      params = params' ∧ body = body' ∧ AlikeEntries store captured captured'
  | .pipeline nodes, .pipeline others => nodes = others
  | _, _ => False
termination_by structural v _ => v

def AlikeItems (store : Table → Bytes) : List Value → List Value → Prop
  | [], [] => True
  | item :: rest, other :: others => Alike store item other ∧ AlikeItems store rest others
  | _, _ => False
termination_by structural items _ => items

def AlikeEntries (store : Table → Bytes) :
    List (String × Value) → List (String × Value) → Prop
  | [], [] => True
  | (key, value) :: rest, (key', value') :: others =>
      key = key' ∧ Alike store value value' ∧ AlikeEntries store rest others
  | _, _ => False
termination_by structural entries _ => entries

end

mutual

/-- The numbers of parameters and of captured bindings of the functions in a value, in the
order in which the encoding passes them. -/
def functionCounts : Value → List (Nat × Nat)
  | .list items => functionCountsOfItems items
  | .dict entries => functionCountsOfEntries entries
  | .function params _ captured =>
      (params.length, captured.length) :: functionCountsOfEntries captured
  | _ => []

def functionCountsOfItems : List Value → List (Nat × Nat)
  | [] => []
  | item :: rest => functionCounts item ++ functionCountsOfItems rest

def functionCountsOfEntries : List (String × Value) → List (Nat × Nat)
  | [] => []
  | (_, value) :: rest => functionCounts value ++ functionCountsOfEntries rest

end

mutual

/-- Values are alike if their encodings begin the same bytes and their counts the same list. -/
theorem encoding_append (v : Value) {w : Value} {a b r r' : Bytes} {more more' : List (Nat × Nat)}
    (hv : v.LengthsFit store) (hw : w.LengthsFit store) (ha : encoding store v = some a)
    (hb : encoding store w = some b) (h : a ++ r = b ++ r')
    (hcounts : v.functionCounts ++ more = w.functionCounts ++ more') :
    v.Alike store w ∧ r = r' ∧ more = more' := by
  have htag := tag_eq_of_encodings ha hb h
  cases v with
  | null =>
      cases w <;> simp [tag] at htag
      simp_all [encoding, functionCounts, Alike]
  | bool x =>
      cases w <;> simp [tag] at htag
      simp only [encoding, Option.some.injEq] at ha hb
      subst ha hb
      rename_i y
      cases x <;> cases y <;> simp_all [functionCounts, Alike]
  | int i =>
      cases w <;> simp [tag] at htag
      simp only [encoding, Option.some.injEq] at ha hb
      subst ha hb
      obtain ⟨hbytes, hrest⟩ := List.append_inj (List.cons.inj h).2 (by simp)
      exact ⟨unsigned_inj hbytes, hrest, hcounts⟩
  | float x =>
      cases w <;> simp [tag] at htag
      rename_i y
      simp only [encoding, Option.some.injEq] at ha hb
      subst ha hb
      obtain ⟨hbytes, hrest⟩ := List.append_inj (List.cons.inj h).2 (by simp)
      have hbits := Bytes.littleEndian_inj x.bits.toNat_lt y.bits.toNat_lt hbytes
      obtain ⟨bits⟩ := x
      obtain ⟨bits'⟩ := y
      obtain rfl := UInt64.toNat_inj.1 hbits
      exact ⟨rfl, hrest, hcounts⟩
  | str s =>
      cases w <;> simp [tag] at htag
      simp only [encoding, Option.some.injEq] at ha hb
      subst ha hb
      obtain ⟨rfl, hrest⟩ := textBytes_append hv hw (List.cons.inj h).2
      exact ⟨rfl, hrest, hcounts⟩
  | list items =>
      cases w <;> simp [tag] at htag
      obtain ⟨bytes, hbytes, rfl⟩ := Option.map_eq_some_iff.1 ha
      obtain ⟨bytes', hbytes', rfl⟩ := Option.map_eq_some_iff.1 hb
      rw [List.cons_append, List.cons_append, List.append_assoc, List.append_assoc] at h
      have htail := (List.cons.inj h).2
      obtain ⟨hlen, hrest⟩ := lengthBytes_append hv.1 hw.1 htail
      exact encodingItems_append items hv.2 hw.2 hlen hbytes hbytes' hrest hcounts
  | dict entries =>
      cases w <;> simp [tag] at htag
      obtain ⟨bytes, hbytes, rfl⟩ := Option.map_eq_some_iff.1 ha
      obtain ⟨bytes', hbytes', rfl⟩ := Option.map_eq_some_iff.1 hb
      rw [List.cons_append, List.cons_append, List.append_assoc, List.append_assoc] at h
      have htail := (List.cons.inj h).2
      obtain ⟨hlen, hrest⟩ := lengthBytes_append hv.1 hw.1 htail
      exact encodingEntries_append entries hv.2 hw.2 hlen hbytes hbytes' hrest hcounts
  | table t =>
      cases w <;> simp [tag] at htag
      simp only [encoding, Option.some.injEq] at ha hb
      subst ha hb
      rw [List.cons_append, List.cons_append, List.append_assoc, List.append_assoc] at h
      have htail := (List.cons.inj h).2
      obtain ⟨hstored, hrest⟩ := lengthBytes_append_bytes hv hw htail
      exact ⟨hstored, hrest, hcounts⟩
  | function params body captured =>
      cases w <;> simp [tag] at htag
      obtain ⟨bytes, hbytes, rfl⟩ := Option.map_eq_some_iff.1 ha
      obtain ⟨bytes', hbytes', rfl⟩ := Option.map_eq_some_iff.1 hb
      -- The numbers come from the counts: the bytes do not tell where the parameters end.
      obtain ⟨hnumbers, hinner⟩ := List.cons.inj hcounts
      obtain ⟨hparams, hcaptured⟩ := Prod.mk.inj hnumbers
      simp only [List.cons_append, List.append_assoc] at h
      have htail := (List.cons.inj h).2
      obtain ⟨rfl, hbody⟩ := flatMap_textBytes_append hv.1 hw.1 hparams htail
      obtain ⟨rfl, hrest⟩ := textBytes_append hv.2.1 hw.2.1 hbody
      obtain ⟨halike, hend⟩ :=
        encodingEntries_append captured hv.2.2 hw.2.2 hcaptured hbytes hbytes' hrest hinner
      exact ⟨⟨rfl, rfl, halike⟩, hend⟩
  | pipeline nodes => simp [encoding] at ha
termination_by structural v

theorem encodingItems_append (items : List Value) {others : List Value} {a b r r' : Bytes}
    {more more' : List (Nat × Nat)} (hv : LengthsFitItems store items)
    (hw : LengthsFitItems store others) (hlen : items.length = others.length)
    (ha : encodingItems store items = some a) (hb : encodingItems store others = some b)
    (h : a ++ r = b ++ r')
    (hcounts : functionCountsOfItems items ++ more = functionCountsOfItems others ++ more') :
    AlikeItems store items others ∧ r = r' ∧ more = more' := by
  cases items with
  | nil =>
      obtain rfl := List.length_eq_zero_iff.1 hlen.symm
      simp_all [encodingItems, AlikeItems, functionCountsOfItems]
  | cons item rest =>
      cases others with
      | nil => simp at hlen
      | cons other others =>
          obtain ⟨b₁, c₁, hb₁, hc₁, rfl⟩ := encodingItems_cons ha
          obtain ⟨b₂, c₂, hb₂, hc₂, rfl⟩ := encodingItems_cons hb
          rw [List.append_assoc, List.append_assoc] at h
          simp only [functionCountsOfItems, List.append_assoc] at hcounts
          obtain ⟨halike, hrest, hmore⟩ := encoding_append item hv.1 hw.1 hb₁ hb₂ h hcounts
          obtain ⟨halikes, hend⟩ := encodingItems_append rest hv.2 hw.2 (Nat.succ.inj hlen)
            hc₁ hc₂ hrest hmore
          exact ⟨⟨halike, halikes⟩, hend⟩
termination_by structural items

theorem encodingEntries_append (entries : List (String × Value))
    {others : List (String × Value)} {a b r r' : Bytes} {more more' : List (Nat × Nat)}
    (hv : LengthsFitEntries store entries) (hw : LengthsFitEntries store others)
    (hlen : entries.length = others.length) (ha : encodingEntries store entries = some a)
    (hb : encodingEntries store others = some b) (h : a ++ r = b ++ r')
    (hcounts : functionCountsOfEntries entries ++ more = functionCountsOfEntries others ++ more') :
    AlikeEntries store entries others ∧ r = r' ∧ more = more' := by
  cases entries with
  | nil =>
      obtain rfl := List.length_eq_zero_iff.1 hlen.symm
      simp_all [encodingEntries, AlikeEntries, functionCountsOfEntries]
  | cons entry rest =>
      obtain ⟨key, value⟩ := entry
      cases others with
      | nil => simp at hlen
      | cons other others =>
          obtain ⟨key', value'⟩ := other
          obtain ⟨b₁, c₁, hb₁, hc₁, rfl⟩ := encodingEntries_cons ha
          obtain ⟨b₂, c₂, hb₂, hc₂, rfl⟩ := encodingEntries_cons hb
          simp only [List.append_assoc] at h
          simp only [functionCountsOfEntries, List.append_assoc] at hcounts
          obtain ⟨rfl, hvalue⟩ := textBytes_append hv.1 hw.1 h
          obtain ⟨halike, hrest, hmore⟩ :=
            encoding_append value hv.2.1 hw.2.1 hb₁ hb₂ hvalue hcounts
          obtain ⟨halikes, hend⟩ := encodingEntries_append rest hv.2.2 hw.2.2
            (Nat.succ.inj hlen) hc₁ hc₂ hrest hmore
          exact ⟨⟨rfl, halike, halikes⟩, hend⟩
termination_by structural entries

end

/-- **Encodings.** Values with equal encodings and equal counts of their functions are alike. -/
theorem alike_of_encoding {v w : Value} {a : Bytes} (hv : v.LengthsFit store)
    (hw : w.LengthsFit store) (ha : encoding store v = some a) (hb : encoding store w = some a)
    (hcounts : v.functionCounts = w.functionCounts) : v.Alike store w :=
  (encoding_append v hv hw ha hb (show a ++ [] = a ++ [] from rfl)
    (show _ ++ [] = _ ++ [] by rw [hcounts])).1

/-! ## Data -/

/-- The stored form of the table is short enough and determines the table. -/
def TableEncodes (p : Primitives) (t : Table) : Prop :=
  p.KeepsTable t ∧ (p.writeTable t).length < 2 ^ 64

theorem TableEncodes.eq {p : Primitives} {t u : Table} (ht : TableEncodes p t)
    (hu : TableEncodes p u) (h : p.writeTable t = p.writeTable u) : t = u := by
  have := ht.1
  rw [Primitives.KeepsTable, h, hu.1] at this
  exact (Except.ok.inj this).symm

/-- Data whose tables are determined by their stored forms. -/
def Encodes (p : Primitives) (v : Value) : Prop :=
  v.IsData (2 ^ 64) ∧ ∀ t ∈ v.tables, TableEncodes p t

variable {p : Primitives}

mutual

/-- In data there is no function to count, and every length fits. -/
theorem lengthsFit_of_isData (v : Value) (hdata : v.IsData (2 ^ 64))
    (htables : ∀ t ∈ v.tables, TableEncodes p t) :
    v.LengthsFit p.writeTable ∧ v.functionCounts = [] := by
  cases v with
  | str s => exact ⟨hdata, rfl⟩
  | list items =>
      obtain ⟨hfit, hcounts⟩ := lengthsFitItems_of_isData items hdata.2 htables
      exact ⟨⟨hdata.1, hfit⟩, hcounts⟩
  | dict entries =>
      obtain ⟨hfit, hcounts⟩ := lengthsFitEntries_of_isData entries hdata.2 htables
      exact ⟨⟨hdata.1, hfit⟩, hcounts⟩
  | table t => exact ⟨(htables t List.mem_cons_self).2, rfl⟩
  | function params body captured => exact absurd hdata id
  | pipeline nodes => exact absurd hdata id
  | _ => exact ⟨trivial, rfl⟩
termination_by structural v

theorem lengthsFitItems_of_isData (items : List Value) (hdata : IsDataItems (2 ^ 64) items)
    (htables : ∀ t ∈ tablesOfItems items, TableEncodes p t) :
    LengthsFitItems p.writeTable items ∧ functionCountsOfItems items = [] := by
  cases items with
  | nil => exact ⟨trivial, rfl⟩
  | cons item rest =>
      obtain ⟨hitem, hitemCounts⟩ := lengthsFit_of_isData item hdata.1
        fun t ht => htables t (List.mem_append_left _ ht)
      obtain ⟨hrest, hrestCounts⟩ := lengthsFitItems_of_isData rest hdata.2
        fun t ht => htables t (List.mem_append_right _ ht)
      exact ⟨⟨hitem, hrest⟩, by rw [functionCountsOfItems, hitemCounts, hrestCounts]; rfl⟩
termination_by structural items

theorem lengthsFitEntries_of_isData (entries : List (String × Value))
    (hdata : IsDataEntries (2 ^ 64) entries)
    (htables : ∀ t ∈ tablesOfEntries entries, TableEncodes p t) :
    LengthsFitEntries p.writeTable entries ∧ functionCountsOfEntries entries = [] := by
  cases entries with
  | nil => exact ⟨trivial, rfl⟩
  | cons entry rest =>
      obtain ⟨key, value⟩ := entry
      obtain ⟨hvalue, hvalueCounts⟩ := lengthsFit_of_isData value hdata.2.1
        fun t ht => htables t (List.mem_append_left _ ht)
      obtain ⟨hrest, hrestCounts⟩ := lengthsFitEntries_of_isData rest hdata.2.2
        fun t ht => htables t (List.mem_append_right _ ht)
      exact ⟨⟨hdata.1, hvalue, hrest⟩,
        by rw [functionCountsOfEntries, hvalueCounts, hrestCounts]; rfl⟩
termination_by structural entries

end

mutual

/-- Data that is alike is equal. -/
theorem eq_of_alike (v : Value) {w : Value} (h : v.Alike p.writeTable w)
    (hv : ∀ t ∈ v.tables, TableEncodes p t) (hw : ∀ t ∈ w.tables, TableEncodes p t)
    (hdata : v.IsData (2 ^ 64)) : v = w := by
  cases v with
  | null => cases w <;> simp_all [Alike]
  | bool a => cases w <;> simp_all [Alike]
  | int i => cases w <;> simp_all [Alike]
  | float x => cases w <;> simp_all [Alike]
  | str s => cases w <;> simp_all [Alike]
  | list items =>
      cases w <;> simp only [Alike] at h
      exact congrArg list (eq_of_alikeItems items h hv hw hdata.2)
  | dict entries =>
      cases w <;> simp only [Alike] at h
      exact congrArg dict (eq_of_alikeEntries entries h hv hw hdata.2)
  | table t =>
      cases w <;> simp only [Alike] at h
      exact congrArg table
        ((hv t List.mem_cons_self).eq (hw _ List.mem_cons_self) h)
  | function params body captured => exact absurd hdata id
  | pipeline nodes => exact absurd hdata id
termination_by structural v

theorem eq_of_alikeItems (items : List Value) {others : List Value}
    (h : AlikeItems p.writeTable items others)
    (hv : ∀ t ∈ tablesOfItems items, TableEncodes p t)
    (hw : ∀ t ∈ tablesOfItems others, TableEncodes p t) (hdata : IsDataItems (2 ^ 64) items) :
    items = others := by
  cases items with
  | nil => cases others <;> simp_all [AlikeItems]
  | cons item rest =>
      cases others with
      | nil => exact absurd h id
      | cons other others =>
          rw [eq_of_alike item h.1 (fun t ht => hv t (List.mem_append_left _ ht))
              (fun t ht => hw t (List.mem_append_left _ ht)) hdata.1,
            eq_of_alikeItems rest h.2 (fun t ht => hv t (List.mem_append_right _ ht))
              (fun t ht => hw t (List.mem_append_right _ ht)) hdata.2]
termination_by structural items

theorem eq_of_alikeEntries (entries : List (String × Value)) {others : List (String × Value)}
    (h : AlikeEntries p.writeTable entries others)
    (hv : ∀ t ∈ tablesOfEntries entries, TableEncodes p t)
    (hw : ∀ t ∈ tablesOfEntries others, TableEncodes p t)
    (hdata : IsDataEntries (2 ^ 64) entries) : entries = others := by
  cases entries with
  | nil => cases others <;> simp_all [AlikeEntries]
  | cons entry rest =>
      obtain ⟨key, value⟩ := entry
      cases others with
      | nil => exact absurd h id
      | cons other others =>
          obtain ⟨key', value'⟩ := other
          obtain ⟨rfl, hvalue, hrest⟩ := h
          rw [eq_of_alike value hvalue (fun t ht => hv t (List.mem_append_left _ ht))
              (fun t ht => hw t (List.mem_append_left _ ht)) hdata.2.1,
            eq_of_alikeEntries rest hrest (fun t ht => hv t (List.mem_append_right _ ht))
              (fun t ht => hw t (List.mem_append_right _ ht)) hdata.2.2]
termination_by structural entries

end

/-- **Encodings of data.** Data with equal encodings is equal. -/
theorem Encodes.eq_of_encoding {v w : Value} {a : Bytes} (hv : Encodes p v) (hw : Encodes p w)
    (ha : encoding p.writeTable v = some a) (hb : encoding p.writeTable w = some a) : v = w := by
  obtain ⟨hfit, hcounts⟩ := lengthsFit_of_isData v hv.1 hv.2
  obtain ⟨hfit', hcounts'⟩ := lengthsFit_of_isData w hw.1 hw.2
  exact eq_of_alike v (alike_of_encoding hfit hfit' ha hb (hcounts.trans hcounts'.symm))
    hv.2 hw.2 hv.1

end NodePipeline.Value
