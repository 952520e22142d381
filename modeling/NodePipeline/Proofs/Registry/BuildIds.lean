import Mathlib.Data.List.Forall2
import NodePipeline.Proofs.Bytes
import NodePipeline.Proofs.Registry.Listing
import NodePipeline.Proofs.Time.Order

/-!
# Build ids sort by time

An id spells year, month, day, hour, minute, second and microsecond one after the other,
each in a fixed number of digits. Of two such texts the first digit that differs decides,
for characters as for bytes, and it decides as the numbers do. So ids of a later
microsecond are greater, and a listing that has the newest records first has the greatest
ids first.
-/

namespace NodePipeline

open Rfc3339

/-! ## The first digit that differs -/

/-- The texts are alike up to a place where both have a digit, and the first one has the
smaller digit there. -/
def DigitLess (cs ds : List Char) : Prop :=
  ∃ common c d rest rest', cs = common ++ c :: rest ∧ ds = common ++ d :: rest' ∧
    c.isDigit = true ∧ d.isDigit = true ∧ c < d

namespace DigitLess

variable {cs ds : List Char}

theorem append_right (h : DigitLess cs ds) (more more' : List Char) :
    DigitLess (cs ++ more) (ds ++ more') := by
  obtain ⟨common, c, d, rest, rest', rfl, rfl, hcd⟩ := h
  exact ⟨common, c, d, rest ++ more, rest' ++ more', by simp, by simp, hcd⟩

theorem append_left (h : DigitLess cs ds) (before : List Char) :
    DigitLess (before ++ cs) (before ++ ds) := by
  obtain ⟨common, c, d, rest, rest', rfl, rfl, hcd⟩ := h
  exact ⟨before ++ common, c, d, rest, rest', by simp, by simp, hcd⟩

theorem text_lt {s t : String} (h : DigitLess s.toList t.toList) : s < t := by
  obtain ⟨common, c, d, rest, rest', hs, ht, -, -, hlt⟩ := h
  show s.toList < t.toList
  rw [hs, ht]
  exact List.append_left_lt (List.cons_lt_cons_iff.2 (.inl hlt))

theorem bytes_lt {s t : String} (h : DigitLess s.toList t.toList) :
    Bytes.ofString s < Bytes.ofString t := by
  obtain ⟨common, c, d, rest, rest', hs, ht, hc, hd, hlt⟩ := h
  have hbytes : ∀ c : Char, c.isDigit = true → ∀ (u : String) rest, u.toList = common ++ c :: rest →
      Bytes.ofString u = Bytes.ofString (String.ofList common) ++
        c.val.toUInt8 :: Bytes.ofString (String.ofList rest) := by
    intro c hc u rest hu
    have hone : c.utf8Size = 1 := Bytes.utf8Size_of_isAlphanum (by simp [Char.isAlphanum, hc])
    have hsplit : u = String.ofList common ++ (String.ofList [c] ++ String.ofList rest) := by
      rw [← String.toList_inj, hu]
      simp
    rw [hsplit, Bytes.ofString_append, Bytes.ofString_append, Bytes.ofString_singleton hone]
    rfl
  have hdigit : c.val.toUInt8 < d.val.toUInt8 := by
    simp only [Char.isDigit, Bool.and_eq_true, decide_eq_true_eq] at hc hd
    have hc' : c.val.toNat ≤ 57 := hc.2
    have hd' : d.val.toNat ≤ 57 := hd.2
    have hlt' : c.val.toNat < d.val.toNat := hlt
    rw [UInt8.lt_iff_toNat_lt, UInt32.toNat_toUInt8, UInt32.toNat_toUInt8]
    omega
  rw [hbytes c hc s rest hs, hbytes d hd t rest' ht]
  exact List.append_left_lt (List.cons_lt_cons_iff.2 (.inl hdigit))

end DigitLess

/-! ## Numbers in digits -/

theorem natOfDigits_cons (c : Char) (rest : List Char) :
    Binary64.natOfDigits (c :: rest)
      = 10 ^ rest.length * (c.toNat - 48) + Binary64.natOfDigits rest := by
  rw [natOfDigits_eq, natOfDigits_eq, Nat.ofDigitChars_cons,
    Nat.ofDigitChars_eq_ofDigitChars_zero, Nat.mul_zero, Nat.zero_add]
  rfl

theorem Rfc3339.Spells.tail {c : Char} {rest : List Char} {width n : Nat}
    (h : Spells (c :: rest) (width + 1) n) : Spells rest width (Binary64.natOfDigits rest) :=
  ⟨Nat.succ.inj h.length, fun d hd => h.isDigit d (List.mem_cons_of_mem _ hd), rfl⟩

theorem Rfc3339.Spells.lt {digits : List Char} {width n : Nat} (h : Spells digits width n) :
    n < 10 ^ width := by
  induction digits generalizing width n with
  | nil =>
      rw [← h.value, ← h.length]
      exact Nat.one_pos
  | cons c rest ih =>
      obtain ⟨width, rfl⟩ : ∃ w, width = w + 1 := ⟨rest.length, h.length.symm⟩
      have hrest := ih h.tail
      have hdigit := h.isDigit c List.mem_cons_self
      simp only [Char.isDigit, Bool.and_eq_true, decide_eq_true_eq] at hdigit
      have hc : c.toNat ≤ 57 := hdigit.2
      rw [← h.value, natOfDigits_cons, h.tail.length]
      calc 10 ^ width * (c.toNat - 48) + Binary64.natOfDigits rest
          < 10 ^ width * (c.toNat - 48) + 10 ^ width := Nat.add_lt_add_left hrest _
        _ = 10 ^ width * (c.toNat - 48 + 1) := (Nat.mul_succ _ _).symm
        _ ≤ 10 ^ width * 10 := Nat.mul_le_mul_left _ (by omega)
        _ = 10 ^ (width + 1) := (Nat.pow_succ ..).symm

/-- Of two numbers of one width the smaller one has the smaller digit where they first differ. -/
theorem digitLess_of_spells {digits digits' : List Char} {width m n : Nat}
    (h : Spells digits width m) (h' : Spells digits' width n) (hlt : m < n) :
    DigitLess digits digits' := by
  induction digits generalizing digits' width m n with
  | nil =>
      obtain rfl : digits' = [] := List.length_eq_zero_iff.1 (h'.length.trans h.length.symm)
      rw [← h.value, ← h'.value] at hlt
      exact absurd hlt (Nat.lt_irrefl _)
  | cons c rest ih =>
      obtain ⟨width, rfl⟩ : ∃ w, width = w + 1 := ⟨rest.length, h.length.symm⟩
      obtain ⟨d, rest', rfl⟩ : ∃ d rest', digits' = d :: rest' :=
        List.exists_cons_of_length_eq_add_one h'.length
      have hc := h.isDigit c List.mem_cons_self
      have hd := h'.isDigit d List.mem_cons_self
      have hm := h.value
      have hn := h'.value
      rw [natOfDigits_cons, h.tail.length] at hm
      rw [natOfDigits_cons, h'.tail.length] at hn
      rcases Nat.lt_trichotomy c.toNat d.toNat with hlow | hsame | hhigh
      · exact ⟨[], c, d, rest, rest', rfl, rfl, hc, hd, hlow⟩
      · obtain rfl : c = d := Char.toNat_inj.1 hsame
        have hrest : Binary64.natOfDigits rest < Binary64.natOfDigits rest' := by omega
        exact (ih h.tail h'.tail hrest).append_left [c]
      · -- A greater leading digit outweighs all digits behind it.
        have hbound := h'.tail.lt
        have hstep : 10 ^ width * (d.toNat - 48 + 1) ≤ 10 ^ width * (c.toNat - 48) := by
          simp only [Char.isDigit, Bool.and_eq_true, decide_eq_true_eq] at hd
          have hzero : 48 ≤ d.toNat := hd.1
          exact Nat.mul_le_mul_left _ (by omega)
        rw [Nat.mul_succ] at hstep
        omega

/-! ## Numbers one after the other -/

/-- Numbers, each behind a mark and in a width of its own. -/
def stamped (places : List (String × Nat)) (numbers : List Nat) : List Char :=
  (places.zip numbers).flatMap fun place => place.1.1.toList ++ (padded place.1.2 place.2).toList

/-- The numbers are no wider than their places. -/
def Fits (places : List (String × Nat)) (numbers : List Nat) : Prop :=
  List.Forall₂ (fun place n => 0 < place.2 ∧ n < 10 ^ place.2) places numbers

/-- Numbers in their places are in the order of their lists. -/
theorem digitLess_stamped {places : List (String × Nat)} {numbers numbers' : List Nat}
    (h : Fits places numbers) (h' : Fits places numbers') (hlt : numbers < numbers') :
    DigitLess (stamped places numbers) (stamped places numbers') := by
  induction h generalizing numbers' with
  | nil =>
      cases h'
      exact absurd hlt (List.lt_irrefl _)
  | @cons place n places numbers hplace _ ih =>
      cases h' with
      | @cons _ n' _ numbers' hplace' hrest' =>
          have hspells := spells_padded hplace.1 hplace.2
          have hspells' := spells_padded hplace.1 hplace'.2
          rcases List.cons_lt_cons_iff.1 hlt with hn | ⟨rfl, hmore⟩
          · exact ((digitLess_of_spells hspells hspells' hn).append_left place.1.toList).append_right
              (stamped places numbers) (stamped places numbers')
          · exact (ih hrest' hmore).append_left (place.1.toList ++ (padded place.2 n).toList)

/-! ## Ids -/

/-- The marks and widths of the numbers in an id. -/
def buildIdNumbers : List (String × Nat) :=
  [("build_", 4), ("", 2), ("", 2), ("T", 2), ("", 2), ("", 2), (".", 6)]

namespace Instant

variable {t t' : Instant}

theorem toList_buildIdAt (h : t.FourDigits) (suffix : String) :
    (buildIdAt t suffix).toList
      = stamped buildIdNumbers t.civil.parts ++ ("Z_" ++ suffix).toList := by
  have hyear : yearText t.civil.date.year = padded 4 t.civil.date.year.toNat :=
    if_pos ⟨h.year_nonneg, h.year_le⟩
  unfold buildIdAt
  simp only [hyear, stamped, buildIdNumbers, Civil.parts, String.toList_append]
  simp

theorem fits_parts (h : t.FourDigits) : Fits buildIdNumbers t.civil.parts := by
  have hshown := shown_civil h.regular
  have hlow := h.year_nonneg
  have hhigh := h.year_le
  have hmonth := hshown.date.month_le
  have hday := hshown.date.day_le_31
  have hhour := hshown.hour_le
  have hminute := hshown.minute_le
  have hsecond := hshown.second_le
  have hnanos := hshown.nanos_lt
  unfold Fits buildIdNumbers Civil.parts
  simp only [List.forall₂_cons, List.forall₂_nil_left_iff, and_true]
  omega

/-- Ids of different microseconds first differ at a digit. -/
theorem digitLess_buildIdAt (h : t.FourDigits) (h' : t'.FourDigits)
    (hbefore : t.isBefore t' = true) (hmicros : t.micros ≠ t'.micros) (suffix suffix' : String) :
    DigitLess (buildIdAt t suffix).toList (buildIdAt t' suffix').toList := by
  rw [toList_buildIdAt h, toList_buildIdAt h']
  exact (digitLess_stamped (fits_parts h) (fits_parts h')
    (parts_lt h h' hbefore hmicros)).append_right _ _

end Instant

/-! ## Listings -/

/-- The id of the record was made at the instant of the record, which a clock shows with a year
of four digits. -/
structure BuildEntry.Dated (e : BuildEntry) : Prop where
  instant : e.createdAt.FourDigits
  buildId : ∃ suffix, e.buildId = buildIdAt e.createdAt suffix

theorem BuildEntry.dated_new {now : Instant} (h : now.FourDigits) (suffix root : String)
    (artifacts : Bindings String) : (BuildEntry.new now suffix root artifacts).Dated :=
  ⟨h, suffix, rfl⟩

/-- Records in the order of their ids, the greatest first. -/
def greatestIdFirst (entries : List BuildEntry) : List BuildEntry :=
  entries.mergeSort fun a b => decide (b.buildId ≤ a.buildId)

/-- Records of different ids are sorted by them in one way only. -/
theorem eq_greatestIdFirst {sorted entries : List BuildEntry} (hperm : sorted.Perm entries)
    (hsorted : sorted.Pairwise fun a b => b.buildId < a.buildId) :
    sorted = greatestIdFirst entries := by
  have hboth : sorted.Perm (greatestIdFirst entries) :=
    hperm.trans (List.mergeSort_perm entries _).symm
  have hne : sorted.Pairwise fun a b => a.buildId ≠ b.buildId := by
    refine hsorted.imp fun {a b} h heq => ?_
    rw [heq] at h
    exact String.lt_irrefl _ h
  have hdistinct := hboth.pairwise hne fun h => Ne.symm h
  have hweak : (greatestIdFirst entries).Pairwise fun a b =>
      decide (b.buildId ≤ a.buildId) = true := by
    refine List.pairwise_mergeSort ?_ ?_ entries
    · intro a b c h h'
      exact decide_eq_true (String.le_trans (of_decide_eq_true h') (of_decide_eq_true h))
    · intro a b
      simpa using String.le_total b.buildId a.buildId
  have hstrict : (greatestIdFirst entries).Pairwise fun a b => b.buildId < a.buildId := by
    refine (hweak.and hdistinct).imp fun {a b} h => ?_
    have hle : b.buildId ≤ a.buildId := of_decide_eq_true h.1
    exact String.not_le.1 fun hge => h.2 (String.le_antisymm hge hle)
  exact hboth.eq_of_pairwise (fun a b _ _ h h' => absurd h (String.lt_asymm h')) hsorted hstrict

/-- Of records of different microseconds those that are listed first have greater ids. -/
theorem buildId_lt_of_listedBefore {a b : BuildEntry} (ha : a.Dated) (hb : b.Dated)
    (hmicros : a.createdAt.micros ≠ b.createdAt.micros) (h : BuildEntry.listedBefore a b = true) :
    b.buildId < a.buildId := by
  obtain ⟨suffix, hida⟩ := ha.buildId
  obtain ⟨suffix', hidb⟩ := hb.buildId
  rcases BuildEntry.listedBefore_iff.1 h with hbefore | ⟨hsame, -⟩
  · rw [hida, hidb]
    exact (Instant.digitLess_buildIdAt hb.instant ha.instant hbefore hmicros.symm _ _).text_lt
  · exact absurd (congrArg Instant.micros hsame) hmicros

theorem pairwise_buildId_newestFirst {entries : List BuildEntry} (hdated : ∀ e ∈ entries, e.Dated)
    (hmicros : entries.Pairwise fun a b => a.createdAt.micros ≠ b.createdAt.micros) :
    (newestFirst entries).Pairwise fun a b => b.buildId < a.buildId := by
  have hdistinct : (newestFirst entries).Pairwise fun a b =>
      a.createdAt.micros ≠ b.createdAt.micros :=
    (List.mergeSort_perm entries _).symm.pairwise hmicros Ne.symm
  refine ((pairwise_newestFirst entries).and hdistinct).imp_of_mem fun ha hb h => ?_
  exact buildId_lt_of_listedBefore (hdated _ (mem_newestFirst.1 ha)) (hdated _ (mem_newestFirst.1 hb))
    h.2 h.1

/-- **Build ids sort by time.** Of two instants in years of four digits whose microseconds
differ the earlier one has the smaller id, by its characters and by its bytes, whatever the
suffixes are. Records of instants with pairwise different microseconds are listed in the
order of their ids, the greatest first. -/
theorem build_ids_sort_by_time :
    (∀ (t t' : Instant) (suffix suffix' : String), t.FourDigits → t'.FourDigits →
      t.isBefore t' = true → t.micros ≠ t'.micros →
        buildIdAt t suffix < buildIdAt t' suffix' ∧
        Bytes.ofString (buildIdAt t suffix) < Bytes.ofString (buildIdAt t' suffix')) ∧
    ∀ entries : List BuildEntry, (∀ e ∈ entries, e.Dated) →
      entries.Pairwise (fun a b => a.createdAt.micros ≠ b.createdAt.micros) →
        newestFirst entries = greatestIdFirst entries ∧
        (newestFirst entries).Pairwise fun a b => b.buildId < a.buildId := by
  constructor
  · intro t t' suffix suffix' h h' hbefore hmicros
    have hless := Instant.digitLess_buildIdAt h h' hbefore hmicros suffix suffix'
    exact ⟨hless.text_lt, hless.bytes_lt⟩
  · intro entries hdated hmicros
    have hpairwise := pairwise_buildId_newestFirst hdated hmicros
    exact ⟨eq_greatestIdFirst (List.mergeSort_perm entries _) hpairwise, hpairwise⟩

/-- The end of a leap second at the end of a year, whose microseconds count further than those
of the new year. -/
def leapEnd : Instant := ⟨1483228799, 1999999999⟩

def newYear : Instant := ⟨1483228800, 0⟩

theorem fourDigits_leapEnd : leapEnd.FourDigits where
  regular := by decide
  year_nonneg := by decide +kernel
  year_le := by decide +kernel

theorem fourDigits_newYear : newYear.FourDigits where
  regular := by decide
  year_nonneg := by decide +kernel
  year_le := by decide +kernel

/-- The leap second comes before the new year, also with the greatest suffix. -/
theorem leap_second_sorts_before_new_year :
    let old := BuildEntry.new leapEnd "ffffffff" "" .empty
    let new := BuildEntry.new newYear "00000000" "" .empty
    old.buildId = "build_20161231T235960.999999Z_ffffffff" ∧
    new.buildId = "build_20170101T000000.000000Z_00000000" ∧
    newYear.micros < leapEnd.micros ∧ leapEnd.isBefore newYear = true ∧
    old.buildId < new.buildId ∧ Bytes.ofString old.buildId < Bytes.ofString new.buildId ∧
    newestFirst [old, new] = greatestIdFirst [old, new] ∧
    (newestFirst [old, new]).Pairwise fun a b => b.buildId < a.buildId := by
  intro old new
  have hbefore : leapEnd.isBefore newYear = true := by decide
  have hmicros : leapEnd.micros ≠ newYear.micros := by decide
  obtain ⟨hlt, hbytes⟩ := build_ids_sort_by_time.1 leapEnd newYear "ffffffff" "00000000"
    fourDigits_leapEnd fourDigits_newYear hbefore hmicros
  have hdated : ∀ e ∈ [old, new], e.Dated :=
    List.forall_mem_cons.2 ⟨BuildEntry.dated_new fourDigits_leapEnd _ _ _,
      List.forall_mem_singleton.2 (BuildEntry.dated_new fourDigits_newYear _ _ _)⟩
  obtain ⟨hlist, hpairwise⟩ :=
    build_ids_sort_by_time.2 [old, new] hdated (List.pairwise_pair.2 hmicros)
  exact ⟨by decide +kernel, by decide +kernel, by decide, hbefore, hlt, hbytes, hlist, hpairwise⟩

end NodePipeline
