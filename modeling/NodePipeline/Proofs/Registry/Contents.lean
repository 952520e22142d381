import NodePipeline.Proofs.Disk.Sound
import NodePipeline.Proofs.Lists
import NodePipeline.Proofs.Registry.Record

/-!
# What a directory of records lists

The records in a directory are what its record files hold. They are listed wherever
the way to the directory is clear, and there are none as long as it has not been made.
Other files of the directory, and those that are being written, do not matter.
-/

namespace NodePipeline

open Disk

variable {d d' : Disk} {directory name path : String} {e : BuildEntry} {l up : Location}
  {c : Content} {bytes : Bytes}

/-! ## Names of record files -/

theorem isTop_of_isRecordName (h : isRecordName name = true) (up : Location) :
    isTop (up ++ [name]) = false := by
  cases htop : isTop (up ++ [name]) with
  | false => rfl
  | true =>
      rcases Bool.or_eq_true_iff.1 htop with hroot | habove
      · obtain rfl : name = "/" := by
          have hsame : up ++ [name] = [] ++ ["/"] := by simpa using hroot
          simpa using List.append_inj_right' hsame rfl
        exact absurd h (by decide)
      · obtain rfl : name = ".." := by
          simpa using List.all_eq_true.1 habove name (by simp)
        exact absurd h (by decide)

theorem isRecordName_hiddenName (id : String) : isRecordName (hiddenName id) = false := by
  unfold isRecordName hiddenName
  simp

/-- The location of the record file of that name. -/
def Disk.IsRecordPlace (directory : String) (l : Location) : Prop :=
  ∃ name, isRecordName name = true ∧ l = destination directory ++ [name]

theorem isRecordPlace_iff : IsRecordPlace directory (destination directory ++ [name]) ↔
    isRecordName name = true := by
  constructor
  · rintro ⟨name', hname', heq⟩
    obtain rfl : name = name' := by simpa using List.append_inj_right' heq rfl
    exact hname'
  · exact fun h => ⟨name, h, rfl⟩

namespace Disk

/-! ## Names in a directory -/

/-- Of a part of the cells, a directory lists what is in that part. -/
theorem children_filter (cells : List (Location × Content)) (p : Location → Bool) (up : Location) :
    (Disk.mk (cells.filter fun cell => p cell.1)).children up
      = ((Disk.mk cells).children up).filter fun name => p (up ++ [name]) :=
  filterMap_filter_eq (fun _ _ h => congrArg p (eq_of_child h)) cells

theorem children_cut (d : Disk) (l up : Location) :
    (d.cut l).children up = (d.children up).filter fun name => !l.isPrefixOf (up ++ [name]) :=
  children_filter d.cells (fun l' => !l.isPrefixOf l') up

/-- What is put elsewhere does not show in a directory. -/
theorem children_put (d : Disk) (l up : Location) (c : Content) :
    ∃ new, (∀ name ∈ new, l = up ++ [name]) ∧
      (d.put l c).children up = new ++ (d.children up).filter fun name => up ++ [name] != l := by
  have hrest := children_filter d.cells (fun l' => l' != l) up
  unfold children put at *
  rw [List.filterMap_cons, ← hrest]
  split
  · exact ⟨[], by simp, rfl⟩
  · next name hname =>
      refine ⟨[name], fun name' hname' => ?_, rfl⟩
      rw [List.mem_singleton.1 hname']
      exact eq_of_child hname

/-! ## Records of a directory -/

def recordNames (d : Disk) (directory : String) : List String :=
  (d.children (destination directory)).filter isRecordName

/-- The record in the file of that name. -/
def recordAt (d : Disk) (directory name : String) : Option BuildEntry :=
  if isName name then
    match d.at? (destination directory ++ [name]) with
    | some (.file bytes) => (Bytes.toString? bytes).bind BuildEntry.ofText?
    | _ => none
  else none

def recordsIn (d : Disk) (directory : String) : List BuildEntry :=
  (d.recordNames directory).filterMap (d.recordAt directory)

theorem mem_recordNames :
    name ∈ d.recordNames directory ↔
      isRecordName name = true ∧ d.at? (destination directory ++ [name]) ≠ none := by
  unfold recordNames
  rw [List.mem_filter, and_comm]
  constructor
  · rintro ⟨hname, hmem⟩
    exact ⟨hname, (mem_children_iff_at? (isTop_of_isRecordName hname _)).1 hmem⟩
  · rintro ⟨hname, hat⟩
    exact ⟨hname, (mem_children_iff_at? (isTop_of_isRecordName hname _)).2 hat⟩

theorem Sound.nodup_recordNames (hd : d.Sound) (directory : String) :
    (d.recordNames directory).Nodup :=
  (nodup_children hd.keys _).filter _

theorem Sound.isName_of_mem (hd : d.Sound) (h : name ∈ d.recordNames directory) :
    Path.IsName name := by
  obtain ⟨hname, hat⟩ := mem_recordNames.1 h
  exact hd.named _ _ (isTop_of_isRecordName hname _) hat

theorem recordAt_congr (h : d'.at? (destination directory ++ [name])
    = d.at? (destination directory ++ [name])) : d'.recordAt directory name
      = d.recordAt directory name := by
  unfold recordAt
  rw [h]

theorem recordAt_of_not_file (h : ∀ bytes, d.at? (destination directory ++ [name])
    ≠ some (.file bytes)) : d.recordAt directory name = none := by
  unfold recordAt
  split
  · split
    · next bytes hat => exact absurd hat (h bytes)
    · rfl
  · rfl

theorem recordAt_of_file (hname : isName name = true)
    (hat : d.at? (destination directory ++ [name]) = some (.file (Bytes.ofString e.toText)))
    (hregular : e.createdAt.Regular) (hkept : e.createdAt.Kept) :
    d.recordAt directory name = some e := by
  unfold recordAt
  rw [if_pos hname, hat]
  simp only [Bytes.toString?_ofString, Option.bind_some, BuildEntry.ofText?_toText hregular hkept]

/-- Records that are where they were are listed as they were. -/
theorem recordsIn_congr (hnames : d'.recordNames directory = d.recordNames directory)
    (hat : ∀ name, isRecordName name = true → d'.at? (destination directory ++ [name])
      = d.at? (destination directory ++ [name])) :
    d'.recordsIn directory = d.recordsIn directory := by
  unfold recordsIn
  rw [hnames]
  refine List.filterMap_congr fun name hname => recordAt_congr (hat name ?_)
  exact (mem_recordNames.1 hname).1

theorem recordNames_put (hl : ¬IsRecordPlace directory l) (c : Content) :
    (d.put l c).recordNames directory = d.recordNames directory := by
  obtain ⟨new, hnew, hchildren⟩ := d.children_put l (destination directory) c
  have hnone : new.filter isRecordName = [] := by
    refine List.filter_eq_nil_iff.2 fun name hname hrecord => hl ?_
    exact hnew name hname ▸ isRecordPlace_iff.2 hrecord
  unfold recordNames
  rw [hchildren, List.filter_append, hnone, List.nil_append, List.filter_filter]
  refine List.filter_congr fun name _ => ?_
  by_cases hrecord : isRecordName name = true
  · have hne : (destination directory ++ [name] != l) = true := by
      rw [bne_iff_ne]
      exact fun heq => hl ⟨name, hrecord, heq.symm⟩
    rw [hrecord, hne]
    rfl
  · simp [hrecord]

/-- A file elsewhere does not matter. -/
theorem recordsIn_put_file (hl : ¬IsRecordPlace directory l) (htop : isTop l = false)
    (c : Content) : (d.put l c).recordsIn directory = d.recordsIn directory := by
  refine recordsIn_congr (recordNames_put hl c) fun name hname => ?_
  rw [at?_put htop, if_neg]
  rintro rfl
  exact hl (isRecordPlace_iff.2 hname)

/-- A new directory holds no record. -/
theorem recordsIn_put_directory (htop : isTop l = false) (hnone : d.at? l = none) :
    (d.put l .directory).recordsIn directory = d.recordsIn directory := by
  by_cases hl : IsRecordPlace directory l
  · obtain ⟨new, hnew, hchildren⟩ := d.children_put l (destination directory) .directory
    have hat : ∀ name, (d.put l .directory).recordAt directory name = d.recordAt directory name := by
      intro name
      by_cases heq : destination directory ++ [name] = l
      · rw [recordAt_of_not_file, recordAt_of_not_file]
        · rw [heq, hnone]
          simp
        · rw [at?_put htop, if_pos heq]
          simp
      · refine recordAt_congr ?_
        rw [at?_put htop, if_neg heq]
    have hold : (d.children (destination directory)).filter
        (fun name => destination directory ++ [name] != l) = d.children (destination directory) := by
      refine List.filter_eq_self.2 fun name hname => ?_
      obtain ⟨c, hcell⟩ := mem_children_iff.1 hname
      rw [bne_iff_ne]
      exact fun heq => cells_of_at?_eq_none htop hnone _ hcell heq
    have hfresh : (new.filter isRecordName).filterMap (d.recordAt directory) = [] := by
      refine List.filterMap_eq_nil_iff.2 fun name hname => recordAt_of_not_file ?_
      rw [← hnew name (List.mem_filter.1 hname).1, hnone]
      simp
    unfold recordsIn recordNames
    rw [hchildren, hold, List.filter_append, List.filterMap_append,
      List.filterMap_congr fun name _ => hat name, hfresh, List.nil_append]
    exact List.filterMap_congr fun name _ => hat name
  · exact recordsIn_put_file hl htop .directory

/-- Removing a file elsewhere does not matter. -/
theorem recordsIn_cut_file (hd : d.WellFormed) (hl : ¬IsRecordPlace directory l)
    (hfile : d.at? l = some (.file bytes)) :
    (d.cut l).recordsIn directory = d.recordsIn directory := by
  have htop : isTop l = false := isTop_eq_false_of_at? (by rw [hfile]; simp)
  -- Nothing is below a file.
  have hbelow : ∀ name, isRecordName name = true → l <+: destination directory ++ [name] →
      d.at? (destination directory ++ [name]) = none := by
    rintro name hname ⟨rest, hrest⟩
    rw [← hrest]
    refine hd.below (by simp [hfile]) ?_
    rintro rfl
    exact hl ⟨name, hname, by simpa using hrest⟩
  refine recordsIn_congr ?_ fun name hname => ?_
  · unfold recordNames
    rw [children_cut, List.filter_filter]
    refine List.filter_congr fun name hmem => ?_
    by_cases hname : isRecordName name = true
    · have hpre : l.isPrefixOf (destination directory ++ [name]) = false := by
        rw [Bool.eq_false_iff]
        intro hpre
        have hnone := hbelow name hname (List.isPrefixOf_iff_prefix.1 hpre)
        exact (mem_children_iff_at? (isTop_of_isRecordName hname _)).1 hmem hnone
      rw [hname, hpre]
      rfl
    · simp [hname]
  · rw [at?_cut htop]
    split
    · next hpre => exact (hbelow name hname hpre).symm
    · rfl

end Disk

/-- A file of an open directory is read by its name. -/
theorem readRecord_join (hname : Path.IsName name) (hopen : d.Opens directory) :
    readRecord d (Path.join directory name) = d.recordAt directory name := by
  unfold readRecord Disk.readText
  cases hread : d.read (Path.join directory name) with
  | ok bytes =>
      obtain ⟨-, hallowed, hat⟩ := (read_join hname).1 hread
      unfold Disk.recordAt
      rw [if_pos hallowed, hat]
      simp only [bind, Except.bind]
      cases Bytes.toString? bytes with
      | none => rfl
      | some text => rfl
  | error fault =>
      show none = d.recordAt directory name
      unfold Disk.recordAt
      split
      · next hallowed =>
          split
          · next bytes hat =>
              rw [(read_join hname).2 ⟨hopen, hallowed, hat⟩] at hread
              cases hread
          · rfl
      · rfl

end NodePipeline
