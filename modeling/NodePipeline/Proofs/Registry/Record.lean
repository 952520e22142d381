import NodePipeline.Proofs.Bytes
import NodePipeline.Proofs.Disk.Faults
import NodePipeline.Proofs.Registry.Entry
import NodePipeline.Proofs.Registry.Listing

/-!
# What recording does

A record that has been made is listed. Recording changes no file but that of the
record and the hidden one that it is written as.
-/

namespace NodePipeline

open Disk

/-! ## Names of record files -/

/-- The file of a record. -/
def recordName (id : String) : String := id ++ "." ++ recordExtension

/-- The file that a record is written as before it is put in place. -/
def hiddenName (id : String) : String := "." ++ id ++ "." ++ recordExtension ++ ".tmp"

theorem recordName_inj {id other : String} (h : recordName id = recordName other) :
    id = other := by
  have hchars := congrArg String.toList h
  simp only [recordName, String.toList_append, List.append_assoc,
    List.append_cancel_right_eq] at hchars
  exact String.toList_inj.1 hchars

theorem hiddenName_inj {id other : String} (h : hiddenName id = hiddenName other) :
    id = other := by
  have hchars := congrArg String.toList h
  simp only [hiddenName, String.toList_append, List.append_assoc, List.append_cancel_left_eq,
    List.append_cancel_right_eq] at hchars
  exact String.toList_inj.1 hchars

/-- The hidden file is that of no record. -/
theorem recordName_ne_hiddenName (id other : String) : recordName id ≠ hiddenName other := by
  intro heq
  have hlast := congrArg (fun name : String => name.toList.reverse.head?) heq
  simp [recordName, hiddenName, recordExtension] at hlast

/-- The id can be the name of a file that is listed. -/
structure IsRecordId (id : String) : Prop where
  noSlash : '/' ∉ id.toList
  shown : ∃ c rest, id.toList = c :: rest ∧ c ≠ '.'

theorem noSlash_padded (width n : Nat) : '/' ∉ (Rfc3339.padded width n).toList := by
  intro hmem
  cases Rfc3339.isDigit_padded width n _ hmem

theorem noSlash_yearText (year : Int) : '/' ∉ (Rfc3339.yearText year).toList := by
  unfold Rfc3339.yearText
  split
  · exact noSlash_padded _ _
  · split <;> simp [noSlash_padded]

/-- The ids of builds can be names of files, if their random ends can. -/
theorem isRecordId_buildIdAt (t : Instant) {suffix : String} (h : '/' ∉ suffix.toList) :
    IsRecordId (buildIdAt t suffix) := by
  have hkept := noSlash_yearText t.civil.date.year
  have hdigits := noSlash_padded
  unfold buildIdAt
  refine ⟨?_, 'b', ?_⟩
  · simp only [String.toList_append, List.mem_append, not_or]
    simp [hkept, hdigits, h]
  · simp only [String.append_assoc]
    rw [String.toList_append, show "build_".toList = ['b', 'u', 'i', 'l', 'd', '_'] from rfl,
      List.cons_append]
    exact ⟨_, rfl, by decide⟩

/-- The extension makes a name of a file out of every text without a slash. -/
theorem isName_of_noSlash {id : String} (h : '/' ∉ id.toList) : Path.IsName (recordName id) where
  nonempty := by simp [recordName]
  noSlash := by simp [recordName, h, recordExtension]
  notHere := by
    intro heq
    have hlength := congrArg (fun name : String => name.toList.length) heq
    simp [recordName, recordExtension] at hlength
  notAbove := by
    intro heq
    have hlength := congrArg (fun name : String => name.toList.length) heq
    simp [recordName, recordExtension] at hlength

theorem isName_hidden_of_noSlash {id : String} (h : '/' ∉ id.toList) :
    Path.IsName (hiddenName id) where
  nonempty := by simp [hiddenName]
  noSlash := by simp [hiddenName, h, recordExtension]
  notHere := by
    intro heq
    have hlength := congrArg (fun name : String => name.toList.length) heq
    simp [hiddenName] at hlength
  notAbove := by
    intro heq
    have hlength := congrArg (fun name : String => name.toList.length) heq
    simp [hiddenName] at hlength
    omega

section Names

variable {id directory : String} (h : IsRecordId id)

include h

theorem isName_record : Path.IsName (recordName id) := isName_of_noSlash h.noSlash

theorem isName_hidden : Path.IsName (hiddenName id) := isName_hidden_of_noSlash h.noSlash

theorem isRecordName_record : isRecordName (recordName id) = true := by
  obtain ⟨c, rest, hid, hc⟩ := h.shown
  have hextension : Path.extension? (recordName id) = some recordExtension :=
    Path.extension?_append (isName_record h) (by simp [hid]) (by decide)
  unfold isRecordName
  rw [hextension]
  simp [recordName, hid, hc]

theorem destination_recordPath :
    destination (recordPath directory id) = destination directory ++ [recordName id] :=
  destination_join (isName_record h)

theorem destination_recordTemporary :
    destination (recordTemporary directory id) = destination directory ++ [hiddenName id] :=
  destination_join (isName_hidden h)

end Names

/-! ## How recording goes -/

variable {directory : String} {e : BuildEntry} {d d' : Disk} {device : Device}
  {result : Except PipelineError Unit}

/-- Recording stops before the record is moved, it moves the record to its place, or it
gives up a record that cannot be moved. -/
inductive RecordAttempt (device : Device) (directory : String) (e : BuildEntry) (d : Disk) :
    Disk → Except PipelineError Unit → Prop
  | stopped {d' : Disk} {fault : PipelineError}
      (steps : device.run (recordSteps directory e) d = (d', .error fault)) :
      RecordAttempt device directory e d d' (.error fault)
  | moved {d₁ d' : Disk} (steps : device.run (recordSteps directory e) d = (d₁, .ok ()))
      (move : device (recordMove directory e) d₁ = (d', none)) :
      RecordAttempt device directory e d d' (.ok ())
  | abandoned {d₁ d₂ : Disk} {fault : DiskFault}
      (steps : device.run (recordSteps directory e) d = (d₁, .ok ()))
      (move : device (recordMove directory e) d₁ = (d₂, some fault)) :
      RecordAttempt device directory e d
        (device (.removeFile (recordTemporary directory e.buildId)) d₂).1
        (.error (.ofFault (recordMove directory e).path fault))

theorem recordFile_attempt (h : recordFile device directory e d = (d', result)) :
    RecordAttempt device directory e d d' result := by
  unfold recordFile at h
  split at h
  · next d₁ fault hsteps =>
      obtain ⟨rfl, rfl⟩ := Prod.ext_iff.1 h
      exact .stopped hsteps
  · next d₁ hsteps =>
      simp only at h
      split at h
      · next d₂ hmove =>
          obtain ⟨rfl, rfl⟩ := Prod.ext_iff.1 h
          exact .moved hsteps hmove
      · next d₂ fault hmove =>
          obtain ⟨rfl, rfl⟩ := Prod.ext_iff.1 h
          exact .abandoned hsteps hmove

theorem recordFile_eq_ok : recordFile device directory e d = (d', .ok ()) ↔
    ∃ d₁, device.run (recordSteps directory e) d = (d₁, .ok ()) ∧
      device (recordMove directory e) d₁ = (d', none) := by
  constructor
  · intro h
    cases recordFile_attempt h with
    | moved hsteps hmove => exact ⟨_, hsteps, hmove⟩
  · rintro ⟨d₁, hsteps, hmove⟩
    unfold recordFile
    simp only [hsteps, hmove]

/-- What a device has recorded has been recorded. -/
theorem Device.Honest.recordFile_ok (hdevice : device.Honest)
    (h : recordFile device directory e d = (d', .ok ())) :
    recordFile FileStep.perform directory e d = (d', .ok ()) := by
  obtain ⟨d₁, hsteps, hmove⟩ := recordFile_eq_ok.1 h
  exact recordFile_eq_ok.2 ⟨d₁, hdevice.run_ok hsteps, hdevice.done hmove⟩

/-! ## Record files -/

/-- Where recording changes something: on the way to the directory, and two files in it. -/
def RecordChanges (directory id : String) (l : Location) : Prop :=
  l ∈ stopsOf directory ∨ l = destination (recordTemporary directory id) ∨
    l = destination (recordPath directory id)

theorem touched_recordSteps (hdevice : device.Honest) (hd : d.WellFormed) (directory : String)
    (e : BuildEntry) :
    Touched (RecordChanges directory e.buildId) d (device.run (recordSteps directory e) d).1 := by
  refine Device.run_touched hd fun step hstep d' hd' => ?_
  simp only [recordSteps, List.mem_cons, List.not_mem_nil, or_false] at hstep
  rcases hstep with rfl | rfl
  · exact (hdevice.createDirectories_touched hd' directory).mono fun l hl => Or.inl hl
  · exact (hdevice.write_touched hd' _ _).mono fun l hl => Or.inr (Or.inl hl)

/-- The hidden file is there, and its directory is open. -/
theorem recordSteps_ok (hd : d.WellFormed)
    (h : Device.run FileStep.perform (recordSteps directory e) d = (d', .ok ())) :
    d'.Opens directory ∧ d'.at? (destination (recordTemporary directory e.buildId))
      = some (.file (Bytes.ofString e.toText)) := by
  obtain ⟨d₁, hcreate, hrest⟩ := Device.run_cons_ok h
  obtain ⟨d₂, hwrite, hdone⟩ := Device.run_cons_ok hrest
  obtain rfl : d₂ = d' := (Prod.ext_iff.1 hdone).1
  have hopen := FileStep.createDirectories_opens hd hcreate
  have hmade := FileStep.createDirectories_touched hd directory
  rw [hcreate] at hmade
  have hwritten := FileStep.write_touched hmade.wellFormed
    (recordTemporary directory e.buildId) (Bytes.ofString e.toText)
  rw [hwrite] at hwritten
  exact ⟨hwritten.opens hopen, FileStep.at?_of_write (FileStep.settle_eq_none hwrite)⟩

theorem recordFile_touched (hdevice : device.Honest) (hd : d.WellFormed) (directory : String)
    (e : BuildEntry) :
    Touched (RecordChanges directory e.buildId) d (recordFile device directory e d).1 := by
  have hsteps := touched_recordSteps hdevice hd directory e
  have hmove : ∀ d₁, device.run (recordSteps directory e) d = (d₁, .ok ()) →
      Touched (RecordChanges directory e.buildId) d (device (recordMove directory e) d₁).1 := by
    intro d₁ hdone
    rw [hdone] at hsteps
    obtain ⟨-, hfile⟩ := recordSteps_ok hd (hdevice.run_ok hdone)
    exact hsteps.trans ((hdevice.rename_file_touched (recordPath directory e.buildId)
      hsteps.wellFormed hfile).mono fun l hl => Or.inr hl)
  rcases hrun : recordFile device directory e d with ⟨d', result⟩
  cases recordFile_attempt hrun with
  | stopped hstopped => rwa [hstopped] at hsteps
  | moved hdone hmoved =>
      have htouched := hmove _ hdone
      rwa [hmoved] at htouched
  | abandoned hdone hmoved =>
      have htouched := hmove _ hdone
      rw [hmoved] at htouched
      refine htouched.trans ((hdevice.removeFile_touched htouched.wellFormed _).mono ?_)
      exact fun l hl => Or.inr (Or.inl hl)

/-- A record has been moved from its hidden file to its place among the others. -/
structure RecordMoved (directory : String) (e : BuildEntry) (d d' : Disk) : Prop where
  touched : Touched (fun l => l = destination (recordTemporary directory e.buildId) ∨
    l = destination directory ++ [recordName e.buildId]) d d'
  named : isName (recordName e.buildId) = true
  held : d'.at? (destination directory ++ [recordName e.buildId])
    = some (.file (Bytes.ofString e.toText))
  /-- A directory would have been in the way. -/
  free : d.at? (destination directory ++ [recordName e.buildId]) ≠ some .directory

theorem recordMove_done (hid : '/' ∉ e.buildId.toList) (hd : d.WellFormed)
    (hfile : d.at? (destination (recordTemporary directory e.buildId))
      = some (.file (Bytes.ofString e.toText)))
    (h : FileStep.perform (recordMove directory e) d = (d', none)) :
    RecordMoved directory e d d' := by
  have hname := isName_of_noSlash hid
  have hplace : destination (recordPath directory e.buildId)
      = destination directory ++ [recordName e.buildId] := destination_join hname
  have htouched := FileStep.rename_file_touched (recordPath directory e.buildId) hd hfile
  unfold recordMove at h
  rw [h] at htouched
  rw [FileStep.perform_rename] at h
  have hrename := FileStep.settle_eq_none h
  have hat := FileStep.at?_of_rename hd hrename
  have hfree := ne_directory_of_rename_file hd hrename hfile
  obtain ⟨-, t, -, ht, -⟩ := rename_eq_ok hd hrename
  rw [hplace] at htouched hat hfree
  exact ⟨htouched, ((locate_join hname).1 ht).2.1, hat.trans hfile, hfree⟩

/-- A record that has been made lies in its file. -/
theorem recordFile_ok (hid : '/' ∉ e.buildId.toList) (hd : d.WellFormed)
    (h : recordFile FileStep.perform directory e d = (d', .ok ())) :
    d'.WellFormed ∧ d'.read (recordPath directory e.buildId) = .ok (Bytes.ofString e.toText) := by
  obtain ⟨d₁, hsteps, hmove⟩ := recordFile_eq_ok.1 h
  have htouched := touched_recordSteps Device.honest_perform hd directory e
  rw [hsteps] at htouched
  obtain ⟨hopen, hfile⟩ := recordSteps_ok hd hsteps
  have hmoved := recordMove_done hid htouched.wellFormed hfile hmove
  exact ⟨hmoved.touched.wellFormed, (read_join (isName_of_noSlash hid)).2
    ⟨hmoved.touched.opens hopen, hmoved.named, hmoved.held⟩⟩

/-! ## Listed records -/

theorem readRecord_of_read {path : String} (hread : d.read path = .ok (Bytes.ofString e.toText))
    (hback : BuildEntry.ofText? e.toText = some e) : readRecord d path = some e := by
  have htext : d.readText path = .ok e.toText := by
    unfold Disk.readText
    simp only [bind, Except.bind, hread, Bytes.toString?_ofString]
    rfl
  unfold readRecord
  rw [htext]
  exact hback

/-- A whole record in a record file is listed. -/
theorem mem_recordFiles (hdirectory : directory.isEmpty = false) (hid : IsRecordId e.buildId)
    (hread : d.read (recordPath directory e.buildId) = .ok (Bytes.ofString e.toText))
    (hback : BuildEntry.ofText? e.toText = some e) :
    ∃ entries, recordFiles d directory = .ok entries ∧ e ∈ entries := by
  obtain ⟨hopen, hname, hat⟩ := (read_join (isName_record hid)).1 hread
  have hlist : d.list directory = .ok (d.children (destination directory)) := by
    unfold Disk.list
    rw [locate_eq_walk hdirectory, hopen.1]
    simp only [bind, Except.bind, hopen.2]
    rfl
  unfold recordFiles
  rw [hlist]
  refine ⟨_, rfl, List.mem_filterMap.2 ⟨_, List.mem_filter.2 ⟨?_, isRecordName_record hid⟩,
    readRecord_of_read hread hback⟩⟩
  exact mem_children (isTop_eq_false_of_at? (by rw [hat]; simp)) hat

/-- The registry keeps its records in a directory that a path leads to, or in memory. -/
def Registry.HasPlace : Registry → Prop
  | .memory => True
  | .files directory => directory.isEmpty = false

theorem Registry.recordFile_of_record {w w' : Workspace} {result : Except PipelineError Unit}
    (h : (Registry.files directory).record device e w = (w', result)) :
    recordFile device directory e w.disk = (w'.disk, result) := by
  obtain ⟨rfl, rfl⟩ := Prod.ext_iff.1 h
  rfl

/-- **What has been recorded is listed.** -/
theorem lists_record {r : Registry} {w w' : Workspace} (hplace : r.HasPlace)
    (hid : IsRecordId e.buildId) (hregular : e.createdAt.Regular) (hkept : e.createdAt.Kept)
    (hw : w.disk.WellFormed) (h : r.record FileStep.perform e w = (w', .ok ())) :
    ∃ entries, r.entries w' = .ok (newestFirst entries) ∧ e ∈ entries := by
  cases r with
  | memory =>
      obtain rfl := (Prod.ext_iff.1 h).1
      exact ⟨w.memory ++ [e], rfl, by simp⟩
  | files directory =>
      obtain ⟨-, hread⟩ := recordFile_ok hid.noSlash hw (Registry.recordFile_of_record h)
      obtain ⟨entries, hentries, hmem⟩ :=
        mem_recordFiles hplace hid hread (BuildEntry.ofText?_toText hregular hkept)
      refine ⟨entries, ?_, hmem⟩
      rw [Registry.entries, hentries]
      rfl

end NodePipeline
