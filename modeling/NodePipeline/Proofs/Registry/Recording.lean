import NodePipeline.Proofs.Disk.Steady
import NodePipeline.Proofs.Disk.Way
import NodePipeline.Proofs.Registry.Contents

/-!
# Recording on a device that may fail

Until a record is moved into place the records of its directory are listed as before,
wherever recording stops. Once it is in place it is listed beside the others.
-/

namespace NodePipeline

open Disk

variable {d d' d'' : Disk} {directory name path : String} {e : BuildEntry} {bytes : Bytes}
  {device : Device}

/-! ## Work beside the records -/

/-- The records of a directory are what they were. On the way to it, directories may have
been made where nothing was. -/
structure Disk.Beside (directory : String) (d d' : Disk) : Prop where
  sound : d'.Sound
  records : d'.recordsIn directory = d.recordsIn directory
  files : ∀ name bytes, isRecordName name = true →
    d'.at? (destination directory ++ [name]) = some (.file bytes) →
    d.at? (destination directory ++ [name]) = some (.file bytes)
  way : ∀ stop ∈ stopsOf directory, d'.at? stop = d.at? stop ∨
    d.at? stop = none ∧ d'.at? stop = some .directory

namespace Disk

theorem Beside.refl (hd : d.Sound) : Beside directory d d :=
  ⟨hd, rfl, fun _ _ _ h => h, fun _ _ => Or.inl rfl⟩

theorem Beside.trans (h : Beside directory d d') (h' : Beside directory d' d'') :
    Beside directory d d'' where
  sound := h'.sound
  records := h'.records.trans h.records
  files name bytes hname hat := h.files name bytes hname (h'.files name bytes hname hat)
  way stop hstop := by
    rcases h'.way stop hstop with hsame | ⟨hnone, hdir⟩
    · rw [hsame]
      exact h.way stop hstop
    · rcases h.way stop hstop with hsame | ⟨-, hdir'⟩
      · exact Or.inr ⟨hsame ▸ hnone, hdir⟩
      · rw [hdir'] at hnone
        cases hnone

theorem Beside.opens (h : Beside directory d d') (hopen : d.Opens directory) :
    d'.Opens directory :=
  hopen.mono fun stop hstop hdir => by
    rcases h.way stop hstop with hsame | ⟨-, hdir'⟩
    · rw [hsame, hdir]
    · exact hdir'

theorem Beside.leads (h : Beside directory d d') (hleads : d.Leads directory) :
    d'.Leads directory :=
  ⟨hleads.nonempty, hleads.way.imp_left h.opens⟩

theorem Beside.clear_iff (h : Beside directory d d') : d'.Clear directory ↔ d.Clear directory := by
  refine forall₂_congr fun stop hstop => forall_congr' fun bytes => not_congr ?_
  rcases h.way stop hstop with hsame | ⟨hnone, hdir⟩
  · rw [hsame]
  · rw [hnone, hdir]
    simp

theorem beside_makeDirectories (hd : d.Sound) (paths : List String) :
    Beside directory d (makeDirectories paths d).1 := by
  refine makeDirectories_invariant (P := Beside directory d) (fun path _ d₁ d₂ h hmake => ?_)
    (Beside.refl hd)
  obtain ⟨l, hlocate, hnone, rfl⟩ := makeDirectory_eq_ok hmake
  have hl : d₁.at? l ≠ some .directory := by simp [hnone]
  have htop := isTop_eq_false_of_at? hl
  refine h.trans ⟨h.sound.put hlocate hl _, recordsIn_put_directory htop hnone, ?_, ?_⟩
  · intro name bytes _ hat
    rw [at?_put htop] at hat
    split at hat
    · cases hat
    · exact hat
  · intro stop _
    rw [at?_put htop]
    split
    · next heq => exact Or.inr ⟨heq ▸ hnone, rfl⟩
    · exact Or.inl rfl

theorem beside_write (hd : d.Sound) (hplace : ¬IsRecordPlace directory (destination path))
    (hway : destination path ∉ stopsOf directory ∨ d.Opens directory)
    (h : d.write path bytes = .ok d') : Beside directory d d' := by
  have hsound := hd.write h
  obtain ⟨l, hlocate, hl, rfl⟩ := write_eq_ok h
  obtain rfl := locate_eq_destination hlocate
  have htop := isTop_eq_false_of_at? hl
  refine ⟨hsound, recordsIn_put_file hplace htop _, fun name found hname hat => ?_,
    fun stop hstop => Or.inl ?_⟩
  · rwa [at?_put htop, if_neg] at hat
    rintro heq
    exact hplace ⟨name, hname, heq.symm⟩
  · rw [at?_put htop, if_neg]
    rintro rfl
    rcases hway with hway | hopen
    · exact hway hstop
    · exact hl (hopen.stops _ hstop)

theorem beside_removeFile (hd : d.Sound) (hplace : ¬IsRecordPlace directory (destination path))
    (hopen : d.Opens directory) (h : d.removeFile path = .ok d') : Beside directory d d' := by
  have hsound := hd.removeFile h
  obtain ⟨l, found, hlocate, hl, rfl⟩ := removeFile_eq_ok h
  have htouched := touched_cut_file hd.wellFormed hlocate hl
  obtain rfl := locate_eq_destination hlocate
  refine ⟨hsound, recordsIn_cut_file hd.wellFormed hplace hl, fun name bytes hname hat => ?_,
    fun stop hstop => Or.inl ?_⟩
  · rwa [htouched.same] at hat
    rintro heq
    exact hplace ⟨name, hname, heq.symm⟩
  · refine htouched.same stop ?_
    rintro rfl
    rw [hopen.stops _ hstop] at hl
    cases hl

end Disk

/-! ## Steps beside the records -/

namespace Device.Honest

theorem createDirectories_beside (hdevice : device.Honest) (hd : d.Sound) (path : String) :
    Beside directory d (device (.createDirectories path) d).1 := by
  rcases hstep : device (.createDirectories path) d with ⟨d', fault⟩
  cases fault with
  | none =>
      have hmade : makeDirectories (Path.ancestors path) d = (d', none) := hdevice.done hstep
      have hbeside : Beside directory d (makeDirectories (Path.ancestors path) d).1 :=
        beside_makeDirectories hd _
      rwa [hmade] at hbeside
  | some fault =>
      cases hdevice.failed hstep with
      | untouched => exact .refl hd
      | outer _ => exact beside_makeDirectories hd _

theorem write_beside (hdevice : device.Honest) (hd : d.Sound)
    (hplace : ¬IsRecordPlace directory (destination path))
    (hway : destination path ∉ stopsOf directory ∨ d.Opens directory) (bytes : Bytes) :
    Beside directory d (device (.write path bytes) d).1 := by
  rcases hstep : device (.write path bytes) d with ⟨d', fault⟩
  cases fault with
  | none =>
      have hwritten := hdevice.done hstep
      rw [FileStep.perform_write] at hwritten
      exact beside_write hd hplace hway (FileStep.settle_eq_none hwritten)
  | some fault =>
      cases hdevice.failed hstep with
      | untouched => exact .refl hd
      | torn n hwrite => exact beside_write hd hplace hway hwrite

theorem removeFile_beside (hdevice : device.Honest) (hd : d.Sound)
    (hplace : ¬IsRecordPlace directory (destination path)) (hopen : d.Opens directory) :
    Beside directory d (device (.removeFile path) d).1 := by
  rcases hstep : device (.removeFile path) d with ⟨d', fault⟩
  cases fault with
  | none =>
      have hremoved := hdevice.done hstep
      rw [FileStep.perform_removeFile] at hremoved
      exact beside_removeFile hd hplace hopen (FileStep.settle_eq_none hremoved)
  | some fault =>
      cases hdevice.failed hstep
      exact .refl hd

end Device.Honest

/-! ## Listing -/

/-- Where the way is clear the records of the directory are listed. -/
theorem recordFiles_of_clear (hd : d.Sound) (hleads : d.Leads directory)
    (hclear : d.Clear directory) : recordFiles d directory = .ok (d.recordsIn directory) := by
  unfold recordFiles
  rcases hleads.clear_cases hd.wellFormed hclear with hopen | ⟨hnone, habsent⟩
  · rw [list_of_opens hleads.nonempty hopen]
    refine congrArg _ (List.filterMap_congr fun name hname => ?_)
    exact readRecord_join (hd.isName_of_mem hname) hopen
  · -- Nothing is in a directory that has not been made.
    have hnames : d.recordNames directory = [] := by
      refine List.eq_nil_iff_forall_not_mem.2 fun name hname => ?_
      exact (mem_recordNames.1 hname).2 (hd.wellFormed.below (by simp [hnone]) (by simp))
    rw [habsent, recordsIn, hnames]
    rfl

theorem recordFiles_of_blocked (hd : d.Sound) (hleads : d.Leads directory)
    (hblocked : ¬d.Clear directory) :
    recordFiles d directory = .error (.ofFault directory .notDirectory) := by
  rw [recordFiles, hleads.blocked hd.wellFormed hblocked]

/-- Work beside the records does not change what is listed. -/
theorem Disk.Beside.recordFiles_eq (h : Beside directory d d') (hd : d.Sound)
    (hleads : d.Leads directory) : recordFiles d' directory = recordFiles d directory := by
  by_cases hclear : d.Clear directory
  · rw [recordFiles_of_clear h.sound (h.leads hleads) (h.clear_iff.2 hclear), h.records,
      recordFiles_of_clear hd hleads hclear]
  · rw [recordFiles_of_blocked h.sound (h.leads hleads) (mt h.clear_iff.1 hclear),
      recordFiles_of_blocked hd hleads hclear]

/-! ## Recording -/

/-- The hidden file of a record is none of the records. -/
theorem not_isRecordPlace_temporary (hid : IsRecordId e.buildId) :
    ¬IsRecordPlace directory (destination (recordTemporary directory e.buildId)) := by
  rw [destination_recordTemporary hid, isRecordPlace_iff, isRecordName_hiddenName]
  exact Bool.false_ne_true

/-- Before the record is moved, nothing is listed that was not. -/
theorem beside_recordSteps (hdevice : device.Honest) (hid : IsRecordId e.buildId) (hd : d.Sound)
    {result : Except PipelineError Unit}
    (h : device.run (recordSteps directory e) d = (d', result)) : Beside directory d d' := by
  have hmade : Beside directory d (device (.createDirectories directory) d).1 :=
    hdevice.createDirectories_beside hd directory
  unfold recordSteps Device.run at h
  split at h
  · next d₁ fault hcreate =>
      obtain rfl := (Prod.ext_iff.1 h).1
      rwa [hcreate] at hmade
  · next d₁ hcreate =>
      rw [hcreate] at hmade
      have hopen : d₁.Opens directory :=
        FileStep.createDirectories_opens hd.wellFormed (hdevice.done hcreate)
      have hwritten := hmade.trans (hdevice.write_beside hmade.sound
        (not_isRecordPlace_temporary hid) (Or.inr hopen) (Bytes.ofString e.toText))
      unfold Device.run at h
      split at h
      · next d₂ fault hwrite =>
          obtain rfl := (Prod.ext_iff.1 h).1
          rwa [hwrite] at hwritten
      · next d₂ hwrite =>
          obtain rfl : d₂ = d' := (Prod.ext_iff.1 h).1
          rwa [hwrite] at hwritten

/-- A record that could not be made has changed nothing that is listed. -/
theorem beside_of_recordFile_error (hdevice : device.Honest) (hid : IsRecordId e.buildId)
    (hd : d.Sound) {fault : PipelineError}
    (h : recordFile device directory e d = (d', .error fault)) : Beside directory d d' := by
  cases recordFile_attempt h with
  | stopped hsteps => exact beside_recordSteps hdevice hid hd hsteps
  | abandoned hsteps hmove =>
      have hbeside := beside_recordSteps hdevice hid hd hsteps
      obtain ⟨hopen, -⟩ := recordSteps_ok hd.wellFormed (hdevice.run_ok hsteps)
      -- A move that fails leaves the hidden file, which is then removed if it can be.
      obtain rfl := hdevice.rename_failed hmove
      exact hbeside.trans
        (hdevice.removeFile_beside hbeside.sound (not_isRecordPlace_temporary hid) hopen)

theorem recordMove_sound (hdevice : device.Honest) (hd : d.Sound)
    {fault : Option DiskFault} (h : device (recordMove directory e) d = (d', fault)) :
    d'.Sound := by
  have hsteady := hdevice.steady hd (recordMove directory e)
  rw [h] at hsteady
  exact hsteady.sound

/-- The other records stay where they are. -/
theorem RecordMoved.others (h : RecordMoved directory e d d') (hid : IsRecordId e.buildId)
    (hname : isRecordName name = true) (hne : name ≠ recordName e.buildId) :
    d'.at? (destination directory ++ [name]) = d.at? (destination directory ++ [name]) := by
  apply h.touched.same
  rintro (heq | heq)
  · refine @not_isRecordPlace_temporary directory e hid ?_
    rw [← heq]
    exact isRecordPlace_iff.2 hname
  · exact hne (List.singleton_inj.1 (List.append_cancel_left heq))

/-- A record that joins the others. -/
theorem perm_recordsIn (hd : d.Sound) (hd' : d'.Sound) (hname : isRecordName name = true)
    (hnone : d.at? (destination directory ++ [name]) = none)
    (hentry : d'.recordAt directory name = some e)
    (hothers : ∀ other, isRecordName other = true → other ≠ name →
      d'.at? (destination directory ++ [other]) = d.at? (destination directory ++ [other])) :
    (d'.recordsIn directory).Perm (e :: d.recordsIn directory) := by
  have hthere : d'.at? (destination directory ++ [name]) ≠ none := by
    intro hnone'
    rw [recordAt_of_not_file (by simp [hnone'])] at hentry
    cases hentry
  have hnames : (d'.recordNames directory).Perm (name :: d.recordNames directory) := by
    refine (List.perm_ext_iff_of_nodup (hd'.nodup_recordNames _)
      (List.nodup_cons.2 ⟨?_, hd.nodup_recordNames _⟩)).2 fun other => ?_
    · exact fun hmem => (mem_recordNames.1 hmem).2 hnone
    · rw [List.mem_cons, mem_recordNames, mem_recordNames]
      by_cases heq : other = name
      · subst heq
        simp [hname, hthere]
      · simp only [heq, false_or]
        exact and_congr_right fun hother => by rw [hothers other hother heq]
  have hold : (d.recordNames directory).filterMap (d'.recordAt directory)
      = d.recordsIn directory := by
    refine List.filterMap_congr fun other hmem => recordAt_congr ?_
    obtain ⟨hother, hat⟩ := mem_recordNames.1 hmem
    refine hothers other hother ?_
    rintro rfl
    exact hat hnone
  have hperm := hnames.filterMap (d'.recordAt directory)
  rwa [List.filterMap_cons_some hentry, hold] at hperm

/-- A record that has been made is listed once more than before, beside the others. -/
theorem recordFile_done (hdevice : device.Honest) (hid : IsRecordId e.buildId)
    (hregular : e.createdAt.Regular) (hkept : e.createdAt.Kept) (hd : d.Sound)
    (hfresh : ∀ bytes, d.at? (destination (recordPath directory e.buildId)) ≠ some (.file bytes))
    (h : recordFile device directory e d = (d', .ok ())) :
    d'.Sound ∧ d'.Opens directory ∧ (∀ stop ∈ stopsOf directory, ∀ bytes,
        d.at? stop ≠ some (.file bytes)) ∧
      (d'.recordsIn directory).Perm (e :: d.recordsIn directory) := by
  obtain ⟨d₁, hsteps, hmove⟩ := recordFile_eq_ok.1 h
  have hbeside := beside_recordSteps hdevice hid hd hsteps
  obtain ⟨hopen, hfile⟩ := recordSteps_ok hd.wellFormed (hdevice.run_ok hsteps)
  have hmoved := recordMove_done hid.noSlash hbeside.sound.wellFormed hfile (hdevice.done hmove)
  have hsound := recordMove_sound hdevice hbeside.sound hmove
  -- Nothing is where the record is moved: no file was, and a directory would stop it.
  have hnone : d₁.at? (destination directory ++ [recordName e.buildId]) = none := by
    cases hthere : d₁.at? (destination directory ++ [recordName e.buildId]) with
    | none => rfl
    | some c =>
        cases c with
        | file bytes =>
            have hbefore := hbeside.files _ bytes (isRecordName_record hid) hthere
            rw [← destination_recordPath hid] at hbefore
            exact absurd hbefore (hfresh bytes)
        | directory => exact absurd hthere hmoved.free
  refine ⟨hsound, hmoved.touched.opens hopen, hbeside.clear_iff.1 hopen.clear, ?_⟩
  rw [← hbeside.records]
  apply perm_recordsIn hbeside.sound hsound (isRecordName_record hid) hnone
  · exact recordAt_of_file hmoved.named hmoved.held hregular hkept
  · intro other hother hne
    exact hmoved.others hid hother hne

end NodePipeline
