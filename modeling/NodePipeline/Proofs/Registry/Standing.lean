import NodePipeline.Proofs.Registry.Recording

/-!
# Records that stand

A record stands if it is in the file that is named after its id. Work beside the records
and recording under another id keep it and bring no other record of its id, so that
lookups by its id find what they found.
-/

namespace NodePipeline

open Disk

variable {d d' : Disk} {directory name node : String} {e x : BuildEntry} {device : Device}
  {ways changes : Location → Prop}

/-! ## Records of a directory -/

namespace Disk

theorem mem_recordsIn : e ∈ d.recordsIn directory ↔
    ∃ name, isRecordName name = true ∧ d.recordAt directory name = some e := by
  unfold recordsIn
  rw [List.mem_filterMap]
  constructor
  · rintro ⟨name, hname, hentry⟩
    exact ⟨name, (mem_recordNames.1 hname).1, hentry⟩
  · rintro ⟨name, hname, hentry⟩
    refine ⟨name, mem_recordNames.2 ⟨hname, fun hnone => ?_⟩, hentry⟩
    rw [recordAt_of_not_file (by simp [hnone])] at hentry
    cases hentry

/-- A directory is no record, be it new or old. -/
theorem recordAt_of_directory (h : d.at? (destination directory ++ [name]) = some .directory) :
    d.recordAt directory name = none :=
  recordAt_of_not_file (by simp [h])

theorem Steady.recordAt (h : Steady ways changes d d')
    (hl : ¬changes (destination directory ++ [name])) :
    d'.recordAt directory name = d.recordAt directory name := by
  rcases h.same _ hl with hsame | ⟨-, hnone, hdir⟩
  · exact recordAt_congr hsame
  · rw [recordAt_of_directory hdir, recordAt_of_not_file (by simp [hnone])]

end Disk

/-- No record lies on the way to an open directory. -/
theorem Disk.Opens.notMem_stopsOf (h : d.Opens directory)
    (hentry : d.recordAt directory name = some e) :
    destination directory ++ [name] ∉ stopsOf directory := by
  intro hstop
  rw [recordAt_of_directory (h.stops _ hstop)] at hentry
  cases hentry

/-- Recording leaves the records of other names that are not on the way. -/
theorem recordAt_of_touched {id : String} (hid : IsRecordId id)
    (h : Touched (RecordChanges directory id) d d')
    (hstop : destination directory ++ [name] ∉ stopsOf directory) (hname : name ≠ recordName id)
    (hhidden : name ≠ hiddenName id) :
    d'.recordAt directory name = d.recordAt directory name := by
  refine recordAt_congr (h.same _ ?_)
  rintro (hway | htemporary | hrecord)
  · exact hstop hway
  · rw [destination_recordTemporary hid] at htemporary
    exact hhidden (List.singleton_inj.1 (List.append_cancel_left htemporary))
  · rw [destination_recordPath hid] at hrecord
    exact hname (List.singleton_inj.1 (List.append_cancel_left hrecord))

/-! ## Records of a registry -/

namespace Registry

variable {r : Registry} {w w' w'' : Workspace} {others : BuildEntry → Prop}

/-- The record is in the registry, in whatever file. -/
def Has (r : Registry) (w : Workspace) (e : BuildEntry) : Prop :=
  match r with
  | .memory => e ∈ w.memory
  | .files directory => e ∈ w.disk.recordsIn directory

/-- The record is in its own file, and there is a way to it. -/
def Holds (r : Registry) (w : Workspace) (e : BuildEntry) : Prop :=
  match r with
  | .memory => e ∈ w.memory
  | .files directory =>
      w.disk.Opens directory ∧ w.disk.recordAt directory (recordName e.buildId) = some e

theorem Holds.has (h : r.Holds w e) (hid : IsRecordId e.buildId) : r.Has w e := by
  cases r with
  | memory => exact h
  | files directory => exact mem_recordsIn.2 ⟨_, isRecordName_record hid, h.2⟩

/-- Once a record can be reached, all that the registry has is listed. -/
theorem Holds.entries (h : r.Holds w e) (hplace : r.HasPlace) (hw : w.disk.Sound) :
    ∃ records, r.entries w = .ok (newestFirst records) ∧ ∀ x, x ∈ records ↔ r.Has w x := by
  cases r with
  | memory => exact ⟨w.memory, rfl, fun x => Iff.rfl⟩
  | files directory =>
      refine ⟨w.disk.recordsIn directory, ?_, fun x => Iff.rfl⟩
      have hlist := recordFiles_of_clear hw ⟨hplace, Or.inl h.1⟩ h.1.clear
      show (recordFiles w.disk directory).map newestFirst = _
      rw [hlist]
      rfl

/-- Records are kept in their files, and none of them is new. -/
structure Keeps (r : Registry) (others : BuildEntry → Prop) (w w' : Workspace) : Prop where
  holds : ∀ e, others e → r.Holds w e → r.Holds w' e
  has : ∀ e, others e → r.Has w' e → r.Has w e

theorem Keeps.refl : r.Keeps others w w := ⟨fun _ _ h => h, fun _ _ h => h⟩

theorem Keeps.trans (h : r.Keeps others w w') (h' : r.Keeps others w' w'') :
    r.Keeps others w w'' where
  holds e he hholds := h'.holds e he (h.holds e he hholds)
  has e he hhas := h.has e he (h'.has e he hhas)

theorem Keeps.mono {fewer : BuildEntry → Prop} (h : r.Keeps others w w')
    (hsub : ∀ e, fewer e → others e) : r.Keeps fewer w w' :=
  ⟨fun e he => h.holds e (hsub e he), fun e he => h.has e (hsub e he)⟩

/-- Work beside the records keeps all of them. -/
theorem keeps_of_beside (hmemory : w'.memory = w.memory)
    (hfiles : ∀ directory, r = .files directory →
      (w.disk.Opens directory → w'.disk.Opens directory) ∧
      ∀ name, isRecordName name = true ∨ (∃ id, name = recordName id) →
        w'.disk.recordAt directory name = w.disk.recordAt directory name) :
    r.Keeps others w w' := by
  cases r with
  | memory =>
      refine ⟨fun e _ hholds => ?_, fun e _ hhas => ?_⟩
      · show e ∈ w'.memory
        rw [hmemory]
        exact hholds
      · show e ∈ w.memory
        rw [← hmemory]
        exact hhas
  | files directory =>
      obtain ⟨hopens, hrecords⟩ := hfiles directory rfl
      refine ⟨fun e _ hholds => ⟨hopens hholds.1, ?_⟩, fun e _ hhas => ?_⟩
      · rw [hrecords _ (Or.inr ⟨_, rfl⟩)]
        exact hholds.2
      · obtain ⟨name, hname, hentry⟩ := mem_recordsIn.1 hhas
        exact mem_recordsIn.2 ⟨name, hname, hrecords name (Or.inl hname) ▸ hentry⟩

end Registry

/-! ## Recording -/

/-- A record that a device has made is in its file. -/
theorem recordFile_holds (hdevice : device.Honest) (hid : IsRecordId e.buildId)
    (hregular : e.createdAt.Regular) (hkept : e.createdAt.Kept) (hd : d.WellFormed)
    (h : recordFile device directory e d = (d', .ok ())) :
    d'.Opens directory ∧ d'.recordAt directory (recordName e.buildId) = some e := by
  obtain ⟨-, hread⟩ := recordFile_ok hid.noSlash hd (hdevice.recordFile_ok h)
  obtain ⟨hopen, hname, hat⟩ := (read_join (isName_record hid)).1 hread
  exact ⟨hopen, recordAt_of_file hname hat hregular hkept⟩

/-- A disk stays sound wherever recording on it stops. -/
theorem recordFile_sound (hdevice : device.Honest) (hd : d.Sound) (directory : String)
    (e : BuildEntry) : (recordFile device directory e d).1.Sound := by
  have hrun : Steady (fun _ => True) (fun _ => True) d
      (device.run (recordSteps directory e) d).1 :=
    hdevice.run_steady hd (fun _ _ _ _ => trivial) fun _ _ _ _ => trivial
  rcases hrecord : recordFile device directory e d with ⟨d', result⟩
  cases recordFile_attempt hrecord with
  | stopped hsteps =>
      rw [hsteps] at hrun
      exact hrun.sound
  | moved hsteps hmove =>
      rw [hsteps] at hrun
      exact recordMove_sound hdevice hrun.sound hmove
  | abandoned hsteps hmove =>
      rw [hsteps] at hrun
      exact (hdevice.steady (recordMove_sound hdevice hrun.sound hmove) _).sound

namespace Registry

variable {r : Registry} {w w' w'' : Workspace} {others : BuildEntry → Prop}
  {result : Except PipelineError Unit}

/-- A record that has been made stands, and the registry has no other new one. -/
theorem record_holds (hdevice : device.Honest) (hid : IsRecordId e.buildId)
    (hregular : e.createdAt.Regular) (hkept : e.createdAt.Kept) (hw : w.disk.Sound)
    (h : r.record device e w = (w', .ok ())) :
    r.Holds w' e ∧ ∀ x, r.Has w' x → r.Has w x ∨ x = e := by
  cases r with
  | memory =>
      obtain rfl : { w with memory := w.memory ++ [e] } = w' := (Prod.ext_iff.1 h).1
      refine ⟨List.mem_append_right _ (List.mem_singleton_self e), fun x hx => ?_⟩
      exact (List.mem_append.1 hx).imp_right List.mem_singleton.1
  | files directory =>
      have htouched := recordFile_touched hdevice hw.wellFormed directory e
      have hfile := recordFile_of_record h
      rw [hfile] at htouched
      obtain ⟨hopen, hentry⟩ := recordFile_holds hdevice hid hregular hkept hw.wellFormed hfile
      refine ⟨⟨hopen, hentry⟩, fun x hx => ?_⟩
      obtain ⟨name, hname, hx⟩ := mem_recordsIn.1 hx
      by_cases hown : name = recordName e.buildId
      · rw [hown] at hx
        exact Or.inr (Option.some.inj (hx.symm.trans hentry))
      · have hhidden : name ≠ hiddenName e.buildId := by
          rintro rfl
          rw [isRecordName_hiddenName] at hname
          cases hname
        have hsame := recordAt_of_touched hid htouched (hopen.notMem_stopsOf hx) hown hhidden
        exact Or.inl (mem_recordsIn.2 ⟨name, hname, hsame ▸ hx⟩)

/-- Recording under another id keeps a record, whether it comes to its end or not. -/
theorem record_keeps (hdevice : device.Honest) (hid : IsRecordId e.buildId)
    (hregular : e.createdAt.Regular) (hkept : e.createdAt.Kept) (hw : w.disk.Sound)
    (h : r.record device e w = (w', result)) : r.Keeps (·.buildId ≠ e.buildId) w w' := by
  have hhas : ∀ x, x.buildId ≠ e.buildId → r.Has w' x → r.Has w x := by
    intro x hne hx
    cases result with
    | ok _ =>
        refine ((record_holds hdevice hid hregular hkept hw h).2 x hx).resolve_right ?_
        rintro rfl
        exact hne rfl
    | error fault =>
        cases r with
        | memory => cases (Prod.ext_iff.1 h).2
        | files directory =>
            have hbeside := beside_of_recordFile_error hdevice hid hw (recordFile_of_record h)
            show x ∈ w.disk.recordsIn directory
            rw [← hbeside.records]
            exact hx
  refine ⟨fun x hne hx => ?_, hhas⟩
  cases r with
  | memory =>
      obtain rfl : { w with memory := w.memory ++ [e] } = w' := (Prod.ext_iff.1 h).1
      exact List.mem_append_left _ hx
  | files directory =>
      have htouched := recordFile_touched hdevice hw.wellFormed directory e
      rw [recordFile_of_record h] at htouched
      have hown : recordName x.buildId ≠ recordName e.buildId :=
        fun heq => hne (recordName_inj heq)
      have hsame := recordAt_of_touched hid htouched (hx.1.notMem_stopsOf hx.2) hown
        (recordName_ne_hiddenName _ _)
      exact ⟨htouched.opens hx.1, hsame.trans hx.2⟩

/-! ## Lookups -/

/-- Of all records that the registry has, the pattern picks that one only. -/
def Picks (r : Registry) (w : Workspace) (pattern : String) (e : BuildEntry) : Prop :=
  ∃ keep, idFilter (some pattern) = .ok keep ∧ keep e.buildId = true ∧
    ∀ x, r.Has w x → keep x.buildId = true → x = e

theorem firstArtifact_of_forall_eq {entries : List BuildEntry} (hne : entries ≠ [])
    (hall : ∀ x ∈ entries, x = e) (node : String) :
    firstArtifact node entries = (e.artifacts.get? node).map (e.buildId, ·) := by
  unfold firstArtifact
  induction entries with
  | nil => exact absurd rfl hne
  | cons x rest ih =>
      obtain ⟨rfl, hrest⟩ := List.forall_mem_cons.1 hall
      rw [List.findSome?_cons]
      cases hget : x.artifacts.get? node with
      | some path => rfl
      | none =>
          simp only [Option.map_none]
          cases rest with
          | nil => rfl
          | cons y more => rw [ih (by simp) hrest, hget]; rfl

/-- Such a pattern leads to the artifacts of the record, and to no others. -/
theorem Holds.readNode (h : r.Holds w e) (hid : IsRecordId e.buildId) (hplace : r.HasPlace)
    (hw : w.disk.Sound) {pattern : String} (hpicks : r.Picks w pattern e) (p : Primitives)
    (node : String) :
    r.readNode p w node (some pattern) =
      match e.artifacts.get? node with
      | some path => w.disk.readValue p path
      | none => .error (.missingArtifact node (some pattern)) := by
  obtain ⟨records, hentries, hrecords⟩ := h.entries hplace hw
  obtain ⟨keep, hfilter, hkeep, honly⟩ := hpicks
  have hselect : r.select w (some pattern)
      = .ok ((newestFirst records).filter fun x => keep x.buildId) := by
    rw [select, hentries, hfilter]
    rfl
  have hpicked : (newestFirst records).filter (fun x => keep x.buildId) ≠ [] := by
    have hmem := mem_newestFirst.2 ((hrecords e).2 (h.has hid))
    exact List.ne_nil_of_mem (List.mem_filter.2 ⟨hmem, hkeep⟩)
  have hall : ∀ x ∈ (newestFirst records).filter (fun x => keep x.buildId), x = e := by
    intro x hx
    obtain ⟨hmem, hx⟩ := List.mem_filter.1 hx
    exact honly x ((hrecords x).1 (mem_newestFirst.1 hmem)) hx
  unfold Registry.readNode resolve
  rw [hselect]
  simp only [bind, Except.bind, firstArtifact_of_forall_eq hpicked hall node]
  cases e.artifacts.get? node <;> rfl

/-- A record that stands is among the builds that are inspected. -/
theorem Holds.buildIds (h : r.Holds w e) (hid : IsRecordId e.buildId) (hplace : r.HasPlace)
    (hw : w.disk.Sound) : ∃ ids, r.buildIds w = .ok ids ∧ e.buildId ∈ ids := by
  obtain ⟨records, hentries, hrecords⟩ := h.entries hplace hw
  refine ⟨(newestFirst records).map BuildEntry.buildId, ?_, ?_⟩
  · rw [Registry.buildIds, hentries]
    rfl
  · exact List.mem_map_of_mem (mem_newestFirst.2 ((hrecords e).2 (h.has hid)))

end Registry

end NodePipeline
