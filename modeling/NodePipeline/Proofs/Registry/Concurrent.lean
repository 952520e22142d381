import Mathlib.Logic.Relation
import NodePipeline.Proofs.Registry.Recording

/-!
# Records written and listed at the same time

Any number of processes record builds in one directory while others list it. Their steps
come in any order, and a process may stop for good after each of its steps. A listing is
one look at the names of the directory and one at each file. What it gives are whole
records that have been put in place, and all that were in place when it began.
-/

namespace NodePipeline

open Disk

variable {directory : String} {calls : List BuildEntry} {e e' : BuildEntry} {d d' : Disk}

/-! ## Calls that record -/

/-- How far a call has come that records an entry. -/
inductive RecordStage
  | idle
  | opened
  | written
  | placed
  /-- The record could not be put in place, and its hidden file has been removed. -/
  | abandoned
deriving DecidableEq

/-- The next step of a call, and how far it has come with it. -/
def RecordStage.next? (directory : String) (e : BuildEntry) :
    RecordStage → Option (FileStep × RecordStage)
  | .idle => some (.createDirectories directory, .opened)
  | .opened => some (.write (recordTemporary directory e.buildId) (Bytes.ofString e.toText), .written)
  | .written => some (recordMove directory e, .placed)
  | .placed => none
  | .abandoned => none

/-- The steps of a call are those of `recordFile`. -/
theorem RecordStage.steps_eq (directory : String) (e : BuildEntry) :
    [idle, opened, written].filterMap (fun stage => (stage.next? directory e).map Prod.fst)
      = recordSteps directory e ++ [recordMove directory e] := rfl

/-- The steps that a call can take next. -/
theorem RecordStage.next?_eq_some {stage stage' : RecordStage} {step : FileStep}
    (h : stage.next? directory e = some (step, stage')) :
    (stage = .idle ∧ step = .createDirectories directory ∧ stage' = .opened) ∨
    (stage = .opened ∧ step = .write (recordTemporary directory e.buildId)
      (Bytes.ofString e.toText) ∧ stage' = .written) ∨
    (stage = .written ∧ step = recordMove directory e ∧ stage' = .placed) := by
  cases stage with
  | idle =>
      cases h
      exact Or.inl ⟨rfl, rfl, rfl⟩
  | opened =>
      cases h
      exact Or.inr (Or.inl ⟨rfl, rfl, rfl⟩)
  | written =>
      cases h
      exact Or.inr (Or.inr ⟨rfl, rfl, rfl⟩)
  | placed => cases h
  | abandoned => cases h

/-- A disk with how far each call has come that works on it, by the id of its entry. -/
structure Recording where
  disk : Disk
  stage : String → RecordStage

namespace Recording

variable {σ σ' σ'' : Recording}

/-- A call has come to a stage, and left a disk. -/
def advance (σ : Recording) (e : BuildEntry) (stage : RecordStage) (d : Disk) : Recording :=
  ⟨d, Function.update σ.stage e.buildId stage⟩

@[simp] theorem advance_disk (σ : Recording) (e : BuildEntry) (stage : RecordStage) (d : Disk) :
    (σ.advance e stage d).disk = d := rfl

@[simp] theorem advance_stage (σ : Recording) (e : BuildEntry) (stage : RecordStage) (d : Disk) :
    (σ.advance e stage d).stage e.buildId = stage := Function.update_self _ _ _

theorem advance_stage_of_ne (σ : Recording) (stage : RecordStage) (d : Disk)
    (h : e'.buildId ≠ e.buildId) : (σ.advance e stage d).stage e'.buildId = σ.stage e'.buildId :=
  Function.update_of_ne h _ _

theorem advance_same (σ : Recording) (e : BuildEntry) (d : Disk) :
    σ.advance e (σ.stage e.buildId) d = ⟨d, σ.stage⟩ := by
  rw [advance, Function.update_eq_self]

/-- One step of one of the calls. -/
inductive Step (directory : String) (calls : List BuildEntry) : Recording → Recording → Prop
  | done {σ : Recording} {e : BuildEntry} {step : FileStep} {stage : RecordStage} {d : Disk}
      (call : e ∈ calls) (next : (σ.stage e.buildId).next? directory e = some (step, stage))
      (performed : FileStep.perform step σ.disk = (d, none)) :
      Step directory calls σ (σ.advance e stage d)
  /-- What is seen of a step before it is done, and what is left if it never is. -/
  | halfway {σ : Recording} {e : BuildEntry} {step : FileStep} {stage : RecordStage} {d : Disk}
      (call : e ∈ calls) (next : (σ.stage e.buildId).next? directory e = some (step, stage))
      (left : FileStep.Halfway step σ.disk d) : Step directory calls σ ⟨d, σ.stage⟩
  /-- A record that cannot be put in place is given up. -/
  | abandons {σ : Recording} {e : BuildEntry} {d : Disk}
      (call : e ∈ calls) (written : σ.stage e.buildId = .written)
      (performed : FileStep.perform (.removeFile (recordTemporary directory e.buildId)) σ.disk
        = (d, none)) :
      Step directory calls σ (σ.advance e .abandoned d)

/-- Any steps of any calls. -/
abbrev Steps (directory : String) (calls : List BuildEntry) : Recording → Recording → Prop :=
  Relation.ReflTransGen (Step directory calls)

/-! ## Calls that list -/

/-- The files of a listing are read one by one, with steps of others in between. -/
inductive Reading (directory : String) (calls : List BuildEntry) :
    Recording → List String → List BuildEntry → Recording → Prop
  | done {σ : Recording} : Reading directory calls σ [] [] σ
  | file {σ σ' σ'' : Recording} {name : String} {rest : List String} {entries : List BuildEntry}
      (others : Steps directory calls σ σ') (more : Reading directory calls σ' rest entries σ'') :
      Reading directory calls σ (name :: rest)
        ((readRecord σ'.disk (Path.join directory name)).toList ++ entries) σ''

/-- A call that lists: its beginning, what it gives, and its end. -/
inductive Listing (directory : String) (calls : List BuildEntry) :
    Recording → Except PipelineError (List BuildEntry) → Recording → Prop
  | absent {σ : Recording} (list : σ.disk.list directory = .error .absent) :
      Listing directory calls σ (.ok []) σ
  | fault {σ : Recording} {fault : DiskFault} (list : σ.disk.list directory = .error fault)
      (other : fault ≠ .absent) :
      Listing directory calls σ (.error (.ofFault directory fault)) σ
  | listed {σ σ' : Recording} {names : List String} {entries : List BuildEntry}
      (list : σ.disk.list directory = .ok names)
      (reading : Reading directory calls σ (names.filter isRecordName) entries σ') :
      Listing directory calls σ (.ok (newestFirst entries)) σ'

theorem reading_alone (σ : Recording) (names : List String) :
    Reading directory calls σ names
      (names.filterMap fun name => readRecord σ.disk (Path.join directory name)) σ := by
  induction names with
  | nil => exact .done
  | cons name rest ih =>
      have hfile := @Reading.file directory calls σ σ σ name rest _ Relation.ReflTransGen.refl ih
      rw [List.filterMap_cons]
      cases hread : readRecord σ.disk (Path.join directory name) with
      | none => rwa [hread] at hfile
      | some e => rwa [hread] at hfile

/-- A call that nobody disturbs gives what the registry lists. -/
theorem listing_alone (σ : Recording) :
    Listing directory calls σ ((recordFiles σ.disk directory).map newestFirst) σ := by
  unfold recordFiles
  cases hlist : σ.disk.list directory with
  | ok names => exact .listed hlist (reading_alone σ _)
  | error fault =>
      by_cases habsent : fault = .absent
      · subst habsent
        have hnone : Listing directory calls σ (.ok []) σ := .absent hlist
        simpa [Except.map] using hnone
      · have hfault : Listing directory calls σ (.error (.ofFault directory fault)) σ :=
          .fault hlist habsent
        cases fault with
        | absent => exact absurd rfl habsent
        | _ => exact hfault

/-! ## What every step keeps -/

/-- The entries can be recorded side by side: their ids are distinct and can be names of
files, and their texts can be read. -/
structure Distinct (calls : List BuildEntry) : Prop where
  nodup : (calls.map BuildEntry.buildId).Nodup
  named : ∀ e ∈ calls, IsRecordId e.buildId
  regular : ∀ e ∈ calls, e.createdAt.Regular
  kept : ∀ e ∈ calls, e.createdAt.Kept

theorem Distinct.eq_of_id (h : Distinct calls) (he : e ∈ calls) (he' : e' ∈ calls)
    (hid : e.buildId = e'.buildId) : e = e' := List.inj_on_of_nodup_map h.nodup he he' hid

/-- The name of the file of a record. -/
def fileName (e : BuildEntry) : String := e.buildId ++ "." ++ recordExtension

theorem fileName_inj (h : fileName e = fileName e') : e.buildId = e'.buildId := recordName_inj h

/-- Every record file is that of an entry that has been put in place, and holds its text. -/
structure Shared (directory : String) (calls : List BuildEntry) (σ : Recording) : Prop where
  sound : σ.disk.Sound
  leads : σ.disk.Leads directory
  clear : σ.disk.Clear directory
  opened : ∀ e ∈ calls, σ.stage e.buildId ≠ .idle → σ.disk.Opens directory
  written : ∀ e ∈ calls, σ.stage e.buildId = .written →
    σ.disk.at? (destination (recordTemporary directory e.buildId))
      = some (.file (Bytes.ofString e.toText))
  placed : ∀ e ∈ calls, σ.stage e.buildId = .placed → isName (fileName e) = true ∧
    σ.disk.at? (destination directory ++ [fileName e]) = some (.file (Bytes.ofString e.toText))
  only : ∀ name bytes, isRecordName name = true →
    σ.disk.at? (destination directory ++ [name]) = some (.file bytes) →
    ∃ e ∈ calls, σ.stage e.buildId = .placed ∧ name = fileName e

section Steps

variable (hcalls : Distinct calls)

include hcalls

theorem temporary_ne (he : e ∈ calls) (he' : e' ∈ calls) (hne : e'.buildId ≠ e.buildId) :
    destination (recordTemporary directory e'.buildId)
      ≠ destination (recordTemporary directory e.buildId) := by
  rw [destination_recordTemporary (hcalls.named e he),
    destination_recordTemporary (hcalls.named e' he')]
  intro heq
  exact hne (hiddenName_inj (List.singleton_inj.1 (List.append_cancel_left heq)))

theorem fileName_ne_temporary (he : e ∈ calls) (he' : e' ∈ calls) :
    destination directory ++ [fileName e']
      ≠ destination (recordTemporary directory e.buildId) := by
  intro heq
  refine @not_isRecordPlace_temporary directory e (hcalls.named e he) ?_
  rw [← heq]
  exact isRecordPlace_iff.2 (isRecordName_record (hcalls.named e' he'))

/-- Work of a call beside the records, which changes no file but its own hidden one. -/
theorem Shared.beside (h : Shared directory calls σ) (he : e ∈ calls)
    (hstage : σ.stage e.buildId ≠ .placed) {stage : RecordStage} (hplaced : stage ≠ .placed)
    (hbeside : Beside directory σ.disk d')
    (hkeep : ∀ l bytes, l ≠ destination (recordTemporary directory e.buildId) →
      σ.disk.at? l = some (.file bytes) → d'.at? l = some (.file bytes))
    (hopened : stage ≠ .idle → d'.Opens directory)
    (hwritten : stage = .written → d'.at? (destination (recordTemporary directory e.buildId))
      = some (.file (Bytes.ofString e.toText))) :
    Shared directory calls (σ.advance e stage d') where
  sound := hbeside.sound
  leads := hbeside.leads h.leads
  clear := hbeside.clear_iff.2 h.clear
  opened e' he' hidle := by
    by_cases hid : e'.buildId = e.buildId
    · rw [hid, advance_stage] at hidle
      exact hopened hidle
    · rw [advance_stage_of_ne σ _ d' hid] at hidle
      exact hbeside.opens (h.opened e' he' hidle)
  written e' he' hstage' := by
    by_cases hid : e'.buildId = e.buildId
    · obtain rfl := hcalls.eq_of_id he' he hid
      rw [advance_stage] at hstage'
      exact hwritten hstage'
    · rw [advance_stage_of_ne σ _ d' hid] at hstage'
      exact hkeep _ _ (temporary_ne hcalls he he' hid) (h.written e' he' hstage')
  placed e' he' hstage' := by
    by_cases hid : e'.buildId = e.buildId
    · rw [hid, advance_stage] at hstage'
      exact absurd hstage' hplaced
    · rw [advance_stage_of_ne σ _ d' hid] at hstage'
      obtain ⟨hnamed, hat⟩ := h.placed e' he' hstage'
      exact ⟨hnamed, hkeep _ _ (fileName_ne_temporary hcalls he he') hat⟩
  only name bytes hname hat := by
    obtain ⟨e', he', hstage', rfl⟩ := h.only name bytes hname (hbeside.files name bytes hname hat)
    refine ⟨e', he', ?_, rfl⟩
    have hid : e'.buildId ≠ e.buildId := fun hid => hstage (hid ▸ hstage')
    rw [advance_stage_of_ne σ _ d' hid]
    exact hstage'

/-- A record is put in place. -/
theorem Shared.places (h : Shared directory calls σ) (he : e ∈ calls)
    (hstage : σ.stage e.buildId = .written)
    (hdone : FileStep.perform (recordMove directory e) σ.disk = (d', none)) :
    Shared directory calls (σ.advance e .placed d') := by
  have hid := hcalls.named e he
  have hopen := h.opened e he (by simp [hstage])
  have hmoved := recordMove_done hid.noSlash h.sound.wellFormed (h.written e he hstage) hdone
  have hopen' := hmoved.touched.opens hopen
  constructor
  case sound => exact recordMove_sound Device.honest_perform h.sound hdone
  case leads => exact ⟨h.leads.nonempty, Or.inl hopen'⟩
  case clear => exact hopen'.clear
  case opened =>
    intro _ _ _
    exact hopen'
  case written =>
    intro e' he' hstage'
    have hne : e'.buildId ≠ e.buildId := by
      intro heq
      rw [heq, advance_stage] at hstage'
      cases hstage'
    rw [advance_stage_of_ne σ _ d' hne] at hstage'
    refine (hmoved.touched.same _ ?_).trans (h.written e' he' hstage')
    rintro (heq | heq)
    · exact temporary_ne hcalls he he' hne heq
    · exact fileName_ne_temporary hcalls he' he heq.symm
  case placed =>
    intro e' he' hstage'
    by_cases heq : e'.buildId = e.buildId
    · obtain rfl := hcalls.eq_of_id he' he heq
      exact ⟨hmoved.named, hmoved.held⟩
    · rw [advance_stage_of_ne σ _ d' heq] at hstage'
      obtain ⟨hnamed, hat⟩ := h.placed e' he' hstage'
      refine ⟨hnamed, (hmoved.others hid ?_ ?_).trans hat⟩
      · exact isRecordName_record (hcalls.named e' he')
      · exact fun hsame => heq (fileName_inj hsame)
  case only =>
    intro name bytes hname hat
    by_cases heq : name = fileName e
    · exact ⟨e, he, advance_stage _ _ _ _, heq⟩
    · rw [advance_disk, hmoved.others hid hname heq] at hat
      obtain ⟨e', he', hstage', rfl⟩ := h.only name bytes hname hat
      have hne : e'.buildId ≠ e.buildId := by
        intro hsame
        rw [hsame, hstage] at hstage'
        cases hstage'
      exact ⟨e', he', (advance_stage_of_ne σ _ d' hne).trans hstage', rfl⟩

/-- Whatever a call has written to its hidden file, the records are as they were. -/
theorem Shared.write (h : Shared directory calls σ) (he : e ∈ calls)
    (hstage : σ.stage e.buildId = .opened) {bytes : Bytes}
    (hdone : σ.disk.write (recordTemporary directory e.buildId) bytes = .ok d') :
    Beside directory σ.disk d' ∧ ∀ l found, l ≠ destination (recordTemporary directory e.buildId) →
      σ.disk.at? l = some (.file found) → d'.at? l = some (.file found) := by
  have hopen := h.opened e he (by simp [hstage])
  have htouched := FileStep.write_touched h.sound.wellFormed
    (recordTemporary directory e.buildId) bytes
  rw [FileStep.perform_write, hdone] at htouched
  exact ⟨beside_write h.sound (not_isRecordPlace_temporary (hcalls.named e he)) (Or.inr hopen)
    hdone, fun l found hl hat => (htouched.same l hl).trans hat⟩

theorem Shared.done (h : Shared directory calls σ) (he : e ∈ calls) {step : FileStep}
    {stage : RecordStage} (hnext : (σ.stage e.buildId).next? directory e = some (step, stage))
    (hdone : FileStep.perform step σ.disk = (d, none)) :
    Shared directory calls (σ.advance e stage d) := by
  rcases RecordStage.next?_eq_some hnext with ⟨hstage, rfl, rfl⟩ | ⟨hstage, rfl, rfl⟩ |
    ⟨hstage, rfl, rfl⟩
  · have hbeside : Beside directory σ.disk
        (FileStep.perform (.createDirectories directory) σ.disk).1 :=
      Device.honest_perform.createDirectories_beside h.sound directory
    rw [hdone] at hbeside
    have hopen := FileStep.createDirectories_opens h.sound.wellFormed hdone
    refine h.beside hcalls he (by simp [hstage]) (by simp) hbeside (fun l found _ hat => ?_)
      (fun _ => hopen) (by simp)
    have hkept := FileStep.createDirectories_keeps h.sound.wellFormed directory hat
    rwa [hdone] at hkept
  · rw [FileStep.perform_write] at hdone
    have hwritten := FileStep.settle_eq_none hdone
    obtain ⟨hbeside, hkeep⟩ := h.write hcalls he hstage hwritten
    refine h.beside hcalls he (by simp [hstage]) (by simp) hbeside hkeep (fun _ => ?_)
      fun _ => FileStep.at?_of_write hwritten
    exact hbeside.opens (h.opened e he (by simp [hstage]))
  · exact h.places hcalls he hstage hdone

/-- A step that is not done leaves its call no further than it was. -/
theorem Shared.halfway (h : Shared directory calls σ) (he : e ∈ calls) {step : FileStep}
    {stage : RecordStage} (hnext : (σ.stage e.buildId).next? directory e = some (step, stage))
    (hleft : FileStep.Halfway step σ.disk d) : Shared directory calls ⟨d, σ.stage⟩ := by
  rw [← advance_same σ e d]
  rcases RecordStage.next?_eq_some hnext with ⟨hstage, rfl, -⟩ | ⟨hstage, rfl, -⟩ |
    ⟨hstage, rfl, -⟩
  · cases hleft with
    | untouched =>
        rw [advance_same]
        exact h
    | @outer _ _ above houter =>
        refine h.beside hcalls he (by simp [hstage]) (by simp [hstage])
          (beside_makeDirectories h.sound above) (fun l found _ hat => ?_) (by simp [hstage])
          (by simp [hstage])
        exact (makeDirectories_grown h.sound.wellFormed above).2.keeps hat
  · cases hleft with
    | untouched =>
        rw [advance_same]
        exact h
    | torn n hdone =>
        obtain ⟨hbeside, hkeep⟩ := h.write hcalls he hstage hdone
        refine h.beside hcalls he (by simp [hstage]) (by simp [hstage]) hbeside hkeep
          (fun _ => ?_) (by simp [hstage])
        exact hbeside.opens (h.opened e he (by simp [hstage]))
  · cases hleft
    rw [advance_same]
    exact h

theorem Shared.abandons (h : Shared directory calls σ) (he : e ∈ calls)
    (hstage : σ.stage e.buildId = .written)
    (hdone : FileStep.perform (.removeFile (recordTemporary directory e.buildId)) σ.disk
      = (d, none)) : Shared directory calls (σ.advance e .abandoned d) := by
  have hopen := h.opened e he (by simp [hstage])
  have htouched := FileStep.removeFile_touched h.sound.wellFormed
    (recordTemporary directory e.buildId)
  rw [hdone] at htouched
  rw [FileStep.perform_removeFile] at hdone
  exact h.beside hcalls he (by simp [hstage]) (by simp) (beside_removeFile h.sound
    (not_isRecordPlace_temporary (hcalls.named e he)) hopen (FileStep.settle_eq_none hdone))
    (fun l found hl hat => (htouched.same l hl).trans hat) (fun _ => htouched.opens hopen)
    (by simp)

/-- Every step of a call leaves every record file whole. -/
theorem Shared.step (h : Shared directory calls σ) (hstep : Step directory calls σ σ') :
    Shared directory calls σ' := by
  cases hstep with
  | done he hnext hdone => exact h.done hcalls he hnext hdone
  | halfway he hnext hleft => exact h.halfway hcalls he hnext hleft
  | abandons he hstage hdone => exact h.abandons hcalls he hstage hdone

theorem Shared.steps (h : Shared directory calls σ) (hsteps : Steps directory calls σ σ') :
    Shared directory calls σ' := by
  induction hsteps with
  | refl => exact h
  | tail _ hstep ih => exact ih.step hcalls hstep

end Steps

/-- A record that is in place stays there. -/
theorem placed_of_step (hstep : Step directory calls σ σ')
    (hplaced : σ.stage e.buildId = .placed) : σ'.stage e.buildId = .placed := by
  cases hstep with
  | @done e₀ step stage d he hnext hdone =>
      by_cases hid : e.buildId = e₀.buildId
      · rw [← hid, hplaced] at hnext
        cases hnext
      · exact (advance_stage_of_ne σ _ d hid).trans hplaced
  | halfway => exact hplaced
  | @abandons e₀ d he hstage hdone =>
      by_cases hid : e.buildId = e₀.buildId
      · rw [← hid, hplaced] at hstage
        cases hstage
      · exact (advance_stage_of_ne σ _ d hid).trans hplaced

theorem placed_of_steps (hsteps : Steps directory calls σ σ')
    (hplaced : σ.stage e.buildId = .placed) : σ'.stage e.buildId = .placed := by
  induction hsteps with
  | refl => exact hplaced
  | tail _ hstep ih => exact placed_of_step hstep ih

theorem Reading.steps {names : List String} {entries : List BuildEntry}
    (h : Reading directory calls σ names entries σ') : Steps directory calls σ σ' := by
  induction h with
  | done => exact Relation.ReflTransGen.refl
  | file others _ ih => exact others.trans ih

theorem Listing.steps {result : Except PipelineError (List BuildEntry)}
    (h : Listing directory calls σ result σ') : Steps directory calls σ σ' := by
  cases h with
  | absent => exact Relation.ReflTransGen.refl
  | fault => exact Relation.ReflTransGen.refl
  | listed _ reading => exact reading.steps

/-! ## What is read -/

section Reads

variable (hcalls : Distinct calls)

include hcalls

/-- A record that is in place is read whole. -/
theorem Shared.read_placed (h : Shared directory calls σ) (he : e ∈ calls)
    (hplaced : σ.stage e.buildId = .placed) :
    readRecord σ.disk (Path.join directory (fileName e)) = some e := by
  obtain ⟨hnamed, hat⟩ := h.placed e he hplaced
  have hopen := h.opened e he (by simp [hplaced])
  have hpath : Path.IsName (fileName e) := isName_record (hcalls.named e he)
  rw [readRecord_join hpath hopen]
  exact recordAt_of_file hnamed hat (hcalls.regular e he) (hcalls.kept e he)

/-- What is read from a record file has been put in place there. -/
theorem Shared.of_read {name : String} (h : Shared directory calls σ)
    (hname : isRecordName name = true) (hpath : Path.IsName name)
    (hread : readRecord σ.disk (Path.join directory name) = some e) :
    e ∈ calls ∧ σ.stage e.buildId = .placed ∧ name = fileName e := by
  have hfile : ∃ bytes, σ.disk.at? (destination directory ++ [name]) = some (.file bytes) := by
    unfold readRecord readText at hread
    cases hbytes : σ.disk.read (Path.join directory name) with
    | ok bytes => exact ⟨bytes, ((read_join hpath).1 hbytes).2.2⟩
    | error fault =>
        rw [hbytes] at hread
        cases hread
  obtain ⟨bytes, hat⟩ := hfile
  obtain ⟨e', he', hplaced, rfl⟩ := h.only name bytes hname hat
  rw [h.read_placed hcalls he' hplaced] at hread
  obtain rfl := Option.some.inj hread
  exact ⟨he', hplaced, rfl⟩

/-- What a listing reads has been put in place, each record is read once, and none is missed
that was in place when the reading began. -/
theorem Reading.spec {names : List String} {entries : List BuildEntry}
    (hread : Reading directory calls σ names entries σ') (h : Shared directory calls σ)
    (hnames : ∀ name ∈ names, isRecordName name = true ∧ Path.IsName name)
    (hnodup : names.Nodup) :
    (∀ e ∈ entries, e ∈ calls ∧ σ'.stage e.buildId = .placed ∧ fileName e ∈ names) ∧
      (∀ e ∈ calls, σ.stage e.buildId = .placed → fileName e ∈ names → e ∈ entries) ∧
      entries.Nodup := by
  induction hread with
  | done => simp
  | @file σ σ' σ'' name rest entries others more ih =>
      have hmiddle := h.steps hcalls others
      obtain ⟨⟨hname, hpath⟩, hrest⟩ := List.forall_mem_cons.1 hnames
      obtain ⟨hnew, hrestNodup⟩ := List.nodup_cons.1 hnodup
      obtain ⟨honly, hall, hentries⟩ := ih hmiddle hrest hrestNodup
      cases hrecord : readRecord σ'.disk (Path.join directory name) with
      | none =>
          refine ⟨fun e he => ?_, fun e he hplaced hmem => ?_, hentries⟩
          · obtain ⟨hcall, hplaced, hmem⟩ := honly e he
            exact ⟨hcall, hplaced, List.mem_cons_of_mem _ hmem⟩
          · have hstill := placed_of_steps others hplaced
            rcases List.mem_cons.1 hmem with rfl | hmem
            · rw [hmiddle.read_placed hcalls he hstill] at hrecord
              cases hrecord
            · exact hall e he hstill hmem
      | some found =>
          obtain ⟨hcall, hplaced, rfl⟩ := hmiddle.of_read hcalls hname hpath hrecord
          have hstays := placed_of_steps more.steps hplaced
          refine ⟨fun e he => ?_, fun e he hplaced' hmem => ?_, ?_⟩
          · rcases List.mem_cons.1 he with rfl | he
            · exact ⟨hcall, hstays, List.mem_cons_self⟩
            · obtain ⟨hcall', hplaced', hmem⟩ := honly e he
              exact ⟨hcall', hplaced', List.mem_cons_of_mem _ hmem⟩
          · have hstill := placed_of_steps others hplaced'
            rcases List.mem_cons.1 hmem with hsame | hmem
            · obtain rfl := hcalls.eq_of_id he hcall (fileName_inj hsame)
              exact List.mem_cons_self
            · exact List.mem_cons_of_mem _ (hall e he hstill hmem)
          · refine List.nodup_cons.2 ⟨fun hmem => ?_, hentries⟩
            exact hnew (honly found hmem).2.2

end Reads

/-! ## Listings at any time -/

/-- Nobody has begun. -/
def start (d : Disk) : Recording := ⟨d, fun _ => .idle⟩

theorem Shared.start (hd : d.Sound) (hleads : d.Leads directory) (hclear : d.Clear directory)
    (hnone : d.recordNames directory = []) : Shared directory calls (start d) where
  sound := hd
  leads := hleads
  clear := hclear
  opened _ _ h := absurd rfl h
  written _ _ h := by cases h
  placed _ _ h := by cases h
  only name bytes hname hat := by
    have hmem : name ∈ d.recordNames directory :=
      mem_recordNames.2 ⟨hname, by rw [show d.at? _ = _ from hat]; simp⟩
    rw [hnone] at hmem
    cases hmem

/-- **Listings are whole.** While any number of calls record entries, each of which may stop
for good, a listing that begins at any time succeeds. All that it gives has been passed to a
call that has put it in place; everything that was in place when it began is there, each
record once, the newest first. -/
theorem concurrent_listing_is_whole (hcalls : Distinct calls) (hd : d.Sound)
    (hleads : d.Leads directory) (hclear : d.Clear directory)
    (hnone : d.recordNames directory = [])
    (hsteps : Steps directory calls (Recording.start d) σ)
    {result : Except PipelineError (List BuildEntry)}
    (hlisting : Listing directory calls σ result σ') :
    ∃ entries, result = .ok entries ∧
      (∀ e ∈ entries, e ∈ calls ∧ σ'.stage e.buildId = .placed) ∧
      (∀ e ∈ calls, σ.stage e.buildId = .placed → e ∈ entries) ∧
      entries.Nodup ∧ entries.Pairwise fun a b => BuildEntry.listedBefore a b = true := by
  have h := (Shared.start hd hleads hclear hnone).steps hcalls hsteps
  -- The directory is there as soon as a record is in place.
  have hopen : ∀ e ∈ calls, σ.stage e.buildId = .placed → σ.disk.Opens directory :=
    fun e he hplaced => h.opened e he (by simp [hplaced])
  cases hlisting with
  | absent hlist =>
      refine ⟨[], rfl, by simp, fun e he hplaced => ?_, List.nodup_nil, List.Pairwise.nil⟩
      rw [list_of_opens h.leads.nonempty (hopen e he hplaced)] at hlist
      cases hlist
  | fault hlist hother =>
      rcases h.leads.clear_cases h.sound.wellFormed h.clear with hopened | ⟨-, habsent⟩
      · rw [list_of_opens h.leads.nonempty hopened] at hlist
        cases hlist
      · rw [habsent] at hlist
        exact absurd (Except.error.inj hlist).symm hother
  | @listed _ names entries hlist hreading =>
      have hopened : σ.disk.Opens directory := by
        rcases h.leads.clear_cases h.sound.wellFormed h.clear with hopen | ⟨-, habsent⟩
        · exact hopen
        · rw [habsent] at hlist
          cases hlist
      rw [list_of_opens h.leads.nonempty hopened] at hlist
      obtain rfl := Except.ok.inj hlist
      have hnames : ∀ name ∈ σ.disk.recordNames directory,
          isRecordName name = true ∧ Path.IsName name := fun name hmem =>
        ⟨(mem_recordNames.1 hmem).1, h.sound.isName_of_mem hmem⟩
      obtain ⟨honly, hall, hnodup⟩ :=
        hreading.spec hcalls h hnames (h.sound.nodup_recordNames directory)
      refine ⟨newestFirst entries, rfl, fun e he => ?_, fun e he hplaced => ?_, ?_,
        pairwise_newestFirst entries⟩
      · obtain ⟨hcall, hplaced, -⟩ := honly e (mem_newestFirst.1 he)
        exact ⟨hcall, hplaced⟩
      · obtain ⟨-, hat⟩ := h.placed e he hplaced
        refine mem_newestFirst.2 (hall e he hplaced (mem_recordNames.2 ⟨?_, by simp [hat]⟩))
        exact isRecordName_record (hcalls.named e he)
      · exact (List.mergeSort_perm _ _).nodup_iff.2 hnodup

/-! ## Calls in a given order -/

/-- The call takes its next step, if that succeeds. -/
def next (directory : String) (σ : Recording) (e : BuildEntry) : Recording :=
  match (σ.stage e.buildId).next? directory e with
  | none => σ
  | some (step, stage) =>
      match step.perform σ.disk with
      | (d, none) => σ.advance e stage d
      | (_, some _) => σ

theorem steps_next (he : e ∈ calls) : Steps directory calls σ (σ.next directory e) := by
  unfold next
  cases hnext : (σ.stage e.buildId).next? directory e with
  | none => exact Relation.ReflTransGen.refl
  | some move =>
      obtain ⟨step, stage⟩ := move
      rcases hperform : step.perform σ.disk with ⟨d, _ | fault⟩
      · simp only
        rw [hperform]
        exact Relation.ReflTransGen.single (.done he hnext hperform)
      · simp only
        rw [hperform]

theorem steps_foldl_next {turns : List BuildEntry} (hturns : ∀ e ∈ turns, e ∈ calls) :
    Steps directory calls σ (turns.foldl (next directory) σ) := by
  induction turns generalizing σ with
  | nil => exact Relation.ReflTransGen.refl
  | cons e rest ih =>
      obtain ⟨he, hrest⟩ := List.forall_mem_cons.1 hturns
      exact (steps_next he).trans (ih hrest)

section Overlap

def firstEntry : BuildEntry := .new ⟨0, 0⟩ "00000000" "out" .empty

def secondEntry : BuildEntry := .new ⟨1, 0⟩ "00000000" "out" .empty

theorem distinct_entries : Distinct [firstEntry, secondEntry] where
  nodup := by decide +kernel
  named e he := by
    simp only [List.mem_cons, List.not_mem_nil, or_false] at he
    rcases he with rfl | rfl
    · exact isRecordId_buildIdAt _ (by decide)
    · exact isRecordId_buildIdAt _ (by decide)
  regular := by decide +kernel
  kept := by decide +kernel

/-- While the second of two entries has been written but is not in place, listings show the
first one. -/
theorem overlapping_records_are_listed_whole :
    let turns := [firstEntry, firstEntry, secondEntry, firstEntry, secondEntry]
    let σ := turns.foldl (next "builds") (start .empty)
    σ.stage secondEntry.buildId = .written ∧
      ∀ result σ', Listing "builds" [firstEntry, secondEntry] σ result σ' →
        ∃ entries, result = .ok entries ∧ firstEntry ∈ entries ∧ entries.Nodup := by
  intro turns σ
  have hstages : (σ.stage firstEntry.buildId, σ.stage secondEntry.buildId)
      = (.placed, .written) := by decide +kernel
  obtain ⟨hfirst, hsecond⟩ := Prod.mk.inj hstages
  refine ⟨hsecond, fun result σ' hlisting => ?_⟩
  have hsteps : Steps "builds" [firstEntry, secondEntry] (start .empty) σ :=
    steps_foldl_next (by simp [turns])
  clear_value σ
  have hnone : Disk.empty.recordNames "builds" = [] := by decide +kernel
  obtain ⟨entries, hresult, -, hall, hnodup, -⟩ :=
    concurrent_listing_is_whole distinct_entries sound_empty
      ⟨by decide, Or.inr (by decide +kernel)⟩ (clear_empty "builds") hnone hsteps hlisting
  exact ⟨entries, hresult, hall firstEntry List.mem_cons_self hfirst, hnodup⟩

end Overlap

end Recording

end NodePipeline
