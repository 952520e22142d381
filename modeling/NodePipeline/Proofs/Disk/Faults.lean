import NodePipeline.Proofs.Disk.Sound

/-!
# Steps that stop halfway

A step that fails on a device, or whose program is stopped, may have been carried out in
part: some of the outer directories have been made, or a beginning of the bytes has been
written. Renaming and removing a file happen at once or not at all.
-/

namespace NodePipeline

open Disk

variable {d d' : Disk} {step : FileStep} {path : String} {bytes : Bytes}

/-- What a step can leave that has not come to its end. -/
inductive FileStep.Halfway : FileStep → Disk → Disk → Prop
  | untouched {step : FileStep} {d : Disk} : Halfway step d d
  /-- The outermost of the directories have been made. -/
  | outer {path : String} {d : Disk} {above : List String}
      (outer : above <:+ Path.ancestors path) :
      Halfway (.createDirectories path) d (makeDirectories above d).1
  /-- The file holds the first of the bytes. -/
  | torn {path : String} {bytes : Bytes} {d d' : Disk} (n : Nat)
      (write : d.write path (bytes.take n) = .ok d') : Halfway (.write path bytes) d d'

/-- A device that carries steps out as a whole or says that they have failed. -/
structure Device.Honest (device : Device) : Prop where
  done : ∀ {step d d'}, device step d = (d', none) → FileStep.perform step d = (d', none)
  failed : ∀ {step d d' fault}, device step d = (d', some fault) → FileStep.Halfway step d d'

theorem FileStep.halfway_of_settle {r : Except DiskFault Disk} {fault : DiskFault}
    (h : settle d r = (d', some fault)) : Halfway step d d' := by
  cases r with
  | ok d₁ => cases (Prod.ext_iff.1 h).2
  | error fault =>
      obtain rfl : d = d' := (Prod.ext_iff.1 h).1
      exact .untouched

theorem Device.honest_perform : Device.Honest FileStep.perform where
  done h := h
  failed {step d d' fault} h := by
    cases step with
    | createDirectories path =>
        obtain rfl : (makeDirectories (Path.ancestors path) d).1 = d' := (Prod.ext_iff.1 h).1
        exact .outer (List.suffix_refl _)
    | write path bytes => exact FileStep.halfway_of_settle h
    | rename source target => exact FileStep.halfway_of_settle h
    | copyInto source directory name => exact FileStep.halfway_of_settle h
    | removeFile path => exact FileStep.halfway_of_settle h
    | removeTree path => exact FileStep.halfway_of_settle h

/-- Steps that a device has carried out have been carried out. -/
theorem Device.Honest.run_ok {device : Device} (h : device.Honest) {steps : List FileStep}
    (hrun : device.run steps d = (d', .ok ())) :
    Device.run FileStep.perform steps d = (d', .ok ()) := by
  induction steps generalizing d with
  | nil => exact hrun
  | cons step rest ih =>
      obtain ⟨d₁, hstep, hrest⟩ := Device.run_cons_ok hrun
      rw [Device.run_cons, h.done hstep]
      exact ih hrest

/-! ## Steps that remove no directory -/

namespace Device.Honest

variable {device : Device}

theorem createDirectories_touched (h : device.Honest) (hd : d.WellFormed) (path : String) :
    Touched (· ∈ stopsOf path) d (device (.createDirectories path) d).1 := by
  rcases hstep : device (.createDirectories path) d with ⟨d', fault⟩
  cases fault with
  | none =>
      have hmade := FileStep.createDirectories_touched hd path
      rwa [h.done hstep] at hmade
  | some fault =>
      cases h.failed hstep with
      | untouched => exact Touched.refl hd
      | outer habove => exact makeDirectories_touched hd fun _ hup => habove.subset hup

theorem write_touched (h : device.Honest) (hd : d.WellFormed) (path : String) (bytes : Bytes) :
    Touched (· = destination path) d (device (.write path bytes) d).1 := by
  rcases hstep : device (.write path bytes) d with ⟨d', fault⟩
  cases fault with
  | none =>
      have hwritten := FileStep.write_touched hd path bytes
      rwa [h.done hstep] at hwritten
  | some fault =>
      cases h.failed hstep with
      | untouched => exact Touched.refl hd
      | torn n hwrite =>
          have htorn := FileStep.write_touched hd path (bytes.take n)
          rwa [FileStep.perform_write, hwrite] at htorn

theorem removeFile_touched (h : device.Honest) (hd : d.WellFormed) (path : String) :
    Touched (· = destination path) d (device (.removeFile path) d).1 := by
  rcases hstep : device (.removeFile path) d with ⟨d', fault⟩
  cases fault with
  | none =>
      have hremoved := FileStep.removeFile_touched hd path
      rwa [h.done hstep] at hremoved
  | some fault =>
      cases h.failed hstep
      exact Touched.refl hd

theorem rename_file_touched (h : device.Honest) {source : String} (target : String)
    (hd : d.WellFormed) (hfile : d.at? (destination source) = some (.file bytes)) :
    Touched (fun l => l = destination source ∨ l = destination target) d
      (device (.rename source target) d).1 := by
  rcases hstep : device (.rename source target) d with ⟨d', fault⟩
  cases fault with
  | none =>
      have hmoved := FileStep.rename_file_touched target hd hfile
      rwa [h.done hstep] at hmoved
  | some fault =>
      cases h.failed hstep
      exact Touched.refl hd

/-- A rename that fails leaves everything in place. -/
theorem rename_failed (h : device.Honest) {source target : String} {fault : DiskFault}
    (hstep : device (.rename source target) d = (d', some fault)) : d = d' := by
  cases h.failed hstep
  rfl

end Device.Honest

end NodePipeline
