import NodePipeline.Proofs.Disk.Faults

/-!
# What steps leave alone

A step makes directories on the way of one path at most, and changes only what lies at,
or at and below, the paths that it names. All else stays, also when the step stops
halfway. A run of steps keeps what all of them keep, wherever it ends.
-/

namespace NodePipeline

open Disk

variable {d d' d'' : Disk} {ways changes ways' changes' : Location → Prop} {l : Location}
  {path : String} {bytes : Bytes} {step : FileStep} {steps : List FileStep} {device : Device}

/-- All stays but at the locations of the changes, and but for directories that have been
made on the ways where nothing was. -/
structure Disk.Steady (ways changes : Location → Prop) (d d' : Disk) : Prop where
  sound : d'.Sound
  same : ∀ l, ¬changes l → d'.at? l = d.at? l ∨
    ways l ∧ d.at? l = none ∧ d'.at? l = some .directory

namespace Disk

theorem Steady.refl (hd : d.Sound) : Steady ways changes d d := ⟨hd, fun _ _ => Or.inl rfl⟩

theorem Steady.trans (h : Steady ways changes d d') (h' : Steady ways changes d' d'') :
    Steady ways changes d d'' where
  sound := h'.sound
  same l hl := by
    rcases h'.same l hl with hsame | ⟨hway, hnone, hdir⟩
    · rw [hsame]
      exact h.same l hl
    · rcases h.same l hl with hsame' | ⟨-, -, hdir'⟩
      · exact Or.inr ⟨hway, hsame' ▸ hnone, hdir⟩
      · rw [hdir'] at hnone
        cases hnone

theorem Steady.mono (h : Steady ways changes d d') (hways : ∀ l, ways l → ways' l)
    (hchanges : ∀ l, changes l → changes' l) : Steady ways' changes' d d' where
  sound := h.sound
  same l hl := (h.same l fun hc => hl (hchanges l hc)).imp_right
    fun ⟨hway, hnew⟩ => ⟨hways l hway, hnew⟩

/-- Off the ways and the changes all is as it was. -/
theorem Steady.exact (h : Steady ways changes d d') (hway : ¬ways l) (hl : ¬changes l) :
    d'.at? l = d.at? l :=
  (h.same l hl).resolve_right fun hnew => hway hnew.1

theorem Steady.keeps (h : Steady ways changes d d') (hl : ¬changes l) {c : Content}
    (hat : d.at? l = some c) : d'.at? l = some c := by
  rcases h.same l hl with hsame | ⟨-, hnone, -⟩
  · rw [hsame, hat]
  · rw [hat] at hnone
    cases hnone

theorem Steady.opens (h : Steady ways changes d d') (hpath : ∀ stop ∈ stopsOf path, ¬changes stop)
    (hopen : d.Opens path) : d'.Opens path :=
  hopen.mono fun stop hstop hdir => h.keeps (hpath stop hstop) hdir

/-! ## Looking below a directory -/

theorem locate_below (hopen : d.Opens path) {node name : String} (hnode : Path.IsName node)
    (hname : Path.IsName name) : d.locate (Path.join (Path.join path node) name)
      = d.walk (destination path) [node, name] := by
  rw [locate_eq_walk (Path.join_ne_empty hname), Path.names_join hname, Path.names_join hnode,
    start_join hname, start_join hnode, walk_append, walk_append, hopen.1]
  exact (walk_append d (destination path) [node] name).symm

/-- What lies below a directory that stays is read as it was, be it there or not. -/
theorem read_below (hopen : d.Opens path) (hopen' : d'.Opens path)
    (hsame : ∀ rest, d'.at? (destination path ++ rest) = d.at? (destination path ++ rest))
    {node name : String} (hnode : Path.IsName node) (hname : Path.IsName name) :
    d'.read (Path.join (Path.join path node) name) = d.read (Path.join (Path.join path node) name) := by
  have hinside : d'.at? (destination path ++ [node]) = d.at? (destination path ++ [node]) :=
    hsame [node]
  have hlast : d'.walk (destination path ++ [node]) [name]
      = d.walk (destination path ++ [node]) [name] := by
    rw [walk_cons d', walk_cons d, hinside]
    rfl
  have hwalk : d'.walk (destination path) [node, name]
      = d.walk (destination path) [node, name] := by
    rw [walk_cons d', walk_cons d, hopen.2, hopen'.2, follow_of_isName hnode, hlast]
  have hlocate := (locate_below hopen' hnode hname).trans
    (hwalk.trans (locate_below hopen hnode hname).symm)
  unfold read
  rw [hlocate]
  cases hl : d.locate (Path.join (Path.join path node) name) with
  | error fault => rfl
  | ok l =>
      have hat : d'.at? l = d.at? l := by
        rw [locate_eq_destination hl, destination_join hname, destination_join hnode,
          List.append_assoc]
        exact hsame _
      simp only [bind, Except.bind, hat]

/-! ## Single changes -/

theorem steady_put (hd : d.Sound) (hlocate : d.locate path = .ok l)
    (hl : d.at? l ≠ some .directory) (c : Content) :
    Steady ways (· = destination path) d (d.put l c) where
  sound := hd.put hlocate hl c
  same l' hl' := Or.inl ((touched_put hd.wellFormed hlocate hl c).same l' hl')

theorem steady_write (hd : d.Sound) (h : d.write path bytes = .ok d') :
    Steady ways (· = destination path) d d' := by
  obtain ⟨l, hlocate, hl, rfl⟩ := write_eq_ok h
  exact steady_put hd hlocate hl _

theorem steady_removeFile (hd : d.Sound) (h : d.removeFile path = .ok d') :
    Steady ways (· = destination path) d d' where
  sound := hd.removeFile h
  same l' hl' := by
    obtain ⟨l, found, hlocate, hfile, rfl⟩ := removeFile_eq_ok h
    exact Or.inl ((touched_cut_file hd.wellFormed hlocate hfile).same l' hl')

theorem steady_removeTree (hd : d.Sound) (h : d.removeTree path = .ok d') :
    Steady ways (destination path <+: ·) d d' := by
  obtain ⟨l, hlocate, htop, rfl⟩ := removeTree_eq_ok h
  obtain rfl := locate_eq_destination hlocate
  refine ⟨hd.cut htop, fun l' hl' => Or.inl ?_⟩
  rw [at?_cut htop, if_neg hl']

theorem steady_rename {source target : String} (hd : d.Sound)
    (h : d.rename source target = .ok d') :
    Steady ways (fun l => destination source <+: l ∨ destination target <+: l) d d' := by
  refine ⟨hd.rename h, fun l hl => Or.inl ?_⟩
  obtain ⟨s, t, hs, ht, -, hcase⟩ := rename_eq_ok hd.wellFormed h
  obtain rfl := locate_eq_destination hs
  obtain rfl := locate_eq_destination ht
  rw [not_or] at hl
  rcases hcase with ⟨-, rfl⟩ | hmoved
  · rfl
  · rw [hmoved.at?_eq, if_neg hl.2, if_neg hl.1]

theorem steady_makeDirectories (hd : d.Sound) {paths : List String}
    (hpaths : ∀ up ∈ paths, up ∈ Path.ancestors path) :
    Steady (· ∈ stopsOf path) changes d (makeDirectories paths d).1 := by
  obtain ⟨-, hgrown⟩ := makeDirectories_grown hd.wellFormed paths
  refine ⟨hd.makeDirectories paths, fun l _ => (hgrown l).imp_right ?_⟩
  rintro ⟨hnone, hdir, hmem⟩
  obtain ⟨up, hup, rfl⟩ := List.mem_map.1 hmem
  exact ⟨destination_mem_stopsOf (hpaths up hup), hnone, hdir⟩

end Disk

/-! ## Steps -/

namespace FileStep

/-- Where a step may make directories. -/
def Makes : FileStep → Location → Prop
  | .createDirectories path, l => l ∈ stopsOf path
  | .write _ _, _ => False
  | .rename _ _, _ => False
  | .copyInto _ _ _, _ => False
  | .removeFile _, _ => False
  | .removeTree _, _ => False

/-- Where a step may change what is there. -/
def Changes : FileStep → Location → Prop
  | .createDirectories _, _ => False
  | .write path _, l => l = destination path
  | .rename source target, l => destination source <+: l ∨ destination target <+: l
  | .copyInto _ directory name, l => l = destination (Path.join directory name)
  | .removeFile path, l => l = destination path
  | .removeTree path, l => destination path <+: l

/-- Without a fault a change has come to its end, and with one nothing has been changed. -/
theorem steady_settle {r : Except DiskFault Disk} (hd : d.Sound)
    (h : ∀ d', r = .ok d' → Steady ways changes d d') : Steady ways changes d (settle d r).1 := by
  cases r with
  | ok d' => exact h d' rfl
  | error fault => exact Steady.refl hd

theorem perform_steady (hd : d.Sound) (step : FileStep) :
    Steady step.Makes step.Changes d (perform step d).1 := by
  cases step with
  | createDirectories path => exact steady_makeDirectories hd fun _ hup => hup
  | write path bytes => exact steady_settle hd fun d' h => steady_write hd h
  | rename source target => exact steady_settle hd fun d' h => steady_rename hd h
  | copyInto source directory name =>
      refine steady_settle hd fun d' h => ?_
      obtain ⟨bytes, -, hwrite⟩ := copy_eq_ok h
      exact steady_write hd hwrite
  | removeFile path => exact steady_settle hd fun d' h => steady_removeFile hd h
  | removeTree path => exact steady_settle hd fun d' h => steady_removeTree hd h

theorem Halfway.steady (h : Halfway step d d') (hd : d.Sound) :
    Steady step.Makes step.Changes d d' := by
  cases h with
  | untouched => exact Steady.refl hd
  | outer habove => exact steady_makeDirectories hd fun _ hup => habove.subset hup
  | torn n hwrite => exact steady_write hd hwrite

end FileStep

/-! ## Runs -/

namespace Device

theorem Honest.steady (h : device.Honest) (hd : d.Sound) (step : FileStep) :
    Steady step.Makes step.Changes d (device step d).1 := by
  rcases hstep : device step d with ⟨d', fault⟩
  cases fault with
  | none =>
      have hsteady := FileStep.perform_steady hd step
      rwa [h.done hstep] at hsteady
  | some fault => exact (h.failed hstep).steady hd

/-- A run stays on the ways and the changes of its steps. -/
theorem Honest.run_steady (h : device.Honest) (hd : d.Sound)
    (hways : ∀ step ∈ steps, ∀ l, step.Makes l → ways l)
    (hchanges : ∀ step ∈ steps, ∀ l, step.Changes l → changes l) :
    Steady ways changes d (device.run steps d).1 := by
  refine Device.run_invariant (P := Steady ways changes d) (fun step hstep d' hd' => ?_)
    (Steady.refl hd)
  exact hd'.trans ((h.steady hd'.sound step).mono (hways step hstep) (hchanges step hstep))

end Device

end NodePipeline
