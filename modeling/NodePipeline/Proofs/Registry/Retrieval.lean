import NodePipeline.Proofs.Registry.Standing
import NodePipeline.Proofs.Results

/-!
# Retrieval finds the newest artifact

Entries are recorded one after the other in an empty registry. A lookup then gives the
artifact of the newest entry that matches and has the node, in whatever order the entries
have come and whatever else has been recorded beside them.
-/

namespace NodePipeline

namespace BuildEntry

/-! ## The newest entry with a node -/

/-- Made at an earlier instant, or at the same one under a lesser id. -/
def Older (a b : BuildEntry) : Prop :=
  a.createdAt.isBefore b.createdAt = true ∨ a.createdAt = b.createdAt ∧ a.buildId < b.buildId

theorem Older.asymm {a b : BuildEntry} (h : a.Older b) : ¬b.Older a := by
  rintro (hbefore | ⟨heq, hid⟩)
  · rcases h with hbefore' | ⟨heq', -⟩
    · exact Instant.not_isBefore_self _ (Instant.isBefore_trans hbefore hbefore')
    · exact Instant.not_isBefore_self _ (heq' ▸ hbefore)
  · rcases h with hbefore' | ⟨-, hid'⟩
    · exact Instant.not_isBefore_self _ (heq ▸ hbefore')
    · exact String.lt_asymm hid hid'

/-- What is listed after an entry of another id is older. -/
theorem older_of_listedBefore {a b : BuildEntry} (h : listedBefore a b = true)
    (hne : b.buildId ≠ a.buildId) : b.Older a := by
  rcases listedBefore_iff.1 h with hbefore | ⟨heq, hid⟩
  · exact Or.inl hbefore
  · refine Or.inr ⟨heq.symm, ?_⟩
    by_contra hlt
    exact hne (String.le_antisymm hid (String.not_lt.1 hlt))

/-- The entry matches and has an artifact of the node. -/
def Offers (keep : String → Bool) (node : String) (e : BuildEntry) : Prop :=
  keep e.buildId = true ∧ node ∈ e.artifacts.names

/-- Of the entries that match and have the node, this is the newest. -/
structure Newest (keep : String → Bool) (node : String) (es : List BuildEntry) (e : BuildEntry) :
    Prop where
  mem : e ∈ es
  offers : e.Offers keep node
  newest : ∀ e' ∈ es, e'.Offers keep node → e' = e ∨ e'.Older e

variable {keep : String → Bool} {node : String} {es es' : List BuildEntry} {e e' : BuildEntry}

theorem Newest.unique (h : Newest keep node es e) (h' : Newest keep node es e') : e = e' := by
  rcases h.newest e' h'.mem h'.offers with heq | holder
  · exact heq.symm
  · rcases h'.newest e h.mem h.offers with heq | holder'
    · exact heq
    · exact absurd holder' holder.asymm

/-- Only entries that match and have the node bear on which of them is the newest. -/
theorem Newest.of_same_offers (h : Newest keep node es e)
    (hsame : ∀ x, x.Offers keep node → (x ∈ es' ↔ x ∈ es)) : Newest keep node es' e where
  mem := (hsame e h.offers).2 h.mem
  offers := h.offers
  newest x hx hoffers := h.newest x ((hsame x hoffers).1 hx) hoffers

end BuildEntry

open BuildEntry

section Lookup

variable {keep : String → Bool} {node : String} {es records : List BuildEntry}

theorem firstArtifact_eq_none : firstArtifact node (records.filter fun e => keep e.buildId) = none ↔
    ∀ e ∈ records, ¬e.Offers keep node := by
  unfold firstArtifact Offers
  rw [List.findSome?_eq_none_iff]
  refine forall_congr' fun e => ?_
  rw [List.mem_filter, Option.map_eq_none_iff, Bindings.get?_eq_none]
  tauto

/-- What the first artifact of a listing is of. -/
theorem newest_of_firstArtifact {found : String × String}
    (hsorted : records.Pairwise fun a b => listedBefore a b = true)
    (hmem : ∀ e, e ∈ records ↔ e ∈ es) (hids : (es.map BuildEntry.buildId).Nodup)
    (h : firstArtifact node (records.filter fun e => keep e.buildId) = some found) :
    ∃ e, Newest keep node es e ∧ e.buildId = found.1 ∧ e.artifacts.get? node = some found.2 := by
  obtain ⟨before, e, after, hsplit, hfound, hbefore⟩ := List.findSome?_eq_some_iff.1 h
  obtain ⟨path, hpath, rfl⟩ := Option.map_eq_some_iff.1 hfound
  have hkept : ∀ x, x ∈ before ++ e :: after ↔ x ∈ es ∧ keep x.buildId = true := by
    intro x
    rw [← hsplit, List.mem_filter, hmem]
  obtain ⟨he, hkeep⟩ := (hkept e).1 (by simp)
  have hnode : node ∈ e.artifacts.names := Bindings.get?_isSome.1 (by rw [hpath]; rfl)
  refine ⟨e, ⟨he, ⟨hkeep, hnode⟩, fun x hx hoffers => ?_⟩, rfl, hpath⟩
  have hlisted := hsorted.sublist (List.filter_sublist (p := fun e => keep e.buildId))
  rw [hsplit, List.pairwise_append] at hlisted
  rcases List.mem_append.1 ((hkept x).2 ⟨hx, hoffers.1⟩) with hx' | hx'
  · -- An entry that comes earlier lacks the node.
    have hnone := Bindings.get?_eq_none.1 (Option.map_eq_none_iff.1 (hbefore x hx'))
    exact absurd hoffers.2 hnone
  · rcases List.mem_cons.1 hx' with heq | hafter
    · exact Or.inl heq
    · by_cases hid : x.buildId = e.buildId
      · exact Or.inl (List.inj_on_of_nodup_map hids hx he hid)
      · have horder := (List.pairwise_cons.1 hlisted.2.1).1 x hafter
        exact Or.inr (older_of_listedBefore horder hid)

theorem firstArtifact_eq_some {found : String × String}
    (hsorted : records.Pairwise fun a b => listedBefore a b = true)
    (hmem : ∀ e, e ∈ records ↔ e ∈ es) (hids : (es.map BuildEntry.buildId).Nodup) :
    firstArtifact node (records.filter fun e => keep e.buildId) = some found ↔
      ∃ e, Newest keep node es e ∧ e.buildId = found.1 ∧ e.artifacts.get? node = some found.2 := by
  refine ⟨newest_of_firstArtifact hsorted hmem hids, ?_⟩
  rintro ⟨e, hnewest, hid, hpath⟩
  cases hfirst : firstArtifact node (records.filter fun e => keep e.buildId) with
  | none =>
      exact absurd hnewest.offers (firstArtifact_eq_none.1 hfirst e ((hmem e).2 hnewest.mem))
  | some other =>
      obtain ⟨e', hnewest', hid', hpath'⟩ := newest_of_firstArtifact hsorted hmem hids hfirst
      obtain rfl := hnewest.unique hnewest'
      rw [hpath] at hpath'
      exact congrArg some (Prod.ext (hid'.symm.trans hid) (Option.some.inj hpath').symm)

end Lookup

namespace Registry

variable {r : Registry} {device : Device} {w w' : Workspace} {e : BuildEntry}
  {es done : List BuildEntry}

/-! ## Recording one entry after the other -/

/-- Records the entries in their order, up to the first that cannot be recorded. -/
def recordAll (r : Registry) (device : Device) :
    List BuildEntry → Workspace → Workspace × Except PipelineError Unit
  | [], w => (w, .ok ())
  | e :: rest, w =>
      match r.record device e w with
      | (w, .error fault) => (w, .error fault)
      | (w, .ok ()) => r.recordAll device rest w

/-- Any entry can be kept in memory. In a directory its id has to be the name of a file that
is listed, and its instant one that a time stamp can be written for. -/
def Accepts (r : Registry) (e : BuildEntry) : Prop :=
  match r with
  | .memory => True
  | .files _ => IsRecordId e.buildId ∧ e.createdAt.Regular ∧ e.createdAt.Kept

/-- The registry has these entries and no others, each in its place. -/
structure Contains (r : Registry) (es : List BuildEntry) (w : Workspace) : Prop where
  sound : w.disk.Sound
  accepted : ∀ e ∈ es, r.Accepts e
  holds : ∀ e ∈ es, r.Holds w e
  has : ∀ e, r.Has w e → e ∈ es

theorem Contains.has_iff (h : r.Contains es w) (e : BuildEntry) : r.Has w e ↔ e ∈ es := by
  refine ⟨h.has e, fun he => ?_⟩
  have hholds := h.holds e he
  cases r with
  | memory => exact hholds
  | files directory => exact hholds.has (h.accepted e he).1

theorem Contains.record (hdevice : device.Honest) (h : r.Contains done w) (haccepts : r.Accepts e)
    (hnew : ∀ x ∈ done, x.buildId ≠ e.buildId) (hrecord : r.record device e w = (w', .ok ())) :
    r.Contains (done ++ [e]) w' := by
  have haccepted : ∀ x ∈ done ++ [e], r.Accepts x := by
    intro x hx
    rcases List.mem_append.1 hx with hx | hx
    · exact h.accepted x hx
    · obtain rfl := List.mem_singleton.1 hx
      exact haccepts
  cases r with
  | memory =>
      obtain rfl : { w with memory := w.memory ++ [e] } = w' := (Prod.ext_iff.1 hrecord).1
      refine ⟨h.sound, haccepted, fun x hx => ?_, fun x hx => ?_⟩
      · rcases List.mem_append.1 hx with hx | hx
        · exact List.mem_append_left _ (h.holds x hx)
        · exact List.mem_append_right _ hx
      · rcases List.mem_append.1 hx with hx | hx
        · exact List.mem_append_left _ (h.has x hx)
        · exact List.mem_append_right _ hx
  | files directory =>
      obtain ⟨hid, hregular, hkept⟩ := haccepts
      have hsound := recordFile_sound hdevice h.sound directory e
      rw [recordFile_of_record hrecord] at hsound
      obtain ⟨hholds, hothers⟩ := record_holds hdevice hid hregular hkept h.sound hrecord
      have hkeeps := record_keeps hdevice hid hregular hkept h.sound hrecord
      refine ⟨hsound, haccepted, fun x hx => ?_, fun x hx => ?_⟩
      · rcases List.mem_append.1 hx with hx | hx
        · exact hkeeps.holds x (hnew x hx) (h.holds x hx)
        · obtain rfl := List.mem_singleton.1 hx
          exact hholds
      · rcases hothers x hx with hold | rfl
        · exact List.mem_append_left _ (h.has x hold)
        · exact List.mem_append_right _ (List.mem_singleton_self x)

theorem Contains.recordAll (hdevice : device.Honest) (h : r.Contains done w)
    (haccepts : ∀ e ∈ es, r.Accepts e) (hids : ((done ++ es).map BuildEntry.buildId).Nodup)
    (hrecord : r.recordAll device es w = (w', .ok ())) : r.Contains (done ++ es) w' := by
  induction es generalizing done w with
  | nil =>
      obtain rfl : w = w' := (Prod.ext_iff.1 hrecord).1
      rwa [List.append_nil]
  | cons e rest ih =>
      obtain ⟨he, hrest⟩ := List.forall_mem_cons.1 haccepts
      unfold Registry.recordAll at hrecord
      split at hrecord
      · cases (Prod.ext_iff.1 hrecord).2
      · next w₁ hfirst =>
          have hnew : ∀ x ∈ done, x.buildId ≠ e.buildId := by
            rw [List.map_append, List.nodup_append] at hids
            exact fun x hx => hids.2.2 _ (List.mem_map_of_mem hx) _ (by simp)
          rw [List.append_cons] at hids ⊢
          exact ih (h.record hdevice he hnew hfirst) hrest hids hrecord

/-- Nothing has been recorded here, and the place is one that can be listed. -/
structure Blank (r : Registry) (w : Workspace) : Prop where
  sound : w.disk.Sound
  place : r.HasPlace
  lists : r.entries w = .ok []
  has : ∀ e, ¬r.Has w e

theorem Blank.contains (h : r.Blank w) : r.Contains [] w where
  sound := h.sound
  accepted _ he := absurd he List.not_mem_nil
  holds _ he := absurd he List.not_mem_nil
  has e hhas := absurd hhas (h.has e)

/-- The entries, of one id each, have all been recorded where nothing was. -/
structure Filled (device : Device) (r : Registry) (es : List BuildEntry) (w w' : Workspace) :
    Prop where
  honest : device.Honest
  blank : r.Blank w
  accepted : ∀ e ∈ es, r.Accepts e
  ids : (es.map BuildEntry.buildId).Nodup
  done : r.recordAll device es w = (w', .ok ())

theorem Filled.contains (h : Filled device r es w w') : r.Contains es w' :=
  h.blank.contains.recordAll h.honest h.accepted h.ids h.done

theorem Filled.entries (h : Filled device r es w w') :
    ∃ records, r.entries w' = .ok (newestFirst records) ∧ ∀ e, e ∈ records ↔ e ∈ es := by
  have hcontains := h.contains
  cases es with
  | nil =>
      obtain rfl : w = w' := (Prod.ext_iff.1 h.done).1
      refine ⟨[], ?_, fun e => Iff.rfl⟩
      rw [h.blank.lists, newestFirst_nil]
  | cons first rest =>
      have hholds := hcontains.holds first List.mem_cons_self
      obtain ⟨records, hentries, hrecords⟩ := hholds.entries h.blank.place hcontains.sound
      exact ⟨records, hentries, fun e => (hrecords e).trans (hcontains.has_iff e)⟩

/-! ## Lookups -/

variable {pattern : Option String} {keep : String → Bool} {node : String}

theorem resolve_eq {records : List BuildEntry} (hentries : r.entries w = .ok records)
    (hpattern : idFilter pattern = .ok keep) :
    r.resolve w node pattern =
      match firstArtifact node (records.filter fun e => keep e.buildId) with
      | some found => .ok found
      | none => .error (.missingArtifact node pattern) := by
  have hselect : r.select w pattern = .ok (records.filter fun e => keep e.buildId) := by
    rw [select, hentries, hpattern]
    rfl
  unfold resolve
  rw [hselect]
  simp only [bind, Except.bind]
  cases firstArtifact node (records.filter fun e => keep e.buildId) <;> rfl

theorem Filled.resolve_eq_ok (h : Filled device r es w w') (hpattern : idFilter pattern = .ok keep)
    {found : String × String} : r.resolve w' node pattern = .ok found ↔
      ∃ e, Newest keep node es e ∧ e.buildId = found.1 ∧ e.artifacts.get? node = some found.2 := by
  obtain ⟨records, hentries, hmem⟩ := h.entries
  have hlisted : ∀ e, e ∈ newestFirst records ↔ e ∈ es := fun e => mem_newestFirst.trans (hmem e)
  rw [← firstArtifact_eq_some (pairwise_newestFirst records) hlisted h.ids,
    Registry.resolve_eq hentries hpattern]
  cases firstArtifact node ((newestFirst records).filter fun e => keep e.buildId) <;> simp

theorem Filled.resolve_eq_error (h : Filled device r es w w')
    (hpattern : idFilter pattern = .ok keep) {fault : PipelineError} :
    r.resolve w' node pattern = .error fault ↔
      fault = .missingArtifact node pattern ∧ ∀ e ∈ es, ¬e.Offers keep node := by
  obtain ⟨records, hentries, hmem⟩ := h.entries
  have hnone : firstArtifact node ((newestFirst records).filter fun e => keep e.buildId) = none ↔
      ∀ e ∈ es, ¬e.Offers keep node := by
    rw [firstArtifact_eq_none]
    exact forall_congr' fun e => by rw [mem_newestFirst, hmem]
  rw [Registry.resolve_eq hentries hpattern, ← hnone]
  cases firstArtifact node ((newestFirst records).filter fun e => keep e.buildId) <;>
    simp [eq_comm]

/-- **The newest artifact is found.** A lookup gives what the newest entry has that matches and
has the node, and a key error if no entry does. Whatever else is recorded, in whatever order
and in whichever kind of registry, bears on it only through the entries that match and have
the node. -/
theorem newest_offer_is_found (h : Filled device r es w w')
    (hpattern : idFilter pattern = .ok keep) (node : String) :
    (∀ id path, r.resolve w' node pattern = .ok (id, path) ↔
      ∃ e, Newest keep node es e ∧ e.buildId = id ∧ e.artifacts.get? node = some path) ∧
    (∀ fault, r.resolve w' node pattern = .error fault ↔
      fault = .missingArtifact node pattern ∧ ∀ e ∈ es, ¬e.Offers keep node) ∧
    (PipelineError.missingArtifact node pattern).errorClass = .key ∧
    ∀ device' r' es' v v', Filled device' r' es' v v' →
      (∀ e, e.Offers keep node → (e ∈ es' ↔ e ∈ es)) →
      r'.resolve v' node pattern = r.resolve w' node pattern := by
  refine ⟨fun id path => h.resolve_eq_ok hpattern, fun fault => h.resolve_eq_error hpattern, rfl,
    ?_⟩
  intro device' r' es' v v' h' hsame
  cases hfound : r.resolve w' node pattern with
  | ok found =>
      obtain ⟨e, hnewest, hid, hpath⟩ := (h.resolve_eq_ok hpattern).1 hfound
      exact (h'.resolve_eq_ok hpattern).2 ⟨e, hnewest.of_same_offers hsame, hid, hpath⟩
  | error fault =>
      obtain ⟨rfl, hnone⟩ := (h.resolve_eq_error hpattern).1 hfound
      refine (h'.resolve_eq_error hpattern).2 ⟨rfl, fun e he hoffers => ?_⟩
      exact hnone e ((hsame e hoffers).1 he) hoffers

/-- Where nothing is, nothing has been recorded. -/
theorem blank_empty (hplain : ∀ directory, r = .files directory →
    directory.isEmpty = false ∧ Disk.Plain directory) : r.Blank .empty := by
  cases r with
  | memory =>
      refine ⟨Disk.sound_empty, trivial, ?_, fun e hhas => absurd hhas List.not_mem_nil⟩
      exact congrArg Except.ok newestFirst_nil
  | files directory =>
      obtain ⟨hne, hdown⟩ := hplain directory rfl
      have hlist : recordFiles .empty directory = .ok (Disk.empty.recordsIn directory) :=
        recordFiles_of_clear Disk.sound_empty ⟨hne, Or.inr hdown⟩ (Disk.clear_empty directory)
      have hnone : Disk.empty.recordsIn directory = [] := rfl
      refine ⟨Disk.sound_empty, hne, ?_, fun e hhas => ?_⟩
      · show (recordFiles .empty directory).map newestFirst = _
        rw [hlist, hnone, Except.map, newestFirst_nil]
      · have hmem : e ∈ Disk.empty.recordsIn directory := hhas
        rw [hnone] at hmem
        cases hmem

/-- An entry with one artifact, of a node `a`. -/
def entryOf (id : String) (seconds : Int) : BuildEntry :=
  ⟨id, ⟨seconds, 0⟩, "out", .ofList [("a", id ++ "/a")]⟩

/-- Two entries of one instant, and a newer one without the node. -/
def tiedEntries : List BuildEntry :=
  [⟨"third", ⟨1, 0⟩, "out", .empty⟩, entryOf "first" 0, entryOf "second" 0]

/-- Of two entries of one instant the one with the greater id is found; a newer entry without
the node does not hide it. -/
theorem tied_entry_is_found : ∃ w',
    Filled FileStep.perform (.files "builds") tiedEntries .empty w' ∧
      idFilter none = .ok (fun _ => true) ∧
      (Registry.files "builds").resolve w' "a" none = .ok ("second", "second/a") := by
  have hblank : (Registry.files "builds").Blank .empty := by
    refine blank_empty fun directory heq => ?_
    obtain rfl := Registry.files.inj heq
    exact ⟨by decide, by decide +kernel⟩
  have hdone : ((Registry.files "builds").recordAll FileStep.perform tiedEntries
      .empty).2.toOption = some () := by decide +kernel
  have haccepts : ∀ e ∈ tiedEntries, (Registry.files "builds").Accepts e := by
    unfold tiedEntries entryOf
    simp only [List.forall_mem_cons, List.not_mem_nil, false_implies, implies_true, and_true]
    refine ⟨⟨⟨by decide, 't', _, rfl, by decide⟩, by decide, by decide +kernel⟩,
      ⟨⟨by decide, 'f', _, rfl, by decide⟩, by decide, by decide +kernel⟩,
      ⟨⟨by decide, 's', _, rfl, by decide⟩, by decide, by decide +kernel⟩⟩
  rcases hend : (Registry.files "builds").recordAll FileStep.perform tiedEntries .empty
    with ⟨w', result⟩
  rw [hend] at hdone
  obtain rfl : result = .ok () := toOption_eq_some.1 hdone
  have hfilled : Filled FileStep.perform (.files "builds") tiedEntries .empty w' :=
    ⟨Device.honest_perform, hblank, haccepts, by decide, hend⟩
  refine ⟨_, hfilled, rfl, ((newest_offer_is_found hfilled rfl "a").1 _ _).2 ?_⟩
  refine ⟨entryOf "second" 0, ⟨by simp [tiedEntries], ⟨rfl, by decide⟩, ?_⟩, rfl, by decide⟩
  unfold tiedEntries
  simp only [List.forall_mem_cons, List.not_mem_nil, false_implies, implies_true, and_true]
  refine ⟨fun hoffers => ?_, fun _ => Or.inr (Or.inr ⟨rfl, by decide⟩), fun _ => Or.inl trivial⟩
  cases hoffers.2

/-- The record is made, and no lookup finds it. -/
def Loses (r : Registry) (id : String) (w : Workspace) : Prop :=
  let made := r.record FileStep.perform (entryOf id 0) w
  made.2.toOption = some () ∧ (r.entries made.1).toOption.map List.length = some 0 ∧
    (r.resolve made.1 "a" none).toOption = none

instance (r : Registry) (id : String) (w : Workspace) : Decidable (r.Loses id w) :=
  inferInstanceAs (Decidable (_ ∧ _ ∧ _))

/-- Directories inside the one of a registry. -/
def nestedDirectories : Workspace :=
  let d := (FileStep.perform (.createDirectories "builds/a") .empty).1
  { Workspace.empty with disk := (FileStep.perform (.createDirectories "builds/.a") d).1 }

/-- Hidden files, files of other directories and files of a directory without a path are
not listed. -/
theorem unlisted_records_are_lost :
    (Registry.files "builds").Loses ".x" .empty ∧ (Registry.files "builds").Loses "" .empty ∧
      (Registry.files "builds").Loses "a/x" nestedDirectories ∧
      (Registry.files "").Loses "x" .empty := by
  decide +kernel

end Registry

end NodePipeline
