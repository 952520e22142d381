import NodePipeline.Registry.Lookup

/-!
# The order of listings

Records are listed by instant and id, the greatest first. A record that is newer than
all others heads the listing, and lookups without a pattern find what it has.
-/

namespace NodePipeline

namespace Instant

theorem isBefore_iff {a b : Instant} :
    a.isBefore b = true ↔ a.seconds < b.seconds ∨ a.seconds = b.seconds ∧ a.nanos < b.nanos :=
  decide_eq_true_iff

theorem isBefore_trans {a b c : Instant} (h : a.isBefore b = true) (h' : b.isBefore c = true) :
    a.isBefore c = true := by
  rw [isBefore_iff] at *
  omega

theorem not_isBefore_self (a : Instant) : ¬a.isBefore a = true := by
  rw [isBefore_iff]
  omega

theorem isBefore_total (a b : Instant) : a.isBefore b = true ∨ a = b ∨ b.isBefore a = true := by
  obtain ⟨s, n⟩ := a
  obtain ⟨s', n'⟩ := b
  rw [isBefore_iff, isBefore_iff, Instant.mk.injEq]
  simp only
  omega

end Instant

namespace BuildEntry

theorem listedBefore_iff {a b : BuildEntry} :
    listedBefore a b = true ↔ b.createdAt.isBefore a.createdAt = true ∨
      a.createdAt = b.createdAt ∧ b.buildId ≤ a.buildId := by
  simp [listedBefore]

theorem listedBefore_trans (a b c : BuildEntry) (h : listedBefore a b = true)
    (h' : listedBefore b c = true) : listedBefore a c = true := by
  rw [listedBefore_iff] at *
  rcases h with hbefore | ⟨heq, hid⟩
  · rcases h' with hbefore' | ⟨heq', -⟩
    · exact Or.inl (Instant.isBefore_trans hbefore' hbefore)
    · exact Or.inl (heq' ▸ hbefore)
  · rcases h' with hbefore' | ⟨heq', hid'⟩
    · exact Or.inl (heq ▸ hbefore')
    · exact Or.inr ⟨heq.trans heq', String.le_trans hid' hid⟩

theorem listedBefore_total (a b : BuildEntry) :
    (listedBefore a b || listedBefore b a) = true := by
  rw [Bool.or_eq_true, listedBefore_iff, listedBefore_iff]
  rcases Instant.isBefore_total a.createdAt b.createdAt with hbefore | heq | hbefore
  · exact Or.inr (Or.inl hbefore)
  · rcases String.le_total a.buildId b.buildId with hid | hid
    · exact Or.inr (Or.inr ⟨heq.symm, hid⟩)
    · exact Or.inl (Or.inr ⟨heq, hid⟩)
  · exact Or.inl (Or.inl hbefore)

end BuildEntry

theorem pairwise_newestFirst (entries : List BuildEntry) :
    (newestFirst entries).Pairwise fun a b => BuildEntry.listedBefore a b = true :=
  List.pairwise_mergeSort BuildEntry.listedBefore_trans BuildEntry.listedBefore_total entries

@[simp] theorem newestFirst_nil : newestFirst [] = [] := List.mergeSort_nil

theorem mem_newestFirst {entries : List BuildEntry} {e : BuildEntry} :
    e ∈ newestFirst entries ↔ e ∈ entries := (List.mergeSort_perm _ _).mem_iff

/-- A record that is newer than all others comes first. -/
theorem newestFirst_eq_cons {entries : List BuildEntry} {e : BuildEntry} (he : e ∈ entries)
    (hnewest : ∀ e' ∈ entries, e' = e ∨ e'.createdAt.isBefore e.createdAt = true) :
    ∃ rest, newestFirst entries = e :: rest := by
  have hpairwise := pairwise_newestFirst entries
  have hmem : e ∈ newestFirst entries := mem_newestFirst.2 he
  cases hlist : newestFirst entries with
  | nil => rw [hlist] at hmem; cases hmem
  | cons first rest =>
      rw [hlist] at hpairwise hmem
      have hfirst : first ∈ entries := mem_newestFirst.1 (by rw [hlist]; exact List.mem_cons_self)
      rcases List.mem_cons.1 hmem with rfl | hrest
      · exact ⟨rest, rfl⟩
      · rcases hnewest first hfirst with rfl | hbefore
        · exact ⟨rest, rfl⟩
        · -- What is listed before the newest record is no older.
          have horder := (List.pairwise_cons.1 hpairwise).1 e hrest
          rcases BuildEntry.listedBefore_iff.1 horder with hafter | ⟨heq, -⟩
          · exact absurd (Instant.isBefore_trans hbefore hafter) (Instant.not_isBefore_self _)
          · exact absurd (heq ▸ hbefore) (Instant.not_isBefore_self _)

namespace Registry

variable {r : Registry} {w : Workspace} {e : BuildEntry} {entries : List BuildEntry}

/-- A node that the newest record has is found there. -/
theorem resolve_newest (hentries : r.entries w = .ok (newestFirst entries)) (he : e ∈ entries)
    (hnewest : ∀ e' ∈ entries, e' = e ∨ e'.createdAt.isBefore e.createdAt = true)
    {node path : String} (hnode : e.artifacts.get? node = some path) :
    r.resolve w node none = .ok (e.buildId, path) := by
  obtain ⟨rest, hlist⟩ := newestFirst_eq_cons he hnewest
  have hselect : r.select w none = .ok (e :: rest) := by
    rw [select, hentries, hlist]
    simp [idFilter, bind, Except.bind, pure, Except.pure]
  have hfirst : firstArtifact node (e :: rest) = some (e.buildId, path) := by
    simp [firstArtifact, hnode]
  rw [resolve, hselect]
  simp only [bind, Except.bind, hfirst, pure, Except.pure]

/-- Reading such a node reads the file of its artifact. -/
theorem readNode_newest (p : Primitives) (hentries : r.entries w = .ok (newestFirst entries))
    (he : e ∈ entries)
    (hnewest : ∀ e' ∈ entries, e' = e ∨ e'.createdAt.isBefore e.createdAt = true)
    {node path : String} (hnode : e.artifacts.get? node = some path) :
    r.readNode p w node none = w.disk.readValue p path := by
  rw [readNode, resolve_newest hentries he hnewest hnode]
  rfl

end Registry

end NodePipeline
