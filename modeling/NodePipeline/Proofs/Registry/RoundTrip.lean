import NodePipeline.Proofs.Disk.Success
import NodePipeline.Proofs.Registry.Record

/-!
# Record files give their records back

An id without a slash names the file of its record. Recording succeeds in a directory that
is open, unless a directory is in the way of the file, and what is then read from the file
is the record, to the nanosecond and with every character of its texts.
-/

namespace NodePipeline

open Disk

variable {directory : String} {e : BuildEntry} {d : Disk}

/-- Instants are kept for all years of four digits. -/
theorem kept_of_fourDigits {t : Instant} (h : 0 ≤ t.civil.date.year ∧ t.civil.date.year ≤ 9999) :
    t.Kept := by
  unfold Instant.Kept Rfc3339.isKeptYear
  rw [decide_eq_true_iff]
  omega

/-- The record has a name that is allowed if the hidden file has. -/
theorem isName_of_temporary {id : String}
    (h : isName (hiddenName id) = true) : isName (recordName id) = true := by
  unfold isName hiddenName at h
  unfold isName recordName
  simp only [Bool.and_eq_true, decide_eq_true_eq, Bool.not_eq_true', List.any_eq_false,
    String.utf8ByteSize_append, String.toList_append, List.mem_append] at h ⊢
  refine ⟨by omega, fun c hc => h.2 c (Or.inl ?_)⟩
  rcases hc with (hc | hc) | hc
  · exact Or.inl (Or.inl (Or.inr hc))
  · exact Or.inl (Or.inr hc)
  · exact Or.inr hc

/-- Recording succeeds where its two files have names that are allowed and no directory has. -/
theorem recordFile_succeeds (hid : '/' ∉ e.buildId.toList) (hd : d.WellFormed)
    (hopen : d.Opens directory)
    (hname : isName (hiddenName e.buildId) = true)
    (hfree : ∀ name, Path.IsName name →
      d.at? (destination directory ++ [name]) ≠ some .directory) :
    ∃ d', recordFile FileStep.perform directory e d = (d', .ok ()) := by
  have hhidden := isName_hidden_of_noSlash hid
  have hrecord := isName_of_noSlash hid
  obtain ⟨d₁, d₂, hwrite, hmove⟩ := write_aside hd hopen hrecord (isName_of_temporary hname)
    hhidden hname (recordName_ne_hiddenName _ _) (hfree _ hrecord) (hfree _ hhidden)
    (Bytes.ofString e.toText)
  refine ⟨d₂, recordFile_eq_ok.2 ⟨d₁, ?_, ?_⟩⟩
  · rw [recordSteps, Device.run_cons, FileStep.createDirectories_of_opens hopen]
    simp only
    rw [Device.run_cons, FileStep.perform_write, recordTemporary, ← hiddenName, hwrite]
    rfl
  · rw [recordMove, FileStep.perform_rename]
    exact congrArg (FileStep.settle d₁) hmove

/-- **A record file decodes to the record that it was written from**: whatever its texts, the
text of a record is read as that record, and so is the file once it is recorded. -/
theorem recorded_entry_reads_back (hid : '/' ∉ e.buildId.toList)
    (hregular : e.createdAt.Regular)
    (hyear : 0 ≤ e.createdAt.civil.date.year ∧ e.createdAt.civil.date.year ≤ 9999) :
    BuildEntry.ofText? e.toText = some e ∧
      ∀ (device : Device) (directory : String) (d d' : Disk), device.Honest → d.WellFormed →
        recordFile device directory e d = (d', .ok ()) →
          readRecord d' (recordPath directory e.buildId) = some e := by
  have hback := BuildEntry.ofText?_toText hregular (kept_of_fourDigits hyear)
  refine ⟨hback, fun device directory d d' hdevice hd h => ?_⟩
  exact readRecord_of_read (recordFile_ok hid hd (hdevice.recordFile_ok h)).2 hback

/-- The last nanosecond of the four-digit years, with texts that a JSON document escapes. -/
def lastEntry : BuildEntry where
  buildId := ".\"é\t"
  createdAt := ⟨253402300799, 999999999⟩
  root := "out\\\u0001\n"
  artifacts := Bindings.empty.insert "π\"" "a/\u007f"

theorem lastEntry_reads_back :
    ∃ d', recordFile FileStep.perform "" lastEntry Disk.empty = (d', .ok ()) ∧
      BuildEntry.ofText? lastEntry.toText = some lastEntry ∧
      readRecord d' (recordPath "" lastEntry.buildId) = some lastEntry := by
  have hid : '/' ∉ lastEntry.buildId.toList := by decide
  obtain ⟨hback, hread⟩ := recorded_entry_reads_back hid (by decide) (by decide +kernel)
  have hopen : Disk.empty.Opens "" := ⟨rfl, rfl⟩
  have hfree : ∀ name, Path.IsName name →
      Disk.empty.at? (destination "" ++ [name]) ≠ some .directory := by
    intro name hname
    rw [at?_of_not_isTop (isTop_eq_false_of_mem hname (List.mem_append_right _
      List.mem_cons_self))]
    exact nofun
  obtain ⟨d', hrecorded⟩ :=
    recordFile_succeeds hid wellFormed_empty hopen (by decide +kernel) hfree
  exact ⟨d', hrecorded, hback,
    hread _ _ _ _ Device.honest_perform wellFormed_empty hrecorded⟩

end NodePipeline
