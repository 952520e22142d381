import NodePipeline.Proofs.Primitives
import NodePipeline.Proofs.Value.Encoding
import NodePipeline.Proofs.Value.Identity

/-!
# What digests tell apart

A value has a digest unless a pipeline occurs in it. Two values have the same digest and
the same counts of parameters and captured bindings exactly if they are alike, as long as
the hash does not map their two encodings to one. The counts are no part of an encoding, so
that the digest alone does not tell functions apart.
-/

namespace NodePipeline.Value

variable {store : Table → Bytes}

/-! ## Values without an encoding -/

theorem encodingItems_eq_none_cons {item : Value} {rest : List Value} :
    encodingItems store (item :: rest) = none ↔
      encoding store item = none ∨ encodingItems store rest = none := by
  rw [encodingItems]
  cases encoding store item <;> cases encodingItems store rest <;> simp

theorem encodingEntries_eq_none_cons {key : String} {value : Value}
    {rest : List (String × Value)} :
    encodingEntries store ((key, value) :: rest) = none ↔
      encoding store value = none ∨ encodingEntries store rest = none := by
  rw [encodingEntries]
  cases encoding store value <;> cases encodingEntries store rest <;> simp

mutual

/-- A value has no encoding exactly if a pipeline occurs in it. -/
theorem encoding_eq_none_iff (v : Value) :
    encoding store v = none ↔ ∃ nodes, Occurs (.pipeline nodes) v := by
  cases v with
  | list items =>
      simp only [encoding, Option.map_eq_none_iff, occurs_list, reduceCtorEq, false_or,
        encodingItems_eq_none_iff items]
  | dict entries =>
      simp only [encoding, Option.map_eq_none_iff, occurs_dict, reduceCtorEq, false_or,
        encodingEntries_eq_none_iff entries]
  | function params body captured =>
      simp only [encoding, Option.map_eq_none_iff, occurs_function, reduceCtorEq, false_or,
        encodingEntries_eq_none_iff captured]
  | pipeline nodes => exact ⟨fun _ => ⟨nodes, .here⟩, fun _ => rfl⟩
  | _ =>
      simp only [encoding, reduceCtorEq, false_iff, not_exists]
      rintro nodes ⟨⟩
termination_by structural v

theorem encodingItems_eq_none_iff (items : List Value) :
    encodingItems store items = none ↔
      ∃ nodes, ∃ v ∈ items, Occurs (.pipeline nodes) v := by
  cases items with
  | nil => simp [encodingItems]
  | cons item rest =>
      rw [encodingItems_eq_none_cons, encoding_eq_none_iff item, encodingItems_eq_none_iff rest,
        ← exists_or]
      simp only [List.mem_cons, exists_eq_or_imp]
termination_by structural items

theorem encodingEntries_eq_none_iff (entries : List (String × Value)) :
    encodingEntries store entries = none ↔
      ∃ nodes, ∃ e ∈ entries, Occurs (.pipeline nodes) e.2 := by
  cases entries with
  | nil => simp [encodingEntries]
  | cons entry rest =>
      obtain ⟨key, value⟩ := entry
      rw [encodingEntries_eq_none_cons, encoding_eq_none_iff value,
        encodingEntries_eq_none_iff rest, ← exists_or]
      simp only [List.mem_cons, exists_eq_or_imp]
termination_by structural entries

end

/-! ## Values that are alike -/

mutual

theorem Alike.same_encoding (v : Value) {w : Value} (h : v.Alike store w) :
    encoding store v = encoding store w ∧ v.functionCounts = w.functionCounts := by
  cases v with
  | list items =>
      cases w <;> simp only [Alike] at h
      obtain ⟨hlen, hbytes, hcounts⟩ := alikeItems_same_encoding items h
      exact ⟨by rw [encoding, encoding, hlen, hbytes], hcounts⟩
  | dict entries =>
      cases w <;> simp only [Alike] at h
      obtain ⟨hlen, hbytes, hcounts⟩ := alikeEntries_same_encoding entries h
      exact ⟨by rw [encoding, encoding, hlen, hbytes], hcounts⟩
  | table t =>
      cases w <;> simp only [Alike] at h
      exact ⟨by rw [encoding, encoding, h], rfl⟩
  | function params body captured =>
      cases w <;> simp only [Alike] at h
      obtain ⟨rfl, rfl, h⟩ := h
      obtain ⟨hlen, hbytes, hcounts⟩ := alikeEntries_same_encoding captured h
      exact ⟨by rw [encoding, encoding, hbytes],
        by rw [functionCounts, functionCounts, hlen, hcounts]⟩
  | _ =>
      cases w <;> simp only [Alike] at h
      simp [h]
termination_by structural v

theorem alikeItems_same_encoding (items : List Value) {others : List Value}
    (h : AlikeItems store items others) :
    items.length = others.length ∧ encodingItems store items = encodingItems store others ∧
      functionCountsOfItems items = functionCountsOfItems others := by
  cases items with
  | nil => cases others <;> simp_all [AlikeItems]
  | cons item rest =>
      cases others with
      | nil => exact absurd h id
      | cons other others =>
          obtain ⟨hbytes, hcounts⟩ := Alike.same_encoding item h.1
          obtain ⟨hlen, hrest, hrestCounts⟩ := alikeItems_same_encoding rest h.2
          exact ⟨by rw [List.length_cons, List.length_cons, hlen],
            by rw [encodingItems, encodingItems, hbytes, hrest],
            by rw [functionCountsOfItems, functionCountsOfItems, hcounts, hrestCounts]⟩
termination_by structural items

theorem alikeEntries_same_encoding (entries : List (String × Value))
    {others : List (String × Value)} (h : AlikeEntries store entries others) :
    entries.length = others.length ∧
      encodingEntries store entries = encodingEntries store others ∧
      functionCountsOfEntries entries = functionCountsOfEntries others := by
  cases entries with
  | nil => cases others <;> simp_all [AlikeEntries]
  | cons entry rest =>
      obtain ⟨key, value⟩ := entry
      cases others with
      | nil => exact absurd h id
      | cons other others =>
          obtain ⟨key', value'⟩ := other
          obtain ⟨rfl, hvalue, hrest⟩ := h
          obtain ⟨hbytes, hcounts⟩ := Alike.same_encoding value hvalue
          obtain ⟨hlen, hrest, hrestCounts⟩ := alikeEntries_same_encoding rest hrest
          exact ⟨by rw [List.length_cons, List.length_cons, hlen],
            by rw [encodingEntries, encodingEntries, hbytes, hrest],
            by rw [functionCountsOfEntries, functionCountsOfEntries, hcounts, hrestCounts]⟩
termination_by structural entries

end

/-- **Digests.** A value has no digest exactly if a pipeline occurs in it, in a list, in a
dictionary or captured by a function. If it has one, another value is alike exactly if it has
the same digest and its functions have, one after the other, the same numbers of parameters
and of captured bindings. The hash must not map the two encodings to one. -/
theorem digest_and_counts_discriminate (p : Primitives) {v w : Value}
    (hv : v.LengthsFit p.writeTable) (hw : w.LengthsFit p.writeTable)
    (hcoll : ∀ m n, v.encoding p.writeTable = some m → w.encoding p.writeTable = some n →
      p.hash m = p.hash n → m = n) :
    (v.digest p = none ↔ ∃ nodes, Occurs (.pipeline nodes) v) ∧
    ∀ d, v.digest p = some d →
      (w.digest p = some d ∧ v.functionCounts = w.functionCounts ↔
        v.Alike p.writeTable w) := by
  unfold digest
  refine ⟨by rw [Option.map_eq_none_iff, encoding_eq_none_iff], fun d hd => ?_⟩
  obtain ⟨m, hm, rfl⟩ := Option.map_eq_some_iff.1 hd
  constructor
  · rintro ⟨hsame, hcounts⟩
    obtain ⟨n, hn, hhash⟩ := Option.map_eq_some_iff.1 hsame
    obtain rfl := hcoll m n hm hn hhash.symm
    exact alike_of_encoding hv hw hm hn hcounts
  · intro halike
    obtain ⟨hencoding, hcounts⟩ := halike.same_encoding
    exact ⟨by rw [← hencoding, hm]; rfl, hcounts⟩

/-- A function of one parameter beside a number, and a function that has captured one. -/
def countedOut : Value :=
  .list [.list [.function ["x"] "x" [], .int 1], .function ["p"] "b" [("b", .int 2)]]

/-- A function that has captured a number beside one of two parameters, and a number. -/
def countedIn : Value :=
  .list [.list [.function [] "x" [("x", .int 1)], .function ["p", "b"] "b" []], .int 2]

/-- The two have one digest and are not alike: their counts are what differs. -/
theorem equal_digests_of_unlike_functions :
    (∃ d, countedOut.digest .standard = some d ∧ countedIn.digest .standard = some d) ∧
      countedOut.functionCounts ≠ countedIn.functionCounts ∧
      ¬ countedOut.Alike Primitives.standard.writeTable countedIn := by
  have hencoding : countedOut.encoding Primitives.standard.writeTable
      = countedIn.encoding Primitives.standard.writeTable := by decide +kernel
  have hsome : (countedOut.digest .standard).isSome = true := by
    unfold digest
    rw [Option.isSome_map]
    decide +kernel
  obtain ⟨d, hd⟩ := Option.isSome_iff_exists.1 hsome
  have hd' : countedIn.digest .standard = some d := by
    rw [← hd, digest, digest, hencoding]
  have hcounts : countedOut.functionCounts ≠ countedIn.functionCounts := by decide +kernel
  have hfit : countedOut.LengthsFit Primitives.standard.writeTable ∧
      countedIn.LengthsFit Primitives.standard.writeTable := by
    simp only [countedOut, countedIn, LengthsFit, LengthsFitItems, LengthsFitEntries]
    decide +kernel
  obtain ⟨-, halike⟩ := digest_and_counts_discriminate .standard hfit.1 hfit.2
    fun m n hm hn _ => Option.some.inj (hm.symm.trans (hencoding.trans hn))
  exact ⟨⟨d, hd, hd'⟩, hcounts, fun h => hcounts ((halike d hd).2 h).2⟩

end NodePipeline.Value
