import NodePipeline.Proofs.Bindings
import NodePipeline.Proofs.Json.Documents
import NodePipeline.Proofs.Time.Rfc3339
import NodePipeline.Registry.Entry

/-!
# Records are read back

The text of a record gives the record again, whatever texts it holds.
-/

namespace NodePipeline.BuildEntry

theorem mapM_texts (members : List (String × String)) :
    (members.map fun m => (m.1, Json.str m.2)).mapM (fun m => (Json.asText m.2).map (m.1, ·))
      = some members := by
  induction members with
  | nil => rfl
  | cons m rest ih =>
      rw [List.map_cons, List.mapM_cons, ih]
      rfl

theorem textsOfJson?_ofTexts (b : Bindings String) :
    textsOfJson? (Json.ofTexts b.entries) = some b := by
  have hself : Bindings.ofList b.entries = b := by
    obtain ⟨entries, hsorted⟩ := b
    unfold Bindings.ofList
    simp only [Entries.ofList_eq_self hsorted]
  unfold textsOfJson? Json.ofTexts
  simp only [bind, Option.bind, mapM_texts, pure, hself]

theorem textual_ofTexts (members : List (String × String)) : (Json.ofTexts members).Textual := by
  unfold Json.ofTexts
  show Json.TextualMembers _
  induction members with
  | nil => trivial
  | cons m rest ih => exact ⟨trivial, ih⟩

/-- **Records are read back** from their texts, if they are of instants that time stamps can
be written for. -/
theorem ofText?_toText {e : BuildEntry} (hregular : e.createdAt.Regular)
    (hkept : e.createdAt.Kept) : ofText? e.toText = some e := by
  have htextual : e.toJson.Textual :=
    ⟨trivial, trivial, trivial, textual_ofTexts e.artifacts.entries, trivial⟩
  have hfields : e.toJson.fields ["build_id", "created_at", "root_output_path", "artifacts"]
      = some [some (.str e.buildId), some (.str (Rfc3339.write e.createdAt)), some (.str e.root),
        some (.ofTexts e.artifacts.entries)] := by
    simp [toJson, Json.fields, Json.member?]
  unfold ofText? toText
  rw [Json.parse?_pretty htextual, Option.bind_some]
  unfold ofJson?
  simp only [bind, Option.bind, hfields, Json.asText, read_write hregular hkept,
    textsOfJson?_ofTexts, pure]

end NodePipeline.BuildEntry
