import NodePipeline.Proofs.Artifact.RoundTrip

/-!
# Tables longer than an array

The length of an array is spelled in four bytes, and of a longer one they spell the low
thirty-two bits. A stored table is an array of bytes: beyond this bound only its first bytes
are read back, and the others are bytes behind the envelope. Such tables are in reach of short
artifacts. A stream can announce any number of records without fields, and writing spends a
bit on each of them.
-/

namespace NodePipeline

/-! ## Arrays cut by their length -/

namespace Msg

theorem writeItems_append (xs ys : List Msg) :
    writeItems (xs ++ ys) = writeItems xs ++ writeItems ys := by
  induction xs with
  | nil => rfl
  | cons x rest ih => rw [List.cons_append, writeItems, ih, writeItems, List.append_assoc]

/-- An array is spelled as the array that its length counts, and more behind it. -/
theorem write_arr_cut (items : List Msg) :
    (arr items).write = (arr (items.take (spelledLength items.length))).write
      ++ writeItems (items.drop (spelledLength items.length)) := by
  have hle : spelledLength items.length ≤ items.length := Nat.mod_le _ _
  have hspelled : spelledLength (spelledLength items.length) = spelledLength items.length :=
    Nat.mod_mod _ _
  rw [write, write, List.length_take, Nat.min_eq_left hle, hspelled, List.append_assoc,
    ← writeItems_append, List.take_append_drop]

end Msg

namespace Stored

theorem write_tagged (tag : Tag) (contents : Msg) :
    (tagged tag contents).write = Msg.mapHead 2 ++ ((Msg.ofText "t").write
      ++ ((Msg.ofText tag.name).write ++ ((Msg.ofText "v").write ++ contents.write))) := by
  have hcount : Msg.spelledLength 2 = 2 := rfl
  simp only [tagged, Msg.write, Msg.writeEntries, List.length_cons, List.length_nil, hcount,
    List.append_nil, List.append_assoc]

theorem write_envelope (s : Stored) :
    s.envelope.write = Msg.mapHead 2 ++ ((Msg.ofText "format_version").write
      ++ ((Msg.ofInt formatVersion).write ++ ((Msg.ofText "value").write ++ s.toMsg.write))) := by
  have hcount : Msg.spelledLength 2 = 2 := rfl
  simp only [envelope, Msg.write, Msg.writeEntries, List.length_cons, List.length_nil, hcount,
    List.append_nil, List.append_assoc]

/-- A list of one table is spelled as the list of the table cut short, and more behind it. -/
theorem write_envelope_cut (bytes : Bytes) : ∃ rest,
    (list [table bytes]).envelope.write
      = (list [table (bytes.take (Msg.spelledLength bytes.length))]).envelope.write ++ rest := by
  have hcount : Msg.spelledLength 1 = 1 := rfl
  have hlist : ∀ b, (list [table b]).toMsg = tagged .list (.arr [tagged .table
      (.arr (b.map fun byte => .ofInt byte.toNat))]) := fun _ => rfl
  have hone : ∀ m, (Msg.arr [m]).write = Msg.arrHead 1 ++ m.write := fun m => by
    rw [Msg.write, Msg.writeItems, Msg.writeItems, List.append_nil]
    rfl
  refine ⟨Msg.writeItems ((bytes.map fun byte => .ofInt byte.toNat).drop
    (Msg.spelledLength bytes.length)), ?_⟩
  have hcut := Msg.write_arr_cut (bytes.map fun byte => .ofInt byte.toNat)
  rw [List.length_map, ← List.map_take] at hcut
  simp only [write_envelope, hlist, write_tagged, hone, hcut, List.append_assoc]

/-- **A table is cut** to the length that is spelled. -/
theorem read?_write_cut (bytes : Bytes) :
    read? (list [table bytes]).envelope.write
      = some (formatVersion, list [table (bytes.take (Msg.spelledLength bytes.length))]) := by
  have hlen : (bytes.take (Msg.spelledLength bytes.length)).length < 2 ^ 32 := by
    rw [List.length_take]
    exact Nat.lt_of_le_of_lt (Nat.min_le_left _ _) (Nat.mod_lt _ (by decide))
  have hfits : (list [table (bytes.take (Msg.spelledLength bytes.length))]).Fits :=
    ⟨by simp, hlen, trivial⟩
  obtain ⟨rest, hrest⟩ := write_envelope_cut bytes
  rw [hrest, read?_write_append hfits]
  rfl

end Stored

theorem Value.ofArtifact_cut (p : Primitives) (bytes : Bytes) :
    ofArtifact p (Stored.list [.table bytes]).envelope.write =
      match p.readTable (bytes.take (Msg.spelledLength bytes.length)) with
      | .ok t => .ok (.list [.table t])
      | .error fault => .error (.corrupt none (Stored.tableFault fault)) := by
  unfold ofArtifact
  rw [detect_envelope]
  simp only [bind, Except.bind, readEnvelope, Stored.read?_write_cut, ne_eq, not_true_eq_false,
    if_false, Stored.toValue, Stored.toItems]
  cases p.readTable (bytes.take (Msg.spelledLength bytes.length)) with
  | ok t => rfl
  | error fault => rfl

namespace ArrowStream

/-! ## Messages of streams -/

def metadataOf (kind : MessageKind) (header : Flatbuffer.Item) (length : Nat) : Bytes :=
  Flatbuffer.ofRoot (.table
    [some (.number 2 4), some (.number 1 kind.number), some header, some (.number 8 length)])

/-- What metadata say: the kind of the header, its position, and the length of the body. -/
def announced (metadata : Bytes) : Option (MessageKind × Option Nat × Int) := do
  let data := metadata.toArray
  let root ← Flatbuffer.root data
  let kind ← MessageKind.ofNumber? (← Flatbuffer.natField data root 1 1 0)
  return (kind, ← Flatbuffer.refField data root 2, ← Flatbuffer.intField data root 3 8)

theorem readMetadata_of_announced {metadata body rest : Bytes} {kind : MessageKind} {header : Nat}
    (h : announced metadata = some (kind, some header, (body.length : Int))) :
    readMetadata metadata (body ++ rest)
      = some (.message ⟨metadata.toArray, kind, header, body.toArray⟩ rest) := by
  obtain ⟨root, hroot, h⟩ := Option.bind_eq_some_iff.1 h
  obtain ⟨number, hnumber, h⟩ := Option.bind_eq_some_iff.1 h
  obtain ⟨kind', hkind, h⟩ := Option.bind_eq_some_iff.1 h
  obtain ⟨header', hheader, h⟩ := Option.bind_eq_some_iff.1 h
  obtain ⟨length, hlength, h⟩ := Option.bind_eq_some_iff.1 h
  obtain ⟨rfl, rfl, rfl⟩ : kind' = kind ∧ header' = some header ∧ length = body.length := by
    simpa using h
  have hbounds : ¬ ((body.length : Int) < 0 ∨ (body ++ rest).length < body.length) := by
    rw [List.length_append]
    omega
  unfold readMetadata
  simp only [hroot, hnumber, hkind, hheader, hlength, bind, Option.bind, Int.toNat_natCast,
    if_neg hbounds, pure, List.take_left, List.drop_left, Option.getD_some]

theorem readMessage_frame {metadata : Bytes} (hpos : 0 < metadata.length)
    (hlt : metadata.length < 2 ^ 31) (rest : Bytes) :
    readMessage (marker ++ (Bytes.littleEndian 4 metadata.length ++ (metadata ++ rest)))
      = readMetadata metadata rest := by
  have hmarked : ∀ frame, ((marker ++ frame).take 4 == marker) = true := fun _ => rfl
  have hdrop : ∀ frame, (marker ++ frame).drop 4 = frame := fun _ => rfl
  have hfour : (Bytes.littleEndian 4 metadata.length).length = 4 := Bytes.length_littleEndian 4 _
  have hspelled : Bytes.natOfLittleEndian (Bytes.littleEndian 4 metadata.length)
      = metadata.length := Bytes.natOfLittleEndian_of_lt (by omega)
  have hsigned : Bytes.signed 4 metadata.length = metadata.length :=
    if_pos (by show 2 * metadata.length < 256 ^ 4; omega)
  unfold readMessage
  rw [if_neg (by simp [marker])]
  simp only [hmarked, hdrop, if_true]
  rw [if_neg (by rw [List.length_append, hfour]; omega), List.take_left' hfour,
    List.drop_left' hfour, hspelled, hsigned, if_neg (by omega), Int.toNat_natCast,
    if_neg (by rw [List.length_append]; omega), List.take_left, List.drop_left]

theorem readMessage_message {kind : MessageKind} {item : Flatbuffer.Item} {metadata body : Bytes}
    {header : Nat} (hmetadata : metadataOf kind item body.length = metadata)
    (hpos : 0 < metadata.length) (hlt : metadata.length < 2 ^ 31)
    (h : announced metadata = some (kind, some header, (body.length : Int))) (rest : Bytes) :
    readMessage (message kind item body ++ rest)
      = some (.message ⟨metadata.toArray, kind, header, body.toArray⟩ rest) := by
  have hmessage : message kind item body ++ rest
      = marker ++ (Bytes.littleEndian 4 metadata.length ++ (metadata ++ (body ++ rest))) := by
    subst hmetadata
    rw [← List.append_assoc, ← List.append_assoc, ← List.append_assoc]
    rfl
  rw [hmessage, readMessage_frame hpos hlt, readMetadata_of_announced h]

theorem marker_prefix_message (kind : MessageKind) (item : Flatbuffer.Item) (body : Bytes) :
    marker <+: message kind item body :=
  ((List.prefix_append marker _).trans (List.prefix_append _ _)).trans (List.prefix_append _ _)

/-- Every stream that is written begins with the marker. -/
theorem marker_prefix_write (t : Table) : marker <+: write t :=
  ((((marker_prefix_message _ _ _).trans (List.prefix_append _ _)).trans
    (List.prefix_append _ _)).trans (List.prefix_append _ _))

/-! ## Records without fields -/

/-- A table of one column of records without fields. -/
def emptyRecords (rows : Nat) : Table :=
  ⟨[⟨"r", .other .noFields (List.replicate rows .nil), false⟩], rows⟩

def recordField : Field := ⟨"r", false, .noFields⟩

/-- The header of a batch of records without fields, behind which the given number of bytes
tells which of them are present. -/
def recordsHeader (rows bytes : Nat) : Flatbuffer.Item :=
  .table [some (.number 8 rows),
    some (.records 1 (Bytes.littleEndian 8 rows ++ Bytes.littleEndian 8 0)),
    some (.records 1 (Bytes.littleEndian 8 0 ++ Bytes.littleEndian 8 bytes)), none,
    some (.records 0 [])]

def recordsSchema : Bytes := message .schema (schemaItem [recordField]) []

def recordsStream (rows : Nat) (presence : Bytes) : Bytes :=
  recordsSchema ++ (message .batch (recordsHeader rows presence.length) presence ++ endMark)

/-! ### Writing -/

theorem packBits_replicate (bytes : Nat) :
    packBits bytes (List.replicate (8 * bytes) true) = List.replicate bytes 0xff := by
  induction bytes with
  | zero => rfl
  | succ bytes ih =>
      have htake : (List.replicate (8 * (bytes + 1)) true).take 8 = List.replicate 8 true := by
        rw [List.take_replicate, Nat.min_eq_left (by omega)]
      have hdrop : (List.replicate (8 * (bytes + 1)) true).drop 8
          = List.replicate (8 * bytes) true := by
        rw [List.drop_replicate, Nat.mul_succ, Nat.add_sub_cancel]
      rw [packBits, htake, hdrop, ih]
      rfl

/-- All records are present: a bit for each of them. -/
theorem validity_records (bytes : Nat) :
    validity (List.replicate (8 * bytes) .nil) = List.replicate bytes 0xff := by
  have hflags : (List.replicate (8 * bytes) ArrowCell.nil).map (fun cell => !cell.isAbsent)
      = List.replicate (8 * bytes) true := List.map_replicate
  have hbytes : (8 * bytes + 7) / 8 = bytes := by omega
  rw [validity, hflags, bitmap, List.length_replicate, hbytes, packBits_replicate]

theorem layOut_records (dictionaries : Dictionaries) (bytes : Nat) :
    layOut dictionaries .noFields (List.replicate (8 * bytes) .nil)
      = ⟨[⟨8 * bytes, 0⟩], [List.replicate bytes 0xff], []⟩ := by
  have habsent : (List.replicate (8 * bytes) ArrowCell.nil).filter ArrowCell.isAbsent = [] :=
    List.filter_replicate_of_neg (by decide)
  rw [layOut, masked, nodeOf, validity_records, habsent, List.length_replicate]
  rfl

theorem batchItem_records {rows : Nat} {presence : Bytes} (h : presence.length % 8 = 0) :
    batchItem rows ⟨[⟨rows, 0⟩], [presence], []⟩
      = (recordsHeader rows presence.length, presence) := by
  have hpadding : Flatbuffer.padding presence.length 8 = [] := by
    rw [Flatbuffer.padding, h]
    rfl
  simp only [batchItem, placeBuffers, List.foldl_cons, List.foldl_nil, hpadding, List.nil_append,
    List.append_nil, List.flatMap_cons, List.flatMap_nil, List.length_nil, List.length_cons]
  rfl

theorem batchMessage_emptyRecords {bytes : Nat} (h : bytes % 8 = 0) :
    batchMessage [] (emptyRecords (8 * bytes))
      = message .batch (recordsHeader (8 * bytes) (List.replicate bytes (0xff : UInt8)).length)
        (List.replicate bytes 0xff) := by
  have hparts : (emptyRecords (8 * bytes)).columns.foldl
      (fun parts c => parts.append (layOut [] c.cells.type (storedCells c.cells))) Parts.empty
      = ⟨[⟨8 * bytes, 0⟩], [List.replicate bytes 0xff], []⟩ := by
    show Parts.empty.append (layOut [] .noFields (List.replicate (8 * bytes) .nil)) = _
    rw [layOut_records]
    rfl
  have hlen : (List.replicate bytes (0xff : UInt8)).length % 8 = 0 := by
    rwa [List.length_replicate]
  have hrows : (emptyRecords (8 * bytes)).rows = 8 * bytes := rfl
  simp only [batchMessage, hparts, hrows, batchItem_records hlen]

theorem write_emptyRecords {bytes : Nat} (h : bytes % 8 = 0) :
    write (emptyRecords (8 * bytes))
      = recordsStream (8 * bytes) (List.replicate bytes 0xff) := by
  have hneeded : dictionariesOf (emptyRecords (8 * bytes)) = [] := rfl
  have hfields : (emptyRecords (8 * bytes)).columns.map
      (fun c => (⟨c.name, c.nullable, c.cells.type⟩ : Field)) = [recordField] := rfl
  unfold write recordsStream recordsSchema
  simp only [hneeded, hfields, List.map_nil, List.flatMap_nil, List.append_nil,
    batchMessage_emptyRecords h, List.append_assoc]

/-! ### Reading -/

def recordsMetadata (rows bytes : Nat) : Bytes :=
  metadataOf .batch (recordsHeader rows bytes) bytes

/-- The metadata of a batch of such records say what was written, each part at its place. -/
def Legible (rows bytes : Nat) : Prop :=
  let data := (recordsMetadata rows bytes).toArray
  (recordsMetadata rows bytes).length = 136 ∧
  announced (recordsMetadata rows bytes) = some (.batch, some 56, (bytes : Int)) ∧
  Flatbuffer.intField data 56 0 8 = some (rows : Int) ∧
  Flatbuffer.elements data 56 1 16 = some [88] ∧
  Flatbuffer.readNat data 88 8 = some rows ∧
  Flatbuffer.readNat data 96 8 = some 0 ∧
  Flatbuffer.elements data 56 2 16 = some [112] ∧
  Flatbuffer.readNat data 112 8 = some 0 ∧
  Flatbuffer.readNat data 120 8 = some bytes ∧
  Flatbuffer.fieldAt data 56 3 = some none ∧
  Flatbuffer.elements data 56 4 8 = some []

instance (rows bytes : Nat) : Decidable (Legible rows bytes) := inferInstanceAs (Decidable (_ ∧ _))

theorem takeCells_records (dictionaries : Dictionaries) (rows : Nat) (presence : Array UInt8)
    (nodes : List ColumnNode) (buffers : List (Array UInt8)) (viewBuffers : List Nat) :
    (takeCells dictionaries .noFields).run
        ⟨⟨rows, 0⟩ :: nodes, presence :: buffers, viewBuffers⟩
      = some (List.replicate rows .nil, ⟨nodes, buffers, viewBuffers⟩) := by
  have hmask : mask (List.replicate rows true) (List.replicate rows ArrowCell.nil)
      = List.replicate rows .nil := by
    rw [mask, List.zipWith_replicate, Nat.min_self]
    rfl
  rw [takeCells]
  show some (mask (List.replicate rows true) (List.replicate rows ArrowCell.nil), _) = _
  rw [hmask]

theorem takeColumns_records (rows : Nat) (presence : Array UInt8) :
    (takeColumns [] rows [recordField]).run ⟨[⟨rows, 0⟩], [presence], []⟩
      = some ((emptyRecords rows).columns, ⟨[], [], []⟩) := by
  have hfits : fits rows recordField (List.replicate rows .nil) = true := by
    simp [fits, recordField, ArrowCell.isAbsent]
  have hload : loadCells recordField.type (List.replicate rows .nil)
      = .other .noFields (List.replicate rows .nil) := rfl
  have hcells : (takeCells [] recordField.type).run ⟨[⟨rows, 0⟩], [presence], []⟩
      = some (List.replicate rows .nil, ⟨[], [], []⟩) := takeCells_records [] rows presence [] [] []
  simp only [takeColumns, StateT.run_bind, hcells, Option.bind_eq_bind, Option.bind_some, hfits,
    if_true, hload]
  rfl

section Legible

variable {rows : Nat} {presence : Bytes} (h : Legible rows presence.length)

include h

theorem readBatch_records :
    readBatch [recordField] []
        ⟨(recordsMetadata rows presence.length).toArray, .batch, 56, presence.toArray⟩
      = some (emptyRecords rows) := by
  obtain ⟨-, -, hrows, hnodes, hlength, habsent, hbuffers, hoffset, hsize, hplain, hviews⟩ := h
  have hslice : slice presence.toArray 0 (0 + presence.length) = some presence := by
    simp [slice]
  have hsupply : readSupply
      ⟨(recordsMetadata rows presence.length).toArray, .batch, 56, presence.toArray⟩ 56
      = some ⟨[⟨rows, 0⟩], [presence.toArray], []⟩ := by
    simp only [readSupply, hnodes, hbuffers, hviews, hplain, bind, Option.bind, List.mapM_cons,
      List.mapM_nil, hlength, habsent, hoffset, hsize, hslice, pure]
  have hcolumns : takeColumns [] rows [recordField] ⟨[⟨rows, 0⟩], [presence.toArray], []⟩
      = some ((emptyRecords rows).columns, ⟨[], [], []⟩) :=
    takeColumns_records rows presence.toArray
  simp only [readBatch, hrows, hsupply, bind, Option.bind]
  rw [if_neg (by omega), Int.toNat_natCast, hcolumns]
  rfl

theorem readBatches_records (fuel : Nat) :
    readBatches [recordField] (fuel + 2) []
        (message .batch (recordsHeader rows presence.length) presence ++ endMark)
      = some [emptyRecords rows] := by
  have hend : readMessage endMark = some .done := rfl
  have hlen : (recordsMetadata rows presence.length).length = 136 := h.1
  have hmessage : readMessage (message .batch (recordsHeader rows presence.length) presence
      ++ endMark) = some (.message ⟨(recordsMetadata rows presence.length).toArray, .batch, 56,
        presence.toArray⟩ endMark) :=
    readMessage_message rfl (hlen ▸ by decide) (hlen ▸ by decide) h.2.1 endMark
  simp only [readBatches, hmessage, bind, Option.bind, readBatch_records h, hend, pure]

theorem length_recordsStream : (recordsStream rows presence).length = 288 + presence.length := by
  have hschema : recordsSchema.length = 136 := by decide +kernel
  have hbatch : message .batch (recordsHeader rows presence.length) presence = marker
      ++ Bytes.littleEndian 4 (recordsMetadata rows presence.length).length
      ++ recordsMetadata rows presence.length ++ presence := rfl
  rw [recordsStream, hbatch]
  simp only [List.length_append, hschema, h.1, Bytes.length_littleEndian, marker, endMark,
    List.length_cons, List.length_nil]
  omega

/-- **Announced records are read**, however many bytes tell that they are present. -/
theorem read_recordsStream : read (recordsStream rows presence) = .ok (emptyRecords rows) := by
  have hschema : ∀ rest, readMessage (recordsSchema ++ rest) = some (.message
      ⟨(metadataOf .schema (schemaItem [recordField]) 0).toArray, .schema, 48, #[]⟩ rest) :=
    readMessage_message rfl (by decide +kernel) (by decide +kernel) (by decide +kernel)
  have hfields : readSchema
      ⟨(metadataOf .schema (schemaItem [recordField]) 0).toArray, .schema, 48, #[]⟩
      = some [recordField] := by decide +kernel
  have hbatches := readBatches_records h
  generalize hrest : message .batch (recordsHeader rows presence.length) presence ++ endMark = rest
    at hbatches
  -- The end mark alone gives the reader of batches the fuel to reach it.
  obtain ⟨fuel, hfuel⟩ : ∃ fuel, rest.length + 1 = fuel + 2 := by
    refine ⟨rest.length - 1, ?_⟩
    rw [← hrest, List.length_append, show endMark.length = 8 from rfl]
    omega
  unfold read recordsStream
  simp only [hrest, hschema, hfields, hfuel, hbatches]

end Legible

/-! ### Streams of four gigabytes -/

/-- The bytes for as many records that their stream is four gigabytes long, to the byte. -/
def overlongBytes : Nat := 4294967008

def overlongRows : Nat := 8 * overlongBytes

theorem legible_overlongRows : Legible overlongRows 0 ∧ Legible overlongRows overlongBytes :=
  ⟨by decide +kernel, by decide +kernel⟩

/-- A stream that only announces them is short. -/
theorem read_announced : read (recordsStream overlongRows []) = .ok (emptyRecords overlongRows) :=
  read_recordsStream legible_overlongRows.1

theorem write_overlong :
    write (emptyRecords overlongRows)
      = recordsStream overlongRows (List.replicate overlongBytes 0xff) :=
  write_emptyRecords (by decide)

theorem legible_write_overlong :
    Legible overlongRows (List.replicate overlongBytes (0xff : UInt8)).length := by
  rw [List.length_replicate]
  exact legible_overlongRows.2

theorem read_write_overlong :
    read (write (emptyRecords overlongRows)) = .ok (emptyRecords overlongRows) := by
  rw [write_overlong]
  exact read_recordsStream legible_write_overlong

theorem length_write_overlong : (write (emptyRecords overlongRows)).length = 2 ^ 32 := by
  rw [write_overlong, length_recordsStream legible_write_overlong, List.length_replicate]
  decide

end ArrowStream

end NodePipeline
