import NodePipeline.Value.Table

/-!
# Primitives of stored data

A hash of byte strings, and a format that stores a table as bytes. What is
digested or stored depends on these two only through this record, so that laws
can assume of them what they need: that the hash has no collisions, that the
format reads back what it wrote.
-/

namespace NodePipeline

/-- Why bytes are not a stored table. -/
inductive TableFault
  /-- The stream does not begin with a readable schema. -/
  | stream (detail : String)
  /-- A record batch cannot be read. -/
  | batch (detail : String)
  /-- A table is stored as at most one batch. -/
  | batches (count : Nat)
deriving DecidableEq

structure Primitives where
  hash : Bytes → String
  writeTable : Table → Bytes
  readTable : Bytes → Except TableFault Table

end NodePipeline
