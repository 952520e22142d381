import NodePipeline.Text.Characters
import NodePipeline.Text.Fold

/-!
# Patterns

Regular expressions, and whether one matches somewhere in a text. A pattern
leads from places in a text, counted in characters, to the places where a match
that begins there can end; the matches of a pattern are read off the whole set.
-/

namespace NodePipeline

/-! ## Sets of characters -/

inductive CharSet
  | ranges (rs : List (Nat × Nat))
  /-- The characters of a table. -/
  | table (rs : Text.Ranges)
  | complement (s : CharSet)
  | union (a b : CharSet)
  | inter (a b : CharSet)
  /-- With a character, all that differ from it in case only. -/
  | anyCase (s : CharSet)

namespace CharSet

def contains : CharSet → Char → Bool
  | .ranges rs, c => rs.any fun r => decide (r.1 ≤ c.toNat ∧ c.toNat ≤ r.2)
  | .table rs, c => rs.contains c
  | .complement s, c => !s.contains c
  | .union a b, c => a.contains c || b.contains c
  | .inter a b, c => a.contains c && b.contains c
  | .anyCase s, c => (c :: Text.caseVariants c).any s.contains

/-- The number of ranges that make up a set. -/
def weight : CharSet → Nat
  | .ranges rs => rs.length
  | .table rs => rs.size
  | .complement s => s.weight
  | .union a b => a.weight + b.weight
  | .inter a b => a.weight + b.weight
  | .anyCase s => s.weight

def empty : CharSet := .ranges []

def single (c : Char) : CharSet := .ranges [(c.toNat, c.toNat)]

end CharSet

/-! ## Patterns -/

/-- Conditions on a place between two characters. -/
inductive Place
  | textStart | textEnd
  | lineStart | lineEnd
  | crlfStart | crlfEnd
  | wordBoundary | notWordBoundary
  | wordStart | wordEnd
  | wordStartHalf | wordEndHalf
deriving DecidableEq

inductive Pattern
  | empty
  | one (s : CharSet)
  | place (p : Place)
  | seq (a b : Pattern)
  | either (a b : Pattern)
  /-- At least so often, and at most so often if there is a limit. -/
  | repeated (a : Pattern) (least : Nat) (most : Option Nat)

instance : Inhabited Pattern := ⟨.empty⟩

/-- The condition on the characters before and after a place. -/
def Place.holds (p : Place) (before after : Option Char) : Bool :=
  let wordBefore := before.any Text.isWordChar
  let wordAfter := after.any Text.isWordChar
  match p with
  | .textStart => before.isNone
  | .textEnd => after.isNone
  | .lineStart => before.all (· == '\n')
  | .lineEnd => after.all (· == '\n')
  | .crlfStart => before.all fun c => c == '\n' || (c == '\r' && after != some '\n')
  | .crlfEnd => after.all fun c => c == '\r' || (c == '\n' && before != some '\r')
  | .wordBoundary => wordBefore != wordAfter
  | .notWordBoundary => wordBefore == wordAfter
  | .wordStart => !wordBefore && wordAfter
  | .wordEnd => wordBefore && !wordAfter
  | .wordStartHalf => !wordBefore
  | .wordEndHalf => !wordAfter

namespace Pattern

/-- The members of both lists, each once. -/
def merge (places more : List Nat) : List Nat :=
  places ++ (more.filter fun i => decide (i ∉ places)).eraseDups

/-- Applies a function so often, or until nothing is left. -/
def iterate (f : List Nat → List Nat) : Nat → List Nat → List Nat
  | 0, places => places
  | n + 1, places => if places.isEmpty then [] else iterate f n (f places)

/-- Adds what a function leads to, so often. -/
def accumulate (f : List Nat → List Nat) : Nat → List Nat → List Nat
  | 0, places => places
  | n + 1, places => accumulate f n (merge places (f places))

/-- The places that a match from one of the places leads to. No more rounds than
there are places add anything. -/
def reach (text : Array Char) : Pattern → List Nat → List Nat
  | .empty, places => places
  | .one s, places => (places.filter fun i => text[i]?.any s.contains).map (· + 1)
  | .place p, places =>
      places.filter fun i => p.holds (if i = 0 then none else text[i - 1]?) text[i]?
  | .seq a b, places => reach text b (reach text a places)
  | .either a b, places => merge (reach text a places) (reach text b places)
  | .repeated a least most, places =>
      let more := match most with
        | some most => min (most - least) (text.size + 1)
        | none => text.size + 1
      accumulate (reach text a) more (iterate (reach text a) least places)

/-- The pattern matches a stretch of the text. -/
def isMatch (p : Pattern) (text : String) : Bool :=
  let chars := text.toList.toArray
  !(p.reach chars (List.range (chars.size + 1))).isEmpty

/-- How large a pattern is with its repetitions written out. -/
def size : Pattern → Nat
  | .empty => 0
  | .one s => max 1 s.weight
  | .place _ => 1
  | .seq a b => a.size + b.size
  | .either a b => a.size + b.size + 1
  | .repeated a least most => a.size * max (max least (most.getD 0)) 1

end Pattern

end NodePipeline
