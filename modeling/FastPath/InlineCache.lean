import FastPath.Graph.Config
import FastPath.Word

/-!
Inline caches. A cache remembers in which slot a property was found for each of the last few maps:
it grows from nothing over one map to at most four, and a fifth map turns it off for good. A map
that is seen again keeps its place and takes the new slot.
-/

namespace FastPath.InlineCache

structure Entry where
  map : Word
  slot : Nat
  deriving DecidableEq, Inhabited

/-- How many maps a cache tracks. -/
def capacity : Nat := 4

/-- Room for the entries of a cache. Those in use come first. -/
structure Cells where
  length : Nat
  entries : Vector Entry capacity
  fits : length ≤ capacity
  deriving DecidableEq

namespace Cells

/-- What is in a cell that is not in use. -/
def blank : Entry := ⟨.ofNat 0, 0⟩

/-- The entries in use, for different maps, in the order in which the maps were first seen. -/
def used (c : Cells) : List Entry := c.entries.toList.take c.length

def pair (e f : Entry) : Cells where
  length := 2
  entries := ((Vector.replicate capacity blank).set 0 e).set 1 f
  fits := by decide

def overwrite (c : Cells) (i : Nat) (e : Entry) : Cells :=
  { c with entries := c.entries.setIfInBounds i e }

def push (c : Cells) (e : Entry) (room : c.length < capacity) : Cells where
  length := c.length + 1
  entries := c.entries.set c.length e
  fits := room

end Cells

inductive State where
  | uninitialized
  | monomorphic (e : Entry)
  | polymorphic (cells : Cells)
  | megamorphic
  deriving DecidableEq, Inhabited

namespace State

def entries : State → List Entry
  | monomorphic e => [e]
  | polymorphic c => c.used
  | uninitialized | megamorphic => []

/-- The slot remembered for a map. -/
def lookup (s : State) (map : Word) : Option Nat :=
  (s.entries.find? (fun e => e.map == map)).map Entry.slot

/-- The state after a property was found in `slot` under `map`. -/
def record (s : State) (map : Word) (slot : Nat) : State :=
  match s with
  | uninitialized => monomorphic ⟨map, slot⟩
  | monomorphic e =>
    if e.map = map then monomorphic ⟨map, slot⟩ else polymorphic (.pair e ⟨map, slot⟩)
  | polymorphic c =>
    match c.used.findIdx? (fun e => e.map == map) with
    | some i => polymorphic (c.overwrite i ⟨map, slot⟩)
    | none => if room : c.length < capacity then polymorphic (c.push ⟨map, slot⟩ room) else megamorphic
  | megamorphic => megamorphic

/-- All cells, those not in use included. -/
def padded (c : Cells) : List Entry := c.entries.toList

end State

/-- The caches that have seen a map, by number. -/
structure Table where
  states : List (CacheId × State) := []
  deriving DecidableEq, Inhabited

namespace Table

def state (t : Table) (id : CacheId) : State := (t.states.lookup id).getD .uninitialized

def record (t : Table) (id : CacheId) (map : Word) (slot : Nat) : Table :=
  ⟨(id, (t.state id).record map slot) :: t.states.filter (fun p => p.1 != id)⟩

end Table

end FastPath.InlineCache
