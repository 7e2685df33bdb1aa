import FastPath.Execution
import FastPath.InlineCache
import FastPath.Property.Storage

/-!
The host that serves property accesses. Reads follow accessors and prototypes, writes and deletes
concern own properties, and a slot lookup notes in an inline cache under which map it found the
slot.
-/

namespace FastPath

namespace Property

/-- The value of `obj[key]`. Getters run with `obj` as their receiver. -/
def get (invoke : Invoke ρ) (obj key : Word) : Exec ρ Word := do
  match ← Exec.query fun h => h.find obj key with
  | .value w => return w
  | .getter callee => callValue invoke callee obj []

/-- The own slot of a property, claimed first if the object lacks it. -/
def claim (obj key : Word) (own : Option Slot) : Exec ρ Slot := do
  match own with
  | some s => return s
  | none =>
    match ← Exec.onHeap (Heap.claimItem? obj key) with
    | some s => return s
    | none => Exec.fatal .unreachable

/-- Performs `obj[key] = value`. A setter runs in place of the write, with `obj` as its receiver;
a property whose setter is missing cannot be written. -/
def set (invoke : Invoke ρ) (obj key value : Word) : Exec ρ Word := do
  if (← Exec.heap).isObjectLike obj then
    let own ← Exec.query fun h => h.ownSlot obj key
    let pair ← match own with
      | some s => Exec.query fun h => h.pairIn? obj s value
      | none => pure none
    match pair with
    | some pair =>
      let setter ← Exec.query fun h => h.load pair Layout.Pair.setter
      if setter ≠ .hole then
        let _ ← callValue invoke setter obj [value]
    | none =>
      let s ← claim obj key own
      Exec.onHeap (Heap.storeSlot obj s value)
  return .undefined

/-- Performs `delete obj[key]`, which always succeeds. -/
def delete (obj key : Word) : Exec ρ Word := do
  if (← Exec.heap).isObjectLike obj then
    match ← Exec.query fun h => h.ownSlot obj key with
    | some s => Exec.onHeap (Heap.clearSlot obj s)
    | none => pure ()
  return .boolean true

/-- The own slot of a property for an inline cache. With `update`, a missing property is added
as `undefined`. None where the object may not be accessed by slot or lacks the property. -/
def slot? (obj key : Word) (update : Bool) : Exec ρ (Option Slot) := do
  if (← Exec.heap).isObjectLike obj then
    if ← Exec.query fun h => h.loadFlag obj Layout.Object.flags Layout.Object.access then
      return none
    match ← Exec.query fun h => h.ownSlot obj key with
    | some s => return some s
    | none =>
      if update then
        let s ← claim obj key none
        Exec.onHeap (Heap.storeSlot obj s .undefined)
        return some s
      else return none
  else return none

end Property

/-- The state of a property host: its inline caches and how often stubs have called it. -/
structure PropertyHost where
  caches : InlineCache.Table := {}
  served : Nat := 0
  deriving Inhabited

namespace PropertyHost

/-- The own slot of a property as a small integer, noted in the cache under the map of the
object, or `undefined` where there is none. -/
def slot (id : CacheId) (obj key : Word) (update : Bool) : Exec PropertyHost Word := do
  match ← Property.slot? obj key update with
  | none => return .undefined
  | some s =>
    match Word.ofInt? s.index with
    | some w =>
      if s.index < 0x100000000 then
        let map ← Exec.query fun h => h.mapOf obj
        modify fun st =>
          { st with host := { st.host with caches := st.host.caches.record id map s.index } }
        return w
      else return .undefined
    | none => return .undefined

def arg (args : List Word) (index : Nat) : Exec ρ Word :=
  match args[index]? with
  | some w => return w
  | none => Exec.fatal (.missingArgument index)

/-- The number of a cache, as stubs pass it. -/
def cacheId (w : Word) : Exec ρ CacheId :=
  match w.int? with
  | some (.ofNat n) => if n < 0x100000000 then return n else Exec.fatal .notInt
  | _ => Exec.fatal .notInt

/-- How stubs say whether a slot lookup may add the property. -/
def isSet (w : Word) : Bool :=
  match w.int? with
  | some n => n != 0
  | none => w == .boolean true

def truth (w : Word) : Exec ρ Word := do
  return .boolean (← Exec.query fun h => h.isTruthy w)

/-- Counts the request and serves it. -/
def serve : Host PropertyHost := fun invoke id args => do
  modify fun st => { st with host := { st.host with served := st.host.served + 1 } }
  match id with
  | .getProperty => Property.get invoke (← arg args 0) (← arg args 1)
  | .setProperty => Property.set invoke (← arg args 0) (← arg args 1) (← arg args 2)
  | .deleteProperty => Property.delete (← arg args 0) (← arg args 1)
  | .getPropertySlot => do
    let id ← cacheId (← arg args 0)
    let update := isSet (← arg args 3)
    slot id (← arg args 1) (← arg args 2) update
  | .coerce .boolean => do truth (← arg args 0)
  | .coerce _ => Exec.fatal (.noService id.name)

end PropertyHost

end FastPath
