import FastPath.Property.Host
import FastPath.Registry

/-!
A registry, a machine and a property host at work together: stubs are called by name, and their
Code entities are made on demand.
-/

namespace FastPath

inductive SessionError where
  | registry (e : RegistryError)
  /-- A heap access from outside any stub failed. -/
  | heap (e : HeapError)
  | halted (h : Halt)
  deriving DecidableEq, Inhabited

structure Session where
  registry : Registry
  state : State PropertyHost

abbrev SessionM := EStateM SessionError Session

namespace Session

def onRegistry (act : RegistryM α) : SessionM α := fun s =>
  match s with
  | { registry, state } =>
    match act registry with
    | .ok a registry => .ok a { registry, state }
    | .error e registry => .error (.registry e) { registry, state }

def onState (act : Exec PropertyHost α) : SessionM α := fun s =>
  match s with
  | { registry, state } =>
    match act state with
    | .ok a state => .ok a { registry, state }
    | .error e state => .error (.halted e) { registry, state }

def onHeap (act : HeapM α) : SessionM α := fun s =>
  match s with
  | { registry, state := { machine, host } } =>
    match Machine.onHeap act machine with
    | .ok a machine => .ok a { registry, state := { machine, host } }
    | .error e machine => .error (.heap e) { registry, state := { machine, host } }

/-- A session over a fresh heap, with the given families of the catalogue declared. -/
def create (regionSize maxDepth : Nat) (families : List Catalogue.Family) :
    Except HeapError Session := do
  let heap ← Heap.create regionSize
  return { registry := Registry.declareFamilies { compiler := { id := 0 } } families
           state := { machine := .ofHeap heap maxDepth, host := {} } }

def resolve (name : String) : SessionM Stub := onRegistry (Registry.resolve name)

/-- The Code entity of a stub, as functions keep it. -/
def codeRef (name : String) : SessionM Word := do
  let s ← resolve name
  onState (Exec.onMachine (Machine.codeEntity s))

/-- Calls a stub by name. -/
def call (host : Host PropertyHost) (fuel : Nat) (name : String) (self : Word)
    (args : List Word) : SessionM Word := do
  let s ← resolve name
  onState (invoke host fuel s self args)

end Session

end FastPath
