import FastPath.Heap.Allocation
import FastPath.Stub

/-!
The machine that stubs run on: a heap, the table of stubs that Code entities refer to, and the
depth of nested calls. A stub gets one Code entity per entry point, made when it is first asked
for. A function is called through the Code entity in its `code` field.
-/

namespace FastPath

structure Machine where
  heap : Heap
  /-- A Code entity holds the position of its stub in this table. -/
  code : List Stub
  /-- The Code entities made so far, by entry point. -/
  entities : List (Nat × Word)
  /-- Calls under way. -/
  depth : Nat
  maxDepth : Nat
  deriving Inhabited

namespace Machine

def ofHeap (heap : Heap) (maxDepth : Nat) : Machine :=
  { heap, code := [], entities := [], depth := 0, maxDepth }

/-- Runs an action on the heap of the machine. -/
def onHeap (act : HeapM α) : EStateM HeapError Machine α := fun m =>
  match m with
  | { heap, code, entities, depth, maxDepth } =>
    match act heap with
    | .ok a heap => .ok a { heap, code, entities, depth, maxDepth }
    | .error e heap => .error e { heap, code, entities, depth, maxDepth }

/-- The Code entity of a stub. -/
def codeEntity (s : Stub) : EStateM HeapError Machine Word := do
  match (← get).entities.lookup s.entry with
  | some w => return w
  | none =>
    let index := (← get).code.length
    if index < 0x80000000 then
      let w ← onHeap (Heap.allocate .code Layout.Code.size)
      onHeap (Heap.store w Layout.Code.index (.int index))
      modify fun m => { m with code := m.code ++ [s], entities := (s.entry, w) :: m.entities }
      return w
    else throw (.outOfBounds index)

/-- The stub behind a Code entity. -/
def stub? (m : Machine) (w : Word) : Option Stub :=
  if m.heap.kind? w == some .code then
    match m.heap.loadInt w Layout.Code.index with
    | .ok (.ofNat i) => m.code[i]?
    | _ => none
  else none

/-- The stub that runs when `callee` is called: that of a Code entity, or that of the Code entity
in the `code` field of a function. -/
def target (m : Machine) (callee : Word) : Except Trap Stub := do
  if callee.isInt then throw (.fatal .notCallable)
  match m.stub? callee with
  | some s => return s
  | none =>
    if ← (m.heap.mapFlag callee Layout.Map.callable).mapError Trap.ofHeapError then
      let code ← (m.heap.load callee Layout.Function.code).mapError Trap.ofHeapError
      match m.stub? code with
      | some s => return s
      | none => throw (.fatal .notCallable)
    else throw (.fatal .notCallable)

def describe (m : Machine) : String :=
  "Machine \x7b heap: " ++ m.heap.describe ++ ", code_table: " ++ toString m.code.length ++
    ", depth: " ++ toString m.depth ++ " \x7d"

end Machine

end FastPath
