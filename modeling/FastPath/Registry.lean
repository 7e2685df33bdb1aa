import FastPath.Catalogue.Families
import FastPath.Heap.Pin
import FastPath.Stub

/-!
The registry of stubs. A stub is declared under a name and compiled, together with the stubs that
it depends on, when it is first resolved; from then on it stays as it is. The names under
construction form a stack, outermost first, and a name that comes up again while it is on the
stack ends the resolution with the cycle it closes. The heap is pinned once for every name on the
stack.
-/

namespace FastPath

inductive RegistryError where
  | notFound (name : String)
  /-- A chain of stubs, each needing the next, that ends where it starts. -/
  | cyclic (chain : List String)
  | rejected (e : GraphError)
  deriving DecidableEq, Inhabited

def RegistryError.message : RegistryError → String
  | notFound name => "stub " ++ GraphError.quoted name ++ " not found"
  | cyclic chain => "cyclic stub dependency: " ++ String.intercalate " -> " chain
  | rejected e => "stub compilation failed: " ++ e.message

namespace Registry

structure Stats where
  declared : Nat := 0
  resolutions : Nat := 0
  cacheHits : Nat := 0
  compilations : Nat := 0
  failures : Nat := 0
  deriving DecidableEq, Inhabited

structure Entry where
  declaration : Declaration
  compiled : Option Stub := none

/-- A request to the compiler and what came of it. -/
structure Compilation where
  graph : Graph
  deps : List String
  /-- The entry point of the stub, or none if the graph was refused. -/
  entry : Option Nat
  /-- How many stubs the compiler had made afterwards. -/
  compiled : Nat

inductive Work where
  | built (name : String)
  | compiled (c : Compilation)
  /-- A name was not declared, or was already under construction. -/
  | refused (name : String)

/-- A moment of a resolution: what was done, under how many pins and for which stack of names. -/
structure Moment where
  work : Work
  pins : Nat
  stack : List String

end Registry

structure Registry where
  /-- One entry for each name. -/
  entries : List Registry.Entry := []
  compiler : Compiler
  pin : Pin := {}
  /-- Names under construction, outermost first. -/
  stack : List String := []
  stats : Registry.Stats := {}
  /-- All that was done to resolve stubs, the oldest first. -/
  history : List Registry.Moment := []

/-- Actions on a registry; a failed one keeps its counts and whatever it compiled. -/
abbrev RegistryM := EStateM RegistryError Registry

namespace Registry

def Entry.name (e : Entry) : String := e.declaration.name

def Entry.entryPoint? (e : Entry) : Option Nat := e.compiled.map Stub.entry

def find? (r : Registry) (name : String) : Option Entry :=
  r.entries.find? (fun e => e.name == name)

def contains (r : Registry) (name : String) : Bool := (r.find? name).isSome

/-- The declared names in code point order. -/
def names (r : Registry) : List String :=
  (r.entries.map Entry.name).mergeSort (fun a b => decide (a ≤ b))

/-- Installs an entry under its name, replacing any other of that name. -/
def register (r : Registry) (e : Entry) : Registry :=
  { r with
    entries := r.entries.filter (fun old => old.name != e.name) ++ [e]
    stats := { r.stats with declared := r.stats.declared + 1 } }

def declare (r : Registry) (d : Declaration) : Registry := r.register { declaration := d }

def declareAll (r : Registry) (ds : List Declaration) : Registry := ds.foldl declare r

def declareFamilies (r : Registry) (fs : List Catalogue.Family) : Registry :=
  fs.foldl (fun r f => r.declareAll f.declarations) r

/-- A registry with the whole catalogue declared. -/
def withCatalogue (compiler : Compiler) : Registry :=
  declareFamilies { compiler } Catalogue.Family.all

def compilations (r : Registry) : List (Moment × Compilation) :=
  r.history.filterMap fun m =>
    match m.work with
    | .compiled c => some (m, c)
    | .built _ | .refused _ => none

def count (f : Stats → Stats) : RegistryM Unit := modify fun r => { r with stats := f r.stats }

def log (work : Work) : RegistryM Unit :=
  modify fun r =>
    { r with history := r.history ++ [{ work, pins := r.pin.depth, stack := r.stack }] }

/-- Runs `act` with one more pin and the name on the stack. -/
def underConstruction (name : String) (act : RegistryM α) : RegistryM α := fun r =>
  let leave (r : Registry) : Registry := { r with stack := r.stack.dropLast, pin := r.pin.leave }
  match act { r with stack := r.stack ++ [name], pin := r.pin.enter } with
  | .ok a r => .ok a (leave r)
  | .error e r => .error e (leave r)

/-- Keeps the stub that was compiled for a name and counts the outcome. -/
def settle (name : String) (act : RegistryM Stub) : RegistryM Stub := fun r =>
  match act r with
  | .ok s r =>
    .ok s { r with
      entries := r.entries.map fun e => if e.name = name then { e with compiled := some s } else e
      stats := { r.stats with compilations := r.stats.compilations + 1 } }
  | .error e r => .error e { r with stats := { r.stats with failures := r.stats.failures + 1 } }

def runCompiler (g : Graph) (config : Config) (deps : List (String × Stub)) :
    RegistryM Stub := do
  let compiler := (← get).compiler
  let names := deps.map Prod.fst
  match compiler.compile g config deps with
  | .ok (s, compiler) =>
    modify fun r => { r with compiler }
    log (.compiled ⟨g, names, some s.entry, compiler.compiled⟩)
    return s
  | .error e =>
    log (.compiled ⟨g, names, none, compiler.compiled⟩)
    throw (.rejected e)

/-- Builds a stub, resolves the stubs it needs by `resolveDep` and compiles it. -/
def construct (resolveDep : String → RegistryM Stub) (d : Declaration) : RegistryM Stub := do
  log (.built d.name)
  match d.template d.name d.config with
  | .error e => throw (.rejected e)
  | .ok g =>
    let deps ← g.callees.mapM fun name => return (name, ← resolveDep name)
    runCompiler g d.config deps

def refuse (name : String) (e : RegistryError) : RegistryM α := do
  log (.refused name)
  throw e

def resolveWith (resolveDep : String → RegistryM Stub) (name : String) : RegistryM Stub := do
  count fun s => { s with resolutions := s.resolutions + 1 }
  let r ← get
  match r.find? name with
  | none => refuse name (.notFound name)
  | some { compiled := some s, .. } =>
    count fun s => { s with cacheHits := s.cacheHits + 1 }
    return s
  | some { declaration, compiled := none } =>
    match r.stack.dropWhile (fun s => s != name) with
    | [] => settle name (underConstruction name (construct resolveDep declaration))
    | chain => refuse name (.cyclic (chain ++ [name]))

/-- Resolution with room for `budget` more names on the stack. -/
def resolveWithin : (budget : Nat) → String → RegistryM Stub
  | 0 => resolveWith fun name => throw (.cyclic [name])
  | budget + 1 => resolveWith (resolveWithin budget)

/-- The compiled stub of a name. Names on the stack are declared and differ from each other, so
the number of declared names is budget enough. -/
def resolve (name : String) : RegistryM Stub := do
  resolveWithin (← get).entries.length name

def Stats.describe (s : Stats) : String :=
  "RegistryStats \x7b declared: " ++ toString s.declared ++ ", resolutions: " ++
    toString s.resolutions ++ ", cache_hits: " ++ toString s.cacheHits ++ ", compilations: " ++
    toString s.compilations ++ ", compile_failures: " ++ toString s.failures ++ " \x7d"

def describe (r : Registry) : String :=
  "StubRegistry \x7b stubs: " ++ toString r.entries.length ++ ", stats: " ++ r.stats.describe ++
    " \x7d"

def Entry.describe (quote : String → String) (e : Entry) : String :=
  let compiled := match e.entryPoint? with
    | some entry => "Some(EntryPoint(" ++ toString entry ++ "))"
    | none => "None"
  "Stub \x7b name: " ++ quote e.name ++ ", compiled: " ++ compiled ++ " \x7d"

end Registry

end FastPath
