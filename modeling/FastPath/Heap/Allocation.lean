import FastPath.Heap.Basic

/-!
Allocation: entities stamped with the map of their kind, fields and accessor pairs in their
initial state, interned names, and the heap that everything starts from. A request that does not
fit takes nothing.
-/

namespace FastPath

namespace Heap

/-- Takes `size` bytes off the region. Sizes are worked out exactly, and one that cannot be rounded
up within 64 bits overflows here, before anything is taken. -/
def reserve (size : Nat) : HeapM Word := fun h =>
  match unsigned (size + 8), h.region.reserve? size with
  | .error e, _ => .error e h
  | .ok _, some (a, r) => .ok (.pointer a) { h with region := r }
  | .ok _, none => .error (.exhausted (roundUp size) h.region.available) h

/-- A fresh entity of `size` bytes, of which only the map is set. -/
def allocate (k : Kind) (size : Nat) : HeapM Word := do
  let w ← reserve (max size Layout.word)
  store w Layout.map k.canonicalMap
  return w

/-- A fresh field whose slots all hold the hole. -/
def allocateField (slots : Nat) : HeapM Word := do
  let w ← allocate .field (Layout.Field.size slots)
  match Word.ofInt? slots with
  | none => throw (.outOfBounds slots)
  | some length =>
    store w Layout.Field.length length
    let data := (← query fun _ => addressOf w) + Layout.Field.data
    fill data (data + slots * Layout.word) .hole
    return w

/-- A fresh accessor pair with neither accessor. -/
def allocatePair : HeapM Word := do
  let w ← allocate .accessPair Layout.Pair.size
  store w Layout.Pair.getter .hole
  store w Layout.Pair.setter .hole
  store w Layout.Pair.attributes (.int Layout.Pair.fresh)
  return w

/-- Moves the cursor, giving out the bytes in between. -/
def moveCursor (cursor : Nat) : HeapM Unit := fun h =>
  match h.region.moveTo? cursor with
  | some r => .ok () { h with region := r }
  | none => .error (.outOfBounds cursor) h

/-- The atom of a name: the same entity for the same name. -/
def atom (name : String) : HeapM Word := do
  let known := (← get).atoms
  match known.lookup name with
  | some w => return w
  | none =>
    let w ← allocate .atom Layout.Atom.size
    if known.length < 0x80000000 then
      store w Layout.Atom.id (.int known.length)
      modify fun h => { h with atoms := h.atoms ++ [(name, w)] }
      return w
    else throw (.outOfBounds known.length)

/-- An untouched region of at least `size` bytes. The first word is left out. -/
def blank (size : Nat) : Heap where
  words := .replicate (roundUp size / 8) (.ofNat 0)
  region := .ofBounds Layout.word (roundUp size)
  atoms := []

/-- Lays out the canonical maps and the singletons. Every canonical map names `null` as its
prototype, where lookups end. -/
def populate : HeapM Unit := do
  for _ in Kind.all do
    let m ← reserve Layout.Map.size
    store m Layout.map Kind.map.canonicalMap
  for k in Kind.all do
    let flags := if k = .function then Layout.Map.callable else Layout.Map.plain
    store k.canonicalMap Layout.Map.flags (.int flags)
    store k.canonicalMap Layout.Map.transitions (.int 0)
  for which in [Layout.Oddball.undefined, Layout.Oddball.null, Layout.Oddball.hole] do
    let w ← allocate .oddball Layout.Oddball.size
    store w Layout.Oddball.kind (.int which)
  for truth in [1, 0] do
    let w ← allocate .boolean Layout.Boolean.size
    store w Layout.Boolean.value (.int truth)
  for k in Kind.all do
    store k.canonicalMap Layout.Map.proto .null
    store k.canonicalMap Layout.Map.edges .hole

/-- The heap that holds the canonical maps and the singletons and nothing else. -/
def create (size : Nat) : Except HeapError Heap :=
  match populate (blank size) with
  | .ok _ h => .ok h
  | .error e _ => .error e

end Heap

end FastPath
