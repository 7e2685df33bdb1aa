import FastPath.Proofs.Catalogue.Service
import FastPath.Proofs.Heap.Creation

/-! Clients of the catalogue. A client starts from a fresh heap, makes and accesses entities, and
uses what it has been given so far. Calls may return or fail, and in whatever state they leave the
machine, it is furnished. -/

namespace FastPath

open Catalogue Heap

/-- What a client may ask for. -/
inductive Request where
  | object
  | pair
  | function (code outer : Word) (slots : Nat)
  | construct (argc fn : Word) (args : List Word)
  | get (o k : Word)
  | set (o k v : Word)
  | delete (o k : Word)
  | slot (id : CacheId) (o k : Word) (update : Bool)
  | atom (name : String)
  | codeRef (stub : Stub)

namespace Request

/-- The words that a request mentions. -/
def words : Request → List Word
  | object | pair | atom _ | codeRef _ => []
  | function code outer _ => [code, outer]
  | construct argc fn args => argc :: fn :: args
  | get o k | delete o k | slot _ o k _ => [o, k]
  | set o k v => [o, k, v]

def run (stubs : String → Stub) (fuel : Nat) : Request → Exec PropertyHost Word
  | object => invoke PropertyHost.serve fuel (stubs allocObject) .undefined []
  | pair => invoke PropertyHost.serve fuel (stubs allocAccessPair) .undefined []
  | function code outer slots =>
    invoke PropertyHost.serve fuel (stubs allocFn) .undefined [code, outer, .int slots]
  | construct argc fn args =>
    invoke PropertyHost.serve fuel (stubs new) .undefined (argc :: fn :: args)
  | get o k => Property.get (invoke PropertyHost.serve fuel) o k
  | set o k v => Property.set (invoke PropertyHost.serve fuel) o k v
  | delete o k => Property.delete o k
  | slot id o k update => PropertyHost.slot id o k update
  | atom name => Exec.onHeap (Heap.atom name)
  | codeRef stub => Exec.onMachine (Machine.codeEntity stub)

/-- Contexts are of a sensible size, the stubs of functions return at once, and accessor pairs are
stored only in entities whose flags say that they may have accessors. A `strict` client makes no
pairs of its own. -/
def Allowed (stubs : String → Stub) (strict : Bool) (h : Heap) : Request → Prop
  | pair => strict = false
  | function _ _ slots => slots < 0x4000000000000
  | set o _ v => h.isPair v = true → h.isObjectLike o = true →
      h.loadFlag o Layout.Object.flags Layout.Object.access = .ok true
  | codeRef stub => Role.idle.Plays stubs stub
  | object | construct _ _ _ | get _ _ | delete _ _ | slot _ _ _ _ | atom _ => True

instance (stubs : String → Stub) (strict : Bool) (h : Heap) :
    (r : Request) → Decidable (r.Allowed stubs strict h)
  | pair => inferInstanceAs (Decidable (strict = false))
  | function _ _ slots => inferInstanceAs (Decidable (slots < 0x4000000000000))
  | set o _ v => inferInstanceAs (Decidable (h.isPair v = true → h.isObjectLike o = true →
      h.loadFlag o Layout.Object.flags Layout.Object.access = .ok true))
  | codeRef stub => inferInstanceAs (Decidable (stub.Idle ∧ _ ∧ _))
  | object | construct _ _ _ | get _ _ | delete _ _ | slot _ _ _ _ | atom _ => .isTrue trivial

end Request

/-- The words that every client starts with. -/
def roots : List Word := [.undefined, .null, .hole, .boolean true, .boolean false]

/-- What a client has brought about, and the words it has been given, the last one first. -/
structure Client where
  state : State PropertyHost
  hand : List Word

namespace Client

def start (h : Heap) (maxDepth : Nat) : Client :=
  { state := { machine := .ofHeap h maxDepth, host := {} }, hand := roots }

/-- Clients know small integers and what they have been given. -/
def Knows (c : Client) (w : Word) : Prop := w.isInt = true ∨ w ∈ c.hand

/-- The client after a request. A request that fails may have changed the state. -/
def ask (stubs : String → Stub) (fuel : Nat) (c : Client) (r : Request) : Client :=
  match r.run stubs fuel c.state with
  | .ok w s => { state := s, hand := w :: c.hand }
  | .error _ s => { c with state := s }

/-- Where a client gets from a fresh heap. -/
inductive Reached (stubs : String → Stub) (strict : Bool) (fuel : Nat) : Client → Prop
  | start {size : Nat} {h : Heap} (created : Heap.create size = .ok h)
      (small : size < 0x7ffffffffffffff8) (maxDepth : Nat) :
      Reached stubs strict fuel (start h maxDepth)
  | ask {c : Client} (r : Request) (reached : Reached stubs strict fuel c)
      (known : ∀ w ∈ r.words, c.Knows w)
      (allowed : r.Allowed stubs strict c.state.machine.heap) :
      Reached stubs strict fuel (c.ask stubs fuel r)

instance (c : Client) (w : Word) : Decidable (c.Knows w) := inferInstanceAs (Decidable (_ ∨ _))

/-- The client after several requests. -/
def asks (stubs : String → Stub) (fuel : Nat) (c : Client) (rs : List Request) : Client :=
  rs.foldl (ask stubs fuel) c

/-- A client may make the requests one after the other. -/
def Legal (stubs : String → Stub) (strict : Bool) (fuel : Nat) : Client → List Request → Prop
  | _, [] => True
  | c, r :: rs => (∀ w ∈ r.words, c.Knows w) ∧ r.Allowed stubs strict c.state.machine.heap ∧
      (c.ask stubs fuel r).Legal stubs strict fuel rs

instance decidableLegal (stubs : String → Stub) (strict : Bool) (fuel : Nat) :
    (c : Client) → (rs : List Request) → Decidable (c.Legal stubs strict fuel rs)
  | _, [] => .isTrue trivial
  | c, _ :: rs => @instDecidableAnd _ _ _
      (@instDecidableAnd _ _ _ (decidableLegal stubs strict fuel (c.ask stubs fuel _) rs))

theorem Reached.asks {stubs : String → Stub} {strict : Bool} {fuel : Nat} {c : Client}
    {rs : List Request} (reached : Reached stubs strict fuel c)
    (legal : c.Legal stubs strict fuel rs) : Reached stubs strict fuel (c.asks stubs fuel rs) := by
  induction rs generalizing c with
  | nil => exact reached
  | cons r rs ih =>
    obtain ⟨known, allowed, legal⟩ := legal
    exact ih (reached.ask r known allowed) legal

end Client

variable {stubs : String → Stub} {strict shared : Bool} {Γ Γ' : Inventory shared}

/-- What strict clients know are values that are no pairs. -/
def Inventory.Known (Γ : Inventory shared) (strict : Bool) (w : Word) : Prop :=
  Γ.Value w ∧ (strict = true → Γ.Data w)

theorem Inventory.Data.known {w : Word} (data : Γ.Data w) : Γ.Known strict w :=
  ⟨data.value, fun _ => data⟩

theorem Inventory.Known.mono {w : Word} (known : Γ.Known strict w) (settles : Γ.Settles Γ') :
    Γ'.Known strict w :=
  ⟨known.1.mono settles, fun same => (known.2 same).mono settles⟩

theorem Heap.Typed.data_root {h : Heap} (typed : Typed strict Γ h) {w : Word} (root : w ∈ roots) :
    Γ.Data w := by
  have rooted := typed.rooted
  simp only [roots, List.mem_cons, List.not_mem_nil, or_false] at root
  rcases root with rfl | rfl | rfl | rfl | rfl
  · exact .inr ⟨.oddball, rooted.undefined, rfl, nofun⟩
  · exact .inr ⟨.oddball, rooted.null, rfl, nofun⟩
  · exact .inr ⟨.oddball, rooted.hole, rfl, nofun⟩
  · exact .inr ⟨.boolean, rooted.boolean true, rfl, nofun⟩
  · exact .inr ⟨.boolean, rooted.boolean false, rfl, nofun⟩

theorem Inventory.known_entity {w : Word} {x : Shape} (found : Γ w.toNat = some x)
    (handled : x.handled shared = true) (single : strict = true → x ≠ .pair) : Γ.Known strict w :=
  ⟨.inr ⟨x, found, handled⟩, fun same => .inr ⟨x, found, handled, single same⟩⟩

/-- A new entity that stands at the cursor is known. -/
theorem Heap.Typed.known_new {h : Heap} {x : Shape} (typed : Typed strict Γ h)
    (found : Γ' h.region.cursor = some x) (handled : x.handled shared = true)
    (single : strict = true → x ≠ .pair) : Γ'.Known strict (.pointer h.region.cursor) :=
  Inventory.known_entity ((congrArg Γ' typed.sound.toNat_cursor).trans found) handled single

/-- The Code entity of whatever was asked for is handled. -/
theorem Furnished.code_handled {m : Machine} {r r' : Role} {a index : Nat}
    (furnished : Furnished stubs strict Γ m) (akin : r'.Akin r)
    (idle : shared = false → r = .idle) (found : Γ a = some (.code r' index)) :
    (Shape.code r' index).handled shared = true := by
  cases shared with
  | true => cases r' <;> rfl
  | false =>
    obtain rfl := idle rfl
    cases r' with
    | idle => rfl
    | getter => cases akin.1.mp rfl
    | setter => cases akin.2.mp rfl
    | other => cases furnished.asked found

namespace Request

/-- What must hold of a request for the machine to stay furnished. -/
def Suits (stubs : String → Stub) (strict : Bool) (Γ : Inventory shared) : Request → Prop
  | pair => strict = true → shared = true
  | function code _ slots => slots < 0x4000000000000 ∧ Γ.Callee code
  | set o _ v => Γ.Housed o false → Γ.Data v
  | codeRef stub => ∃ r : Role, r.Plays stubs stub ∧ (shared = false → r = .idle)
  | object | construct _ _ _ | get _ _ | delete _ _ | slot _ _ _ _ | atom _ => True

/-- Whatever is asked for, the machine stays furnished. -/
theorem serves (library : Library stubs) {s : State PropertyHost}
    (furnished : Furnished stubs strict Γ s.machine) (fuel : Nat) (r : Request)
    (known : ∀ w ∈ r.words, Γ.Known strict w) (suits : r.Suits stubs strict Γ) :
    Serves stubs strict Γ (r.run stubs (fuel + 8)) s fun Γ' w => Γ'.Known strict w := by
  have typed := furnished.typed
  cases r with
  | object =>
    refine (library.allocObject_makes furnished PropertyHost.serve (fuel + 2) .undefined).serves ?_
    rintro Γ' _ t _ ⟨rfl, found⟩
    exact typed.known_new found rfl fun _ => nofun
  | pair =>
    have makes {x : Shape} := library.allocAccessPair_makes furnished PropertyHost.serve (fuel + 4)
      .undefined (x := x)
    cases shared with
    | true =>
      refine (makes (.inr rfl)).serves ?_
      rintro Γ' _ t _ ⟨rfl, found⟩
      exact typed.known_new found rfl fun _ => nofun
    | false =>
      refine (makes (.inl rfl)).serves ?_
      rintro Γ' _ t _ ⟨rfl, found⟩
      exact typed.known_new found rfl fun same => nomatch suits same
  | function code outer slots =>
    have outer_ := (known outer (by simp [words])).1
    refine (library.allocFn_makes fuel .undefined furnished suits.1 suits.2 outer_).serves ?_
    rintro Γ' _ t _ ⟨rfl, found⟩
    exact typed.known_new found rfl fun _ => nofun
  | construct argc fn args =>
    have fn_ := (known fn (by simp [words])).1
    refine (library.new_makes furnished PropertyHost.serve (fuel + 1) .undefined fn_ argc
      args).serves ?_
    rintro Γ' _ t _ ⟨rfl, found⟩
    exact typed.known_new found rfl fun _ => nofun
  | get o k =>
    exact (library.get_serves furnished PropertyHost.serve (fuel + 6) (known o (by simp [words])).1
      k).mono fun _ _ _ _ data => data.known
  | set o k v =>
    have value := known v (by simp [words])
    refine (library.set_serves furnished PropertyHost.serve (fuel + 4) (known o (by simp [words])).1
      (known k (by simp [words])).1 value.1 suits value.2).mono ?_
    rintro Γ' h _ typed rfl
    exact (typed.data_root (by simp [roots])).known
  | delete o k =>
    refine (furnished.delete_serves (known o (by simp [words])).1 k).mono ?_
    rintro Γ' h _ typed rfl
    exact (typed.data_root (by simp [roots])).known
  | slot id o k update =>
    refine (furnished.slot_looks id (known o (by simp [words])).1 (known k (by simp [words])).1
      update).mono ?_ fun _ _ failed => failed
    rintro w t ⟨Γ', continues_, rfl | ⟨_, i, _, _, rfl, _⟩⟩
    · have data := continues_.furnished.typed.data_root (w := .undefined) (by simp [roots])
      exact ⟨Γ', continues_, data.known⟩
    · exact ⟨Γ', continues_, Inventory.Data.known (.inl (Word.isInt_int _))⟩
  | atom name =>
    refine (furnished.atom_makes name).serves ?_
    rintro Γ' w t _ ⟨found, _⟩
    exact Inventory.known_entity found rfl fun _ => nofun
  | codeRef stub =>
    obtain ⟨r, plays, idle⟩ := suits
    have asked (other : r = .other) : shared = true := by
      cases shared with
      | true => rfl
      | false => cases other.symm.trans (idle rfl)
    refine (furnished.codeEntity_makes library plays asked).serves ?_
    rintro Γ' w t develops ⟨r', index, akin, found⟩
    exact Inventory.known_entity found (develops.furnished.code_handled akin idle found)
      fun _ => nofun

/-- What clients are allowed to ask for suits an inventory that shares nothing. -/
theorem Allowed.suits {Γ : Inventory false} {h : Heap} (typed : Typed strict Γ h) {r : Request}
    (known : ∀ w ∈ r.words, Γ.Known strict w) (allowed : r.Allowed stubs strict h) :
    r.Suits stubs strict Γ := by
  cases r with
  | pair => exact fun same => nomatch same.symm.trans allowed
  | function code outer slots => exact ⟨allowed, (known code (by simp [words])).1.callee⟩
  | set o k v =>
    intro housed
    refine typed.data_of (known v (by simp [words])).1 (Bool.eq_false_iff.mpr fun pair => ?_)
    have backed := typed.backed housed
    have flagged := allowed pair backed.kind
    have read := backed.loadFlag typed.sound Layout.Object.access
    rw [typed.access housed, flagged] at read
    cases read
  | codeRef stub => exact ⟨.idle, allowed, fun _ => rfl⟩
  | _ => trivial

end Request

namespace Client

/-- A machine with a fresh heap has no Code entities. -/
theorem start_furnished {h : Heap} {size : Nat} (created : Heap.create size = .ok h)
    (small : size < 0x7ffffffffffffff8) (maxDepth : Nat) :
    Furnished stubs strict (rootInventory shared) (start h maxDepth).state.machine := by
  refine ⟨create_typed created small strict shared, fun found => ?_, nofun, fun found => ?_⟩
  · cases (rootShape_plain found).2.2
  · cases (rootShape_plain found).2.2

theorem Knows.known {c : Client} {w : Word} (knows : c.Knows w)
    (held : ∀ w ∈ c.hand, Γ.Known strict w) : Γ.Known strict w := by
  rcases knows with int | member
  · exact ⟨.inl int, fun _ => .inl int⟩
  · exact held w member

/-- However a client got to where it is, the machine is furnished, and what the client has been
given are values. -/
theorem Reached.furnished (library : Library stubs) {fuel : Nat} {c : Client}
    (reached : Reached stubs strict (fuel + 8) c) :
    ∃ Γ : Inventory false, Furnished stubs strict Γ c.state.machine ∧
      ∀ w ∈ c.hand, Γ.Known strict w := by
  induction reached with
  | start created small maxDepth =>
    have furnished : Furnished stubs strict (rootInventory false) _ :=
      start_furnished created small maxDepth
    exact ⟨_, furnished, fun w root => (furnished.typed.data_root root).known⟩
  | @ask c r _ known allowed ih =>
    obtain ⟨Γ, furnished, held⟩ := ih
    have known (w : Word) (used : w ∈ r.words) : Γ.Known strict w := (known w used).known held
    have serves := r.serves library furnished fuel known (allowed.suits furnished.typed known)
    unfold Client.ask
    cases ran : r.run stubs (fuel + 8) c.state with
    | ok w t =>
      obtain ⟨Γ', ⟨furnished', evolves⟩, new⟩ := serves.ok ran
      refine ⟨Γ', furnished', List.forall_mem_cons.mpr ⟨new, fun v member => ?_⟩⟩
      exact (held v member).mono evolves.stays.settles
    | error e t =>
      obtain ⟨Γ', ⟨furnished', evolves⟩⟩ := serves.error ran
      exact ⟨Γ', furnished', fun v member => (held v member).mono evolves.stays.settles⟩

/-- A client of a small heap. -/
def fresh : Client :=
  match Heap.create 4096 with
  | .ok h => start h 8
  | .error _ => start default 8

theorem fresh_start : ∃ h, Heap.create 4096 = .ok h ∧ fresh = start h 8 := by
  obtain ⟨h, created⟩ := Heap.create_ok (show 448 ≤ roundUp 4096 by decide)
  refine ⟨h, created, ?_⟩
  unfold fresh
  rw [created]

theorem fresh_reached (stubs : String → Stub) (strict : Bool) (fuel : Nat) :
    fresh.Reached stubs strict fuel := by
  obtain ⟨h, created, same⟩ := fresh_start
  rw [same]
  exact .start created (by decide) 8

end Client

/-- A stub that returns at once. -/
def idler : Stub :=
  { name := "idle", origin := 0, entry := 0,
    blocks := [{ params := [], insts := [], exit := .ret none }], varCount := 0, deps := [],
    cache := none }

end FastPath
