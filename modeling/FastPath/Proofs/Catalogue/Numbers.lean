import FastPath.Proofs.Catalogue.Initialisation
import FastPath.Proofs.Property.Housing

/-! Where entities keep small integers. Whatever a client with a free hand makes, the words that are
laid out for flags, lengths, attributes and the like can be read as small integers. The one
exception are the maps that the setter of `prototype` makes: they have the hole in place of the
number of their transitions. -/

namespace FastPath

open Catalogue Heap

/-- Where entities of the kind keep small integers. -/
def Kind.integers : Kind → List Nat
  | .map => [Layout.Map.flags, Layout.Map.transitions]
  | .object => [Layout.Object.flags]
  | .field => [Layout.Field.length]
  | .function => [Layout.Object.flags, Layout.Function.contextSize]
  | .accessPair => [Layout.Pair.attributes]
  | .code => [Layout.Code.index]
  | .boolean => [Layout.Boolean.value]
  | .oddball => [Layout.Oddball.kind]
  | .atom => [Layout.Atom.id]

/-- Whether a word can only be a small integer. -/
def Content.Integral : Content → Prop
  | exactly w => w.isInt = true
  | int => True
  | _ => False

/-- The places for small integers are words of the entity, and but for one of an instance map they
take nothing else. -/
theorem Shape.content_integral {x : Shape} (finished : x.finished = true) {offset : Nat}
    (laid : offset ∈ x.kind.integers) : ∃ i < x.words, offset = 8 * i ∧
      ((x.content i).Integral ∨ x = .instanceMap ∧ i = 4) := by
  have int (n : Int) : (Content.exactly (.int n)).Integral := Word.isInt_int n
  cases x with
  | draft => cases finished
  | canonicalMap k =>
    rcases List.mem_pair.mp laid with rfl | rfl
    · exact ⟨1, (by decide : 1 < 5), rfl, .inl (int _)⟩
    · exact ⟨4, (by decide : 4 < 5), rfl, .inl (int 0)⟩
  | instanceMap =>
    rcases List.mem_pair.mp laid with rfl | rfl
    · exact ⟨1, by decide, rfl, .inl (int _)⟩
    · exact ⟨4, by decide, rfl, .inr ⟨rfl, rfl⟩⟩
  | function slots =>
    rcases List.mem_pair.mp laid with rfl | rfl
    · exact ⟨1, by simp only [words]; omega, rfl, .inl (int _)⟩
    · exact ⟨6, by simp only [words]; omega, rfl, .inl trivial⟩
  | field slots guarded =>
    obtain rfl := List.mem_singleton.mp laid
    exact ⟨1, by simp only [words]; omega, rfl, .inl (int slots)⟩
  | object =>
    obtain rfl := List.mem_singleton.mp laid
    exact ⟨1, by decide, rfl, .inl (int _)⟩
  | code r index =>
    obtain rfl := List.mem_singleton.mp laid
    exact ⟨1, (by decide : 1 < 2), rfl, .inl (int index)⟩
  | pair | blank =>
    obtain rfl := List.mem_singleton.mp laid
    exact ⟨3, by decide, rfl, .inl trivial⟩
  | boolean | oddball | atom =>
    obtain rfl := List.mem_singleton.mp laid
    exact ⟨1, by decide, rfl, .inl trivial⟩

theorem Content.Integral.number {Γ : Inventory shared} {c : Content} (integral : c.Integral)
    (accepts : c.Accepts Γ a w) : ∃ n, w.int? = some n := by
  cases c with
  | exactly v =>
    cases accepts
    exact ⟨_, if_pos integral⟩
  | int => exact accepts
  | _ => exact integral.elim

/-- Whether the entity is a map but none of those that every heap starts with. -/
def Extent.Derived (e : Extent) : Prop :=
  e.kind = some .map ∧ ∀ k : Kind, .pointer e.start ≠ k.canonicalMap

/-- Small integers can be read from the entity wherever its kind has them, unless it is a derived
map: the number of its transitions is missing. The length of a field is how many slots it has. -/
structure Heap.Numbered (h : Heap) (e : Extent) (k : Kind) : Prop where
  integers : ∀ offset ∈ k.integers, (∃ n, h.loadInt (.pointer e.start) offset = .ok n) ∨
    e.Derived ∧ offset = Layout.Map.transitions ∧
      h.loadInt (.pointer e.start) offset = .error (.notInt .hole)
  length : k = .field → ∃ slots : Nat, e.words = slots + 2 ∧
    h.loadInt (.pointer e.start) Layout.Field.length = .ok slots

namespace Heap

variable {strict shared : Bool} {Γ : Inventory shared} {h : Heap} {a : Nat} {x : Shape}

theorem Typed.numbered (typed : Typed strict Γ h) (found : Γ a = some x)
    (finished : x.finished = true) : h.Numbered (x.extent a) x.kind := by
  have place := typed.toNat_pointer found
  have known : Γ (Word.pointer a).toNat = some x := by rw [place, found]
  constructor
  · intro offset laid
    obtain ⟨i, inside, rfl, integral | ⟨rfl, rfl⟩⟩ := Shape.content_integral finished laid
    · obtain ⟨n, number⟩ := integral.number (typed.holds known i inside)
      exact .inl ⟨n, typed.loadInt_ok known inside number⟩
    · -- nothing but an instance map is left
      have hole : h.word ((Word.pointer a).toNat + 8 * 4) = .hole := typed.holds known 4 inside
      refine .inr ⟨⟨rfl, typed.rooted.not_canonical known⟩, rfl, ?_⟩
      change h.loadInt (.pointer a) (8 * 4) = _
      rw [loadInt, typed.load known inside, hole]
      rfl
  · intro field
    cases x with
    | field slots guarded =>
      have number := typed.length_int known
      exact ⟨slots, rfl, typed.loadInt_ok known (i := 1) (by simp only [Shape.words]; omega) number⟩
    | draft => cases finished
    | _ => cases field

end Heap

variable {stubs : String → Stub}

/-- Once a client with a free hand has had all its demands met, small integers stand wherever the
layout of an entity has them, but for the numbers of transitions of derived maps. -/
theorem integers_can_be_read (library : Library stubs) {fuel : Nat} {c : Client}
    (attains : c.Attains stubs true (fuel + 8)) :
    ∃ es, c.state.machine.heap.Closed es ∧ (∀ w ∈ c.hand, w.Settled es) ∧
      ∀ e ∈ es, ∀ k, e.kind = some k → c.state.machine.heap.Numbered e k := by
  obtain ⟨Γ, furnished, whole, held⟩ := attains.furnished library
  have typed := furnished.typed
  obtain ⟨es, tiles, members⟩ := typed.tiles
  obtain ⟨closed, settled⟩ := typed.closed_of_tiles (whole rfl) tiles members
  refine ⟨es, closed, fun w member => settled w (held w member).1, fun e member k kind => ?_⟩
  obtain ⟨a, x, found, rfl⟩ := (members e).mp member
  have finished := whole rfl a x found
  rw [Shape.extent, if_pos finished] at kind
  cases kind
  exact typed.numbered found finished

/-- A function and a field, both with slots of their own. -/
def counting : List Demand :=
  [.request (.codeRef idler), .request (.function (.pointer 448) .undefined 2), .field 3]

theorem counting_attains :
    (Client.fresh.gets freshStubs 8 counting).Attains freshStubs true 8 := by
  have entitled : Client.fresh.Entitled freshStubs true 8 counting := by decide +kernel
  exact (Client.fresh_attains _ _ _).gets entitled

theorem counting_read : ∃ c es, Client.fresh.gets freshStubs 8 counting = c ∧
    c.state.machine.heap.Closed es ∧
    ∀ e ∈ es, ∀ k, e.kind = some k → c.state.machine.heap.Numbered e k := by
  obtain ⟨es, closed, _, numbered⟩ := integers_can_be_read freshStubs_library counting_attains
  exact ⟨_, es, rfl, closed, numbered⟩

/-- The instance map of a function cannot tell how many transitions it has. -/
theorem instanceMap_uncounted : ∃ c fn m, Client.Attains freshStubs true 8 c ∧ fn ∈ c.hand ∧
    c.state.machine.heap.load fn Layout.Function.instanceMap = .ok m ∧
    c.state.machine.heap.kind? m = some .map ∧
    Layout.Map.transitions ∈ Kind.map.integers ∧
    c.state.machine.heap.loadInt m Layout.Map.transitions = .error (.notInt .hole) := by
  have facts : (Client.fresh.gets freshStubs 8 counting).hand[1]? = some (.pointer 464) ∧
      (Client.fresh.gets freshStubs 8 counting).state.machine.heap.load (.pointer 464)
        Layout.Function.instanceMap = .ok (.pointer 1056) ∧
      (Client.fresh.gets freshStubs 8 counting).state.machine.heap.kind? (.pointer 1056) =
        some .map ∧
      (Client.fresh.gets freshStubs 8 counting).state.machine.heap.loadInt (.pointer 1056)
        Layout.Map.transitions = .error (.notInt .hole) := by
    decide +kernel
  obtain ⟨handed, loaded, kind, missing⟩ := facts
  exact ⟨_, _, _, counting_attains, List.mem_of_getElem? handed, loaded, kind, by decide, missing⟩

end FastPath
