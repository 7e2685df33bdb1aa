import FastPath.Proofs.Catalogue.Allocations
import FastPath.Proofs.Property.Retention

/-! Functions that have what it takes to get and to assign their `prototype`: a pair with both
accessors under that name. They are made so, and nothing that stores plain values takes it away. -/

namespace FastPath

open Catalogue Heap

/-- The function holds a pair with both accessors under the name `prototype`. -/
structure Inventory.Equips (Γ : Inventory shared) (h : Heap) (f key pair : Word) : Prop where
  name : h.atoms.lookup "prototype" = some key
  held : h.lookup f key = some pair
  entity : Γ pair.toNat = some .pair
  getter : h.word (pair.toNat + 8 * 1) ≠ .hole
  setter : h.word (pair.toNat + 8 * 2) ≠ .hole

/-- Functions hold the pairs that they held. -/
def Inventory.Retains (Γ : Inventory shared) (h h' : Heap) : Prop :=
  ∀ f key pair, Γ.Housed f true → key ≠ .hole → h.lookup f key = some pair →
    h.isPair pair = true → h'.lookup f key = some pair

variable {stubs : String → Stub} {strict shared : Bool} {Γ Γ' : Inventory shared} {h h' : Heap}
  {f key pair v : Word} {New : Nat → Shape → Prop}

theorem Heap.Typed.retains_spared (typed : Typed strict Γ h) (spares : Spares h h') :
    Γ.Retains h h' := by
  intro f key pair function _ held _
  rw [typed.lookup_stays function fun _ _ _ found inside _ => typed.spared_word spares found inside,
    held]

namespace Inventory.Equips

variable (equips : Γ.Equips h f key pair) (typed : Typed strict Γ h)

include equips typed

theorem paired : h.isPair pair = true :=
  (typed.isPair (.inr ⟨_, equips.entity, rfl⟩)).mpr (.inl equips.entity)

variable (function : Γ.Housed f true)

include function

theorem later (evolves : Evolves New Γ h Γ' h') (retains : Γ.Retains h h') :
    Γ'.Equips h' f key pair := by
  have real : key ≠ .hole := fun hole => typed.no_atom (hole ▸ equips.name)
  have kept (i : Nat) (inside : i < 4) : h'.word (pair.toNat + 8 * i) =
    h.word (pair.toNat + 8 * i) := evolves.frozen equips.entity i inside rfl
  refine ⟨evolves.atoms equips.name,
    retains f key pair function real equips.held (equips.paired typed),
    evolves.stays _ _ equips.entity, ?_, ?_⟩
  · rw [kept 1 (by decide)]
    exact equips.getter
  · rw [kept 2 (by decide)]
    exact equips.setter

/-- The pair is found as the value of an item. -/
theorem item : ∃ i, h.own f key = some (.item i) ∧ h.value f i = pair := by
  obtain ⟨i, item, value⟩ := Option.map_eq_some_iff.mp equips.held
  exact ⟨i, by rw [typed.own_eq function, item]; rfl, value⟩

/-- Reads of the property come to the getter. -/
theorem find : h.find f key = .ok (.getter (h.word (pair.toNat + 8 * 1))) := by
  obtain ⟨i, own, value⟩ := equips.item typed function
  have backed := typed.backed function
  have slot := backed.ownSlot (k := key) typed.sound
  have loaded := backed.loadSlot typed.sound (own_position own)
  have current : h.slotWord f (Slot.item i).position = pair := value
  rw [own] at slot
  rw [current] at loaded
  have getter : h.load pair Layout.Pair.getter = .ok (h.word (pair.toNat + 8 * 1)) :=
    typed.load equips.entity (by decide : 1 < 4)
  have entity : (f.isInt || f.isNullish) = false := by
    obtain ⟨slots, found⟩ := function
    rw [Word.isInt_aligned (typed.inside found).2.1, Bool.false_or, Bool.eq_false_iff]
    intro nullish
    simp only [Word.isNullish, Bool.or_eq_true, beq_iff_eq, or_assoc] at nullish
    rcases nullish with rfl | rfl | rfl
    · cases typed.rooted.undefined.symm.trans found
    · cases typed.rooted.null.symm.trans found
    · cases typed.rooted.hole.symm.trans found
  rw [Heap.find, hopLimit, findFrom, if_neg (by rw [entity]; exact Bool.false_ne_true), slot]
  simp only [bind, Except.bind, loaded, equips.paired typed, getter, if_neg equips.getter]
  rfl

end Inventory.Equips

/-- The function has got a new instance map with this prototype, which comes right behind all that
there was. -/
def State.Reassigns (stubs : String → Stub) (strict : Bool) (Γ : Inventory shared) (s : State ρ)
    (f v : Word) (t : State ρ) : Prop :=
  ∃ h, t = s.withHeap (h.put (f.toNat + 8 * 4) (.pointer s.machine.heap.region.cursor)) ∧
    Develops stubs strict Whole Γ s.machine.heap (Γ.set s.machine.heap.region.cursor .instanceMap)
      { s.machine with heap := h } ∧
    h.region.cursor = s.machine.heap.region.cursor + Layout.Map.size ∧
    h.word (s.machine.heap.region.cursor + 8 * 2) = v

/-- The instance map of a function is a word of its own, and no item of anything. -/
theorem State.Reassigns.retains {s t : State ρ} {slots : Nat}
    (reassigns : s.Reassigns stubs strict Γ f v t) (typed : Typed strict Γ s.machine.heap)
    (function : Γ f.toNat = some (.function slots)) :
    Γ.Retains s.machine.heap t.machine.heap ∧
      ∀ a x i, Γ a = some x → i < x.words → a ≠ f.toNat ∨ i ≠ 4 →
        t.machine.heap.word (a + 8 * i) = s.machine.heap.word (a + 8 * i) := by
  obtain ⟨h, rfl, develops, _⟩ := reassigns
  have stays := develops.evolves.stays
  have typed' := develops.furnished.typed
  have inside : 4 < (Shape.function slots).words := Shape.lt_function_words (by decide)
  have words (a : Nat) (x : Shape) (i : Nat) (found : Γ a = some x) (within : i < x.words)
      (other : a ≠ f.toNat ∨ i ≠ 4) :
      (h.put (f.toNat + 8 * 4) (.pointer s.machine.heap.region.cursor)).word (a + 8 * i) =
        s.machine.heap.word (a + 8 * i) := by
    have put := typed'.word_put (w := .pointer s.machine.heap.region.cursor) (stays _ _ function)
      (stays _ _ found) inside within
    rw [put, if_neg (by rintro ⟨rfl, rfl⟩; exact other.elim (absurd rfl) (absurd rfl))]
    exact typed.spared_word develops.spares found within
  refine ⟨fun g key pair housed _ held _ => ?_, words⟩
  rw [← held]
  refine typed.lookup_stays housed fun a x i found within part => words a x i found within ?_
  rcases part with ⟨slots', guarded, rfl⟩ | rfl
  · refine .inl fun same => ?_
    rw [same, function] at found
    cases found
  · exact .inr (by decide)

theorem State.Reassigns.words {s t : State ρ} {slots : Nat}
    (reassigns : s.Reassigns stubs strict Γ f v t) (function : Γ f.toNat = some (.function slots)) :
    t.machine.heap.word (f.toNat + 8 * 4) = .pointer s.machine.heap.region.cursor ∧
      t.machine.heap.word (s.machine.heap.region.cursor + 8 * 2) = v := by
  obtain ⟨h, rfl, develops, _, proto⟩ := reassigns
  have typed := develops.furnished.typed
  have function' := develops.evolves.stays _ _ function
  have inside : 4 < (Shape.function slots).words := Shape.lt_function_words (by decide)
  have map := typed.word_put (w := .pointer s.machine.heap.region.cursor) function'
    Inventory.set_same inside (j := 2) (by decide : 2 < 5)
  exact ⟨(typed.word_put function' function' inside inside).trans (if_pos ⟨rfl, rfl⟩),
    (map.trans (if_neg fun same => absurd same.2 (by decide))).trans proto⟩

/-- At addresses below the cursor nothing else is to be read. -/
theorem State.Reassigns.rereads {s t : State ρ} {slots a : Nat}
    (reassigns : s.Reassigns stubs strict Γ f v t) (typed : Typed strict Γ s.machine.heap)
    (function : Γ f.toNat = some (.function slots))
    (size : t.machine.heap.capacity = s.machine.heap.capacity)
    (below : a < s.machine.heap.region.cursor)
    (other : a ≠ f.toNat + Layout.Function.instanceMap) :
    t.machine.heap.read a = s.machine.heap.read a := by
  have same : t.machine.heap.hasWord a = s.machine.heap.hasWord a := by simp only [hasWord, size]
  cases inside : s.machine.heap.hasWord a with
  | false =>
    rw [Heap.read, Heap.read, same, inside]
    rfl
  | true =>
    obtain ⟨_, aligned, _⟩ := hasWord_iff.mp inside
    obtain ⟨_, aligned', _, _⟩ := typed.inside function
    rw [read_eq (same.trans inside), read_eq inside]
    obtain ⟨h, rfl, develops, _⟩ := reassigns
    have kept : (h.put (f.toNat + 8 * 4) (.pointer s.machine.heap.region.cursor)).word a =
        h.word a := word_put_other (by omega) aligned other
    exact congrArg _ (kept.trans (develops.spares.words a aligned below))

section

variable {s : State ρ} (library : Library stubs) (furnished : Furnished stubs strict Γ s.machine)
  (host : Host ρ) (fuel : Nat)

include library furnished

/-- Where the setter of a function is in the way, an assignment comes to a call of it. -/
theorem Library.setter_assigns {setter : Word} {slots : Nat}
    (code : Γ setter.toNat = some (.code .setter index))
    (function : Γ f.toNat = some (.function slots)) (data : Γ.Data v) :
    Yields (do
        let _ ← callValue (invoke host (fuel + 4)) setter f [v]
        return .undefined : Exec ρ Word) s
      (fun w t => w = .undefined ∧ s.Reassigns stubs strict Γ f v t)
      fun e t => t = s ∧ (s.machine.depth + 1 < s.machine.maxDepth →
        s.machine.heap.region.cursor + Layout.Map.size < 0x8000000000000000 →
        e = .trap (.unhandled .collection)) := by
  obtain ⟨stub, rfl, called⟩ := furnished.callValue_code code (invoke host (fuel + 4)) f [v]
  have inside : 4 < (Shape.function slots).words := Shape.lt_function_words (by decide)
  refine (Yields.congr called (library.setter_replaces furnished host fuel function inside
    data)).bind_mono ?_
  rintro _ t reassigns
  exact .pure ⟨rfl, reassigns⟩

/-- Assignments to `prototype` give equipped functions another instance map. -/
theorem Library.set_assigns {slots : Nat} (equips : Γ.Equips s.machine.heap f key pair)
    (function : Γ f.toNat = some (.function slots)) (data : Γ.Data v)
    (plain : s.machine.heap.isPair v = false) :
    Yields (Property.set (invoke host (fuel + 4)) f key v) s
      (fun w t => w = .undefined ∧ s.Reassigns stubs strict Γ f v t)
      fun e t => t = s ∧ (s.machine.depth + 1 < s.machine.maxDepth →
        s.machine.heap.region.cursor + Layout.Map.size < 0x8000000000000000 →
        e = .trap (.unhandled .collection)) := by
  have typed := furnished.typed
  have housed : Γ.Housed f true := ⟨slots, function⟩
  obtain ⟨i, own, rfl⟩ := equips.item typed housed
  rcases Property.set_diverts typed housed own plain (equips.paired typed)
      (invoke host (fuel + 4)) with ⟨hole, _⟩ | ⟨index, code, _, _, ran⟩
  · exact absurd hole equips.setter
  · exact Yields.congr ran (library.setter_assigns furnished host fuel code function data)

end

/-- Writes of plain values leave the pairs of functions where they are, and all words of functions
but those that say where the storage is and what map the instances have. The last changes only in a
function whose `prototype` is assigned. -/
theorem Library.set_spares {s : State ρ} (library : Library stubs)
    (furnished : Furnished stubs true Γ s.machine) (host : Host ρ) (fuel : Nat) {o k : Word}
    (obj : Γ.Value o) (data : Γ.Data v) (plain : s.machine.heap.isPair v = false) :
    Yields (Property.set (invoke host (fuel + 4)) o k v) s
      (fun _ t => ∃ h, t = s.withHeap h ∧ Γ.Retains s.machine.heap h ∧
        ∀ f slots, Γ f.toNat = some (.function slots) →
          (f = o → s.machine.heap.atoms.lookup "prototype" ≠ some k) →
          h.word (f.toNat + 8 * 4) = s.machine.heap.word (f.toNat + 8 * 4))
      fun _ t => t = s := by
  have typed := furnished.typed
  by_cases free : ∀ guarded i, Γ.Housed o guarded →
      s.machine.heap.own o k = some (.item i) →
      s.machine.heap.isPair v = true ∨ s.machine.heap.isPair (s.machine.heap.value o i) = false
  · refine (Property.set_writes typed obj v (invoke host (fuel + 4)) free).mono ?_
      fun _ _ failed => failed
    rintro _ t (rfl | ⟨guarded, h, housed, rfl, written⟩)
    · exact ⟨_, rfl, fun _ _ _ _ _ held _ => held, fun _ _ _ _ => rfl⟩
    · refine ⟨h, rfl, fun g key pair function real held paired => ?_, fun g slots function _ => ?_⟩
      · exact typed.written_lookup housed function written real plain
          (fun i => free guarded i housed) held paired
      · exact typed.written_word housed written function (by simp only [Shape.words]; omega)
          nofun (.inr (by decide))
  · simp only [not_forall, not_or, Bool.not_eq_true, Bool.not_eq_false] at free
    obtain ⟨guarded, i, housed, own, _, paired⟩ := free
    rcases Property.set_diverts typed housed own plain paired (invoke host (fuel + 4)) with
      ⟨_, ran⟩ | ⟨index, code, rfl, named, ran⟩
    · exact .of_ok ran ⟨_, rfl, fun _ _ _ _ _ held _ => held, fun _ _ _ _ => rfl⟩
    obtain ⟨slots, function⟩ := housed
    refine Yields.congr ran ((library.setter_assigns furnished host fuel code function data).mono
      ?_ fun _ _ failed => failed.1)
    rintro _ t ⟨_, reassigns⟩
    obtain ⟨retains, words⟩ := reassigns.retains typed function
    obtain ⟨h, rfl, _⟩ := reassigns
    refine ⟨_, rfl, retains, fun g slots' function' other => ?_⟩
    refine words _ _ 4 function' (by simp only [Shape.words]; omega) (.inl fun same => ?_)
    exact other (Word.ext_toNat same) (named rfl)

/-- Functions can be made on furnished machines whose stubs are honest. -/
theorem Furnished.ready {m : Machine} (furnished : Furnished stubs strict Γ m)
    (honest : ∀ s ∈ m.code, s.Honest stubs) : m.Ready stubs 0 0 := by
  have typed := furnished.typed
  have hole := typed.rooted.hole
  refine ⟨typed.sound, Nat.lt_of_lt_of_le (Nat.lt_add_of_pos_right (by decide))
    (typed.inside hole).2.2.2, typed.no_atom, honest, fun x accessor known => ?_,
    fun x accessor w known => ⟨?_, .inr (Nat.zero_le _)⟩⟩
  · obtain ⟨r, index, stub, code, _⟩ := furnished.entities known
    cases hole.symm.trans code
  · obtain ⟨r, index, stub, code, held, same⟩ := furnished.entities known
    obtain rfl := honest stub (List.mem_of_getElem? held) x accessor same
    exact ⟨typed.spans code, typed.holds code 0 (by decide : 0 < 2), index,
      (furnished.code code).1, held, typed.holds code 1 (by decide : 1 < 2)⟩

/-- A complete function is equipped. -/
theorem Machine.Completes.equips {m m' : Machine} {n : Nat} {code outer getter setter : Word}
    {more : List Word} (library : Library stubs)
    (completes : m.Completes stubs n code outer key getter setter more m')
    (typed : Typed strict Γ m'.heap) (function : Γ.Housed (.pointer m.heap.region.cursor) true) :
    ∃ pair, Γ.Equips m'.heap (.pointer m.heap.region.cursor) key pair := by
  obtain ⟨p, complete, value, rfl, rfl⟩ : ∃ p : FunctionParts,
      m'.Complete stubs m.heap.region.cursor (.pointer m.heap.region.cursor) code outer n key p ∧
      m'.heap.value (.pointer m.heap.region.cursor) 0 = p.pair ∧ getter = p.getter ∧
      setter = p.setter := ⟨_, completes.complete library, completes.slotWord rfl, rfl, rfl⟩
  obtain ⟨i, bound, same, _⟩ := typed.own_item function completes.own
  cases same
  have item : m'.heap.itemOf (.pointer m.heap.region.cursor) key = some 0 := by
    have own := completes.own
    rw [typed.own_eq function] at own
    obtain ⟨j, item, same⟩ := Option.map_eq_some_iff.mp own
    cases same
    exact item
  have real {x : Shape} (found : Γ p.pair.toNat = some x) (inside : 2 < x.words) :
      m'.heap.word (p.pair.toNat + 8 * 1) ≠ .hole ∧
        m'.heap.word (p.pair.toNat + 8 * 2) ≠ .hole := by
    have present := completes.builds.ready.present
    have getter := (typed.load found (i := 1) (by omega)).symm.trans complete.getter
    have setter := (typed.load found (i := 2) inside).symm.trans complete.setter
    rw [Except.ok.inj getter, Except.ok.inj setter]
    exact ⟨fun hole => present prototypeGetter (by decide) (hole ▸ completes.getter),
      fun hole => present prototypeSetter (by decide) (hole ▸ completes.setter)⟩
  have paired : m'.heap.isPair p.pair = true := beq_iff_eq.mpr complete.pair
  have entity : Γ p.pair.toNat = some .pair :=
    ((typed.isPair (value ▸ typed.value function bound)).mp paired).resolve_right fun blank =>
      (real blank (by decide)).1 (typed.holds blank 1 (by decide : 1 < 4))
  obtain ⟨getter, setter⟩ := real entity (by decide)
  refine ⟨p.pair, completes.name, ?_, entity, getter, setter⟩
  rw [lookup, item, ← value]
  rfl

end FastPath
