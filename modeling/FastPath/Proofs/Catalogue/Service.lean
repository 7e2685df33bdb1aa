import FastPath.Proofs.Catalogue.Constructions

/-! Property accesses on furnished machines. All that accessors do is to read and to replace the
instance map of a function, so an access leaves the machine furnished; and a read changes nothing,
also when it fails. -/

namespace FastPath

open Catalogue Heap

variable {stubs : String → Stub} {strict shared : Bool} {Γ Γ' : Inventory shared} {s : State ρ}
  {New New' : Nat → Shape → Prop}

/-- The machine is furnished, with all that was in the heap `h` in its place. -/
structure Continues (stubs : String → Stub) (strict : Bool) (New : Nat → Shape → Prop)
    (Γ : Inventory shared) (h : Heap) (Γ' : Inventory shared) (m : Machine) : Prop where
  furnished : Furnished stubs strict Γ' m
  evolves : Evolves New Γ h Γ' m.heap

theorem Develops.continues {h : Heap} {m : Machine}
    (develops : Develops stubs strict New Γ h Γ' m) : Continues stubs strict New Γ h Γ' m :=
  ⟨develops.furnished, develops.evolves⟩

namespace Continues

theorem refl {m : Machine} (furnished : Furnished stubs strict Γ m) (New : Nat → Shape → Prop) :
    Continues stubs strict New Γ m.heap Γ m :=
  ⟨furnished, .refl New Γ m.heap⟩

/-- Complete entities have come, and none of them is a Code entity. -/
theorem complete {h : Heap} {m : Machine} (furnished : Furnished stubs strict Γ m)
    (typed : Typed strict Γ' h) (evolves : Evolves Complete Γ m.heap Γ' h) :
    Continues stubs strict Whole Γ m.heap Γ' { m with heap := h } := by
  refine ⟨furnished.withHeap typed evolves.stays.settles ?_, evolves.mono fun _ _ new => new.2⟩
  intro a r index found
  refine (evolves.new found).resolve_right fun new => ?_
  cases new.1

end Continues

/-- However the action ends, the machine stays furnished; if it returns, then all that is new is
complete. -/
def Serves (stubs : String → Stub) (strict : Bool) (Γ : Inventory shared) (act : Exec ρ α)
    (s : State ρ) (Q : Inventory shared → α → Prop) : Prop :=
  Yields act s
    (fun a t => ∃ Γ', Continues stubs strict Whole Γ s.machine.heap Γ' t.machine ∧ Q Γ' a)
    fun _ t => ∃ Γ', Continues stubs strict Anything Γ s.machine.heap Γ' t.machine

theorem Makes.serves {act : Exec ρ α} {Q : Inventory shared → α → State ρ → Prop}
    {Q' : Inventory shared → α → Prop} (makes : Makes stubs strict Γ act s Q)
    (weaker : ∀ Γ' a t, Develops stubs strict Whole Γ s.machine.heap Γ' t.machine → Q Γ' a t →
      Q' Γ' a) : Serves stubs strict Γ act s Q' := by
  refine Yields.mono makes ?_ ?_
  · rintro a t ⟨Γ', develops, met⟩
    exact ⟨Γ', develops.continues, weaker Γ' a t develops met⟩
  · rintro e t ⟨Γ', develops⟩
    exact ⟨Γ', develops.continues⟩

theorem Serves.mono {act : Exec ρ α} {Q Q' : Inventory shared → α → Prop}
    (serves : Serves stubs strict Γ act s Q)
    (weaker : ∀ Γ' h a, Typed strict Γ' h → Q Γ' a → Q' Γ' a) :
    Serves stubs strict Γ act s Q' := by
  refine Yields.mono serves ?_ fun _ _ failed => failed
  rintro a t ⟨Γ', continues_, met⟩
  exact ⟨Γ', continues_, weaker Γ' _ a continues_.furnished.typed met⟩

/-- What stands in the way of a read is the getter of some function, and only objects and functions
can have it in their way. -/
theorem Heap.Typed.getter_found {h : Heap} {o k callee : Word} (typed : Typed strict Γ h)
    (value : Γ.Value o) (found : h.find o k = .ok (.getter callee)) :
    (∃ index, Γ callee.toNat = some (.code .getter index)) ∧
      (strict = true → h.atoms.lookup "prototype" = some k) ∧
      ((∃ slots, Γ o.toNat = some (.function slots)) ∨ Γ o.toNat = some .object) := by
  obtain ⟨r, read, fits⟩ := typed.findFrom k hopLimit value
  have found : h.findFrom k hopLimit o = .ok (.getter callee) := found
  cases Except.ok.inj (read.symm.trans found)
  refine ⟨fits.1, fits.2, ?_⟩
  rw [hopLimit, Heap.findFrom] at found
  split at found
  · cases found
  next entity =>
    rcases value with int | ⟨x, held, handled⟩
    · simp [int] at entity
    have finished := Shape.finished_of_handled handled
    by_cases plain : x = .object
    · exact .inr (plain ▸ held)
    obtain ⟨m, p, mapped, proto, _, null⟩ := typed.prototype held finished
    obtain rfl := null plain
    have kind := typed.kind held finished
    have away : h.isObjectLike o = true ∨ h.ownSlot o k = .ok none := by
      by_cases object : h.isObjectLike o = true
      · exact .inl object
      · right
        rw [Heap.ownSlot, Heap.storage?, if_neg object]
        rfl
    rcases away with object | absent
    · rw [Heap.isObjectLike, kind] at object
      cases x with
      | function slots => exact .inl ⟨slots, held⟩
      | object => exact absurd rfl plain
      | draft => cases handled
      | _ => cases object
    · rw [absent] at found
      simp only [bind, Except.bind, mapped, proto] at found
      cases found

/-- A read that finds a getter comes to a call of the getter. -/
theorem Furnished.get_calls (furnished : Furnished stubs strict Γ s.machine) {o k callee : Word}
    (obj : Γ.Value o) (found : s.machine.heap.find o k = .ok (.getter callee))
    (calls : Invoke ρ) : Property.get calls o k s = calls (stubs prototypeGetter) o [] s := by
  obtain ⟨⟨index, code⟩, _⟩ := furnished.typed.getter_found obj found
  obtain ⟨stub, rfl, called⟩ := furnished.callValue_code code calls o []
  exact (estate_bind_of_ok (Exec.query_ok (f := fun h => h.find o k) found)).trans called

namespace Library

variable (library : Library stubs) (furnished : Furnished stubs strict Γ s.machine)
  (host : Host ρ) (fuel : Nat) {o k v : Word}

include library furnished

/-- A write stores the value, or runs the setter of a function. -/
theorem set_serves (obj : Γ.Value o) (key : Γ.Value k) (value : Γ.Value v)
    (loose : Γ.Housed o false → Γ.Data v) (plain : strict = true → Γ.Data v) :
    Serves stubs strict Γ (Property.set (invoke host (fuel + 4)) o k v) s
      fun _ w => w = .undefined := by
  rcases Property.set_typed furnished.typed (invoke host (fuel + 4)) obj key value loose plain with
    ⟨e, failed⟩ | ⟨h, Γ', written, typed, evolves⟩ | ⟨setter, index, code, housed, data, ran⟩
  · exact .of_error failed ⟨Γ, .refl furnished _⟩
  · exact .of_ok written ⟨Γ', .complete furnished typed evolves, rfl⟩
  obtain ⟨slots, found⟩ := housed
  have inside : 4 < (Shape.function slots).words := Shape.lt_function_words (by decide)
  obtain ⟨stub, rfl, called⟩ := furnished.callValue_code code (invoke host (fuel + 4)) o [v]
  refine Yields.congr ran (Yields.bind_mono (Yields.congr called
    ((library.setter_replaces furnished host fuel found inside data).mono
      (fun _ _ met => met) ?_)) ?_)
  · rintro _ _ ⟨rfl, _⟩
    exact ⟨Γ, .refl furnished _⟩
  rintro _ _ ⟨h, rfl, develops, _⟩
  have there : Γ.set s.machine.heap.region.cursor .instanceMap
      (Word.pointer s.machine.heap.region.cursor).toNat = some .instanceMap :=
    furnished.typed.at_cursor
  have typed := develops.furnished.typed
  have found' := develops.evolves.stays _ _ found
  have amended := develops.furnished.withHeap (typed.put_plain found' inside there
    fun _ same => by cases same) (Inventory.Extends.refl _).settles fun _ _ _ code => code
  exact .pure ⟨_, ⟨amended, develops.evolves.put typed found' inside (.inr rfl)⟩, rfl⟩

/-- A read changes nothing. -/
theorem get_reads (obj : Γ.Value o) (k : Word) :
    Yields (Property.get (invoke host (fuel + 2)) o k) s (fun w t => t = s ∧ Γ.Data w)
      fun _ t => t = s := by
  obtain ⟨r, read, fits⟩ := furnished.typed.findFrom k hopLimit obj
  have found : s.machine.heap.find o k = .ok r := read
  cases r with
  | value w => exact .step (Exec.query_ok found) (.pure ⟨rfl, fits⟩)
  | getter callee =>
    refine Yields.congr (furnished.get_calls obj found _) ?_
    by_cases depth : s.machine.depth < s.machine.maxDepth
    · rcases (furnished.typed.getter_found obj found).2.2 with ⟨slots, function⟩ | object
      · obtain ⟨p, ran, data⟩ := library.getter_reads furnished host fuel [] depth function
        exact .of_ok ran ⟨rfl, data⟩
      · obtain ⟨n, ran⟩ := library.getter_aborts furnished host fuel [] depth object
        exact .of_error ran rfl
    · rw [invoke_succ]
      exact .of_error (by rw [Exec.nested_eq, if_neg depth]) rfl

/-- Only where the getter of a function would run on a plain object, a read does not return. -/
theorem get_returns (obj : Γ.Value o) (depth : s.machine.depth < s.machine.maxDepth)
    (apt : Γ o.toNat = some .object →
      ∀ callee, s.machine.heap.find o k ≠ .ok (.getter callee)) :
    ∃ w, Property.get (invoke host (fuel + 2)) o k s = .ok w s := by
  obtain ⟨r, read, _⟩ := furnished.typed.findFrom k hopLimit obj
  have found : s.machine.heap.find o k = .ok r := read
  cases r with
  | value w =>
    exact ⟨w, estate_bind_of_ok (Exec.query_ok (f := fun h => h.find o k) found)⟩
  | getter callee =>
    rcases (furnished.typed.getter_found obj found).2.2 with ⟨slots, function⟩ | object
    · obtain ⟨p, ran, _⟩ := library.getter_reads furnished host fuel [] depth function
      exact ⟨p, (furnished.get_calls obj found _).trans ran⟩
    · exact absurd found (apt object callee)

theorem get_aborts {callee : Word} (depth : s.machine.depth < s.machine.maxDepth)
    (object : Γ o.toNat = some .object)
    (found : s.machine.heap.find o k = .ok (.getter callee)) :
    ∃ n : Nat, Property.get (invoke host (fuel + 2)) o k s =
      .error (.trap (.fatal (.heapAccess (.notPointer (.int n))))) s := by
  obtain ⟨n, ran⟩ := library.getter_aborts furnished host fuel [] depth object
  exact ⟨n, (furnished.get_calls (.inr ⟨_, object, rfl⟩) found _).trans ran⟩

theorem get_serves (obj : Γ.Value o) (k : Word) :
    Serves stubs strict Γ (Property.get (invoke host (fuel + 2)) o k) s fun Γ' w => Γ'.Data w := by
  refine (library.get_reads furnished host fuel obj k).mono ?_ ?_
  · rintro w _ ⟨rfl, data⟩
    exact ⟨Γ, .refl furnished _, data⟩
  · rintro _ _ rfl
    exact ⟨Γ, .refl furnished _⟩

end Library

theorem Furnished.delete_serves (furnished : Furnished stubs strict Γ s.machine) {o : Word}
    (obj : Γ.Value o) (k : Word) :
    Serves stubs strict Γ (Property.delete o k) s fun _ w => w = .boolean true := by
  obtain ⟨h, deleted, typed, evolves⟩ := Property.delete_typed furnished.typed obj k
  exact .of_ok deleted ⟨Γ, .complete furnished typed (evolves Complete), rfl⟩

/-- A slot lookup gives the number of an item of a plain object, or `undefined`. -/
theorem Furnished.slot_looks {s : State PropertyHost}
    (furnished : Furnished stubs strict Γ s.machine) {o k : Word} (id : CacheId) (obj : Γ.Value o)
    (key : Γ.Value k) (update : Bool) :
    Yields (PropertyHost.slot id o k update) s
      (fun w t => ∃ Γ', Continues stubs strict Whole Γ s.machine.heap Γ' t.machine ∧
        (w = .undefined ∨ Γ'.Housed o false ∧ ∃ i < t.machine.heap.items o, i < 0x100000000 ∧
          w = .int i ∧ t.machine.heap.key o i = k))
      fun _ t => ∃ Γ', Continues stubs strict Anything Γ s.machine.heap Γ' t.machine := by
  rcases Property.slot?_typed furnished.typed obj key update with
    ⟨e, failed⟩ | ⟨r, h, Γ', looked, typed, evolves, kept⟩
  · exact .of_error (PropertyHost.slot_error failed) ⟨Γ, .refl furnished _⟩
  have complete := Continues.complete furnished typed evolves
  cases r with
  | none => exact .of_ok (PropertyHost.slot_none looked) ⟨Γ', complete, .inl rfl⟩
  | some sl =>
    obtain ⟨housed, i, bound, rfl, keyed⟩ := kept sl rfl
    have housed := housed.mono evolves.stays
    have noted : PropertyHost.slot id o k update s = _ :=
      PropertyHost.slot_some looked typed.sound (typed.backed housed).object
    by_cases small : i < 0x100000000
    · rw [Slot.index, if_pos small] at noted
      exact .of_ok noted ⟨Γ', complete, .inr ⟨housed, i, bound, small, rfl, keyed⟩⟩
    · rw [Slot.index, if_neg small] at noted
      exact .of_ok noted ⟨Γ', complete, .inl rfl⟩

end FastPath
