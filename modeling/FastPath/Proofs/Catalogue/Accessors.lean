import FastPath.Proofs.Catalogue.Entities

/-! The accessors of `prototype`. Functions have an instance map, whose prototype the getter reads
and which the setter replaces. What the getter finds in an object in its place is no map at all. -/

namespace FastPath

open Catalogue Heap

variable {stubs : String → Stub} {strict shared : Bool} {Γ Γ' : Inventory shared} {s : State ρ}

namespace Library

variable (library : Library stubs) (furnished : Furnished stubs strict Γ s.machine)
  (host : Host ρ) (fuel : Nat)

section

variable (args : List Word) (depth : s.machine.depth < s.machine.maxDepth)

include library furnished depth

theorem getter_gets {self : Word} {slots : Nat} (found : Γ self.toNat = some (.function slots)) :
    invoke host (fuel + 2) (stubs prototypeGetter) self args s = .ok (s.machine.heap.word
      ((s.machine.heap.word (self.toNat + 8 * 4)).toNat + 8 * 2)) s := by
  obtain ⟨first, map⟩ := furnished.typed.instanceMap found
  have second := furnished.typed.load map (i := 2) (by decide)
  rw [library.invoke_graph Programs.readPrototype prototypeGetter rfl, Programs.readPrototype_run]
  refine Exec.nested_ok (t := s.deeper) depth ?_
  rw [estate_bind_of_ok (Exec.query_ok first)]
  exact Exec.query_ok second

theorem getter_reads {self : Word} {slots : Nat} (found : Γ self.toNat = some (.function slots)) :
    ∃ p, invoke host (fuel + 2) (stubs prototypeGetter) self args s = .ok p s ∧ Γ.Data p := by
  obtain ⟨_, map⟩ := furnished.typed.instanceMap found
  exact ⟨_, library.getter_gets furnished host fuel args depth found,
    (furnished.typed.holds map 2 (by decide)).1⟩

/-- Behind an object comes the field that it was made with, and the length of that field is where
a function has its instance map. -/
theorem getter_aborts {self : Word} (found : Γ self.toNat = some .object) :
    ∃ n : Nat, invoke host (fuel + 2) (stubs prototypeGetter) self args s =
      .error (.trap (.fatal (.heapAccess (.notPointer (.int n))))) s := by
  have typed := furnished.typed
  obtain ⟨n, guarded, field⟩ := typed.flanked found
  refine ⟨n, ?_⟩
  obtain ⟨start, aligned, _, _⟩ := typed.inside found
  obtain ⟨_, _, _, fits⟩ := typed.inside field
  have bounded := typed.sound.bounded
  have backed := typed.sound.backed
  simp only [Shape.words] at fits
  have length : s.machine.heap.word (self.toNat + 32) = .int n :=
    typed.holds field 1 (by simp only [Shape.words]; omega)
  have first : s.machine.heap.load self Layout.Function.instanceMap = .ok (.int n) := by
    have there : s.machine.heap.hasWord (self.toNat + 32) = true :=
      hasWord_iff.mpr ⟨by omega, by omega, by omega⟩
    have small := typed.sound.small
    have place : Layout.Function.instanceMap = 32 := rfl
    rw [load_eq (addressOf_aligned start aligned) (by omega), place, read_eq there, length]
  have second : s.machine.heap.load (.int n) Layout.Map.proto =
      .error (.notPointer (.int n)) := by
    rw [load, addressOf, Word.address?, Word.isInt_int]
    rfl
  have failed : (do
      let map ← Exec.query fun h => h.load self Layout.Function.instanceMap
      Exec.query fun h => h.load map Layout.Map.proto : Exec ρ Word) s.deeper =
        .error (.trap (.fatal (.heapAccess (.notPointer (.int n))))) s.deeper :=
    (estate_bind_of_ok (Exec.query_ok first)).trans
      (Exec.query_error (e := .notPointer (.int n)) second)
  rw [library.invoke_graph Programs.readPrototype prototypeGetter rfl, Programs.readPrototype_run,
    Exec.nested_eq, if_pos depth, failed]
  rfl

end

include library furnished

/-- The receiver gets an instance map that was not there before. For that nothing is needed but the
bytes of the map, if both calls may be made. -/
theorem setter_replaces {self proto : Word} {x : Shape} (found : Γ self.toNat = some x)
    (inside : 4 < x.words) (data : Γ.Data proto) :
    Yields (invoke host (fuel + 4) (stubs prototypeSetter) self [proto]) s
      (fun _ t => ∃ h, t = s.withHeap (h.put (self.toNat + Layout.Function.instanceMap)
          (.pointer s.machine.heap.region.cursor)) ∧
        Develops stubs strict Whole Γ s.machine.heap
          (Γ.set s.machine.heap.region.cursor .instanceMap) { s.machine with heap := h } ∧
        h.region.cursor = s.machine.heap.region.cursor + Layout.Map.size ∧
        h.word (s.machine.heap.region.cursor + 8 * 2) = proto)
      fun e t => t = s ∧ (s.machine.depth + 1 < s.machine.maxDepth →
        s.machine.heap.region.cursor + Layout.Map.size < 0x8000000000000000 →
        e = .trap (.unhandled .collection)) := by
  rw [library.invoke_graph Programs.writePrototype prototypeSetter rfl, Programs.writePrototype_run]
  refine Yields.nested ?_ fun deep => ⟨rfl, fun room => absurd (Nat.lt_of_succ_lt room) deep⟩
  have typed := furnished.typed
  have place := typed.sound.toNat_cursor
  have fresh := typed.fresh
  refine (((library.allocTagged_drafts (s := s.deeper) (furnished.at_depth _) host fuel .undefined
    (n := 4) (by decide) (by decide)).and (library.allocTagged_fails (s := s.deeper) typed.sound
      (by decide) (by decide) (by decide) host fuel .undefined)).mono (fun _ _ made => made)
        ?_).bind_mono ?_
  · rintro e _ ⟨rfl, failed⟩
    exact ⟨rfl, failed⟩
  rintro w t ⟨⟨rfl, ⟨h, grown, rfl⟩, drafted⟩, _⟩
  refine drafted.write fresh (Nat.le_refl _) Inventory.set_same (i := 3) (by decide) place
    (.exactly .hole) rfl fun drafted => ?_
  refine drafted.write fresh (Nat.le_refl _) Inventory.set_same (i := 4) (by decide) place
    (.exactly .hole) rfl fun drafted => ?_
  refine drafted.write fresh (Nat.le_refl _) Inventory.set_same (i := 1) (by decide) place
    (.exactly (.int Layout.Map.plain)) rfl fun drafted => ?_
  refine drafted.write fresh (Nat.le_refl _) Inventory.set_same (i := 2) (by decide) place
    (.exactly proto) rfl fun drafted => ?_
  have held := drafted.furnished.typed.holds Inventory.set_same 2 (by decide : 2 < 5)
  have whole := drafted.finish fresh (x := .instanceMap) Inventory.set_same rfl ?_
    nofun nofun rfl rfl
  · have stored := whole.furnished.typed.store (v := .pointer s.machine.heap.region.cursor)
      (whole.evolves.stays _ _ found) inside
    rw [Inventory.set_set, Inventory.set_set, Inventory.set_set, Inventory.set_set,
      Inventory.set_set] at whole
    simp only [State.withHeap_withHeap, State.withHeap_heap, State.deeper_heap]
      at stored whole ⊢
    exact .step (Exec.onHeap_ok stored)
      (.pure ⟨_, State.shallower_deeper s _, whole.shallower, grown.cursor, held⟩)
  · have hole := drafted.furnished.typed.rooted.hole
    rintro (_ | _ | _ | _ | _ | i) bound w accepts
    · exact accepts
    · exact accepts
    · cases accepts
      exact ⟨data.mono drafted.evolves.stays.settles, typed.older data.value⟩
    · cases accepts
      exact .inr ⟨_, hole, rfl⟩
    · exact accepts
    · omega

end Library

end FastPath
