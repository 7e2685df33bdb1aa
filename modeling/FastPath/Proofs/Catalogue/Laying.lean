import FastPath.Proofs.Catalogue.Fields
import FastPath.Proofs.Heap.Appending

/-! Where the stubs of the library put what they make: on any sound heap, whatever else stands
there, the words of a new entity come behind all that there was before. -/

namespace FastPath

open Catalogue Heap

/-- The state `t` is `s` with the words put behind the cursor of its heap, and nothing else. -/
def State.Lays (s : State ρ) (ws : List Word) (t : State ρ) : Prop :=
  ∃ h, t = s.withHeap h ∧ s.machine.heap.Appends ws h ∧ h.atoms = s.machine.heap.atoms

namespace State.Lays

variable {s t u : State ρ} {ws ws' : List Word} {j d offset : Nat} {w : Word}

theorem refl (sound : s.machine.heap.Sound) : s.Lays [] s := ⟨_, rfl, .refl sound, rfl⟩

theorem appends (lays : s.Lays ws t) : s.machine.heap.Appends ws t.machine.heap := by
  obtain ⟨h, rfl, appends, _⟩ := lays
  exact appends

theorem trans (first : s.Lays ws t) (second : t.Lays ws' u) : s.Lays (ws ++ ws') u := by
  obtain ⟨h, rfl, appends, atoms⟩ := first
  obtain ⟨h', rfl, appends', atoms'⟩ := second
  exact ⟨h', rfl, appends.trans appends', atoms'.trans atoms⟩

theorem deeper (lays : s.Lays ws t) : s.deeper.Lays ws t.deeper := by
  obtain ⟨h, rfl, appends, atoms⟩ := lays
  exact ⟨h, rfl, appends, atoms⟩

theorem shallower (lays : s.deeper.Lays ws t) : s.Lays ws t.shallower := by
  obtain ⟨h, rfl, appends, atoms⟩ := lays
  exact ⟨h, rfl, appends, atoms⟩

theorem code (lays : s.Lays ws t) : t.machine.code = s.machine.code := by
  obtain ⟨h, rfl, _⟩ := lays
  rfl

/-- One of the words is written. -/
theorem store {v : Word} (lays : s.Lays ws t)
    (place : v = .pointer (s.machine.heap.region.cursor + 8 * j)) (inside : j + d < ws.length)
    (part : offset = 8 * d) : ∃ u, Exec.onHeap (Heap.store v offset w) t = .ok () u ∧
      s.Lays (ws.set (j + d) w) u := by
  obtain ⟨h, rfl, appends, atoms⟩ := lays
  subst place part
  exact ⟨_, Exec.onHeap_ok (appends.store inside), _, rfl, appends.put inside, atoms⟩

theorem write {v : Word} (lays : s.Lays ws t)
    (place : v = .pointer (s.machine.heap.region.cursor + 8 * j)) (inside : j + d < ws.length)
    (part : offset = 8 * d) {next : Unit → Exec ρ β} {R : β → State ρ → Prop}
    {E : Halt → State ρ → Prop}
    (rest : ∀ u, s.Lays (ws.set (j + d) w) u → Yields (next ()) u R E) :
    Yields (Exec.onHeap (Heap.store v offset w) >>= next) t R E := by
  obtain ⟨u, stored, lays⟩ := lays.store place inside part
  exact .step stored (rest u lays)

end State.Lays

variable {s : State ρ}

theorem Heap.Grown.lays {h : Heap} {n : Nat} {w : Word} (grown : Grown s.machine.heap (n + 1) h)
    (sound : s.machine.heap.Sound) (map : h.word s.machine.heap.region.cursor = w) :
    ∃ ws, ws.length = n ∧ s.Lays (w :: ws) (s.withHeap h) := by
  obtain ⟨ws, length, appends⟩ := grown.stamped sound map
  exact ⟨ws, length, h, rfl, appends, grown.atoms⟩

/-- The words of an object with dictionary storage at an address. -/
def freshObject (a : Nat) : List Word :=
  [Kind.object.canonicalMap, .int Layout.Object.plain, .pointer (a + Layout.Object.size)] ++
    freshField (Layout.Object.items * Layout.Item.words)

@[simp] theorem freshObject_length {a : Nat} : (freshObject a).length = 29 := by
  simp [freshObject, Layout.Object.items, Layout.Item.words]

namespace Library

variable {stubs : String → Stub} (library : Library stubs) (sound : s.machine.heap.Sound)
  (host : Host ρ) (fuel : Nat) (self : Word)

include library sound

theorem allocTagged_puts {k : Kind} (tagged : k ∈ taggedKinds) {n : Nat}
    (small : n < 0x7fffffffffffffe) :
    Yields (invoke host (fuel + 3) (stubs (allocTagged k)) self [.int (8 * (n + 1) : Nat)]) s
      (fun w t => w = .pointer s.machine.heap.region.cursor ∧
        ∃ ws, ws.length = n ∧ s.Lays (k.canonicalMap :: ws) t) fun _ t => t = s := by
  refine (library.allocTagged_performs sound tagged (by omega) (by omega) host fuel self).mono ?_
    fun _ _ same => same
  rintro w _ ⟨h, allocated, rfl⟩
  rcases allocate_cases k sound (n := n) rfl with ⟨_, failed⟩ | ⟨h', made, grown, map⟩
  · cases allocated.symm.trans failed
  · cases allocated.symm.trans made
    exact ⟨rfl, grown.lays sound map⟩

theorem allocField_puts {n : Nat} (few : n < 0x4000000000000) :
    Yields (invoke host (fuel + 4) (stubs allocField) self [.int n]) s
      (fun w t => w = .pointer s.machine.heap.region.cursor ∧ s.Lays (freshField n) t)
      fun _ t => t = s := by
  refine (library.allocField_performs sound few host fuel self).mono ?_ fun _ _ same => same
  rintro w _ ⟨h, allocated, rfl⟩
  rcases allocateField_cases n sound with ⟨_, failed⟩ | ⟨h', made, field⟩
  · cases allocated.symm.trans failed
  · cases allocated.symm.trans made
    exact ⟨rfl, h, rfl, field.appends sound, field.grown.atoms⟩

omit sound in
/-- The object at the old cursor gets a storage behind the other words. -/
theorem object_puts {t : State ρ} {m x y : Word} {more : List Word}
    (lays : s.Lays (m :: x :: y :: more) t) :
    Yields (invoke host (fuel + 5) (stubs object) self
        [.pointer s.machine.heap.region.cursor]) t
      (fun _ u => s.Lays (m :: .int Layout.Object.plain ::
        .pointer (s.machine.heap.region.cursor + 8 * (more.length + 3)) :: more ++
          freshField (Layout.Object.items * Layout.Item.words)) u)
      fun _ u => ∃ ws, s.Lays ws u := by
  rw [library.invoke_graph Programs.objectConstructor object rfl, Programs.objectConstructor_run]
  refine Yields.nested ?_ fun _ => ⟨_, lays⟩
  refine ((library.allocField_puts (s := t.deeper) lays.appends.sound host fuel .undefined
    (by decide)).mono (fun _ _ made => made) ?_).bind_mono ?_
  · rintro _ _ rfl
    exact ⟨_, lays⟩
  rintro w u ⟨rfl, field⟩
  have cursor := lays.appends.cursor
  refine (lays.deeper.trans field).write (j := 0) (d := 2) rfl (by simp) rfl fun u lays => ?_
  refine lays.write (j := 0) (d := 1) rfl (by simp) rfl fun u lays => ?_
  refine .pure ?_
  rw [State.deeper_heap, cursor] at lays
  exact lays.shallower

theorem allocObject_puts :
    Yields (invoke host (fuel + 6) (stubs allocObject) self []) s
      (fun w t => w = .pointer s.machine.heap.region.cursor ∧
        s.Lays (freshObject s.machine.heap.region.cursor) t) fun _ t => ∃ ws, s.Lays ws t := by
  rw [library.invoke_graph Programs.plainObject allocObject rfl, Programs.plainObject_run]
  refine Yields.nested ?_ fun _ => ⟨_, .refl sound⟩
  refine ((library.allocTagged_puts (s := s.deeper) sound host (fuel + 2) .undefined (n := 2)
    (by decide) (by decide)).mono (fun _ _ made => made) ?_).bind_mono ?_
  · rintro _ _ rfl
    exact ⟨_, .refl sound⟩
  rintro w t ⟨rfl, ws, length, lays⟩
  obtain ⟨x, y, rfl⟩ := List.length_eq_two.mp length
  refine ((library.object_puts (s := s.deeper) host fuel .undefined lays).mono
    (fun _ _ made => made) ?_).bind_mono ?_
  · rintro _ u ⟨ws, lays⟩
    exact ⟨_, lays.shallower⟩
  · intro _ u lays
    exact .pure ⟨rfl, lays.shallower⟩

theorem allocAccessPair_puts :
    Yields (invoke host (fuel + 4) (stubs allocAccessPair) self []) s
      (fun w t => w = .pointer s.machine.heap.region.cursor ∧
        s.Lays [Kind.accessPair.canonicalMap, .hole, .hole, .int Layout.Pair.fresh] t)
      fun _ t => ∃ ws, s.Lays ws t := by
  rw [library.invoke_graph Programs.accessPair allocAccessPair rfl, Programs.accessPair_run]
  refine Yields.nested ?_ fun _ => ⟨_, .refl sound⟩
  refine ((library.allocTagged_puts (s := s.deeper) sound host fuel .undefined (n := 3)
    (by decide) (by decide)).mono (fun _ _ made => made) ?_).bind_mono ?_
  · rintro _ _ rfl
    exact ⟨_, .refl sound⟩
  rintro w t ⟨rfl, ws, length, lays⟩
  obtain ⟨x, y, z, rfl⟩ := List.length_eq_three.mp length
  refine lays.write (j := 0) (d := 1) rfl (by simp) rfl fun u lays => ?_
  refine lays.write (j := 0) (d := 2) rfl (by simp) rfl fun u lays => ?_
  refine lays.write (j := 0) (d := 3) rfl (by simp) rfl fun u lays => ?_
  exact .pure ⟨rfl, lays.shallower⟩

end Library

end FastPath
