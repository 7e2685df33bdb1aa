import FastPath.Proofs.Catalogue.Furnished

/-! The stubs that make objects, accessor pairs and instance maps. A call that returns leaves a
furnished machine with one more entity, and a call that fails leaves at most drafts behind. -/

namespace FastPath

open Catalogue Heap

variable {stubs : String → Stub} {strict shared : Bool} {Γ Γ' : Inventory shared} {s : State ρ}
  {New : Nat → Shape → Prop}

/-- A word of the entity that is being filled in is written, and the rest follows. -/
theorem Develops.write {h : Heap} {a i n : Nat} {content : Nat → Content} {v w : Word}
    (develops : Develops stubs strict (WholeBut a) Γ h Γ' s.machine) (fresh : Γ a = none)
    (beyond : h.region.cursor ≤ a) (draft : Γ' a = some (.draft n content)) (inside : i < n)
    (place : v.toNat = a) (c : Content) (accepts : c.Accepts Γ' a w)
    {next : Unit → Exec ρ β} {R : β → State ρ → Prop} {E : Halt → State ρ → Prop}
    (rest : Develops stubs strict (WholeBut a) Γ h
        (Γ'.set a (.draft n (Function.update content i c)))
        (s.withHeap (s.machine.heap.put (a + 8 * i) w)).machine →
      Yields (next ()) (s.withHeap (s.machine.heap.put (a + 8 * i) w)) R E) :
    Yields (Exec.onHeap (Heap.store v (8 * i) w) >>= next) s R E := by
  subst place
  have stored := develops.furnished.typed.store (v := w) draft inside
  exact .step (Exec.onHeap_ok stored) (rest (develops.fill_in fresh beyond draft inside c accepts))

/-- A word of a new entity is replaced, and the rest follows. -/
theorem Develops.amend {h : Heap} {p i : Nat} {v w : Word} {x : Shape}
    (develops : Develops stubs strict New Γ h Γ' s.machine) (found : Γ' p = some x)
    (fresh : Γ p = none) (beyond : h.region.cursor ≤ p) (inside : i < x.words)
    (place : v.toNat = p) (accepts : (x.content i).Accepts Γ' p w)
    (other : ∀ slots, x ≠ .field slots true)
    {next : Unit → Exec ρ β} {R : β → State ρ → Prop} {E : Halt → State ρ → Prop}
    (rest : Develops stubs strict New Γ h Γ'
        (s.withHeap (s.machine.heap.put (p + 8 * i) w)).machine →
      Yields (next ()) (s.withHeap (s.machine.heap.put (p + 8 * i) w)) R E) :
    Yields (Exec.onHeap (Heap.store v (8 * i) w) >>= next) s R E := by
  subst place
  have stored := develops.furnished.typed.store (v := w) found inside
  exact .step (Exec.onHeap_ok stored) (rest (develops.put found fresh beyond inside accepts other))

namespace Library

variable (library : Library stubs) (furnished : Furnished stubs strict Γ s.machine)
  (host : Host ρ) (fuel : Nat) (self : Word)

include library furnished

/-- Allocation gives a draft. -/
theorem allocTagged_drafts {k : Kind} {n : Nat} (tagged : k ∈ taggedKinds)
    (small : n < 0x8000000000000) :
    Yields (invoke host (fuel + 3) (stubs (allocTagged k)) self [.int (8 * (n + 1) : Nat)]) s
      (fun w t => w = .pointer s.machine.heap.region.cursor ∧
        (∃ h, Grown s.machine.heap (n + 1) h ∧ t = s.withHeap h) ∧
        Develops stubs strict (WholeBut s.machine.heap.region.cursor) Γ s.machine.heap
          (Γ.set s.machine.heap.region.cursor (.draft (n + 1) (stamp k))) t.machine)
      fun _ t => t = s := by
  have typed := furnished.typed
  refine (library.allocTagged_performs typed.sound tagged (by omega) (by omega) host fuel
    self).mono ?_ fun _ _ same => same
  rintro w _ ⟨h, allocated, rfl⟩
  obtain ⟨rfl, grown, made⟩ := (typed.allocate k n).ok allocated
  exact ⟨rfl, ⟨h, grown, rfl⟩, furnished.withHeap made (Inventory.extends_set typed.fresh).settles
    fun _ _ _ => Inventory.code_of_set rfl, .grow typed grown (.inl rfl), grown.spares⟩

/-- A field of holes, which may serve as the storage of an object or of a function. -/
theorem allocField_makes {n : Nat} (few : n < 0x4000000000000) (guarded : Bool) :
    Yields (invoke host (fuel + 4) (stubs allocField) self [.int n]) s
      (fun w t => w = .pointer s.machine.heap.region.cursor ∧
        FreshField s.machine.heap n t.machine.heap ∧
        Develops stubs strict Whole Γ s.machine.heap
          (Γ.set s.machine.heap.region.cursor (.field n guarded)) t.machine)
      fun _ t => t = s := by
  have typed := furnished.typed
  refine (library.allocField_performs typed.sound few host fuel self).mono ?_ fun _ _ same => same
  rintro w _ ⟨h, allocated, rfl⟩
  rcases allocateField_cases n typed.sound with ⟨_, failed⟩ | ⟨h', made, field⟩
  · cases allocated.symm.trans failed
  cases allocated.symm.trans made
  exact ⟨rfl, field, furnished.withHeap (typed.field field guarded)
    (Inventory.extends_set typed.fresh).settles fun _ _ _ => Inventory.code_of_set rfl,
    .grow typed field.grown rfl, field.grown.spares⟩

/-- A pair without accessors, which may stay so or become that of a function. -/
theorem allocAccessPair_makes {x : Shape} (bare : x = .pair ∨ x = .blank) :
    Makes stubs strict Γ (invoke host (fuel + 4) (stubs allocAccessPair) self []) s
      fun Γ' w _ => w = .pointer s.machine.heap.region.cursor ∧
        Γ' s.machine.heap.region.cursor = some x := by
  rw [library.invoke_graph Programs.accessPair allocAccessPair rfl, Programs.accessPair_run]
  refine Yields.nested ?_ fun _ => ⟨Γ, .refl furnished _⟩
  have typed := furnished.typed
  have place := typed.sound.toNat_cursor
  have fresh := typed.fresh
  refine ((library.allocTagged_drafts (s := s.deeper) (furnished.at_depth _) host fuel .undefined
    (n := 3) (by decide) (by decide)).mono (fun _ _ made => made) ?_).bind_mono ?_
  · rintro _ _ rfl
    exact ⟨Γ, .refl furnished _⟩
  rintro w t ⟨rfl, _, drafted⟩
  refine drafted.write fresh (Nat.le_refl _) Inventory.set_same (i := 1) (by decide) place
    (.exactly .hole) rfl fun drafted => ?_
  refine drafted.write fresh (Nat.le_refl _) Inventory.set_same (i := 2) (by decide) place
    (.exactly .hole) rfl fun drafted => ?_
  refine drafted.write fresh (Nat.le_refl _) Inventory.set_same (i := 3) (by decide) place
    .int ⟨_, Word.int?_int (by decide)⟩ fun drafted => ?_
  have whole := drafted.finish fresh (x := x) Inventory.set_same ?size ?agree ?plain ?flanked
    ?finished ?other
  · exact .pure ⟨_, whole.at_depth _, rfl, Inventory.set_same⟩
  case agree =>
    rintro (_ | _ | _ | _ | i) bound w accepts
    · rcases bare with rfl | rfl <;> exact accepts
    · rcases bare with rfl | rfl
      · exact .inl accepts
      · exact accepts
    · rcases bare with rfl | rfl
      · exact .inl accepts
      · exact accepts
    · rcases bare with rfl | rfl <;> exact accepts
    · omega
  all_goals rcases bare with rfl | rfl
  all_goals first | rfl | nofun

omit furnished

/-- A draft gets an empty dictionary. -/
theorem object_fills {h : Heap} {a n : Nat} {content : Nat → Content} {w : Word}
    (develops : Develops stubs strict (WholeBut a) Γ h Γ' s.machine) (fresh : Γ a = none)
    (beyond : h.region.cursor ≤ a) (draft : Γ' a = some (.draft n content)) (room : 3 ≤ n)
    (place : w.toNat = a) (guarded : Bool) :
    Yields (invoke host (fuel + 5) (stubs object) self [w]) s
      (fun _ t =>
        (∀ j < Layout.Object.items * Layout.Item.words,
          t.machine.heap.word (s.machine.heap.region.cursor + slotOffset j) = .hole) ∧
        Develops stubs strict (WholeBut a) Γ h
          (((Γ'.set s.machine.heap.region.cursor (.field 24 guarded)).set a
            (.draft n (Function.update (Function.update content 2
              (.exactly (.pointer s.machine.heap.region.cursor))) 1
              (.exactly (.int Layout.Object.plain)))))) t.machine)
      fun _ t => t = s := by
  rw [library.invoke_graph Programs.objectConstructor object rfl, Programs.objectConstructor_run]
  refine Yields.nested ?_ fun _ => rfl
  have furnished := develops.furnished
  have below : a < s.machine.heap.region.cursor := by
    have := furnished.typed.inside draft
    omega
  refine ((library.allocField_makes (s := s.deeper) (furnished.at_depth _) host fuel .undefined
    (by decide) guarded).mono (fun _ _ made => made) ?_).bind_mono ?_
  · rintro _ _ rfl
    rfl
  rintro v t ⟨rfl, field, made⟩
  change FreshField s.machine.heap _ _ at field
  have develops : Develops stubs strict (WholeBut a) Γ h _ t.machine :=
    (develops.at_depth _).trans (made.mono fun _ _ finished => .inr finished)
  have still : (Γ'.set s.machine.heap.region.cursor (.field 24 guarded)) a =
      some (.draft n content) := by rwa [Inventory.set_other (Nat.ne_of_lt below)]
  refine develops.write fresh beyond still (i := 2) (by omega) place
    (.exactly (.pointer s.machine.heap.region.cursor)) rfl fun develops => ?_
  refine develops.write fresh beyond Inventory.set_same (i := 1) (by omega) place
    (.exactly (.int Layout.Object.plain)) rfl fun develops => ?_
  rw [Inventory.set_set] at develops
  refine .pure ⟨fun j bound => ?_, develops.at_depth _⟩
  have aligned := (furnished.typed.inside draft).2.1
  have inside := (furnished.typed.inside draft).2.2.2
  have even := furnished.typed.sound.aligned
  simp only [Shape.words] at inside
  change ((t.machine.heap.put (a + 8 * 2) _).put (a + 8 * 1) _).word _ = _
  rw [slotOffset_eq, word_put_other (by omega) (by omega) (by omega),
    word_put_other (by omega) (by omega) (by omega), ← field.holes j bound, Layout.Field.data]
  congr 1
  omega

include furnished

/-- An empty object. -/
theorem allocObject_makes :
    Makes stubs strict Γ (invoke host (fuel + 6) (stubs allocObject) self []) s
      fun Γ' w _ => w = .pointer s.machine.heap.region.cursor ∧
        Γ' s.machine.heap.region.cursor = some .object := by
  rw [library.invoke_graph Programs.plainObject allocObject rfl, Programs.plainObject_run]
  refine Yields.nested ?_ fun _ => ⟨Γ, .refl furnished _⟩
  have typed := furnished.typed
  have place := typed.sound.toNat_cursor
  have fresh := typed.fresh
  refine ((library.allocTagged_drafts (s := s.deeper) (furnished.at_depth _) host (fuel + 2)
    .undefined (n := 2) (by decide) (by decide)).mono (fun _ _ made => made) ?_).bind_mono ?_
  · rintro _ _ rfl
    exact ⟨Γ, .refl furnished _⟩
  rintro w t ⟨rfl, ⟨h, grown, rfl⟩, drafted⟩
  refine ((library.object_fills host fuel .undefined drafted fresh (Nat.le_refl _)
    Inventory.set_same (by decide) place false).mono (fun _ _ made => made) ?_).bind_mono ?_
  · rintro _ _ rfl
    exact ⟨_, drafted.anything.at_depth _⟩
  rintro _ t ⟨_, filled⟩
  have behind : h.region.cursor = s.machine.heap.region.cursor + 24 := grown.cursor
  have apart : h.region.cursor ≠ s.machine.heap.region.cursor := by omega
  have beside {Γ : Inventory shared} {x y : Shape} : ((Γ.set h.region.cursor x).set
      s.machine.heap.region.cursor y) h.region.cursor = some x := by
    rw [Inventory.set_other apart, Inventory.set_same]
  have whole := filled.finish fresh (x := .object) Inventory.set_same rfl ?_ nofun
    (fun _ => ⟨24, false, ?_⟩) rfl rfl
  · exact .pure ⟨_, whole.at_depth _, rfl, Inventory.set_same⟩
  · rintro (_ | _ | _ | i) bound w accepts
    · exact .inl accepts
    · exact accepts
    · cases accepts
      exact ⟨24, (congrArg _ grown.sound.toNat_cursor).trans beside⟩
    · omega
  · exact (congrArg _ behind.symm).trans beside

end Library

end FastPath
