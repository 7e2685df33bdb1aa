import FastPath.Proofs.Catalogue.Functions
import FastPath.Proofs.Catalogue.Laying

/-! Constructions. Only functions pass the check, and what a constructor runs on is a fresh object
with the function's instance map. -/

namespace FastPath

open Catalogue Heap

variable {stubs : String → Stub} {strict shared : Bool} {Γ Γ' : Inventory shared} {s : State ρ}

theorem Stub.Idle.yields {stub : Stub} (idle : stub.Idle) (host : Host ρ) (fuel : Nat)
    (self : Word) (args : List Word) (s : State ρ) :
    Yields (invoke host (fuel + 2) stub self args) s (fun w t => w = .undefined ∧ t = s)
      fun _ t => t = s := by
  by_cases depth : s.machine.depth < s.machine.maxDepth
  · exact .of_ok (idle.returns host fuel self args depth) ⟨rfl, rfl⟩
  · rw [invoke_succ]
    exact .of_error (by rw [Exec.nested_eq, if_neg depth]) rfl

/-- Functions do nothing when they are called. -/
theorem Furnished.callValue_function (furnished : Furnished stubs strict Γ s.machine) {w : Word}
    {slots : Nat} (found : Γ w.toNat = some (.function slots)) (host : Host ρ) (fuel : Nat)
    (self : Word) (args : List Word) :
    Yields (callValue (invoke host (fuel + 2)) w self args) s (fun _ t => t = s)
      fun _ t => t = s := by
  rcases furnished.target_function found with ⟨stub, target, idle⟩ | ⟨e, target⟩
  · refine Yields.congr ?_ ((idle.yields host fuel self args s).mono (fun _ _ met => met.2)
      fun _ _ met => met)
    rw [callValue_eq, target]
  · refine .of_error (e := .trap e) ?_ rfl
    rw [callValue_eq, target]

namespace Library

variable (library : Library stubs) (furnished : Furnished stubs strict Γ s.machine)
  (host : Host ρ) (fuel : Nat) (self : Word)

include library furnished

/-- The check tells functions from all other values. -/
theorem checkFunction_tells {w : Word} (value : Γ.Value w)
    (depth : s.machine.depth < s.machine.maxDepth) :
    (∃ slots, Γ w.toNat = some (.function slots)) ∧ s.machine.heap.kind? w = some .function ∧
        invoke host (fuel + 4) (stubs checkFunction) self [w] s = .ok .undefined s ∨
      s.machine.heap.kind? w ≠ some .function ∧
        invoke host (fuel + 4) (stubs checkFunction) self [w] s =
          .error (.trap (.fatal .notFunction)) s := by
  rw [library.invoke_graph Programs.functionCheck checkFunction rfl, Programs.functionCheck_run,
    Exec.nested_eq, if_pos depth]
  rcases value with int | ⟨x, found, handled⟩
  · right
    rw [if_pos int, kind?_int int]
    exact ⟨nofun, rfl⟩
  have typed := furnished.typed
  have entity := Word.isInt_aligned (typed.inside found).2.1
  have finished := Shape.finished_of_handled handled
  obtain ⟨m, mapped, flags⟩ := typed.mapFlags found finished
  have fits : Word.Fits (Shape.mapFlags x.kind) := by
    unfold Shape.mapFlags
    split <;> decide
  have mapped : (Exec.query fun h => h.load w Layout.map : Exec ρ Word) s.deeper = .ok m s.deeper :=
    Exec.query_ok mapped
  rw [if_neg (by rw [entity]; exact Bool.false_ne_true), typed.kind found finished,
    estate_bind_of_ok mapped, estate_bind_of_ok (Exec.query_ok flags),
    estate_bind_of_ok (Exec.int_ok (Word.int?_int fits) _)]
  by_cases function : x.kind = .function
  · left
    rw [Shape.mapFlags, if_pos function, if_pos (by decide), function]
    cases x with
    | function slots => exact ⟨⟨slots, found⟩, rfl, rfl⟩
    | _ => cases function
  · right
    rw [Shape.mapFlags, if_neg function, if_neg (by decide)]
    exact ⟨fun same => function (Option.some.inj same), rfl⟩

/-- What passes the check is a function. -/
theorem checkFunction_passes {w : Word} (value : Γ.Value w) :
    Yields (invoke host (fuel + 4) (stubs checkFunction) self [w]) s
      (fun _ t => t = s ∧ ∃ slots, Γ w.toNat = some (.function slots)) fun _ t => t = s := by
  by_cases depth : s.machine.depth < s.machine.maxDepth
  · rcases library.checkFunction_tells furnished host fuel self value depth with
      ⟨function, _, passed⟩ | ⟨_, refused⟩
    · exact .of_ok passed ⟨rfl, function⟩
    · exact .of_error refused rfl
  · rw [invoke_succ]
    exact .of_error (by rw [Exec.nested_eq, if_neg depth]) rfl

/-- Only functions are constructors, and what they do does not matter: the new object gets the map
of the function's instances, and nothing but the heap changes. -/
theorem new_runs {fn : Word} (value : Γ.Value fn) (argc : Word) (rest : List Word) :
    Yields (invoke host (fuel + 7) (stubs new) self (argc :: fn :: rest)) s
      (fun w t => w = .pointer s.machine.heap.region.cursor ∧
        (∃ slots, Γ fn.toNat = some (.function slots)) ∧ ∃ Γ' h, t = s.withHeap h ∧
          Develops stubs strict Whole Γ s.machine.heap Γ' t.machine ∧
          Γ' s.machine.heap.region.cursor = some .object ∧
          h.word s.machine.heap.region.cursor = s.machine.heap.word (fn.toNat + 8 * 4))
      fun _ t => ∃ Γ' h, t = s.withHeap h ∧
        Develops stubs strict Anything Γ s.machine.heap Γ' t.machine := by
  rw [library.invoke_graph Programs.construction new rfl, Programs.construction_run]
  have typed := furnished.typed
  have place := typed.sound.toNat_cursor
  have fresh := typed.fresh
  have unchanged : ∃ Γ' h, s = s.withHeap h ∧
      Develops stubs strict Anything Γ s.machine.heap Γ' s.machine := ⟨Γ, _, rfl, .refl furnished _⟩
  refine Yields.nested ?_ fun _ => unchanged
  have start : Develops stubs strict Whole Γ s.machine.heap Γ s.deeper.machine :=
    (Develops.refl furnished Whole).at_depth _
  refine ((library.checkFunction_passes (s := s.deeper) start.furnished host (fuel + 2) .undefined
    value).mono (fun _ _ met => met) ?_).bind_mono ?_
  · rintro _ _ rfl
    exact unchanged
  rintro _ _ ⟨rfl, slots, found⟩
  refine (((library.allocObject_makes start.furnished host fuel .undefined).and
    (library.allocObject_puts (s := s.deeper) typed.sound host fuel .undefined)).mono
      (fun _ _ made => made) ?_).bind_mono ?_
  · rintro _ _ ⟨⟨Δ, more⟩, ws, h, rfl, _⟩
    exact ⟨Δ, h, rfl, more.shallower⟩
  rintro _ _ ⟨⟨Δ, develops, rfl, object⟩, _, h, rfl, _⟩
  have found' := develops.evolves.stays _ _ found
  obtain ⟨loaded, map⟩ := develops.furnished.typed.instanceMap found'
  have same : h.word (fn.toNat + 8 * 4) = s.machine.heap.word (fn.toNat + 8 * 4) := by
    -- the function had its instance map before the object was there
    exact typed.spared_word develops.spares found (Shape.lt_function_words (by decide))
  have older : (h.word (fn.toNat + 8 * 4)).toNat < s.machine.heap.region.cursor := by
    have known := (typed.instanceMap found).2
    rw [same]
    exact Nat.lt_of_lt_of_le (Nat.lt_add_of_pos_right (by decide)) (typed.inside known).2.2.2
  have spans := develops.furnished.typed.spans (w := .pointer s.machine.heap.region.cursor)
    ((congrArg Δ place).trans object)
  have room : h.hasWord s.machine.heap.region.cursor = true :=
    place ▸ spans.hasWord (d := 0) develops.furnished.typed.sound rfl (by decide)
  refine .step (Exec.query_ok loaded) ?_
  refine develops.amend object fresh (Nat.le_refl _) (i := 0) (by decide) place
    (.inr ⟨map, older⟩) (fun _ same => by cases same) fun develops => ?_
  rw [State.withHeap_withHeap] at *
  have failed := develops.anything.shallower
  cases argc.int? with
  | none => exact .throw ⟨Δ, _, rfl, failed⟩
  | some n =>
    cases n with
    | negSucc n => exact .throw ⟨Δ, _, rfl, failed⟩
    | ofNat n =>
      refine ((develops.furnished.callValue_function found' host (fuel + 4) _ _).mono
        (fun _ _ same => same) ?_).bind_mono ?_
      · rintro _ _ rfl
        exact ⟨Δ, _, rfl, failed⟩
      · rintro _ _ rfl
        refine .pure ⟨rfl, ⟨slots, found⟩, Δ, _, rfl, develops.shallower, object, ?_⟩
        rw [← same]
        exact word_put_same room

/-- Whatever the function does with it, the result is the new object. -/
theorem new_makes {fn : Word} (value : Γ.Value fn) (argc : Word) (rest : List Word) :
    Makes stubs strict Γ (invoke host (fuel + 7) (stubs new) self (argc :: fn :: rest)) s
      fun Γ' w _ => w = .pointer s.machine.heap.region.cursor ∧
        Γ' s.machine.heap.region.cursor = some .object := by
  refine (library.new_runs furnished host fuel self value argc rest).mono ?_ ?_
  · rintro _ t ⟨place, _, Γ', _, _, develops, object, _⟩
    exact ⟨Γ', develops, place, object⟩
  · rintro _ t ⟨Γ', _, _, develops⟩
    exact ⟨Γ', develops⟩

end Library

end FastPath
