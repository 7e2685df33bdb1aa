import FastPath.Proofs.Catalogue.Accessors
import FastPath.Proofs.Property.Serving

/-! The stubs that make functions. A function is filled in word by word, with its pair of accessors
stored under `prototype` before it can be told that it has accessors, and is complete when its
context is. -/

namespace FastPath

open Catalogue Heap

variable {stubs : String → Stub} {strict shared : Bool} {Γ Γ' : Inventory shared}

/-- The accessors of `prototype` go into a pair that nothing else knows of. -/
theorem Library.prototypePair_makes (library : Library stubs) {s : State ρ}
    (furnished : Furnished stubs strict Γ s.machine) (host : Host ρ) (fuel : Nat) :
    Makes stubs strict Γ (Programs.prototypePair stubs (invoke host (fuel + 4))) s
      fun Γ' made _ => Γ' made.1.toNat = some .pair ∧
        ∃ index, Γ' made.2.toNat = some (.code .setter index) := by
  have typed := furnished.typed
  have place := typed.sound.toNat_cursor
  have fresh := typed.fresh
  have start : Develops stubs strict Whole Γ s.machine.heap Γ s.machine := .refl furnished _
  refine start.follow (fun _ _ whole => whole)
    (library.allocAccessPair_makes furnished host fuel .undefined (.inl rfl)) ?_
  rintro Δ₁ _ t₁ develops₁ _ ⟨rfl, pair⟩
  refine develops₁.follow (fun _ _ whole => whole)
    (develops₁.furnished.codeEntity_makes library (r := .getter) rfl nofun) ?_
  rintro Δ₂ getter t₂ develops₂ more₂ ⟨r, index, akin, code⟩
  obtain rfl := akin.1.mpr rfl
  have pair₂ := more₂.evolves.stays _ _ pair
  refine develops₂.amend pair₂ fresh (Nat.le_refl _) (i := 1) (by decide) place
    (.inr ⟨index, code⟩) nofun fun develops₃ => ?_
  refine develops₃.follow (fun _ _ whole => whole)
    (develops₃.furnished.codeEntity_makes library (r := .setter) rfl nofun) ?_
  rintro Δ₄ setter t₄ develops₄ more₄ ⟨r, index', akin, code'⟩
  obtain rfl := akin.2.mpr rfl
  have pair₄ := more₄.evolves.stays _ _ pair₂
  refine develops₄.amend pair₄ fresh (Nat.le_refl _) (i := 2) (by decide) place
    (.inr ⟨index', code'⟩) nofun fun develops₅ => ?_
  exact .pure ⟨Δ₄, develops₅, place.symm ▸ pair₄, index', code'⟩

/-- What a function looks like before it has a property: its map is set, and it has an empty
dictionary of its own at `b`. -/
structure Budding (Γ : Inventory shared) (h : Heap) (a b n : Nat) (content : Nat → Content) :
    Prop where
  draft : Γ a = some (.draft n content)
  room : 3 ≤ n
  map : content 0 = .exactly Kind.function.canonicalMap
  flags : content 1 = .exactly (.int Layout.Object.plain)
  storage : content 2 = .exactly (.pointer b)
  field : Γ b = some (.field 24 true)
  blank : ∀ j < 24, h.word (b + slotOffset j) = .hole

namespace Budding

variable {h : Heap} {a b n : Nat} {content : Nat → Content} {fn : Word}

theorem apart (budding : Budding Γ h a b n content) : b ≠ a := by
  rintro rfl
  cases budding.draft.symm.trans budding.field

/-- Making other entities leaves the dictionary empty. -/
theorem later {h' : Heap} (budding : Budding Γ h a b n content) (typed : Typed strict Γ h)
    (stays : Γ.Extends Γ') (spares : Spares h h') : Budding Γ' h' a b n content := by
  obtain ⟨draft, room, map, flags, storage, field, blank⟩ := budding
  refine ⟨stays _ _ draft, room, map, flags, storage, stays _ _ field, fun j bound => ?_⟩
  obtain ⟨_, aligned, _, fits⟩ := typed.inside field
  simp only [Shape.words] at fits
  rw [spares.words _ (by rw [slotOffset_eq]; omega) (by rw [slotOffset_eq]; omega), blank j bound]

/-- So does writing to words beyond the first three. -/
theorem write {i : Nat} {c : Content} {w : Word} (budding : Budding Γ h a b n content)
    (typed : Typed strict Γ h) (behind : 3 ≤ i) (inside : i < n) :
    Budding (Γ.set a (.draft n (Function.update content i c))) (h.put (a + 8 * i) w) a b n
      (Function.update content i c) := by
  have apart := budding.apart
  obtain ⟨draft, room, map, flags, storage, field, blank⟩ := budding
  refine ⟨Inventory.set_same, room, ?_, ?_, ?_, ?_, fun j bound => ?_⟩
  · rw [Function.update_of_ne (by omega), map]
  · rw [Function.update_of_ne (by omega), flags]
  · rw [Function.update_of_ne (by omega), storage]
  · rw [Inventory.set_other apart, field]
  · have kept := typed.word_put (w := w) draft field inside
      (by simp only [Shape.words]; omega : j + 2 < (Shape.field 24 true).words)
    rw [if_neg fun both => apart both.1] at kept
    rw [slotOffset_eq, kept, ← slotOffset_eq, blank j bound]

theorem stored (budding : Budding Γ h a b n content) (typed : Typed strict Γ h)
    (place : fn.toNat = a) : Stored Γ h fn true ∧ h.storageOf fn = .pointer b ∧
      h.flagged fn Layout.Object.dense = false := by
  subst place
  have address := typed.toNat_pointer budding.field
  obtain ⟨draft, room, map, flags, storage, field, _⟩ := budding
  have first := typed.holds draft 0 (by simp only [Shape.words]; omega)
  have second := typed.holds draft 1 (by simp only [Shape.words]; omega)
  have third := typed.holds draft 2 (by simp only [Shape.words]; omega)
  change (content 0).Accepts Γ _ _ at first
  change (content 1).Accepts Γ _ _ at second
  change (content 2).Accepts Γ _ _ at third
  rw [map] at first
  rw [flags] at second
  rw [storage] at third
  have first : h.word fn.toNat = Kind.function.canonicalMap := first
  have second : h.word (fn.toNat + Layout.Object.flags) = .int Layout.Object.plain := second
  have third : h.storageOf fn = .pointer b := third
  have kind : h.kind? fn = some .function := by
    rw [((typed.spans draft).mono (m := 0 + 1) (by simp only [Shape.words]; omega)).kind
      typed.sound, first, kindOfMap_canonical]
  refine ⟨typed.stored_at (n := 24) draft room ?_ ⟨Layout.Object.plain, ?_⟩ ?_
    (fun same => by cases same), third, ?_⟩
  · rw [isObjectLike, kind]
    rfl
  · rw [second]
    rfl
  · rw [third, address]
    exact field
  · rw [flagged, second]
    rfl

/-- The pair is the first property that a function gets. -/
theorem setProperty {s : State PropertyHost} {h₀ : Heap} {key pair : Word}
    (develops : Develops stubs strict (WholeBut a) Γ h₀ Γ' s.machine)
    (budding : Budding Γ' s.machine.heap a b n content) (place : fn.toNat = a)
    (beyond : h₀.region.cursor ≤ b) (atom : Γ' key.toNat = some .atom)
    (name : s.machine.heap.atoms.lookup "prototype" = some key)
    (held : Γ' pair.toNat = some .pair) (calls : Invoke PropertyHost) :
    ∃ h, PropertyHost.serve calls .setProperty [fn, key, pair] s =
        .ok .undefined (s.counted.withHeap h) ∧
      Develops stubs strict (WholeBut a) Γ h₀ Γ' (s.counted.withHeap h).machine := by
  have typed := develops.furnished.typed
  obtain ⟨stored, storage, dictionary⟩ := budding.stored typed place
  have field := budding.field
  have address := typed.toNat_pointer budding.field
  have slots : s.machine.heap.slots fn = 24 := typed.slots_eq (by rwa [storage, address])
  have real : key ≠ .hole := by
    rintro rfl
    rw [typed.rooted.hole] at atom
    cases atom
  have blank (j : Nat) (bound : j < s.machine.heap.slots fn) :
      s.machine.heap.slotWord fn j = .hole := by
    rw [slotWord, slotAddress, storage, address]
    exact budding.blank j (slots ▸ bound)
  have some_ : 0 < s.machine.heap.items fn := by
    rw [items, slots]
    decide
  obtain ⟨h, ran, typed', evolves, written⟩ := Property.set_blank (s := s.counted) typed calls
    stored dictionary some_ blank (.inr ⟨_, atom, rfl⟩) real (.inr ⟨_, held, rfl⟩)
    (fun same => by cases same) name
  refine ⟨h, ran, develops.furnished.withHeap typed' (Inventory.Extends.refl Γ').settles
    fun _ _ _ found => found, develops.evolves.trans (evolves _), ?_⟩
  have cursor := develops.spares.cursor
  refine ⟨Nat.le_trans cursor (Nat.le_of_eq ?_), fun c part below => ?_⟩
  · exact congrArg Region.cursor written.region.symm
  · rw [← develops.spares.words c part below]
    refine written.kept c part (.inl ?_)
    change c < (s.machine.heap.storageOf fn).toNat + 16
    rw [storage, address]
    omega

/-- What a function looks like when the constructor is done with it. -/
theorem completes {i : Nat} {w : Word} (budding : Budding Γ h a b (n + 7) content)
    (code : content 3 = .callee) (size : content 6 = .int)
    (field : Γ' (Word.pointer b).toNat = some (.field 24 true)) (inside : i < n + 7)
    (accepts : Content.Accepts Γ' a (if 7 ≤ i ∧ i < 7 + n then .value
      else Function.update (Function.update (Function.update content 1
        (.exactly (.int Layout.Object.access))) 4 .instanceMap) 5 .value i) w) :
    ((Shape.function n).content i).Accepts Γ' a w := by
  rcases i with _ | _ | _ | _ | _ | _ | _ | i
  · change (content 0).Accepts Γ' a w at accepts
    rwa [budding.map] at accepts
  · exact accepts
  · change (content 2).Accepts Γ' a w at accepts
    rw [budding.storage] at accepts
    cases accepts
    exact ⟨24, field⟩
  · change (content 3).Accepts Γ' a w at accepts
    rwa [code] at accepts
  · exact accepts
  · exact accepts
  · change (content 6).Accepts Γ' a w at accepts
    rwa [size] at accepts
  · rwa [if_pos (by omega)] at accepts

end Budding

namespace Library

variable (library : Library stubs) {s : State PropertyHost} {h₀ : Heap} {a b n : Nat}
  {content : Nat → Content} {fn code outer : Word} (fuel : Nat) (self : Word)

include library

/-- A function gets the pair of accessors as its first property. -/
theorem prototypeProperty_fills (develops : Develops stubs strict (WholeBut a) Γ h₀ Γ' s.machine)
    (fresh : Γ a = none) (beyond : h₀.region.cursor ≤ a)
    (budding : Budding Γ' s.machine.heap a b n content) (behind : h₀.region.cursor ≤ b)
    (place : fn.toNat = a) :
    Yields (Programs.prototypeProperty stubs PropertyHost.serve
        (invoke PropertyHost.serve (fuel + 6)) fn) s
      (fun setter t => ∃ Δ index, Develops stubs strict (WholeBut a) Γ h₀ Δ t.machine ∧
        Δ a = some (.draft n (Function.update content 1 (.exactly (.int Layout.Object.access)))) ∧
        Δ b = some (.field 24 true) ∧ Δ setter.toNat = some (.code .setter index))
      fun _ t => ∃ Δ, Develops stubs strict Anything Γ h₀ Δ t.machine := by
  have unfinished : ∀ b x, Whole b x → WholeBut a b x := fun _ _ => .inr
  refine develops.follow unfinished
    (library.prototypePair_makes develops.furnished PropertyHost.serve (fuel + 2)) ?_
  rintro Δ₁ ⟨pair, setter⟩ t₁ develops₁ more₁ ⟨held, index, found⟩
  have budding₁ := budding.later develops.furnished.typed more₁.evolves.stays more₁.spares
  refine develops₁.follow unfinished (develops₁.furnished.atom_makes "prototype") ?_
  rintro Δ₂ key t₂ develops₂ more₂ ⟨atom, name⟩
  have budding₂ := budding₁.later develops₁.furnished.typed more₂.evolves.stays more₂.spares
  have draft := budding₂.draft
  have found := more₂.evolves.stays _ _ found
  obtain ⟨h, named, develops₃⟩ := budding₂.setProperty develops₂ place behind atom name
    (more₂.evolves.stays _ _ held) (invoke PropertyHost.serve (fuel + 6))
  refine .step named ?_
  generalize t₂.counted.withHeap h = t₃ at develops₃
  have inside : 1 < n := Nat.lt_of_lt_of_le (by decide) budding.room
  subst place
  have flags := develops₃.furnished.typed.holds draft 1 inside
  have loaded := develops₃.furnished.typed.load draft inside
  rw [Shape.content, budding₂.flags] at flags
  rw [flags] at loaded
  refine .step (Exec.query_ok loaded) (.step (Exec.int_ok (Word.int?_int (by decide)) _) ?_)
  refine develops₃.write fresh beyond draft inside rfl (.exactly (.int Layout.Object.access)) rfl
    fun develops₄ => .pure ⟨_, index, develops₄, Inventory.set_same, ?_, ?_⟩
  · rw [Inventory.set_other budding₂.apart, budding₂.field]
  · rw [Inventory.set_other, found]
    intro same
    rw [same] at found
    cases found.symm.trans draft

/-- The setter fills in the map of the function's instances. -/
theorem instanceMap_fills (develops : Develops stubs strict (WholeBut a) Γ h₀ Γ' s.machine)
    (fresh : Γ a = none) (beyond : h₀.region.cursor ≤ a) (draft : Γ' a = some (.draft n content))
    (inside : 4 < n) (place : fn.toNat = a) {setter : Word} {index : Nat}
    (found : Γ' setter.toNat = some (.code .setter index)) :
    Yields (Programs.instanceMap stubs (invoke PropertyHost.serve (fuel + 6)) fn setter) s
      (fun _ t => ∃ Δ, Develops stubs strict (WholeBut a) Γ h₀ Δ t.machine ∧
        (∀ b x, b ≠ a → Γ' b = some x → Δ b = some x) ∧
        Δ a = some (.draft n (Function.update content 4 .instanceMap)))
      fun _ t => ∃ Δ, Develops stubs strict Anything Γ h₀ Δ t.machine := by
  subst place
  have unfinished : ∀ b x, Whole b x → WholeBut fn.toNat b x := fun _ _ => .inr
  refine develops.follow unfinished
    (library.allocObject_makes develops.furnished PropertyHost.serve fuel .undefined) ?_
  rintro Δ₁ _ t₁ develops₁ more₁ ⟨rfl, object⟩
  have draft₁ := more₁.evolves.stays _ _ draft
  obtain ⟨stub, rfl, same⟩ := develops₁.furnished.callValue_code (more₁.evolves.stays _ _ found)
    (invoke PropertyHost.serve (fuel + 6)) fn [.pointer s.machine.heap.region.cursor]
  have proto : Δ₁.Data (.pointer s.machine.heap.region.cursor) := by
    refine .inr ⟨.object, ?_, rfl, nofun⟩
    rw [develops.furnished.typed.sound.toNat_cursor]
    exact object
  refine Yields.congr same ((library.setter_replaces develops₁.furnished PropertyHost.serve
    (fuel + 2) draft₁ inside proto).mono ?_ ?_)
  · rintro _ _ ⟨h, rfl, more₂, _⟩
    have develops₂ := develops₁.trans (more₂.mono unfinished)
    have draft₂ := more₂.evolves.stays _ _ draft₁
    refine ⟨_, develops₂.fill_in fresh beyond draft₂ inside .instanceMap
      (w := .pointer t₁.machine.heap.region.cursor) develops₁.furnished.typed.at_cursor,
      fun b x apart known => ?_, Inventory.set_same⟩
    rw [Inventory.set_other apart]
    exact more₂.evolves.stays _ _ (more₁.evolves.stays _ _ known)
  · rintro _ _ ⟨rfl, _⟩
    exact ⟨Δ₁, develops₁.anything⟩

omit library in
/-- The slots of the context are filled in one sweep. -/
theorem blankContext_fills (develops : Develops stubs strict (WholeBut a) Γ h₀ Γ' s.machine)
    (fresh : Γ a = none) (beyond : h₀.region.cursor ≤ a)
    (draft : Γ' a = some (.draft (n + 7) content)) (place : fn.toNat = a) :
    ∃ h, Programs.blankContext fn n s = .ok () (s.withHeap h) ∧
      Develops stubs strict (WholeBut a) Γ h₀
        (Γ'.set a (.draft (n + 7) fun i => if 7 ≤ i ∧ i < 7 + n then .value else content i))
        (s.withHeap h).machine := by
  subst place
  have typed := develops.furnished.typed
  obtain ⟨_, aligned, _, fits⟩ := typed.inside draft
  have bounded := typed.sound.bounded
  have backed := typed.sound.backed
  have small := typed.sound.small
  obtain ⟨h, filled, develops'⟩ := develops.fill_words fresh beyond draft n 7 (by omega) .value
    (w := .undefined) (.inr ⟨_, typed.rooted.undefined, rfl⟩)
  refine ⟨h, ?_, develops'⟩
  simp only [Shape.words] at fits
  have bytes : 8 * (n : Int) = ((8 * n : Nat) : Int) := by omega
  have address {c : Nat} (even : c % 2 = 0) (inside : c ≤ fn.toNat + 8 * (n + 7)) :
      (Word.pointer c).address? = some c := Word.address?_pointer even (by omega)
  have start : Layout.Function.context = 8 * 7 := rfl
  have count : (fn.toNat + 8 * 7 + 8 * n - (fn.toNat + 8 * 7) + 7) / 8 = n := by omega
  rw [← count, ← Heap.fill] at filled
  rw [Programs.blankContext, bytes, start]
  refine (estate_bind_of_ok (Exec.advance_ok (Word.address?_aligned aligned)
    (displace_ok (by omega) (by omega)) _)).trans ?_
  refine (estate_bind_of_ok (Exec.advance_ok (address (by omega) (by omega))
    (displace_ok (by omega) (by omega)) _)).trans ?_
  exact Exec.fill_ok (address (by omega) (by omega)) (address (by omega) (by omega)) filled

/-- What the constructor of functions makes of a draft. -/
theorem function_fills (develops : Develops stubs strict (WholeBut a) Γ h₀ Γ' s.machine)
    (fresh : Γ a = none) (beyond : h₀.region.cursor ≤ a)
    (budding : Budding Γ' s.machine.heap a b (n + 7) content) (behind : h₀.region.cursor ≤ b)
    (place : fn.toNat = a) (few : n < 0x4000000000000) (callee : Γ.Callee code)
    (value' : Γ.Value outer) :
    Yields (invoke PropertyHost.serve (fuel + 7) (stubs function) self [fn, code, outer, .int n]) s
      (fun _ t => ∃ Δ, Develops stubs strict Whole Γ h₀ Δ t.machine ∧ Δ a = some (.function n))
      fun _ t => ∃ Δ, Develops stubs strict Anything Γ h₀ Δ t.machine := by
  rw [library.invoke_graph Programs.functionConstructor function rfl,
    Programs.functionConstructor_run _ _ _ _ _ few]
  refine develops.nested (Q := fun Δ _ => Δ a = some (.function n)) ?_
  have typed := develops.furnished.typed
  have pointer := typed.toNat_pointer budding.field
  refine (develops.at_depth (s.machine.depth + 1)).write (s := s.deeper) fresh beyond
    budding.draft (i := 3) (by omega) place .callee (callee.mono develops.evolves.stays.settles)
    fun develops₁ => ?_
  have budding₁ := budding.write (i := 3) (c := .callee) (w := code) typed (by decide) (by omega)
  refine develops₁.write fresh beyond budding₁.draft (i := 6) (by omega) place .int
    ⟨0, Word.int?_int (by decide)⟩ fun develops₂ => ?_
  have budding₂ := budding₁.write (i := 6) (c := .int) (w := .int 0) develops₁.furnished.typed
    (by decide) (by omega)
  refine (library.prototypeProperty_fills fuel develops₂ fresh beyond budding₂ behind
    place).bind_mono ?_
  rintro setter t₃ ⟨Δ₃, index, develops₃, draft₃, field₃, found⟩
  refine (library.instanceMap_fills fuel develops₃ fresh beyond draft₃ (by omega) place
    found).bind_mono ?_
  rintro _ t₄ ⟨Δ₄, develops₄, kept, draft₄⟩
  refine develops₄.write fresh beyond draft₄ (i := 5) (by omega) place .value
    (value'.mono develops₄.evolves.stays.settles) fun develops₅ => ?_
  obtain ⟨h, filled, develops₆⟩ :=
    blankContext_fills develops₅ fresh beyond Inventory.set_same place
  have whole := develops₆.finish fresh (x := .function n) Inventory.set_same rfl
    (fun i inside w accepts => budding₂.completes rfl rfl ?_ inside accepts) nofun nofun rfl rfl
  · exact .step filled (.pure ⟨_, whole, Inventory.set_same⟩)
  · rw [Inventory.set_set, pointer, Inventory.set_other budding.apart]
    exact kept b _ budding.apart field₃

/-- A function with a context of `n` slots. -/
theorem allocFn_makes (furnished : Furnished stubs strict Γ s.machine)
    (few : n < 0x4000000000000) (callee : Γ.Callee code) (value' : Γ.Value outer) :
    Makes stubs strict Γ
      (invoke PropertyHost.serve (fuel + 8) (stubs allocFn) self [code, outer, .int n]) s
      fun Γ' w _ => w = .pointer s.machine.heap.region.cursor ∧
        Γ' s.machine.heap.region.cursor = some (.function n) := by
  rw [library.invoke_graph Programs.functionObject allocFn rfl,
    Programs.functionObject_run _ _ _ _ _ few]
  have typed := furnished.typed
  have place := typed.sound.toNat_cursor
  have fresh := typed.fresh
  refine (Develops.refl furnished Whole).nested (Q := fun Γ' (w : Word) =>
    w = .pointer s.machine.heap.region.cursor ∧
      Γ' s.machine.heap.region.cursor = some (.function n)) ?_
  have size : 56 + 8 * (n : Int) = ((8 * (n + 6 + 1) : Nat) : Int) := by omega
  rw [size]
  refine ((library.allocTagged_drafts (s := s.deeper) (furnished.at_depth _) PropertyHost.serve
    (fuel + 4) .undefined (k := .function) (by decide) (by omega)).mono
    (fun _ _ made => made) ?_).bind_mono ?_
  · rintro _ _ rfl
    exact ⟨Γ, (Develops.refl furnished _).at_depth _⟩
  rintro w _ ⟨rfl, ⟨h, grown, rfl⟩, drafted⟩
  refine ((library.object_fills PropertyHost.serve (fuel + 2) .undefined drafted fresh
    (Nat.le_refl _) Inventory.set_same (by omega) place true).mono
    (fun _ _ made => made) ?_).bind_mono ?_
  · rintro _ _ rfl
    exact ⟨_, drafted.anything⟩
  rintro _ t ⟨blank, filled⟩
  have behind : h.region.cursor = s.machine.heap.region.cursor + 8 * (n + 6 + 1) := grown.cursor
  have apart : h.region.cursor ≠ s.machine.heap.region.cursor := by omega
  have beside {Γ : Inventory shared} {x y : Shape} : ((Γ.set h.region.cursor x).set
      s.machine.heap.region.cursor y) h.region.cursor = some x := by
    rw [Inventory.set_other apart, Inventory.set_same]
  refine ((library.function_fills fuel .undefined filled fresh (Nat.le_refl _)
    ⟨Inventory.set_same, by omega, rfl, rfl, rfl, beside, blank⟩
    (Nat.le_trans (Nat.le_add_right _ _) (Nat.le_of_eq behind.symm)) place few callee value').mono
    (fun _ _ made => made) (fun _ _ failed => failed)).bind_mono ?_
  rintro _ t ⟨Δ, develops, found⟩
  exact .pure ⟨Δ, develops, rfl, found⟩

end Library

end FastPath
