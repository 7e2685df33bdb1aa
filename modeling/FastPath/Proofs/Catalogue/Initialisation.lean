import FastPath.Proofs.Catalogue.Demands
import FastPath.Proofs.Heap.Tiling

/-! What a region holds after a client with a free hand has had all its demands met: entities that
are complete, one after the other, and in their words nothing but small integers and pointers to
entities. -/

namespace FastPath

open Catalogue Heap

/-- Whether a word must be a small integer or point to an entity. -/
def Content.Settled : Content → Prop
  | anything => False
  | exactly w => w.isInt = true ∨ w = .null ∨ w = .hole ∨ ∃ k : Kind, w = k.canonicalMap
  | _ => True

/-- Every word of a complete entity must. -/
theorem Shape.content_settled {x : Shape} (finished : x.finished = true) (i : Nat) :
    (x.content i).Settled := by
  have map (k : Kind) : (Content.exactly k.canonicalMap).Settled := .inr (.inr (.inr ⟨k, rfl⟩))
  have int (n : Int) : (Content.exactly (.int n)).Settled := .inl (Word.isInt_int n)
  have hole : (Content.exactly .hole).Settled := .inr (.inr (.inl rfl))
  cases x with
  | draft => cases finished
  | field slots guarded =>
    rcases i with _ | _ | j
    · exact map .field
    · exact int slots
    · change (slotContent guarded j).Settled
      unfold slotContent
      split <;> trivial
  | canonicalMap k =>
    rcases i with _ | _ | _ | _ | _ | i
    · exact map .map
    · exact int _
    · exact .inr (.inl rfl)
    · trivial
    · exact int 0
    · trivial
  | code r index =>
    rcases i with _ | i
    · exact map .code
    · exact int index
  | instanceMap =>
    rcases i with _ | _ | _ | _ | _ | i
    · exact map .map
    · exact int _
    · trivial
    · trivial
    · exact hole
    · trivial
  | object =>
    rcases i with _ | _ | i
    · trivial
    · exact int _
    · trivial
  | function slots =>
    rcases i with _ | _ | _ | _ | _ | _ | _ | i
    · exact map .function
    · exact int _
    all_goals trivial
  | pair =>
    rcases i with _ | _ | _ | i
    · exact map .accessPair
    all_goals trivial
  | blank =>
    rcases i with _ | _ | _ | i
    · exact map .accessPair
    · exact hole
    · exact hole
    · trivial
  | boolean =>
    rcases i with _ | i
    · exact map .boolean
    · trivial
  | oddball =>
    rcases i with _ | i
    · exact map .oddball
    · trivial
  | atom =>
    rcases i with _ | i
    · exact map .atom
    · trivial

theorem Heap.Rooted.settled {Γ : Inventory shared} {a : Nat} {c : Content} {w : Word}
    (rooted : Rooted Γ) (settled : c.Settled) (accepts : c.Accepts Γ a w) :
    w.isInt = true ∨ ∃ x, Γ w.toNat = some x := by
  have value (value : Γ.Value w) : w.isInt = true ∨ ∃ x, Γ w.toNat = some x := by
    rcases value with int | ⟨x, found, _⟩
    · exact .inl int
    · exact .inr ⟨x, found⟩
  cases c with
  | anything => exact settled.elim
  | exactly v =>
    cases accepts
    rcases settled with int | rfl | rfl | ⟨k, rfl⟩
    · exact .inl int
    · exact .inr ⟨_, rooted.null⟩
    · exact .inr ⟨_, rooted.hole⟩
    · exact .inr ⟨_, rooted.map k⟩
  | int =>
    obtain ⟨n, number⟩ := accepts
    rw [Word.int_of_int? number]
    exact .inl (Word.isInt_int n)
  | value => exact value accepts
  | data => exact value accepts.value
  | callee => exact value accepts.value
  | storage guarded =>
    obtain ⟨slots, field⟩ := accepts
    exact .inr ⟨_, field⟩
  | map =>
    rcases accepts with rfl | ⟨map, _⟩
    · exact .inr ⟨_, rooted.map .object⟩
    · exact .inr ⟨_, map⟩
  | instanceMap => exact .inr ⟨_, accepts⟩
  | proto => exact value accepts.1.value
  | accessor r =>
    rcases accepts with rfl | ⟨index, code⟩
    · exact .inr ⟨_, rooted.hole⟩
    · exact .inr ⟨_, code⟩

/-- A small integer, or the address at which one of the entities starts. -/
def Word.Settled (es : List Extent) (w : Word) : Prop :=
  w.isInt = true ∨ ∃ e ∈ es, w.toNat = e.start

/-- The words that were handed out make up complete entities, and all of them are settled. -/
structure Heap.Closed (h : Heap) (es : List Extent) : Prop where
  tiles : h.Tiles 8 es
  complete : ∀ e ∈ es, e.kind.isSome = true
  inside : ∀ e ∈ es, 8 ≤ e.start ∧ e.start % 8 = 0 ∧ e.start + 8 * e.words ≤ h.region.cursor
  settled : ∀ a, 8 ≤ a → a % 8 = 0 → a < h.region.cursor → ∃ w, h.read a = .ok w ∧ w.Settled es

section

variable {Γ : Inventory shared} {h : Heap} {es : List Extent} (typed : Typed strict Γ h)
  (whole : ∀ a x, Γ a = some x → x.finished = true)

include typed whole

/-- A heap is closed if there are no drafts in it. -/
theorem Heap.Typed.closed_of_tiles (tiles : h.Tiles 8 es)
    (members : ∀ e, e ∈ es ↔ ∃ a x, Γ a = some x ∧ e = x.extent a) :
    h.Closed es ∧ ∀ w, Γ.Value w → w.Settled es := by
  have settled (w : Word) (known : w.isInt = true ∨ ∃ x, Γ w.toNat = some x) : w.Settled es := by
    refine known.imp id ?_
    rintro ⟨x, found⟩
    exact ⟨x.extent w.toNat, (members _).mpr ⟨_, _, found, rfl⟩, rfl⟩
  refine ⟨⟨tiles, fun e member => ?_, tiles.inside, fun a start aligned below => ?_⟩,
    fun w value => ?_⟩
  · obtain ⟨a, x, found, rfl⟩ := (members e).mp member
    rw [Shape.isSome_extent, whole a x found]
  · obtain ⟨b, x, found, before, behind⟩ := typed.covers start aligned below
    have finished := whole b x found
    obtain ⟨i, rfl⟩ : ∃ i, a = b + 8 * i := by
      have even := (typed.inside found).2.1
      exact ⟨(a - b) / 8, by omega⟩
    have even := typed.sound.aligned
    have bounded := typed.sound.bounded
    have backed := typed.sound.backed
    refine ⟨_, read_eq (hasWord_iff.mpr ⟨start, aligned, by omega⟩), settled _ ?_⟩
    exact typed.rooted.settled (Shape.content_settled finished i)
      (typed.holds found i (by omega))
  · exact settled w (value.imp id fun ⟨x, found, _⟩ => ⟨x, found⟩)

theorem Heap.Typed.closed : ∃ es, h.Closed es ∧ ∀ w, Γ.Value w → w.Settled es := by
  obtain ⟨es, tiles, members⟩ := typed.tiles
  exact ⟨es, typed.closed_of_tiles whole tiles members⟩

end

variable {stubs : String → Stub}

/-- A client with a free hand that has had all its demands met finds every word of the region
filled in, and it holds nothing but small integers and entities. -/
theorem heap_stays_closed (library : Library stubs) {fuel : Nat} {c : Client}
    (attains : c.Attains stubs true (fuel + 8)) :
    ∃ es, c.state.machine.heap.Closed es ∧ ∀ w ∈ c.hand, w.Settled es := by
  obtain ⟨Γ, furnished, whole, held⟩ := attains.furnished library
  obtain ⟨es, closed, settled⟩ := furnished.typed.closed (whole rfl)
  exact ⟨es, closed, fun w member => settled w (held w member).1⟩

/-- Of everything one thing, and a pair as a property of an object. -/
def collecting : List Demand :=
  [.request (.codeRef idler), .request (.function (.pointer 448) .undefined 2),
    .request (.construct (.int 0) (.pointer 464) []), .request .pair, .field 3,
    .request (.atom "key"), .request (.set (.pointer 1096) (.pointer 1400) (.pointer 1328)),
    .request (.slot 0 (.pointer 1096) (.pointer 1328) true), .accessor true,
    .request (.set (.pointer 464) (.pointer 1400) (.pointer 792)),
    .request (.delete (.pointer 1096) (.pointer 1328))]

theorem collecting_closed : ∃ c es, Client.fresh.gets freshStubs 8 collecting = c ∧
    c.state.machine.heap.region.cursor = 1416 ∧ c.state.machine.heap.Closed es := by
  have facts : Client.fresh.Entitled freshStubs true 8 collecting ∧
      (Client.fresh.gets freshStubs 8 collecting).state.machine.heap.region.cursor = 1416 := by
    decide +kernel
  obtain ⟨entitled, used⟩ := facts
  have attains := (Client.fresh_attains _ _ _).gets entitled
  obtain ⟨es, closed, _⟩ := heap_stays_closed freshStubs_library attains
  exact ⟨_, es, rfl, used, closed⟩

/-- A stub that returns at once, with the entry point of the setter of `prototype`. -/
def impostor : Stub :=
  { idler with origin := 1, entry := (freshStubs prototypeSetter).entry }

/-- Another compiler gets to that entry point too. -/
theorem impostor_compiled : (Compiler.compileAll { id := 1 } (List.replicate 12
    ⟨{ stub := "idle", varCount := 0, blocks := [⟨[], [], .ret none⟩] }, {}, []⟩)).1[11]? =
      some impostor ∧ impostor.Idle := by
  have facts : impostor.entry = 0x10b0 ∧ impostor.Idle := by decide +kernel
  obtain ⟨entry, idle⟩ := facts
  have compiled : impostor = { idler with origin := 1, entry := 0x10b0 } := by
    rw [← entry]
    rfl
  exact ⟨compiled ▸ rfl, idle⟩

/-- When functions are made after the stub has got a Code entity, the stub runs for the setter, and
the word for the instance map stays blank. -/
theorem impostor_leaves_blank : ∃ code fn s t,
    (Compiler.compileAll { id := 1 } (List.replicate 12
      ⟨{ stub := "idle", varCount := 0, blocks := [⟨[], [], .ret none⟩] }, {}, []⟩)).1[11]? =
        some impostor ∧ impostor.Idle ∧
    (Demand.request (.codeRef impostor)).run freshStubs 8 Client.fresh.state = .ok code s ∧
    (Demand.request (.function code .undefined 0)).run freshStubs 8 s = .ok fn t ∧
    t.machine.heap.load fn Layout.Function.instanceMap = .ok (.pointer 0) ∧
    ¬ ∃ es, t.machine.heap.Closed es := by
  obtain ⟨code, s, asked, made⟩ : ∃ code s,
      (Demand.request (.codeRef impostor)).run freshStubs 8 Client.fresh.state = .ok code s ∧
      Yields ((Demand.request (.function code .undefined 0)).run freshStubs 8) s (fun fn t =>
        fn = .pointer 464 ∧ 496 < t.machine.heap.region.cursor ∧
        t.machine.heap.read 496 = .ok (.pointer 0)) fun _ _ => False :=
    Yields.returns (by decide +kernel)
  obtain ⟨_, t, made, rfl, inside, blank⟩ := made.returns
  refine ⟨code, _, s, t, impostor_compiled.1, impostor_compiled.2, asked, made, blank, ?_⟩
  rintro ⟨es, closed⟩
  obtain ⟨w, read, settled⟩ := closed.settled 496 (by decide) rfl inside
  cases read.symm.trans blank
  rcases settled with int | ⟨e, member, start⟩
  · cases int
  · have := (closed.inside e member).1
    have zero : (Word.pointer 0).toNat = 0 := rfl
    omega

end FastPath
