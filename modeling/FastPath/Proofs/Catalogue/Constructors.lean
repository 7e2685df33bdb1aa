import FastPath.Proofs.Catalogue.Laying
import FastPath.Proofs.Execution.Naming

/-! What constructors are run on. On any heap, whatever stub a function stands for, a construction
comes down to one call of that stub with a fresh object as its receiver. -/

namespace FastPath

open Catalogue Heap

namespace Heap

/-- The canonical maps say of functions, and of nothing else, that they can be called. -/
def CanonicalMaps (h : Heap) : Prop :=
  ∀ k : Kind, h.loadInt k.canonicalMap Layout.Map.flags =
    .ok (if k = .function then Layout.Map.callable else Layout.Map.plain)

/-- An object with the map `m` that has no properties yet. Its storage starts at or behind `a`. -/
structure Empty (h : Heap) (a : Nat) (o m : Word) : Prop where
  map : h.mapOf o = .ok m
  flags : h.loadInt o Layout.Object.flags = .ok Layout.Object.plain
  storage : ∃ field, h.load o Layout.Object.storage = .ok field ∧ a ≤ field.toNat ∧
    h.kind? field = some .field ∧
    h.loadInt field Layout.Field.length = .ok (Layout.Object.items * Layout.Item.words : Nat) ∧
    ∀ j < Layout.Object.items * Layout.Item.words,
      h.load field (Layout.Field.data + 8 * j) = .ok .hole

variable {h h' : Heap} {ws : List Word} {j : Nat} {m : Word}

theorem Spares.read (spares : Spares h h') (capacity : h'.capacity = h.capacity) {a : Nat}
    (below : a < h.region.cursor) : h'.read a = h.read a := by
  have same : h'.hasWord a = h.hasWord a := by simp only [hasWord, capacity]
  rw [Heap.read, Heap.read, same]
  by_cases inside : h.hasWord a = true
  · have kept := spares.words a (hasWord_iff.mp inside).2.1 below
    rw [if_pos inside, if_pos inside]
    exact congrArg Except.ok kept
  · rw [if_neg inside, if_neg inside]

theorem Appends.loadInt {d : Nat} {n : Int} (appends : Appends h ws h')
    (held : ws[j + d]? = some (.int n)) (fits : Word.Fits n) :
    h'.loadInt (.pointer (h.region.cursor + 8 * j)) (8 * d) = .ok n := by
  rw [Heap.loadInt, appends.load held]
  simp only [bind, Except.bind, Word.int?_int fits]

theorem Appends.kind? (appends : Appends h ws h') (held : ws[j]? = some m) :
    h'.kind? (.pointer (h.region.cursor + 8 * j)) = some (kindOfMap m) := by
  rw [Heap.kind?, Heap.mapOf, Layout.map, ← Nat.mul_zero 8, appends.load (d := 0) held]
  rfl

/-- The words of a new object are those of an object without properties. -/
theorem Appends.empty {front rest : List Word} (appends : Appends h (front ++ m ::
      .int Layout.Object.plain :: .pointer (h.region.cursor + 8 * (front.length + 3)) ::
      freshField (Layout.Object.items * Layout.Item.words) ++ rest) h') :
    h'.Empty h.region.cursor (.pointer (h.region.cursor + 8 * front.length)) m := by
  have held {d : Nat} {v : Word} (inside : (m :: .int Layout.Object.plain ::
      .pointer (h.region.cursor + 8 * (front.length + 3)) ::
      freshField (Layout.Object.items * Layout.Item.words))[d]? = some v) :
      (front ++ m :: .int Layout.Object.plain ::
        .pointer (h.region.cursor + 8 * (front.length + 3)) ::
        freshField (Layout.Object.items * Layout.Item.words) ++ rest)[front.length + d]? =
          some v := getElem?_part inside
  constructor
  · exact appends.load (d := 0) (held rfl)
  · exact appends.loadInt (d := 1) (held rfl) (by decide)
  · refine ⟨_, appends.load (d := 2) (held rfl), ?_, ?_, ?_, fun j inside => ?_⟩
    · rw [appends.toNat_place (by simp)]
      exact Nat.le_add_right _ _
    · exact appends.kind? (held (d := 3) rfl)
    · exact appends.loadInt (d := 1) (held (d := 4) rfl) (by decide)
    · have hole : (freshField (Layout.Object.items * Layout.Item.words))[2 + j]? = some .hole := by
        rw [Nat.add_comm]
        exact List.getElem?_replicate_of_lt inside
      have place := held (d := 3 + (2 + j)) (by rw [Nat.add_comm 3]; exact hole)
      rw [← Nat.add_assoc] at place
      rw [(by simp only [Layout.Field.data]; omega : Layout.Field.data + 8 * j = 8 * (2 + j))]
      exact appends.load place

/-- Only plain objects have maps that are not canonical. -/
theorem canonicalMap_of_kindOfMap {k : Kind} (same : kindOfMap m = k) (special : k ≠ .object) :
    m = k.canonicalMap := by
  unfold kindOfMap at same
  cases found : Kind.all.find? (fun k => k.canonicalMap == m) with
  | none =>
    rw [found] at same
    exact absurd same.symm special
  | some k' =>
    rw [found] at same
    obtain rfl : k' = k := same
    have met := List.find?_some found
    exact (beq_iff_eq.mp met).symm

/-- An entity that was there before reads as it did. -/
theorem Spans.load_spared {w : Word} {n d : Nat} (spans : h.Spans w n) (sound : h.Sound)
    (spares : Spares h h') (sound' : h'.Sound) (part : d % 8 = 0) (inside : d < 8 * n) :
    h'.load w d = h.load w d := by
  obtain ⟨_, aligned, fits⟩ := id spans
  rw [spans.load sound part inside, (spans.later spares.cursor).load sound' part inside,
    spares.words _ (by omega) (by omega)]

end Heap

/-- A function whose code stands for the stub, and whose instances get the map `i`. -/
structure Machine.Constructs (m : Machine) (fn : Word) (ctor : Stub) (i : Word) : Prop where
  spans : m.heap.Spans fn 5
  map : ∃ map flags, m.heap.mapOf fn = .ok map ∧ m.heap.Spans map 2 ∧
    m.heap.loadInt map Layout.Map.flags = .ok flags ∧ Bits.overlap flags Layout.Map.callable = true
  code : ∃ code, m.heap.load fn Layout.Function.code = .ok code ∧ m.Names ctor code
  instances : m.heap.load fn Layout.Function.instanceMap = .ok i

/-- A small integer, or an entity whose map does not say that it can be called. -/
def Heap.Uncallable (h : Heap) (w : Word) : Prop :=
  w.isInt = true ∨ ∃ map flags, h.mapOf w = .ok map ∧
    h.loadInt map Layout.Map.flags = .ok flags ∧ Bits.overlap flags Layout.Map.callable = false

namespace Machine.Constructs

variable {m m' : Machine} {fn i : Word} {ctor : Stub}

/-- What is handed out later does not matter. -/
theorem mono (constructs : m.Constructs fn ctor i) (sound : m.heap.Sound)
    (spares : Heap.Spares m.heap m'.heap) (sound' : m'.heap.Sound) (code : m.code <+: m'.code) :
    m'.Constructs fn ctor i := by
  obtain ⟨spans, ⟨map, flags, mapped, spans', read, callable⟩, ⟨c, held, names⟩, instances⟩ :=
    constructs
  have kept {w : Word} {n d : Nat} (spans : m.heap.Spans w n) (part : d % 8 = 0)
      (inside : d < 8 * n) : m'.heap.load w d = m.heap.load w d :=
    spans.load_spared sound spares sound' part inside
  refine ⟨spans.later spares.cursor, ⟨map, flags, ?_, spans'.later spares.cursor, ?_, callable⟩,
    ⟨c, ?_, ?_⟩, ?_⟩
  · exact (kept spans (d := Layout.map) rfl (by decide)).trans mapped
  · rw [Heap.loadInt, kept spans' rfl (by decide)]
    exact read
  · rw [kept spans rfl (by decide), held]
  · obtain ⟨_, aligned, fits⟩ := names.spans
    have index : Layout.Code.index = 8 := rfl
    exact names.mono spares.cursor (spares.words _ aligned (by omega))
      (spares.words _ (by omega) (by omega)) code
  · rw [kept spans rfl (by decide), instances]

/-- The map of Code entities does not say that they can be called. -/
theorem other (constructs : m.Constructs fn ctor i) (canonical : m.heap.CanonicalMaps) :
    m.heap.kind? fn ≠ some .code := by
  obtain ⟨map, flags, mapped, _, read, callable⟩ := constructs.map
  intro same
  rw [Heap.kind?, mapped] at same
  rw [canonicalMap_of_kindOfMap (Option.some.inj same) (by decide), canonical .code] at read
  cases read
  cases callable

/-- A call of the function is a call of the stub. -/
theorem target (constructs : m.Constructs fn ctor i) (sound : m.heap.Sound)
    (other : m.heap.kind? fn ≠ some .code) : m.target fn = .ok ctor := by
  obtain ⟨map, flags, mapped, _, read, callable⟩ := constructs.map
  obtain ⟨code, held, names⟩ := constructs.code
  refine names.target_of_code sound other ?_ held
  rw [Heap.mapFlag, mapped]
  simp only [bind, Except.bind, Heap.loadFlag, read, callable]
  rfl

end Machine.Constructs

section

variable {stubs : String → Stub} (library : Library stubs) {s : State ρ} (host : Host ρ)
  (fuel : Nat) (self : Word) {fn i : Word} {ctor : Stub}

include library

/-- Of an entity the flags of its map decide. -/
theorem Library.checkFunction_flags (depth : s.machine.depth < s.machine.maxDepth)
    (entity : fn.isInt = false) {map : Word} {flags : Int}
    (mapped : s.machine.heap.mapOf fn = .ok map)
    (read : s.machine.heap.loadInt map Layout.Map.flags = .ok flags) :
    invoke host (fuel + 4) (stubs checkFunction) self [fn] s =
      if Bits.overlap flags Layout.Map.callable then .ok .undefined s
      else .error (.trap (.fatal .notFunction)) s := by
  obtain ⟨w, loaded, int⟩ := loadInt_ok read
  have mapped : (Exec.query fun h => h.load fn Layout.map : Exec ρ Word) s.deeper =
    .ok map s.deeper := Exec.query_ok mapped
  rw [library.invoke_graph Programs.functionCheck checkFunction rfl, Programs.functionCheck_run,
    Exec.nested_eq, if_pos depth, if_neg (by rw [entity]; exact Bool.false_ne_true),
    estate_bind_of_ok mapped, estate_bind_of_ok (Exec.query_ok (s := s.deeper) loaded),
    estate_bind_of_ok (Exec.int_ok int _)]
  by_cases callable : Bits.overlap flags Layout.Map.callable = true
  · rw [if_pos callable, if_pos callable]
    rfl
  · rw [if_neg callable, if_neg callable]
    rfl

theorem Library.checkFunction_refuses (depth : s.machine.depth < s.machine.maxDepth)
    (refused : s.machine.heap.Uncallable fn) :
    invoke host (fuel + 4) (stubs checkFunction) self [fn] s =
      .error (.trap (.fatal .notFunction)) s := by
  by_cases int : fn.isInt = true
  · rw [library.invoke_graph Programs.functionCheck checkFunction rfl, Programs.functionCheck_run,
      Exec.nested_eq, if_pos depth, if_pos int]
    rfl
  · obtain ⟨map, flags, mapped, read, plain⟩ := refused.resolve_left int
    rw [library.checkFunction_flags host fuel self depth (Bool.eq_false_iff.mpr int) mapped read,
      plain]
    rfl

theorem Library.checkFunction_accepts (depth : s.machine.depth < s.machine.maxDepth)
    (constructs : s.machine.Constructs fn ctor i) :
    invoke host (fuel + 4) (stubs checkFunction) self [fn] s = .ok .undefined s := by
  obtain ⟨map, flags, mapped, _, read, callable⟩ := constructs.map
  have entity := Word.isInt_aligned constructs.spans.aligned
  rw [library.checkFunction_flags host fuel self depth entity mapped read, if_pos callable]

/-- A construction that is refused changes nothing. -/
theorem Library.new_refuses (refused : s.machine.heap.Uncallable fn) (argc : Word)
    (rest : List Word) :
    invoke host (fuel + 5) (stubs new) self (argc :: fn :: rest) s =
      .error (.trap (.fatal (if s.machine.depth + 1 < s.machine.maxDepth then .notFunction
        else .callDepth))) s := by
  have checked : invoke host (fuel + 4) (stubs checkFunction) .undefined [fn] s.deeper =
      .error (.trap (.fatal (if s.machine.depth + 1 < s.machine.maxDepth then .notFunction
        else .callDepth))) s.deeper := by
    by_cases deep : s.machine.depth + 1 < s.machine.maxDepth
    · rw [if_pos deep]
      exact library.checkFunction_refuses host fuel .undefined deep refused
    · rw [if_neg deep, invoke_succ, Exec.nested_eq]
      exact if_neg deep
  rw [library.invoke_graph Programs.construction new rfl, Programs.construction_run,
    Exec.nested_eq]
  by_cases depth : s.machine.depth < s.machine.maxDepth
  · rw [if_pos depth, estate_bind_of_error checked]
    rfl
  · rw [if_neg depth, if_neg (by omega)]

/-- A construction with a fresh object at hand. -/
theorem Library.new_calls (sound : s.machine.heap.Sound) (canonical : s.machine.heap.CanonicalMaps)
    (constructs : s.machine.Constructs fn ctor i) {n : Nat} (fits : Word.Fits n)
    (rest : List Word) {o : Word} {u : State ρ}
    (made : invoke host (fuel + 6) (stubs allocObject) .undefined [] s.deeper = .ok o u) :
    ∃ t, s.deeper.Lays (i :: (freshObject s.machine.heap.region.cursor).tail) t ∧
      o = .pointer s.machine.heap.region.cursor ∧
      invoke host (fuel + 7) (stubs new) self (.int n :: fn :: rest) s =
        match invoke host (fuel + 6) ctor o ((List.range n).map fun k => rest.getD k .undefined)
          t with
        | .ok _ t => .ok o t.shallower
        | .error e t => .error e t.shallower := by
  have depth : s.machine.depth + 1 < s.machine.maxDepth := by
    rw [invoke_succ, Exec.nested_eq] at made
    by_contra deep
    have deep : ¬ s.deeper.machine.depth < s.deeper.machine.maxDepth := deep
    rw [if_neg deep] at made
    cases made
  obtain ⟨place, lays⟩ :=
    (library.allocObject_puts (s := s.deeper) sound host fuel .undefined).ok made
  have checked := library.checkFunction_accepts (s := s.deeper) host (fuel + 2) .undefined
    depth (constructs.mono sound (.refl _) sound List.prefix_rfl)
  have instances := constructs.spans.load_spared sound lays.appends.spares lays.appends.sound
    (d := Layout.Function.instanceMap) rfl (by decide)
  rw [constructs.instances] at instances
  obtain ⟨t, stored, lays'⟩ : ∃ t, Exec.onHeap (Heap.store o Layout.map i) u = .ok () t ∧
      s.deeper.Lays (i :: (freshObject s.machine.heap.region.cursor).tail) t :=
    lays.store (w := i) (j := 0) (d := 0) place (by simp [freshObject]) rfl
  have appends := lays'.appends
  have constructs' : t.machine.Constructs fn ctor i :=
    constructs.mono sound appends.spares appends.sound (lays'.code ▸ List.prefix_rfl)
  have other : t.machine.heap.kind? fn ≠ some .code := by
    obtain ⟨_, aligned, fits⟩ := constructs.spans
    have same : t.machine.heap.kind? fn = s.machine.heap.kind? fn :=
      kind?_congr appends.capacity (appends.kept _ aligned (by rw [State.deeper_heap]; omega))
    rw [same]
    exact constructs.other canonical
  let given := (List.range n).map fun k => rest.getD k .undefined
  have called : callValue (invoke host (fuel + 6)) fn o given t =
      invoke host (fuel + 6) ctor o given t := by
    rw [callValue_eq, constructs'.target appends.sound other]
  have argc : (Word.int n).int? = some (.ofNat n) := Word.int?_int fits
  refine ⟨t, lays', place, ?_⟩
  rw [library.invoke_graph Programs.construction new rfl, Programs.construction_run,
    Exec.nested_eq, if_pos (by omega), estate_bind_of_ok checked, estate_bind_of_ok made,
    estate_bind_of_ok (Exec.query_ok instances), estate_bind_of_ok stored, argc]
  dsimp only
  cases ran : invoke host (fuel + 6) ctor o given t with
  | ok w u =>
    rw [estate_bind_of_ok (called.trans ran)]
    rfl
  | error e u => rw [estate_bind_of_error (called.trans ran)]

/-- What cannot be called is refused, and nothing has changed then. Of everything else a
construction with a fresh object at hand is one call of the constructor: on that object, with as
many arguments as were announced, and nothing else in the machine has changed by then. It gives the
object if the constructor returns, whatever that may be, and fails as the constructor does. -/
theorem new_runs_constructor (sound : s.machine.heap.Sound)
    (canonical : s.machine.heap.CanonicalMaps) (fn : Word) {n : Nat} (fits : Word.Fits n)
    (rest : List Word) :
    (s.machine.heap.Uncallable fn →
      invoke host (fuel + 7) (stubs new) self (.int n :: fn :: rest) s =
        .error (.trap (.fatal (if s.machine.depth + 1 < s.machine.maxDepth then .notFunction
          else .callDepth))) s) ∧
    ∀ ctor i, s.machine.Constructs fn ctor i → ∀ o u,
      invoke host (fuel + 6) (stubs allocObject) .undefined [] s.deeper = .ok o u →
      ∃ t, o = .pointer s.machine.heap.region.cursor ∧ t = s.deeper.withHeap t.machine.heap ∧
        t.machine.heap.Empty s.machine.heap.region.cursor o i ∧
        (∀ a < s.machine.heap.region.cursor, t.machine.heap.read a = s.machine.heap.read a) ∧
        invoke host (fuel + 7) (stubs new) self (.int n :: fn :: rest) s =
          match invoke host (fuel + 6) ctor o ((List.range n).map fun k => rest.getD k .undefined)
            t with
          | .ok _ t => .ok o t.shallower
          | .error e t => .error e t.shallower := by
  refine ⟨fun refused => library.new_refuses host (fuel + 2) self refused _ rest,
    fun ctor i constructs o u made => ?_⟩
  obtain ⟨t, ⟨h, rfl, appends, _⟩, rfl, same⟩ :=
    library.new_calls host fuel self sound canonical constructs fits rest made
  have split : Heap.Appends s.machine.heap ([] ++ i :: .int Layout.Object.plain ::
      .pointer (s.machine.heap.region.cursor + 8 * (0 + 3)) ::
      freshField (Layout.Object.items * Layout.Item.words) ++ []) h := by
    rw [List.append_nil]
    exact appends
  exact ⟨_, rfl, rfl, split.empty, fun a below => appends.spares.read appends.capacity below, same⟩

end

/-- With one call allowed, the construction is under way but cannot ask what is wrong with the
constructor. -/
theorem shallow_new_overflows : ∃ h, create 1024 = .ok h ∧
    let s : State Unit := ⟨.ofHeap h 1, ()⟩
    s.machine.heap.Sound ∧ s.machine.heap.CanonicalMaps ∧ s.machine.heap.Uncallable (.int 5) ∧
    s.machine.depth < s.machine.maxDepth ∧
    invoke Host.absent 7 (freshStubs new) .undefined [.int 0, .int 5] s =
      .error (.trap (.fatal .callDepth)) s := by
  obtain ⟨h, created, maps⟩ : ∃ h, create 1024 = .ok h ∧
      ∀ k ∈ Kind.all, h.loadInt k.canonicalMap Layout.Map.flags =
        .ok (if k = .function then Layout.Map.callable else Layout.Map.plain) :=
    ⟨roomy, roomy_created, by decide +kernel⟩
  refine ⟨h, created, create_sound created (by decide), fun k => maps k k.mem_all, .inl rfl,
    Nat.zero_lt_one, ?_⟩
  exact freshStubs_library.new_refuses Host.absent 2 .undefined (.inl rfl) _ _

/-- A constructor that keeps its second argument in place of the storage, and returns it. -/
def grasping : Stub :=
  { name := "grasping", origin := 0, entry := 0, varCount := 2, deps := [], cache := none
    blocks := [
      { params := []
        insts := [.define 0 .receiver, .define 1 (.arg 1),
          .perform (.store 0 1 Layout.Object.storage)]
        exit := .ret (some 1) }] }

/-- A function with the given code, whose instances are plain objects. -/
def plainConstructor (code : Word) : HeapM Word := do
  let f ← bareFunction code
  store f Layout.Function.instanceMap Kind.object.canonicalMap
  return f

theorem plainConstructor_advances (code : Word) : Advances (plainConstructor code) :=
  (bareFunction_advances code).bind fun _ => (store_advances _ _ _).bind fun _ => .pure _

/-- Makes a constructor of the stub that grasps. -/
def hire : EStateM HeapError Machine Word := do
  let code ← Machine.codeEntity grasping
  Machine.onHeap (plainConstructor code)

/-- A machine that has made one. -/
def hired : State Unit :=
  { machine := match hire (.ofHeap roomy 8) with
      | .ok _ m => m
      | .error _ m => m
    host := () }

theorem hired_made : ∃ code m h, Machine.codeEntity grasping (.ofHeap roomy 8) = .ok code m ∧
    plainConstructor code m.heap = .ok (.pointer 464) h ∧ hired.machine = { m with heap := h } ∧
    (∀ e ∈ m.entities, ∀ offset ∈ [Layout.map, Layout.Code.index],
      h.load e.2 offset = m.heap.load e.2 offset) ∧
    h.load (.pointer 464) Layout.Function.code = .ok code := by
  obtain ⟨code, m, asked, made⟩ : ∃ code m,
      Machine.codeEntity grasping (.ofHeap roomy 8) = .ok code m ∧
      Yields (plainConstructor code) m.heap (fun f h => f = .pointer 464 ∧
        (∀ e ∈ m.entities, ∀ offset ∈ [Layout.map, Layout.Code.index],
          h.load e.2 offset = m.heap.load e.2 offset) ∧
        h.load (.pointer 464) Layout.Function.code = .ok code) fun _ _ => False :=
    Yields.returns (by decide +kernel)
  obtain ⟨_, h, made, rfl, spared, held⟩ := made.returns
  have result : hire (.ofHeap roomy 8) = .ok (.pointer 464) { m with heap := h } := by
    rw [hire, estate_bind_of_ok asked, Machine.onHeap, made]
  exact ⟨code, m, h, asked, made, by rw [hired, result], spared, held⟩

theorem hired_names : hired.machine.heap.Sound ∧ ∃ code,
    hired.machine.heap.load (.pointer 464) Layout.Function.code = .ok code ∧
    hired.machine.Names grasping code := by
  obtain ⟨code, m, h, asked, made, same, spared, held⟩ := hired_made
  have recorded := (roomy_answers.ask asked).recorded.elsewhere
    (.of_heap (plainConstructor_advances code) made spared)
  obtain ⟨_, _, given, names⟩ := recorded.names (recorded.kept List.mem_cons_self)
  cases List.mem_singleton.mp given
  rw [same]
  exact ⟨recorded.sound, code, held, names⟩

theorem hired_constructs : hired.machine.heap.Sound ∧ hired.machine.heap.CanonicalMaps ∧
    hired.machine.Constructs (.pointer 464) grasping Kind.object.canonicalMap := by
  obtain ⟨sound, code, held, names⟩ := hired_names
  obtain ⟨cursor, mapped, instances, maps⟩ : 504 ≤ hired.machine.heap.region.cursor ∧
      hired.machine.heap.mapOf (.pointer 464) = .ok Kind.function.canonicalMap ∧
      hired.machine.heap.load (.pointer 464) Layout.Function.instanceMap =
        .ok Kind.object.canonicalMap ∧
      ∀ k ∈ Kind.all, hired.machine.heap.loadInt k.canonicalMap Layout.Map.flags =
        .ok (if k = .function then Layout.Map.callable else Layout.Map.plain) := by
    decide +kernel
  have canonical : hired.machine.heap.CanonicalMaps := fun k => maps k k.mem_all
  refine ⟨sound, canonical, ⟨by decide, rfl, cursor⟩, ⟨_, _, mapped, ⟨by decide, by decide, ?_⟩,
    canonical .function, by decide⟩, ⟨code, held, names⟩, instances⟩
  exact Nat.le_trans (by decide) cursor

/-- With two arguments announced and one given, the constructor gets `undefined` for the other. A
small integer is no constructor. -/
theorem grasping_constructs : ∃ (s : State Unit) (t u : State Unit),
    s.machine.heap.Sound ∧ s.machine.heap.CanonicalMaps ∧
    s.machine.Constructs (.pointer 464) grasping Kind.object.canonicalMap ∧
    invoke Host.absent 7 (freshStubs new) .undefined [.int 2, .int 5, .int 7] s =
      .error (.trap (.fatal .notFunction)) s ∧
    t.machine.heap.Empty 520 (.pointer 520) Kind.object.canonicalMap ∧
    (∃ w v, invoke Host.absent 6 grasping (.pointer 520) [.int 7, .undefined] t = .ok w v ∧
      u = v.shallower) ∧
    invoke Host.absent 7 (freshStubs new) .undefined [.int 2, .pointer 464, .int 7] s =
      .ok (.pointer 520) u ∧
    u.machine.heap.load (.pointer 520) Layout.Object.storage = .ok .undefined := by
  obtain ⟨sound, canonical, constructs⟩ := hired_constructs
  have depth : hired.machine.depth + 1 < hired.machine.maxDepth := by decide +kernel
  have place : hired.machine.heap.region.cursor = 520 := by decide +kernel
  have runs := new_runs_constructor freshStubs_library Host.absent 0 .undefined sound canonical
    (n := 2)
  have refused := (runs (.int 5) (by decide) [.int 7]).1 (.inl rfl)
  rw [if_pos depth] at refused
  obtain ⟨o, v, object, _⟩ : ∃ o v,
      invoke Host.absent 6 (freshStubs allocObject) .undefined [] hired.deeper = .ok o v ∧ True :=
    Yields.returns (by decide +kernel)
  obtain ⟨_, u, ran, rfl, stored⟩ : ∃ w u, invoke Host.absent 7 (freshStubs new) .undefined
      [.int 2, .pointer 464, .int 7] hired = .ok w u ∧ w = .pointer 520 ∧
      u.machine.heap.load (.pointer 520) Layout.Object.storage = .ok .undefined :=
    Yields.returns (by decide +kernel)
  obtain ⟨t, rfl, _, empty, _, same⟩ :=
    (runs (.pointer 464) (by decide) [.int 7]).2 _ _ constructs o v object
  have given : (List.range 2).map (fun k => [Word.int 7].getD k .undefined) =
    [.int 7, .undefined] := rfl
  rw [given, place] at same
  rw [place] at empty
  refine ⟨hired, t, u, sound, canonical, constructs, refused, empty, ?_, ran, stored⟩
  -- what the construction gives tells how the call of the constructor ended
  cases called : invoke Host.absent 6 grasping (.pointer 520) [.int 7, .undefined] t with
  | ok w v =>
    rw [called] at same
    cases same.symm.trans ran
    exact ⟨w, v, rfl, rfl⟩
  | error e v =>
    rw [called] at same
    cases same.symm.trans ran

end FastPath
