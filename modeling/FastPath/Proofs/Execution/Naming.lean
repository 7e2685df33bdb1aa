import FastPath.Proofs.Compilation.Meaning
import FastPath.Proofs.Execution.Simulation
import FastPath.Proofs.Heap.Creation
import Mathlib.Data.List.Nodup

/-! Code entities as names of stubs. A machine that is asked for the Code entities of several
stubs, with whatever happens in between that spares these entities, answers the same for the same
entry point and differently for different ones, and calling an answer runs the stub that was asked
for first under its entry point. Stubs of one compiler differ in their entry points, so among them
an answer stands for the very stub; stubs of two compilers may be mixed up. -/

namespace FastPath

open Heap

/-- What may happen to a machine apart from requests for Code entities: the tables and the words of
the Code entities stay as they are. -/
structure Machine.Elsewhere (m m' : Machine) : Prop where
  heap : m.heap.Onward m'.heap
  code : m'.code = m.code
  entities : m'.entities = m.entities
  spared : ∀ e ∈ m.entities, ∀ offset ∈ [Layout.map, Layout.Code.index],
    m'.heap.load e.2 offset = m.heap.load e.2 offset

/-- The machine `m` was asked for the Code entities of stubs and gave these answers, the last one
first. -/
inductive Machine.Answered : List (Stub × Word) → Machine → Prop
  | start {h : Heap} (sound : h.Sound) (maxDepth : Nat) : Answered [] (.ofHeap h maxDepth)
  | ask {m m' : Machine} {s : Stub} {w : Word} (answered : Answered asked m)
      (done : codeEntity s m = .ok w m') : Answered ((s, w) :: asked) m'
  | fail {m m' : Machine} {s : Stub} {e : HeapError} (answered : Answered asked m)
      (failed : codeEntity s m = .error e m') : Answered asked m'
  | elsewhere {m m' : Machine} (answered : Answered asked m) (step : m.Elsewhere m') :
      Answered asked m'

/-- The Code entity `w` holds the place of the stub in the code table. -/
structure Machine.Names (m : Machine) (s : Stub) (w : Word) : Prop where
  spans : m.heap.Spans w 2
  map : m.heap.word w.toNat = Kind.code.canonicalMap
  index : ∃ i : Nat, i < 0x80000000 ∧ m.code[i]? = some s ∧
    m.heap.word (w.toNat + Layout.Code.index) = .int i

theorem Heap.Onward.capacity {h h' : Heap} (onward : h.Onward h') : h'.capacity = h.capacity := by
  rw [Heap.capacity, Heap.capacity, onward.size]

theorem Heap.Onward.sound {h h' : Heap} (onward : h.Onward h') (sound : h.Sound) : h'.Sound := by
  obtain ⟨aligned, start, bounded, backed, small⟩ := sound
  constructor
  · exact onward.aligned aligned
  · exact Nat.le_trans start onward.cursor
  · exact onward.bounded bounded
  · rw [onward.limit, onward.capacity]
    exact backed
  · rw [onward.capacity]
    exact small

/-- The stubs that a compiler makes differ in their entry points. -/
theorem Compiler.compileAll_apart {c : Compiler} {requests : List Request} {s t : Stub}
    (made : s ∈ (c.compileAll requests).1) (made' : t ∈ (c.compileAll requests).1)
    (same : s.entry = t.entry) : s = t := by
  have distinct : ((c.compileAll requests).1.map Stub.entry).Nodup := by
    rw [compileAll_entries]
    exact List.nodup_range' 0x10
  exact List.inj_on_of_nodup_map distinct made made' same

namespace Machine

variable {m m' : Machine} {s t : Stub} {v w : Word} {asked : List (Stub × Word)}

namespace Names

/-- Only these words and the place in the table matter. -/
theorem mono (names : m.Names s w) (cursor : m.heap.region.cursor ≤ m'.heap.region.cursor)
    (map : m'.heap.word w.toNat = m.heap.word w.toNat)
    (index : m'.heap.word (w.toNat + Layout.Code.index) =
      m.heap.word (w.toNat + Layout.Code.index))
    (code : m.code <+: m'.code) : m'.Names s w := by
  obtain ⟨i, small, held, read⟩ := names.index
  constructor
  · exact names.spans.later cursor
  · exact map.trans names.map
  · refine ⟨i, small, ?_, index.trans read⟩
    obtain ⟨bound, _⟩ := List.getElem?_eq_some_iff.mp held
    obtain ⟨rest, same⟩ := code
    rw [← same, List.getElem?_append_left bound, held]

/-- Entities that are made later take nothing from it. -/
theorem grown {h : Heap} {n : Nat} (names : m.Names s w) (grown : Grown m.heap n h)
    (later : List Stub) (entities : List (Nat × Word)) :
    Machine.Names { m with heap := h, code := m.code ++ later, entities } s w := by
  obtain ⟨_, aligned, fits⟩ := names.spans
  refine names.mono grown.spares.cursor ?_ ?_ (List.prefix_append _ _)
  · exact grown.kept _ aligned (.inl (by omega))
  · simp only [Layout.Code.index]
    exact grown.kept _ (by omega) (.inl (by omega))

theorem stub? (names : m.Names s w) (sound : m.heap.Sound) : m.stub? w = some s := by
  obtain ⟨i, small, held, read⟩ := names.index
  have kind : m.heap.kind? w = some .code := by
    rw [names.spans.kind sound, names.map]
    rfl
  have number : (Word.int i).int? = some (i : Int) := Word.int?_natCast (by omega)
  have loaded : m.heap.loadInt w Layout.Code.index = .ok (i : Int) := by
    rw [loadInt, names.spans.load sound rfl (by decide), read]
    simp only [bind, Except.bind, number]
  rw [Machine.stub?, if_pos (beq_iff_eq.mpr kind), loaded]
  exact held

/-- Each name stands for one stub. -/
theorem unique (names : m.Names s w) (names' : m.Names t w) (sound : m.heap.Sound) : s = t :=
  Option.some.inj ((names.stub? sound).symm.trans (names'.stub? sound))

theorem target (names : m.Names s w) (sound : m.heap.Sound) : m.target w = .ok s :=
  Machine.target_entity (Word.isInt_aligned names.spans.aligned) (names.stub? sound)

/-- What can be called is called through its Code entity, unless it is one itself. -/
theorem target_of_code (names : m.Names s w) (sound : m.heap.Sound) {f : Word}
    (entity : m.heap.kind? f ≠ some .code)
    (callable : m.heap.mapFlag f Layout.Map.callable = .ok true)
    (code : m.heap.load f Layout.Function.code = .ok w) : m.target f = .ok s := by
  have direct : m.stub? f = none := by
    rw [Machine.stub?, if_neg]
    exact fun same => entity (beq_iff_eq.mp same)
  have pointer : f.isInt = false := by
    rw [← Bool.not_eq_true]
    intro int
    have failed : m.heap.mapFlag f Layout.Map.callable = .error (.notPointer f) := by
      simp [mapFlag, mapOf, load, addressOf, Word.address?, int, bind, Except.bind]
    cases failed.symm.trans callable
  exact (Machine.target_callable pointer direct callable code).1 s (names.stub? sound)

end Names

/-- What is said of a machine after it was asked. -/
structure Recorded (asked : List (Stub × Word)) (m : Machine) : Prop where
  sound : m.heap.Sound
  names : ∀ {entry w}, m.entities.lookup entry = some w →
    ∃ s, s.entry = entry ∧ (s, w) ∈ asked ∧ m.Names s w
  kept : ∀ {s w}, (s, w) ∈ asked → m.entities.lookup s.entry = some w

/-- An action on the heap is no request. -/
theorem Elsewhere.of_heap {act : HeapM α} {h : Heap} (advances : Heap.Advances act)
    (done : act m.heap = .ok a h)
    (spared : ∀ e ∈ m.entities, ∀ offset ∈ [Layout.map, Layout.Code.index],
      h.load e.2 offset = m.heap.load e.2 offset) : m.Elsewhere { m with heap := h } := by
  constructor
  · exact (advances m.heap).ok done
  · rfl
  · rfl
  · exact spared

theorem Recorded.elsewhere (recorded : Recorded asked m) (step : m.Elsewhere m') :
    Recorded asked m' := by
  have sound := step.heap.sound recorded.sound
  constructor
  · exact sound
  · intro entry w known
    rw [step.entities] at known
    obtain ⟨s, same, given, names⟩ := recorded.names known
    have word {d : Nat} (member : d ∈ [Layout.map, Layout.Code.index]) (part : d % 8 = 0)
        (inside : d < 8 * 2) : m'.heap.word (w.toNat + d) = m.heap.word (w.toNat + d) := by
      obtain ⟨before, after, split, _⟩ := List.lookup_eq_some_iff.mp known
      have spared := step.spared (entry, w) (by simp [split]) d member
      rw [names.spans.load recorded.sound part inside,
        (names.spans.later step.heap.cursor).load sound part inside] at spared
      exact Except.ok.inj spared
    refine ⟨s, same, given, names.mono step.heap.cursor ?_ ?_ (step.code ▸ List.prefix_rfl)⟩
    · exact word (d := Layout.map) (by simp) rfl (by decide)
    · exact word (d := Layout.Code.index) (by simp) rfl (by decide)
  · intro s w given
    rw [step.entities]
    exact recorded.kept given

/-- A new Code entity stands at the old cursor, unless there is no room for it. -/
theorem newEntity_cases (sound : m.heap.Sound) (s : Stub) (small : m.code.length < 0x80000000) :
    (m.heap.region.limit < m.heap.region.cursor + Layout.Code.size ∧
      ∃ e, newEntity s m.code.length m = .error e m) ∨
    ∃ h, Grown m.heap 2 h ∧
      newEntity s m.code.length m = .ok (.pointer m.heap.region.cursor)
        { m with
          heap := h
          code := m.code ++ [s]
          entities := (s.entry, .pointer m.heap.region.cursor) :: m.entities } ∧
      Names { m with heap := h, code := m.code ++ [s] } s (.pointer m.heap.region.cursor) := by
  have words : Layout.Code.size = 8 * (1 + 1) := rfl
  obtain ⟨full, failed⟩ | ⟨h, made, grown, map⟩ := allocate_cases .code sound words
  · left
    exact ⟨full, _, estate_bind_of_error (onHeap_error failed)⟩
  · right
    have place := sound.toNat_cursor
    have aligned := sound.aligned
    have cursor := grown.cursor
    have spans := grown.spans sound
    have stored := spans.store (d := Layout.Code.index) (v := .int m.code.length) grown.sound rfl
      (by decide)
    have inside := spans.hasWord (d := Layout.Code.index) grown.sound rfl (by decide)
    rw [place] at stored inside
    have grown : Grown m.heap 2
        (h.put (m.heap.region.cursor + Layout.Code.index) (.int m.code.length)) :=
      grown.put (by simp only [Layout.Code.index]; omega) (by omega)
        (by simp only [Layout.Code.index]; omega)
    refine ⟨_, grown, ?_, grown.spans sound, ?_, m.code.length, small, by simp, ?_⟩
    · rw [newEntity, estate_bind_of_ok (onHeap_ok made)]
      exact estate_bind_of_ok (onHeap_ok stored)
    · change (h.put _ _).word _ = _
      rw [place, word_put_other (by simp only [Layout.Code.index]; omega) aligned
        (by simp only [Layout.Code.index]; omega), map]
    · change (h.put _ _).word _ = _
      rw [place, word_put_same inside]

/-- There is room for one more Code entity. -/
def Roomy (m : Machine) : Prop :=
  m.heap.region.cursor + Layout.Code.size ≤ m.heap.region.limit ∧ m.code.length < 0x80000000

/-- A request either finds the answer, or adds one, or is refused for want of room and changes
nothing. -/
theorem Recorded.ask (recorded : Recorded asked m) (s : Stub) :
    Yields (codeEntity s) m (fun w => Recorded ((s, w) :: asked)) fun _ m' =>
      ¬ m.Roomy ∧ m' = m := by
  obtain ⟨sound, names, kept⟩ := recorded
  apply Yields.congr (codeEntity_eq s m)
  cases known : m.entities.lookup s.entry with
  | some w =>
    refine .pure ⟨sound, fun known => ?_, fun given => ?_⟩
    · obtain ⟨t, same, given, names⟩ := names known
      exact ⟨t, same, List.mem_cons_of_mem _ given, names⟩
    · obtain same | given := List.mem_cons.mp given
      · cases same
        exact known
      · exact kept given
  | none =>
    by_cases room : m.code.length < 0x80000000
    · simp only [if_pos room]
      obtain ⟨full, e, failed⟩ | ⟨h, grown, made, new⟩ := newEntity_cases sound s room
      · exact .of_error failed ⟨fun roomy => Nat.not_le_of_lt full roomy.1, rfl⟩
      · refine .of_ok made ⟨grown.sound, fun {entry v} found => ?_, fun {t v} given => ?_⟩
        · change ((s.entry, _) :: m.entities).lookup entry = some v at found
          rw [List.lookup_cons] at found
          split at found
          next same =>
            cases found
            refine ⟨s, (beq_iff_eq.mp same).symm, List.mem_cons_self, new.mono ?_ rfl rfl ?_⟩
            · exact Nat.le_refl _
            · exact List.prefix_rfl
          next =>
            obtain ⟨t, same, given, old⟩ := names found
            exact ⟨t, same, List.mem_cons_of_mem _ given, old.grown grown [s] _⟩
        · change ((s.entry, _) :: m.entities).lookup t.entry = some v
          rw [List.lookup_cons]
          obtain same | given := List.mem_cons.mp given
          · cases same
            simp
          · have old := kept given
            split
            next same =>
              rw [beq_iff_eq.mp same] at old
              cases known.symm.trans old
            next => exact old
    · simp only [if_neg room]
      exact .throw ⟨fun roomy => room roomy.2, rfl⟩

theorem Answered.recorded (answered : Answered asked m) : Recorded asked m := by
  induction answered with
  | start sound maxDepth => exact ⟨sound, nofun, nofun⟩
  | ask _ done ih => exact (ih.ask _).ok done
  | fail _ failed ih =>
    obtain ⟨_, rfl⟩ := (ih.ask _).error failed
    exact ih
  | elsewhere _ step ih => exact ih.elsewhere step

end Machine

/-- The answers of a machine name stubs. With room there is always an answer. Asked again the
machine answers the same and does not change, and two answers are the same just if the entry points
are. Unless another stub with the same entry point was asked for, the answer stands for the stub:
this is what is found behind it, and what runs when it is called, be it directly or as the code of
something callable. -/
theorem code_entities_name_stubs {asked : List (Stub × Word)} {m : Machine}
    (answered : m.Answered asked) :
    (m.Roomy → ∀ s, ∃ w m', Machine.codeEntity s m = .ok w m') ∧
    ∀ s w, (s, w) ∈ asked →
      Machine.codeEntity s m = .ok w m ∧
      (∀ s' w', (s', w') ∈ asked → (w' = w ↔ s'.entry = s.entry)) ∧
      ((∀ s' w', (s', w') ∈ asked → s'.entry = s.entry → s' = s) →
        m.stub? w = some s ∧
        ∀ {ρ : Type} (calls : Invoke ρ) (self : Word) (args : List Word) (host : ρ),
          callValue calls w self args ⟨m, host⟩ = calls s self args ⟨m, host⟩ ∧
          ∀ f, m.heap.kind? f ≠ some .code → m.heap.mapFlag f Layout.Map.callable = .ok true →
            m.heap.load f Layout.Function.code = .ok w →
            callValue calls f self args ⟨m, host⟩ = calls s self args ⟨m, host⟩) := by
  have recorded := answered.recorded
  constructor
  · intro roomy s
    have asked := recorded.ask s
    cases ran : Machine.codeEntity s m with
    | ok w m' => exact ⟨w, m', rfl⟩
    | error e m' => exact absurd roomy (asked.error ran).1
  intro s w given
  have known := recorded.kept given
  obtain ⟨t, entry, first, names⟩ := recorded.names known
  refine ⟨?_, fun s' w' given' => ⟨?_, ?_⟩, fun apart => ?_⟩
  · rw [Machine.codeEntity_eq, known]
    rfl
  · rintro rfl
    obtain ⟨t', entry', _, names'⟩ := recorded.names (recorded.kept given')
    rw [← entry, ← entry', names.unique names' recorded.sound]
  · intro same
    have known' := recorded.kept given'
    rw [same, known] at known'
    exact (Option.some.inj known').symm
  · obtain rfl := apart t w first entry
    refine ⟨names.stub? recorded.sound, fun calls self args host => ⟨?_, ?_⟩⟩
    · rw [callValue_eq, names.target recorded.sound]
    · intro f entity callable code
      rw [callValue_eq, names.target_of_code recorded.sound entity callable code]

/-- A graph that returns a number. -/
def returning (name : String) (n : Int) : Graph :=
  { stub := name, varCount := 1
    blocks := [{ params := [], insts := [.define 0 (.literal (.int n))], exit := .ret (some 0) }] }

/-- What a compiler makes of it. -/
def returner (origin entry : Nat) (name : String) (n : Int) : Stub :=
  { name, origin, entry, varCount := 1, deps := [], cache := none
    blocks := [{ params := [], insts := [.define 0 (.literal (.int n))], exit := .ret (some 0) }] }

/-- A function with the given code, of which no more is filled in. -/
def bareFunction (code : Word) : HeapM Word := do
  let f ← allocate .function (Layout.Function.size 0)
  store f Layout.Function.code code
  return f

theorem bareFunction_advances (code : Word) : Advances (bareFunction code) :=
  (allocate_advances _ _).bind fun _ => (store_advances _ _ _).bind fun _ => .pure _

theorem create_sound {h : Heap} {size : Nat} (created : create size = .ok h)
    (small : size < 0x7ffffffffffffff8) : h.Sound :=
  (create_words created small).1

/-- A heap with room for a few entities. -/
def roomy : Heap :=
  match create 1024 with
  | .ok h => h
  | .error _ => default

theorem roomy_created : create 1024 = .ok roomy := by
  obtain ⟨h, created⟩ := create_ok (show 448 ≤ roundUp 1024 by decide)
  unfold roomy
  rw [created]

theorem roomy_answers : (Machine.ofHeap roomy 8).Answered [] :=
  .start (create_sound roomy_created (by decide)) 8

theorem siblings_compiled : (Compiler.compileAll { id := 0 }
    [⟨returning "one" 1, {}, []⟩, ⟨returning "two" 2, {}, []⟩]).1 =
      [returner 0 0x1000 "one" 1, returner 0 0x1010 "two" 2] := rfl

/-- Of two answers for the siblings neither is for a stub with the entry point of the other. -/
theorem siblings_apart {s s' : Stub} {v w w' : Word}
    (made : s ∈ [returner 0 0x1000 "one" 1, returner 0 0x1010 "two" 2])
    (given : (s', w') ∈ [(returner 0 0x1010 "two" 2, w), (returner 0 0x1000 "one" 1, v)])
    (same : s'.entry = s.entry) : s' = s := by
  rw [← siblings_compiled] at made
  refine Compiler.compileAll_apart ?_ made same
  rw [siblings_compiled]
  rcases List.mem_cons.mp given with same | given
  · cases same
    simp
  · cases List.mem_singleton.mp given
    simp

theorem siblings_answered : ∃ v w f m,
    Machine.Answered [(returner 0 0x1010 "two" 2, w), (returner 0 0x1000 "one" 1, v)] m ∧
    m.heap.kind? f ≠ some .code ∧ m.heap.mapFlag f Layout.Map.callable = .ok true ∧
    m.heap.load f Layout.Function.code = .ok v := by
  obtain ⟨v, m, asked, made⟩ : ∃ v m,
      Machine.codeEntity (returner 0 0x1000 "one" 1) (.ofHeap roomy 8) = .ok v m ∧
      Yields (bareFunction v) m.heap (fun f h =>
        (∀ e ∈ m.entities, ∀ offset ∈ [Layout.map, Layout.Code.index],
          h.load e.2 offset = m.heap.load e.2 offset) ∧
        Yields (Machine.codeEntity (returner 0 0x1010 "two" 2)) { m with heap := h } (fun _ m =>
          m.heap.kind? f ≠ some .code ∧ m.heap.mapFlag f Layout.Map.callable = .ok true ∧
          m.heap.load f Layout.Function.code = .ok v) fun _ _ => False) fun _ _ => False :=
    Yields.returns (by decide +kernel)
  obtain ⟨f, h, made, spared, asked'⟩ := made.returns
  obtain ⟨w, m', asked', facts⟩ := asked'.returns
  have elsewhere := (roomy_answers.ask asked).elsewhere
    (.of_heap (bareFunction_advances v) made spared)
  exact ⟨v, w, f, m', elsewhere.ask asked', facts⟩

/-- A machine is asked for two stubs of one compiler, with a function made in between. -/
theorem siblings_named : ∃ v w f m,
    let one := returner 0 0x1000 "one" 1
    let two := returner 0 0x1010 "two" 2
    (Compiler.compileAll { id := 0 }
      [⟨returning "one" 1, {}, []⟩, ⟨returning "two" 2, {}, []⟩]).1 = [one, two] ∧
    m.Answered [(two, w), (one, v)] ∧ v ≠ w ∧ m.heap.load f Layout.Function.code = .ok v ∧
    m.stub? v = some one ∧ m.stub? w = some two ∧
    callValue (invoke Host.absent 2) f .undefined [] ⟨m, ()⟩ =
      invoke Host.absent 2 one .undefined [] ⟨m, ()⟩ := by
  obtain ⟨v, w, f, m, answered, entity, callable, code⟩ := siblings_answered
  obtain ⟨_, distinct, names⟩ := (code_entities_name_stubs answered).2 _ v
    (List.mem_cons_of_mem _ List.mem_cons_self)
  obtain ⟨found, calls⟩ := names fun _ _ => siblings_apart (by simp)
  obtain ⟨_, _, names'⟩ := (code_entities_name_stubs answered).2 _ w List.mem_cons_self
  obtain ⟨found', _⟩ := names' fun _ _ => siblings_apart (by simp)
  refine ⟨v, w, f, m, siblings_compiled, answered, fun same => ?_, code, found, found', ?_⟩
  · cases (distinct _ w List.mem_cons_self).mp same.symm
  · exact (calls (invoke Host.absent 2) .undefined [] ()).2 f entity callable code

/-- Stubs of two compilers share a Code entity: the one that was asked for last is never found, and
the other runs in its place. -/
theorem strangers_confused : ∃ w m,
    let one := returner 0 0x1000 "one" 1
    let two := returner 1 0x1000 "two" 2
    Compiler.compile { id := 0 } (returning "one" 1) {} [] = .ok (one, { id := 0, compiled := 1 }) ∧
    Compiler.compile { id := 1 } (returning "two" 2) {} [] = .ok (two, { id := 1, compiled := 1 }) ∧
    one.name ≠ two.name ∧ m.Answered [(two, w), (one, w)] ∧ m.stub? w = some one ∧
    (∃ t, callValue (invoke Host.absent 2) w .undefined [] ⟨m, ()⟩ = .ok (.int 1) t) ∧
    ∃ t, invoke Host.absent 2 two .undefined [] ⟨m, ()⟩ = .ok (.int 2) t := by
  obtain ⟨w, m, asked, calls, runs⟩ : ∃ w m,
      Machine.codeEntity (returner 0 0x1000 "one" 1) (.ofHeap roomy 8) = .ok w m ∧
      Yields (callValue (invoke Host.absent 2) w .undefined []) ⟨m, ()⟩ (fun x _ => x = .int 1)
        (fun _ _ => False) ∧
      Yields (invoke Host.absent 2 (returner 1 0x1000 "two" 2) .undefined []) ⟨m, ()⟩
        (fun x _ => x = .int 2) fun _ _ => False :=
    Yields.returns (by decide +kernel)
  obtain ⟨_, t, called, rfl⟩ := calls.returns
  obtain ⟨_, u, ran, rfl⟩ := runs.returns
  have answered := roomy_answers.ask asked
  have recorded := answered.recorded
  have known := recorded.kept (s := returner 0 0x1000 "one" 1) List.mem_cons_self
  obtain ⟨s, _, given, names⟩ := recorded.names known
  cases List.mem_singleton.mp given
  have again : Machine.codeEntity (returner 1 0x1000 "two" 2) m = .ok w m := by
    have known : m.entities.lookup (returner 1 0x1000 "two" 2).entry = some w := known
    rw [Machine.codeEntity_eq, known]
    rfl
  exact ⟨w, m, rfl, rfl, by decide, answered.ask again, names.stub? recorded.sound, ⟨t, called⟩,
    u, ran⟩

end FastPath
