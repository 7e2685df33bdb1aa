import FastPath.Proofs.Property.Write

/-! The property operations on dictionaries refine a finite map for each object: what a run of
them leaves behind is what the run makes of the maps it started from. -/

namespace FastPath

/-- What a call does to the property that it is aimed at. -/
inductive Access where
  | set (value : Word)
  | delete
  | slot (id : CacheId) (update : Bool)

structure Call where
  obj : Word
  key : Word
  access : Access

abbrev Contents := Word → Word → Option Word

namespace Call

def run (invoke : Invoke PropertyHost) (c : Call) : Exec PropertyHost Word :=
  match c.access with
  | .set value => Property.set invoke c.obj c.key value
  | .delete => Property.delete c.obj c.key
  | .slot id update => PropertyHost.slot id c.obj c.key update

def result (c : Call) (old : Option Word) : Option Word :=
  match c.access with
  | .set value => some value
  | .delete => none
  | .slot _ true => some (old.getD .undefined)
  | .slot _ false => old

/-- The maps after a call. -/
def replay (m : Contents) (c : Call) : Contents := fun o k =>
  if o = c.obj ∧ k = c.key then c.result (m c.obj c.key) else m o k

/-- A call on one of the objects that gives it no accessor and does not name the hole. -/
def Allowed (c : Call) (h : Heap) (objs : List Word) : Prop :=
  c.obj ∈ objs ∧ c.key ≠ .hole ∧ ∀ value, c.access = .set value → h.Plain objs value

end Call

/-- A run of calls that all return. -/
inductive Runs (invoke : Invoke PropertyHost) (objs : List Word) :
    State PropertyHost → List Call → State PropertyHost → Prop
  | nil : Runs invoke objs s [] s
  | cons : c.Allowed s.machine.heap objs → c.run invoke s = .ok w s' →
      Runs invoke objs s' calls t → Runs invoke objs s (c :: calls) t

namespace Heap

/-- The heap `h'` holds the contents `m`, and of `h` it keeps what accesses to `objs` may keep. -/
structure Becomes (objs : List Word) (h : Heap) (m : Contents) (h' : Heap) : Prop where
  family : h'.Dictionaries objs
  kept : Kept objs h h'
  contents : ∀ o ∈ objs, ∀ k, k ≠ .hole → h'.lookup o k = m o k

variable {h h' h₁ : Heap} {objs : List Word} {o p k v w : Word} {i : Nat} {m : Contents}

theorem Dictionaries.becomes (family : h.Dictionaries objs) : Becomes objs h h.lookup h :=
  ⟨family, .refl family.sound, fun _ _ _ _ => rfl⟩

theorem Becomes.of_eq {m' : Contents} (becomes : Becomes objs h m h')
    (same : ∀ o ∈ objs, ∀ k, k ≠ .hole → m o k = m' o k) : Becomes objs h m' h' :=
  ⟨becomes.family, becomes.kept, fun o member k real =>
    (becomes.contents o member k real).trans (same o member k real)⟩

variable (family : h.Dictionaries objs) (member : o ∈ objs)

include family member

theorem Dictionaries.rewritten (rewritten : Rewritten h o i k v h') (bound : i < h.items o)
    (fresh : k ≠ .hole → ∀ j < h.items o, h.key o j = k → j = i)
    (plain : k ≠ .hole → h.Plain objs v) :
    Becomes objs h (fun p l => if p = o then
      if l = k then some v else if l = h.key o i then none else h.lookup o l
      else h.lookup p l) h' := by
  have kept := rewritten.keeps
  have d := family.each o member
  obtain ⟨d', contents⟩ := rewritten.dictionary d bound fresh
  refine ⟨family.changed member kept d' fun j bound' real => ?_, family.kept_all member kept,
    fun p inside l real => ?_⟩
  · rw [rewritten.key] at real
    rw [rewritten.value]
    by_cases here : j = i
    · rw [if_pos here] at real ⊢
      exact plain real
    · rw [if_neg here] at real ⊢
      rw [items, rewritten.slots] at bound'
      exact family.values o member j bound' real
  · by_cases same : p = o
    · rw [if_pos same, same, contents l real]
    · rw [if_neg same, family.lookup_other member kept inside same real]

theorem Dictionaries.opened (opened : Opened h o i h₁) : Becomes objs h h.lookup h₁ := by
  obtain ⟨_, rfl⟩ | ⟨_, _, enlarged⟩ := opened
  · exact family.becomes
  · have kept := enlarged.keeps
    obtain ⟨d', contents⟩ := enlarged.dictionary (family.each o member)
    refine ⟨family.changed member kept d' fun j bound real => ?_, family.kept_all member kept,
      fun p inside l real => ?_⟩
    · rw [enlarged.items] at bound
      rw [enlarged.key bound] at real
      rw [enlarged.value bound]
      by_cases old : j < h.items o
      · rw [if_pos old] at real ⊢
        exact family.values o member j old real
      · rw [if_neg old] at real
        exact absurd rfl real
    · by_cases same : p = o
      · rw [same, contents l real]
      · rw [family.lookup_other member kept inside same real]

theorem Dictionaries.inserted (opened : Opened h o i h₁) (rewritten : Rewritten h₁ o i k v h')
    (absent : h.lookup o k = none) (real : k ≠ .hole) (plain : h.Plain objs v) :
    Becomes objs h (fun p l => if p = o ∧ l = k then some v else h.lookup p l) h' := by
  have before := family.opened member opened
  have free : h₁.key o i = .hole := (itemOf_some.mp opened.itemOf_hole).2.1
  have absent₁ : h₁.lookup o k = none := (before.contents o member k real).trans absent
  have plain₁ : h₁.Plain objs v := by
    obtain ⟨_, rfl⟩ | ⟨_, _, enlarged⟩ := opened
    · exact plain
    · exact family.plain member enlarged.keeps plain
  have after := before.family.rewritten member rewritten opened.bound
    (fun _ j bound same => absurd same (lookup_none.mp absent₁ j bound)) fun _ => plain₁
  refine ⟨after.family, before.kept.trans after.kept, fun p inside l named => ?_⟩
  rw [after.contents p inside l named]
  by_cases same : p = o
  · subst same
    rw [if_pos rfl, free, if_neg named, before.contents p inside l named]
    simp only [true_and]
  · rw [if_neg same, if_neg fun both => same both.1, before.contents p inside l named]

theorem Dictionaries.written (written : h.Written o k v h') (real : k ≠ .hole)
    (plain : h.Plain objs v) :
    Becomes objs h (fun p l => if p = o ∧ l = k then some v else h.lookup p l) h' := by
  have d := family.each o member
  cases written with
  | new absent opened rewritten =>
    exact family.inserted member opened rewritten (d.own_none.mp absent) real plain
  | old own rewritten =>
    obtain ⟨bound, key⟩ := item_of_own own
    have unique := fun j inside (twice : h.key o j = k) =>
      d.distinct j inside _ bound (twice.trans key.symm) (twice ▸ real)
    refine (family.rewritten member rewritten bound (fun _ => unique) fun _ => plain).of_eq
      fun p _ l _ => ?_
    rw [key]
    by_cases same : p = o <;> by_cases named : l = k <;> simp [same, named]

omit family member in
theorem Plain.not_pair (plain : h.Plain objs w) : h.isPair w = false := by
  obtain int | ⟨_, data⟩ := plain
  · exact isPair_int int
  · exact data

/-- An own property of a dictionary, its item and its value. -/
theorem Dictionaries.own_some (found : h.lookup o k = some v) (real : k ≠ .hole) :
    ∃ i < h.items o, h.own o k = some (.item i) ∧ h.key o i = k ∧ h.value o i = v ∧
      h.isPair v = false ∧ ∀ j < h.items o, h.key o j = k → j = i := by
  have d := family.each o member
  obtain ⟨i, bound, own, key, value⟩ := d.own_some found
  refine ⟨i, bound, own, key, value, ?_, fun j inside same => ?_⟩
  · exact value ▸ (family.values o member i bound (key ▸ real)).not_pair
  · exact d.distinct j inside i bound (same.trans key.symm) (same ▸ real)

end Heap

open Heap

namespace Property

variable {s t : State PropertyHost} {objs : List Word} {o k v w : Word}
  {invoke : Invoke PropertyHost} (family : s.machine.heap.Dictionaries objs) (member : o ∈ objs)

include family member

theorem set_becomes (real : k ≠ .hole) (plain : s.machine.heap.Plain objs v)
    (done : Property.set invoke o k v s = .ok w t) :
    Becomes objs s.machine.heap
      (fun p l => if p = o ∧ l = k then some v else s.machine.heap.lookup p l) t.machine.heap := by
  have d := family.each o member
  have free : ∀ i, s.machine.heap.own o k = some (.item i) →
      s.machine.heap.isPair v = true ∨
        s.machine.heap.isPair (s.machine.heap.value o i) = false := by
    intro i own
    obtain ⟨bound, key⟩ := item_of_own own
    exact .inr (family.values o member i bound (key ▸ real)).not_pair
  obtain ⟨e, failed⟩ | ⟨h', written, set⟩ :=
    Backed.set_cases d.dictionary rfl family.sound d.toBacked invoke free
  · rw [failed] at done
    cases done
  · rw [set] at done
    cases done
    exact family.written member written real plain

theorem delete_becomes (done : Property.delete o k s = .ok w t) :
    Becomes objs s.machine.heap
      (fun p l => if p = o ∧ l = k then none else s.machine.heap.lookup p l) t.machine.heap := by
  have d := family.each o member
  obtain ⟨absent, deleted⟩ | ⟨i, h', own, cleared, deleted⟩ :=
    Backed.delete_cases (k := k) d.dictionary rfl family.sound d.toBacked
  · rw [deleted] at done
    cases done
    refine family.becomes.of_eq fun p _ l _ => ?_
    split
    next both => rw [both.1, both.2, d.own_none.mp absent]
    · rfl
  · rw [deleted] at done
    cases done
    obtain ⟨bound, key⟩ := item_of_own own
    refine (family.rewritten member cleared bound (fun absurd => (absurd rfl).elim)
      fun absurd => (absurd rfl).elim).of_eq fun p _ l named => ?_
    rw [if_neg named, key]
    by_cases same : p = o <;> by_cases here : l = k <;> simp [same, here]

theorem slot?_becomes (real : k ≠ .hole) (done : slot? o k update s = .ok found t) :
    Becomes objs s.machine.heap (fun p l => if p = o ∧ l = k then
      (if update then some ((s.machine.heap.lookup o k).getD .undefined)
        else s.machine.heap.lookup o k) else s.machine.heap.lookup p l) t.machine.heap := by
  have d := family.each o member
  obtain ⟨e, failed⟩ | ⟨known, looked⟩ | ⟨i, h', updates, absent, written, looked⟩ :=
    d.slot?_cases (k := k) rfl family.sound update
  · rw [failed] at done
    cases done
  · rw [looked] at done
    cases done
    refine family.becomes.of_eq fun p _ l _ => ?_
    split
    next both =>
      rw [both.1, both.2]
      cases present : s.machine.heap.lookup o k with
      | none => rw [known (d.own_none.mpr present)]; rfl
      | some old => cases update <;> rfl
    · rfl
  · rw [looked] at done
    cases done
    have plain : s.machine.heap.Plain objs .undefined := by
      obtain ⟨entity, oddball⟩ := family.singletons .undefined rfl
      exact .inr ⟨entity, by rw [isPair, oddball]; rfl⟩
    rw [updates, d.own_none.mp absent]
    exact family.written member written real plain

end Property

/-- Noting a slot in a cache changes nothing in the heap. -/
theorem PropertyHost.slot_heap {id : CacheId} (done : PropertyHost.slot id o k update s = .ok w t) :
    ∃ found u, Property.slot? o k update s = .ok found u ∧ t.machine = u.machine := by
  obtain ⟨found, u, first, rest⟩ := estate_bind_ok.mp done
  refine ⟨found, u, first, ?_⟩
  cases found with
  | none =>
    cases rest
    rfl
  | some sl =>
    dsimp only at rest
    cases number : Word.ofInt? sl.index with
    | none =>
      rw [number] at rest
      cases rest
      rfl
    | some x =>
      rw [number] at rest
      dsimp only at rest
      split at rest
      · obtain ⟨map, u', mapped, rest⟩ := estate_bind_ok.mp rest
        have same : u' = u := by
          unfold Exec.query at mapped
          split at mapped <;> cases mapped
          rfl
        cases rest
        rw [same]
      · cases rest
        rfl

theorem Call.becomes {s t : State PropertyHost} {invoke : Invoke PropertyHost} {c : Call}
    (family : s.machine.heap.Dictionaries objs) (allowed : c.Allowed s.machine.heap objs)
    (done : c.run invoke s = .ok w t) :
    Becomes objs s.machine.heap (c.replay s.machine.heap.lookup) t.machine.heap := by
  obtain ⟨o, k, access⟩ := c
  obtain ⟨member, real, plain⟩ := allowed
  cases access with
  | set value => exact Property.set_becomes family member real (plain value rfl) done
  | delete => exact Property.delete_becomes family member done
  | slot id update =>
    obtain ⟨found, u, first, same⟩ := PropertyHost.slot_heap done
    rw [same]
    refine (Property.slot?_becomes family member real first).of_eq fun p _ l _ => ?_
    cases update <;> rfl

/-- A call makes the same of maps that agree on the properties of the objects. -/
theorem Call.replay_congr {objs : List Word} {m m' : Contents} {c : Call} (member : c.obj ∈ objs)
    (real : c.key ≠ .hole) (same : ∀ o ∈ objs, ∀ k, k ≠ .hole → m o k = m' o k) :
    ∀ o ∈ objs, ∀ k, k ≠ .hole → c.replay m o k = c.replay m' o k := by
  intro o inside k named
  rw [replay, replay, same c.obj member c.key real, same o inside k named]

theorem Runs.becomes {s t : State PropertyHost} {invoke : Invoke PropertyHost} {m : Contents}
    (runs : Runs invoke objs s calls t) (family : s.machine.heap.Dictionaries objs)
    (start : ∀ o ∈ objs, ∀ k, k ≠ .hole → s.machine.heap.lookup o k = m o k) :
    Becomes objs s.machine.heap (calls.foldl Call.replay m) t.machine.heap := by
  induction runs generalizing m with
  | nil => exact family.becomes.of_eq start
  | cons allowed done _ ih =>
    have step := Call.becomes family allowed done
    have rest := ih step.family fun o member k real => (step.contents o member k real).trans
      (Call.replay_congr allowed.1 allowed.2.1 start o member k real)
    exact ⟨rest.family, step.kept.trans rest.kept, rest.contents⟩

/-- The value of an own property, as the program looks it up. -/
def Heap.ownValue? (h : Heap) (o key : Word) : Except HeapError (Option Word) := do
  match ← h.ownSlot o key with
  | some s => return some (← h.loadSlot o s)
  | none => return none

theorem Heap.Dictionary.ownValue? {h : Heap} {o k : Word} (d : h.Dictionary o) (sound : h.Sound) :
    h.ownValue? o k = .ok (h.lookup o k) := by
  have own := d.ownSlot (k := k) sound
  rw [Heap.ownValue?, own]
  cases found : h.lookup o k with
  | none =>
    rw [d.own_none.mpr found]
    rfl
  | some v =>
    obtain ⟨i, bound, own, _, value⟩ := d.own_some found
    have loaded := d.loadSlot (s := .item i) sound (item_position bound).1
    rw [own, ← value]
    simp only [bind, Except.bind, loaded]
    rfl

theorem Heap.Dictionaries.not_nullish {h : Heap} {o : Word} (family : h.Dictionaries objs)
    (member : o ∈ objs) : o.isNullish = false := by
  by_contra nullish
  have oddball := (family.singletons o (by simpa using nullish)).2
  have kind := (family.each o member).kind
  rw [isObjectLike, oddball] at kind
  cases kind

theorem Heap.Dictionaries.get {s : State ρ} {invoke : Invoke ρ} {o k v : Word}
    (family : s.machine.heap.Dictionaries objs) (member : o ∈ objs) (real : k ≠ .hole)
    (found : s.machine.heap.lookup o k = some v) :
    Property.get invoke o k s = .ok (if v = .hole then .undefined else v) s := by
  obtain ⟨i, bound, own, _, value, data, _⟩ := family.own_some member found real
  have value : s.machine.heap.slotWord o (Slot.item i).position = v := value
  have read := Property.get_own rfl family.sound (family.each o member).toBacked invoke own
    (family.not_nullish member) (by rwa [value])
  rwa [value] at read

theorem runs_refine_maps {s t : State PropertyHost} {invoke : Invoke PropertyHost}
    (family : s.machine.heap.Dictionaries objs) (runs : Runs invoke objs s calls t) :
    t.machine.heap.Dictionaries objs ∧ Kept objs s.machine.heap t.machine.heap ∧
      ∀ o ∈ objs, ∀ k, k ≠ .hole →
        t.machine.heap.ownValue? o k =
          .ok (calls.foldl Call.replay s.machine.heap.lookup o k) ∧
        (∀ v, calls.foldl Call.replay s.machine.heap.lookup o k = some v ↔
          ∃ i < t.machine.heap.items o,
            t.machine.heap.key o i = k ∧ t.machine.heap.value o i = v) ∧
        ∀ v, calls.foldl Call.replay s.machine.heap.lookup o k = some v →
          Property.get invoke o k t = .ok (if v = .hole then .undefined else v) t := by
  have result := runs.becomes family fun _ _ _ _ => rfl
  refine ⟨result.family, result.kept, fun o member k real => ?_⟩
  have d := result.family.each o member
  have contents := result.contents o member k real
  refine ⟨?_, fun v => ?_, fun v found => ?_⟩
  · rw [d.ownValue? result.family.sound, contents]
  · rw [← contents, d.lookup_iff real]
  · exact result.family.get member real (contents.trans found)

/-- Runs calls one after the other as long as they return. -/
def Call.runAll (invoke : Invoke PropertyHost) (calls : List Call) (s : State PropertyHost) :
    Option (State PropertyHost) :=
  calls.foldlM (fun s c => match c.run invoke s with
    | .ok _ t => some t
    | .error _ _ => none) s

/-- Whether the call writes nothing but a small integer. -/
def Call.writesInt (c : Call) : Bool :=
  match c.access with
  | .set value => value.isInt
  | _ => true

theorem Runs.of_runAll {s t : State PropertyHost} {invoke : Invoke PropertyHost}
    (done : Call.runAll invoke calls s = some t)
    (targets : ∀ c ∈ calls, c.obj ∈ objs ∧ c.key ≠ .hole ∧ c.writesInt = true) :
    Runs invoke objs s calls t := by
  induction calls generalizing s with
  | nil =>
    cases done
    exact .nil
  | cons c calls ih =>
    obtain ⟨target, targets⟩ := List.forall_mem_cons.mp targets
    rw [Call.runAll, List.foldlM_cons] at done
    obtain ⟨u, first, rest⟩ := Option.bind_eq_some_iff.mp done
    cases called : c.run invoke s with
    | error e u' =>
      rw [called] at first
      cases first
    | ok w u' =>
      rw [called] at first
      cases first
      refine .cons ⟨target.1, target.2.1, fun v set => .inl ?_⟩ called (ih rest targets)
      simpa only [Call.writesInt, set] using target.2.2

/-- Two empty dictionaries with room for one item each. -/
def twoShelves : Heap :=
  [(368, Kind.oddball.canonicalMap), (384, Kind.oddball.canonicalMap),
    (400, Kind.oddball.canonicalMap), (448, Kind.object.canonicalMap), (456, .int 0),
    (464, .pointer 472), (472, Kind.field.canonicalMap), (480, .int 3),
    (512, Kind.object.canonicalMap), (520, .int 0), (528, .pointer 536),
    (536, Kind.field.canonicalMap), (544, .int 3)].foldl (fun h p => h.put p.1 p.2)
    { words := .replicate 128 .hole, region := ⟨576, 1024⟩, atoms := [] }

theorem Word.isNullish_iff {w : Word} :
    w.isNullish = true ↔ w = undefined ∨ w = null ∨ w = hole := by
  simp [isNullish, or_assoc]

theorem twoShelves_dictionaries :
    twoShelves.Dictionaries [.pointer 448, .pointer 512] := by
  have free : ∀ o ∈ [Word.pointer 448, .pointer 512], ∀ i < twoShelves.items o,
      twoShelves.key o i = .hole := by decide +kernel
  have each : ∀ o ∈ [Word.pointer 448, .pointer 512], twoShelves.Dictionary o := by
    refine List.forall_mem_cons.mpr ⟨?_, List.forall_mem_singleton.mpr ?_⟩
    all_goals
      refine ⟨⟨⟨?_, ?_, ?_⟩, ?_, ⟨0, ?_⟩, ?_, ?_, ⟨?_, ?_, ?_⟩, ?_⟩, ?_, ?_, ?_⟩
      all_goals decide +kernel
  refine ⟨⟨⟨?_, ?_, ?_, ?_, ?_⟩, each, ?_, ?_, ?_⟩, fun w nullish => ?_,
    fun o member i bound real => absurd (free o member i bound) real⟩
  rotate_right
  · obtain rfl | rfl | rfl := Word.isNullish_iff.mp nullish
    all_goals
      refine ⟨⟨?_, ?_, ?_⟩, ?_⟩
      all_goals decide +kernel
  all_goals decide +kernel

/-- Two properties of the first dictionary, of which one is deleted, and one of the second. -/
def shelving : List Call :=
  [⟨.pointer 448, .int 1, .set (.int 10)⟩, ⟨.pointer 448, .int 2, .set (.int 20)⟩,
    ⟨.pointer 512, .int 2, .slot 0 true⟩, ⟨.pointer 448, .int 1, .delete⟩]

def atShelves : State PropertyHost := { machine := .ofHeap twoShelves 0, host := {} }

theorem twoShelves_refine : ∃ t : State PropertyHost,
    Runs (fun _ _ _ => throw .fault) [.pointer 448, .pointer 512] atShelves shelving t ∧
    t.machine.heap.ownValue? (.pointer 448) (.int 1) = .ok none ∧
    t.machine.heap.ownValue? (.pointer 448) (.int 2) = .ok (some (.int 20)) ∧
    t.machine.heap.ownValue? (.pointer 512) (.int 2) = .ok (some .undefined) := by
  have returns : (Call.runAll (fun _ _ _ => throw .fault) shelving atShelves).isSome = true := by
    decide +kernel
  obtain ⟨t, done⟩ := Option.isSome_iff_exists.mp returns
  have runs : Runs _ [.pointer 448, .pointer 512] atShelves shelving t :=
    .of_runAll done (by decide +kernel)
  obtain ⟨_, _, contents⟩ := runs_refine_maps (s := atShelves) twoShelves_dictionaries runs
  have first := contents (.pointer 448) (by decide +kernel)
  have second := contents (.pointer 512) (by decide +kernel)
  refine ⟨t, runs, ?_, ?_, ?_⟩
  · rw [(first (.int 1) (by decide +kernel)).1]
    decide +kernel
  · rw [(first (.int 2) (by decide +kernel)).1]
    decide +kernel
  · rw [(second (.int 2) (by decide +kernel)).1]
    decide +kernel

end FastPath
