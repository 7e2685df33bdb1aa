import FastPath.Proofs.Catalogue.Readiness
import FastPath.Proofs.Property.Blank
import FastPath.Proofs.Property.Serving

/-! How functions are made on a machine of which no more is known than that they can be made: the
words of a function, of its storage, its accessors and the map of its instances are put behind the
cursor one after the other, and nothing else is written. -/

namespace FastPath

open Catalogue Heap

/-- The words of a function at an address, whose storage comes right behind its context. -/
def functionWords (a : Nat) (flags : Int) (code map outer size : Word) (context : List Word) :
    List Word :=
  Kind.function.canonicalMap :: .int flags :: .pointer (a + 8 * (context.length + 7)) :: code ::
    map :: outer :: size :: context

@[simp] theorem functionWords_length {a : Nat} {flags : Int} {code map outer size : Word}
    {context : List Word} :
    (functionWords a flags code map outer size context).length = context.length + 7 := rfl

/-- The words of a dictionary with a single property. -/
def singleField (key value : Word) : List Word :=
  Kind.field.canonicalMap :: .int (Layout.Object.items * Layout.Item.words : Nat) :: key :: value ::
    .int Layout.Pair.data :: .replicate 21 .hole

@[simp] theorem singleField_length {key value : Word} : (singleField key value).length = 26 := rfl

def pairWords (getter setter : Word) : List Word :=
  [Kind.accessPair.canonicalMap, getter, setter, .int Layout.Pair.fresh]

@[simp] theorem pairWords_length {getter setter : Word} : (pairWords getter setter).length = 4 :=
  rfl

/-- The words of a map that the setter of `prototype` makes. -/
def mapWords (proto : Word) : List Word :=
  [Kind.map.canonicalMap, .int Layout.Map.plain, proto, .hole, .hole]

@[simp] theorem mapWords_length {proto : Word} : (mapWords proto).length = 5 := rfl

/-- Everything that is made for a function with `n` slots, and more words between its accessors and
the prototype of its instances. -/
def completeWords (a n : Nat) (code outer key getter setter : Word) (more : List Word) :
    List Word :=
  functionWords a Layout.Object.access code (.pointer (a + 8 * (n + more.length + 66))) outer
      (.int 0) (.replicate n .undefined) ++
    (singleField key (.pointer (a + 8 * (n + 33))) ++ (pairWords getter setter ++ more) ++
      (freshObject (a + 8 * (n + more.length + 37)) ++
        mapWords (.pointer (a + 8 * (n + more.length + 37)))))

/-- The machine `m'` is `m` with the words behind its cursor, the first `k` of which may still be
written, and with these tables of Code entities and atoms. -/
structure Machine.Builds (stubs : String → Stub) (m : Machine) (k : Nat) (ws : List Word)
    (es : List (Nat × Word)) (as : List (String × Word)) (m' : Machine) : Prop where
  appends : m.heap.Appends ws m'.heap
  ready : m'.Ready stubs m.heap.region.cursor (m.heap.region.cursor + 8 * k)
  entities : m'.entities = es
  atoms : m'.heap.atoms = as
  depth : m'.depth = m.depth
  maxDepth : m'.maxDepth = m.maxDepth

namespace Machine.Builds

variable {stubs : String → Stub} {m : Machine} {k j d offset : Nat} {ws ws' : List Word}
  {es : List (Nat × Word)} {as : List (String × Word)} {s t : State ρ} {v w : Word}
  {next : Word → Exec ρ β} {R : β → State ρ → Prop}

theorem start (ready : m.Ready stubs 0 0) (k : Nat) :
    m.Builds stubs k [] m.entities m.heap.atoms m :=
  ⟨.refl ready.sound, ready.opened _, rfl, rfl, rfl, rfl⟩

theorem lays (builds : m.Builds stubs k ws es as s.machine) (lays : s.Lays ws' t) :
    m.Builds stubs k (ws ++ ws') es as t.machine := by
  have ready := builds.ready.lays lays
  obtain ⟨h, rfl, appends, atoms⟩ := lays
  exact ⟨builds.appends.trans appends, ready, builds.entities, atoms.trans builds.atoms,
    builds.depth, builds.maxDepth⟩

theorem deeper (builds : m.Builds stubs k ws es as s.machine) :
    Builds stubs { m with depth := m.depth + 1 } k ws es as s.deeper.machine :=
  ⟨builds.appends, builds.ready.at_depth _, builds.entities, builds.atoms,
    congrArg Nat.succ builds.depth, builds.maxDepth⟩

theorem shallower (builds : Builds stubs { m with depth := m.depth + 1 } k ws es as t.machine) :
    m.Builds stubs k ws es as t.shallower.machine :=
  ⟨builds.appends, builds.ready.at_depth _, builds.entities, builds.atoms,
    congrArg Nat.pred builds.depth, builds.maxDepth⟩

/-- The address of the next entity. -/
theorem place (builds : m.Builds stubs k ws es as s.machine) :
    Word.pointer s.machine.heap.region.cursor =
      .pointer (m.heap.region.cursor + 8 * ws.length) := by
  rw [builds.appends.cursor]

/-- One of the first words is written, and the rest follows. -/
theorem write {next : Unit → Exec ρ α} {R : α → State ρ → Prop} {E : Halt → State ρ → Prop}
    (builds : m.Builds stubs k ws es as s.machine)
    (place : v = .pointer (m.heap.region.cursor + 8 * j)) (inside : j + d < ws.length)
    (early : j + d < k) (part : offset = 8 * d)
    (rest : ∀ t : State ρ, m.Builds stubs k (ws.set (j + d) w) es as t.machine →
      Yields (next ()) t R E) :
    Yields (Exec.onHeap (Heap.store v offset w) >>= next) s R E := by
  subst place part
  have aligned := builds.appends.aligned
  refine .step (Exec.onHeap_ok (builds.appends.store inside)) (rest _ ?_)
  exact ⟨builds.appends.put inside, builds.ready.put (by omega) (by omega) (by omega) w,
    builds.entities, builds.atoms, builds.depth, builds.maxDepth⟩

/-- A stub puts more words behind the cursor, and the rest follows. -/
theorem call {act : Exec ρ Word} (builds : m.Builds stubs k ws es as s.machine)
    (done : Yields act s (fun w t => w = .pointer s.machine.heap.region.cursor ∧ s.Lays ws' t)
      fun _ t => ∃ ws, s.Lays ws t)
    (rest : ∀ t : State ρ, m.Builds stubs k (ws ++ ws') es as t.machine →
      Yields (next (.pointer (m.heap.region.cursor + 8 * ws.length))) t R
        fun _ t => t.machine.Ready stubs 0 0) :
    Yields (act >>= next) s R fun _ t => t.machine.Ready stubs 0 0 := by
  refine (done.mono (fun _ _ made => made) ?_).bind_mono ?_
  · rintro _ t ⟨ws', lays⟩
    exact (builds.lays lays).ready.closed
  · rintro _ t ⟨rfl, lays⟩
    rw [builds.place]
    exact rest t (builds.lays lays)

/-- A Code entity is asked for when no word behind the first ones may be written any more. -/
theorem ask {stub : Stub} (builds : m.Builds stubs k ws es as s.machine) (whole : k ≤ ws.length)
    (honest : stub.Honest stubs)
    (rest : ∀ w (t : State ρ) more es', m.Builds stubs k (ws ++ more) es' as t.machine →
      es'.lookup stub.entry = some w →
      (∀ entry v, es.lookup entry = some v → es'.lookup entry = some v) →
      Yields (next w) t R fun _ t => t.machine.Ready stubs 0 0) :
    Yields (Exec.onMachine (Machine.codeEntity stub) >>= next) s R
      fun _ t => t.machine.Ready stubs 0 0 := by
  have cursor := builds.appends.cursor
  have asked := Yields.onMachine (s := s) (Q := fun w t =>
      t.machine.Ready stubs m.heap.region.cursor (m.heap.region.cursor + 8 * k) ∧
        Ready.Asked s.machine stub w t.machine) (E := fun _ t => t.machine = s.machine)
    ((builds.ready.codeEntity (by omega) honest).mono (fun _ _ made => made) fun _ _ same => same)
  refine (asked.mono (fun _ _ made => made) ?_).bind_mono ?_
  · intro _ t same
    rw [same]
    exact builds.ready.closed
  · rintro w t ⟨ready, known, kept, ⟨more, appends⟩, atoms, depth, maxDepth⟩
    refine rest w t more t.machine.entities ⟨builds.appends.trans appends, ready, rfl,
      atoms.trans builds.atoms, depth.trans builds.depth, maxDepth.trans builds.maxDepth⟩ known ?_
    rw [← builds.entities]
    exact kept

/-- The name of the property is no hole. -/
theorem name (builds : m.Builds stubs k ws es as s.machine)
    (rest : ∀ w (t : State ρ) more as', m.Builds stubs k (ws ++ more) es as' t.machine →
      as'.lookup "prototype" = some w → w ≠ .hole →
      Yields (next w) t R fun _ t => t.machine.Ready stubs 0 0) :
    Yields (Exec.onHeap (Heap.atom "prototype") >>= next) s R
      fun _ t => t.machine.Ready stubs 0 0 := by
  refine Yields.bind (Yields.onHeap ((builds.ready.atom "prototype").mono ?_ ?_))
  · rintro w h ⟨ready, ⟨more, appends⟩, known⟩
    exact rest w _ more _ ⟨builds.appends.trans appends, ready, builds.entities, rfl, builds.depth,
      builds.maxDepth⟩ known fun none_ => ready.key (none_ ▸ known)
  · rintro e h ready
    exact ready.closed

end Machine.Builds

/-- The machine `m'` is `m` with a complete function behind its cursor, whose accessors have their
Code entities before the prototype of its instances. -/
structure Machine.Completes (stubs : String → Stub) (m : Machine) (n : Nat)
    (code outer key getter setter : Word) (more : List Word) (m' : Machine) : Prop where
  builds : m.Builds stubs (n + 37)
    (completeWords m.heap.region.cursor n code outer key getter setter more) m'.entities
    m'.heap.atoms m'
  name : m'.heap.atoms.lookup "prototype" = some key
  getter : m'.entities.lookup (stubs prototypeGetter).entry = some getter
  setter : m'.entities.lookup (stubs prototypeSetter).entry = some setter
  clear : ∀ x ∈ accessorNames, ∀ w, m'.entities.lookup (stubs x).entry = some w →
    w.toNat + Layout.Code.size ≤ m.heap.region.cursor + 8 * (n + more.length + 37)

namespace Library

variable {stubs : String → Stub} (library : Library stubs) {m : Machine} {k j : Nat}
  {front ws context : List Word} {es : List (Nat × Word)} {as : List (String × Word)}
  {code map outer size : Word} (fuel : Nat)

include library

/-- The pair gets both accessors, whose Code entities may be new. -/
theorem prototypePair_puts {s : State ρ} (host : Host ρ)
    (builds : m.Builds stubs k front es as s.machine) (last : k = front.length + 4) :
    Yields (Programs.prototypePair stubs (invoke host (fuel + 4))) s
      (fun made t => ∃ getter more es',
        made.1 = .pointer (m.heap.region.cursor + 8 * front.length) ∧
        m.Builds stubs k (front ++ pairWords getter made.2 ++ more) es' as t.machine ∧
        es'.lookup (stubs prototypeGetter).entry = some getter ∧
        es'.lookup (stubs prototypeSetter).entry = some made.2)
      fun _ t => t.machine.Ready stubs 0 0 := by
  subst last
  refine builds.call (library.allocAccessPair_puts builds.ready.sound host fuel .undefined)
    fun t₁ builds₁ => ?_
  refine builds₁.ask (by simp) (library.accessor_honest (x := prototypeGetter) (by decide))
    fun getter t₂ more es₂ builds₂ known _ => ?_
  refine builds₂.write (j := front.length) (d := 1) rfl (by simp) (by omega) rfl
    fun t₃ builds₃ => ?_
  rw [set_part (by simp)] at builds₃
  refine builds₃.ask (by simp) (library.accessor_honest (x := prototypeSetter) (by decide))
    fun setter t₄ more' es₄ builds₄ known' kept => ?_
  refine builds₄.write (j := front.length) (d := 2) rfl (by simp) (by omega) rfl
    fun t₅ builds₅ => ?_
  rw [List.append_assoc, set_part (by simp)] at builds₅
  exact .pure ⟨getter, _, es₄, rfl, builds₅, kept _ _ known, known'⟩

omit library in
/-- The first property of a function goes into the first item of its storage. -/
theorem setProperty_puts {s : State PropertyHost} {key : Word} {more : List Word} (value : Word)
    (builds : m.Builds stubs (context.length + 37) (functionWords m.heap.region.cursor 0 code map
      outer size context ++ freshField 24 ++ more) es as s.machine) (real : key ≠ .hole)
    (calls : Invoke PropertyHost) :
    ∃ t : State PropertyHost, PropertyHost.serve calls .setProperty
        [.pointer m.heap.region.cursor, key, value] s = .ok .undefined t ∧
      m.Builds stubs (context.length + 37) (functionWords m.heap.region.cursor 0 code map outer
        size context ++ singleField key value ++ more) es as t.machine := by
  let front := functionWords m.heap.region.cursor 0 code map outer size context
  have part {d : Nat} {w : Word} (held : (freshField 24)[d]? = some w) :
      (front ++ freshField 24 ++ more)[context.length + 7 + d]? = some w := getElem?_part held
  have houses : Houses (front ++ freshField 24 ++ more) m.heap.region.cursor 0
      (context.length + 7) 24 .function 0 :=
    ⟨rfl, rfl, rfl, rfl, part (d := 0) rfl, part (d := 1) rfl, by decide, by decide, by omega,
      by simp [front]; omega⟩
  have blank (i : Nat) (bound : i < 24) :
      (front ++ freshField 24 ++ more)[context.length + 7 + 2 + i]? = some .hole := by
    have hole : (freshField 24)[2 + i]? = some .hole := by
      rw [Nat.add_comm]
      exact List.getElem?_replicate_of_lt bound
    rw [Nat.add_assoc]
    exact part hole
  have written {mid : List Word} {d : Nat} {w : Word} (inside : d < mid.length) :
      (front ++ mid ++ more).set (context.length + 7 + d) w = front ++ mid.set d w ++ more :=
    set_part inside
  have shape : firstProperty (front ++ freshField 24 ++ more) (context.length + 7) key value =
      front ++ singleField key value ++ more := by
    rw [firstProperty, written (by simp), written (by simp), written (by simp)]
    rfl
  obtain ⟨h, ran, appends, atoms, region, kept⟩ := Property.set_first (s := s.counted) (v := value)
    houses builds.appends rfl (by decide) (by decide) blank real calls
  refine ⟨_, ran, shape ▸ appends, ?_, builds.entities, atoms.trans builds.atoms, builds.depth,
    builds.maxDepth⟩
  have ready := builds.ready
  refine ready.of_heap appends.sound (Nat.le_of_eq (congrArg Region.cursor region.symm))
    (atoms ▸ ready.key) fun c part _ outside => kept c part ?_
  omega

/-- A function gets its accessors, and is flagged for them. -/
theorem prototypeProperty_puts {s : State PropertyHost}
    (builds : m.Builds stubs (context.length + 37) (functionWords m.heap.region.cursor 0 code map
      outer size context ++ freshField 24) es as s.machine) :
    Yields (Programs.prototypeProperty stubs PropertyHost.serve
        (invoke PropertyHost.serve (fuel + 4)) (.pointer m.heap.region.cursor)) s
      (fun setter t => ∃ key getter more es' as',
        m.Builds stubs (context.length + 37)
          (functionWords m.heap.region.cursor 1 code map outer size context ++
            singleField key (.pointer (m.heap.region.cursor + 8 * (context.length + 33))) ++
            (pairWords getter setter ++ more)) es' as' t.machine ∧
        as'.lookup "prototype" = some key ∧ key ≠ .hole ∧
        es'.lookup (stubs prototypeGetter).entry = some getter ∧
        es'.lookup (stubs prototypeSetter).entry = some setter)
      fun _ t => t.machine.Ready stubs 0 0 := by
  have behind : (functionWords m.heap.region.cursor 0 code map outer size context ++
      freshField 24).length = context.length + 33 := by simp
  refine (library.prototypePair_puts fuel PropertyHost.serve builds (by omega)).bind_mono ?_
  rintro ⟨pair, setter⟩ t₁ ⟨getter, more, es', rfl, builds₁, known, known'⟩
  refine builds₁.name fun key t₂ more' as' builds₂ named real => ?_
  rw [List.append_assoc, List.append_assoc] at builds₂
  rw [behind]
  obtain ⟨t₃, ran, builds₃⟩ := setProperty_puts
    (.pointer (m.heap.region.cursor + 8 * (context.length + 33))) builds₂ real
    (invoke PropertyHost.serve (fuel + 4))
  refine .step ran ?_
  have flags := builds₃.appends.load (j := 0) (d := 1) (w := .int 0) rfl
  refine .step (Exec.query_ok flags) (.step (Exec.int_ok (Word.int?_int (by decide)) _) ?_)
  refine builds₃.write (j := 0) (d := 1) rfl (by simp; omega) (by omega) rfl fun t₄ builds₄ => ?_
  exact .pure ⟨key, getter, _, es', as', builds₄, named, real, known, known'⟩

/-- The setter makes a map for the instances of its receiver. -/
theorem setter_puts {s : State ρ} (host : Host ρ) {self : Word}
    (builds : m.Builds stubs k ws es as s.machine)
    (place : self = .pointer (m.heap.region.cursor + 8 * j)) (inside : j + 4 < ws.length)
    (early : j + 4 < k) (args : List Word) :
    Yields (invoke host (fuel + 4) (stubs prototypeSetter) self args) s
      (fun _ t => m.Builds stubs k
        (ws.set (j + 4) (.pointer (m.heap.region.cursor + 8 * ws.length)) ++
          mapWords (args.getD 0 .undefined)) es as t.machine)
      fun _ t => t.machine.Ready stubs 0 0 := by
  rw [library.invoke_graph Programs.writePrototype prototypeSetter rfl, Programs.writePrototype_run]
  refine Yields.nested ?_ fun _ => builds.ready.closed
  have start := builds.deeper
  refine ((library.allocTagged_puts (s := s.deeper) start.ready.sound host fuel .undefined (n := 4)
    (by decide) (by decide)).mono (fun _ _ made => made) ?_).bind_mono ?_
  · rintro _ _ rfl
    exact builds.ready.closed.at_depth _
  rintro w t ⟨rfl, fresh, length, lays⟩
  obtain ⟨x, y, z, u, rfl⟩ : ∃ x y z u, fresh = [x, y, z, u] := by
    match fresh, length with
    | [x, y, z, u], _ => exact ⟨x, y, z, u, rfl⟩
  refine lays.write (j := 0) (d := 3) rfl (by simp) rfl fun t lays => ?_
  refine lays.write (j := 0) (d := 4) rfl (by simp) rfl fun t lays => ?_
  refine lays.write (j := 0) (d := 1) rfl (by simp) rfl fun t lays => ?_
  refine lays.write (j := 0) (d := 2) rfl (by simp) rfl fun t lays => ?_
  have builds' := start.lays lays
  refine builds'.write (j := j) (d := 4) place (by simp; omega) early rfl fun t builds' => ?_
  rw [start.place, List.set_append_left _ _ inside] at builds'
  exact .pure builds'.shallower

/-- The map of a function's instances comes behind the object that is their prototype. -/
theorem instanceMap_puts {s : State ρ} (host : Host ρ)
    (builds : m.Builds stubs k ws es as s.machine)
    (inside : 4 < ws.length) (early : 4 < k) {setter : Word}
    (known : es.lookup (stubs prototypeSetter).entry = some setter) :
    Yields (Programs.instanceMap stubs (invoke host (fuel + 6)) (.pointer m.heap.region.cursor)
        setter) s
      (fun _ t => m.Builds stubs k
        (ws.set 4 (.pointer (m.heap.region.cursor + 8 * (ws.length + 29))) ++
          (freshObject (m.heap.region.cursor + 8 * ws.length) ++
            mapWords (.pointer (m.heap.region.cursor + 8 * ws.length)))) es as t.machine)
      fun _ t => t.machine.Ready stubs 0 0 := by
  refine builds.call (library.allocObject_puts builds.ready.sound host fuel .undefined)
    fun t builds₁ => ?_
  have setter_ : t.machine.entities.lookup (stubs prototypeSetter).entry = some setter := by
    rw [builds₁.entities]
    exact known
  obtain ⟨names, _⟩ := builds₁.ready.accessors prototypeSetter (by decide) setter setter_
  let fn := Word.pointer m.heap.region.cursor
  let proto := Word.pointer (m.heap.region.cursor + 8 * ws.length)
  have called : callValue (invoke host (fuel + 6)) setter fn [proto] t =
      invoke host (fuel + 6) (stubs prototypeSetter) fn [proto] t := by
    rw [callValue_eq, names.target builds₁.ready.sound]
  refine Yields.congr called ((library.setter_puts (fuel + 2) host builds₁ (j := 0) rfl
    (by simp) early [proto]).mono (fun _ t builds₂ => ?_) fun _ _ failed => failed)
  rw [Nat.zero_add, List.set_append_left _ _ inside, List.append_assoc,
    builds.appends.cursor, List.length_append] at builds₂
  exact builds₂

omit library in
/-- The slots of the context are filled. -/
theorem blankContext_puts {s : State ρ} {flags : Int} {more : List Word} {n : Nat}
    (builds : m.Builds stubs k (functionWords m.heap.region.cursor flags code map outer size
      context ++ more) es as s.machine) (count : context.length = n) (early : n + 7 ≤ k) :
    ∃ t : State ρ, Programs.blankContext (.pointer m.heap.region.cursor) n s = .ok () t ∧
      m.Builds stubs k (functionWords m.heap.region.cursor flags code map outer size
        (.replicate n .undefined) ++ more) es as t.machine := by
  subst count
  have appends := builds.appends
  have small := appends.small
  have aligned := appends.aligned
  have split : functionWords m.heap.region.cursor flags code map outer size context ++ more =
      [Kind.function.canonicalMap, .int flags,
        .pointer (m.heap.region.cursor + 8 * (context.length + 7)), code, map, outer, size] ++
        context ++ more := rfl
  obtain ⟨h, filled, appends', atoms, kept⟩ := appends.fill (w := .undefined) split
  have address {c : Nat} (even : c % 2 = 0)
      (inside : c ≤ m.heap.region.cursor + 8 * (7 + context.length)) :
      (Word.pointer c).address? = some c := by
    refine Word.address?_pointer even ?_
    rw [List.length_append, functionWords_length] at small
    omega
  have bytes : 8 * (context.length : Int) = ((8 * context.length : Nat) : Int) := by omega
  have start : Layout.Function.context = 8 * 7 := rfl
  have stop : m.heap.region.cursor + 8 * (7 + context.length) =
      m.heap.region.cursor + 8 * 7 + 8 * context.length := by omega
  rw [List.length_append, functionWords_length] at small
  refine ⟨s.withHeap h, ?_, ?_, ?_, builds.entities, atoms.trans builds.atoms, builds.depth,
    builds.maxDepth⟩
  · rw [Programs.blankContext, bytes, start]
    refine (estate_bind_of_ok (Exec.advance_ok (address (by omega) (by omega))
      (displace_ok (by omega) (by omega)) _)).trans ?_
    refine (estate_bind_of_ok (Exec.advance_ok (address (by omega) (by omega))
      (displace_ok (by omega) (by omega)) _)).trans ?_
    rw [← stop]
    exact Exec.fill_ok (address (by omega) (by omega)) (address (by omega) (by omega)) filled
  · rw [functionWords, List.length_replicate]
    exact appends'
  · have cursor := appends.cursor
    have cursor' := appends'.cursor
    refine builds.ready.of_heap appends'.sound ?_ (atoms ▸ builds.ready.key)
      fun c part _ outside => kept c part ?_
    · simp only [List.length_append, List.length_replicate, functionWords_length,
        List.length_cons, List.length_nil] at cursor cursor'
      omega
    · simp only [List.length_cons, List.length_nil]
      omega

/-- The constructor of functions fills in the words of a function. -/
theorem function_puts {s : State PropertyHost} {x y z u : Word} {n : Nat} (self outer : Word)
    (builds : m.Builds stubs (n + 37) (functionWords m.heap.region.cursor 0 x y z u context ++
      freshField 24) es as s.machine) (count : context.length = n) (few : n < 0x4000000000000) :
    Yields (invoke PropertyHost.serve (fuel + 7) (stubs function) self
        [.pointer m.heap.region.cursor, code, outer, .int n]) s
      (fun _ t => ∃ key getter setter more,
        m.Completes stubs n code outer key getter setter more t.machine)
      fun _ t => t.machine.Ready stubs 0 0 := by
  subst count
  rw [library.invoke_graph Programs.functionConstructor function rfl,
    Programs.functionConstructor_run _ _ _ _ _ few]
  refine builds.ready.closed.nested ?_
  have builds := builds.deeper
  refine builds.write (j := 0) (d := 3) rfl (by simp) (by omega) rfl fun t₁ builds₁ => ?_
  refine builds₁.write (j := 0) (d := 6) rfl (by simp) (by omega) rfl fun t₂ builds₂ => ?_
  have builds₂ : Machine.Builds stubs { m with depth := m.depth + 1 } (context.length + 37)
    (functionWords m.heap.region.cursor 0 code y z (.int 0) context ++ freshField 24) es as
      t₂.machine := builds₂
  refine (library.prototypeProperty_puts (fuel + 2) builds₂).bind_mono ?_
  rintro setter t₃ ⟨key, getter, more, es', as', builds₃, named, real, known, known'⟩
  have length : (functionWords m.heap.region.cursor 1 code y z (.int 0) context ++
      singleField key (.pointer (m.heap.region.cursor + 8 * (context.length + 33))) ++
      (pairWords getter setter ++ more)).length = context.length + more.length + 37 := by
    simp
    omega
  have clear (x : String) (accessor : x ∈ accessorNames) (w : Word)
      (found : es'.lookup (stubs x).entry = some w) : w.toNat + Layout.Code.size ≤
        m.heap.region.cursor + 8 * (context.length + more.length + 37) := by
    have cursor := builds₃.appends.cursor
    obtain ⟨names, _⟩ := builds₃.ready.accessors x accessor w (builds₃.entities.symm ▸ found)
    rw [length] at cursor
    rw [← cursor]
    exact names.spans.fits
  refine (library.instanceMap_puts fuel PropertyHost.serve builds₃ (length ▸ by omega) (by omega)
    known').bind_mono ?_
  intro _ t₄ builds₄
  refine builds₄.write (j := 0) (d := 5) rfl (by simp) (by omega) rfl fun t₅ builds₅ => ?_
  rw [length] at builds₅
  have builds₅ : Machine.Builds stubs { m with depth := m.depth + 1 } (context.length + 37)
    (functionWords m.heap.region.cursor Layout.Object.access code
      (.pointer (m.heap.region.cursor + 8 * (context.length + more.length + 66))) outer (.int 0)
        context ++
      (singleField key (.pointer (m.heap.region.cursor + 8 * (context.length + 33))) ++
        (pairWords getter setter ++ more) ++
        (freshObject (m.heap.region.cursor + 8 * (context.length + more.length + 37)) ++
          mapWords (.pointer (m.heap.region.cursor + 8 * (context.length + more.length + 37))))))
      es' as' t₅.machine := by
    rw [← List.append_assoc (functionWords _ _ _ _ _ _ _),
      ← List.append_assoc (functionWords _ _ _ _ _ _ _)]
    exact builds₅
  obtain ⟨t₆, filled, builds₆⟩ := blankContext_puts builds₅ rfl (by omega)
  obtain rfl := builds₆.entities
  obtain rfl := builds₆.atoms
  exact .step filled (.pure ⟨key, getter, setter, more, builds₆.shallower, named, known, known',
    clear⟩)

/-- On a ready machine a function is complete, or fails to be made and leaves a ready machine. -/
theorem allocFn_puts {s : State PropertyHost} (ready : s.machine.Ready stubs 0 0) {n : Nat}
    (few : n < 0x4000000000000) (self code outer : Word) :
    Yields (invoke PropertyHost.serve (fuel + 8) (stubs allocFn) self [code, outer, .int n]) s
      (fun w t => w = .pointer s.machine.heap.region.cursor ∧ ∃ key getter setter more,
        s.machine.Completes stubs n code outer key getter setter more t.machine)
      fun _ t => t.machine.Ready stubs 0 0 := by
  have sound := ready.sound
  have size : Word.int (56 + 8 * (n : Int)) = .int (8 * (n + 6 + 1) : Nat) := by
    congr 1
    omega
  rw [library.invoke_graph Programs.functionObject allocFn rfl,
    Programs.functionObject_run _ _ _ _ _ few, size]
  refine ready.nested ?_
  refine ((library.allocTagged_puts (s := s.deeper) sound PropertyHost.serve (fuel + 4) .undefined
    (by decide) (n := n + 6) (by omega)).mono (fun _ _ made => made) ?_).bind_mono ?_
  · rintro _ _ rfl
    exact ready.at_depth _
  rintro w t₁ ⟨rfl, ws, length, lays₁⟩
  obtain ⟨x, y, x', y', z, u, context, rfl, count⟩ : ∃ x y x' y' z u context,
      ws = x :: y :: x' :: y' :: z :: u :: context ∧ context.length = n := by
    match ws, length with
    | x :: y :: x' :: y' :: z :: u :: context, length =>
      exact ⟨x, y, x', y', z, u, context, rfl, by simpa using length⟩
  refine ((library.object_puts PropertyHost.serve (fuel + 2) .undefined lays₁).mono
    (fun _ _ made => made) ?_).bind_mono ?_
  · rintro _ t ⟨ws, lays⟩
    exact Machine.Ready.lays (s := s.deeper) (ready.at_depth _) lays
  intro _ t₂ lays₂
  have builds := (Machine.Builds.start (ready.at_depth (s.machine.depth + 1)) (n + 37)).lays lays₂
  refine (library.function_puts fuel .undefined outer builds count few).bind_mono ?_
  rintro _ t₃ ⟨key, getter, setter, more, builds₃, name, getter_, setter_, clear⟩
  exact .pure ⟨rfl, key, getter, setter, more, builds₃.shallower, name, getter_, setter_, clear⟩

end Library

end FastPath
