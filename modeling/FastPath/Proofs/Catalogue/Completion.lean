import FastPath.Proofs.Catalogue.Building
import FastPath.Proofs.Catalogue.Constructors

/-! What a new function consists of. Its words are read back from behind the cursor: the entities
that they make up, where these stand, and what a read of `prototype` comes to. -/

namespace FastPath

open Catalogue Heap

namespace Heap

/-- The dictionary of a fresh object with a property in its first item, and no other. -/
structure Sole (h : Heap) (field key value : Word) : Prop where
  kind : h.kind? field = some .field
  length : h.loadInt field Layout.Field.length = .ok (Layout.Object.items * Layout.Item.words : Nat)
  key : h.load field (itemOffset 0 Layout.Item.key) = .ok key
  value : h.load field (itemOffset 0 Layout.Item.value) = .ok value
  free : ∀ i < Layout.Object.items, i ≠ 0 → h.load field (itemOffset i Layout.Item.key) = .ok .hole

/-- Entities, each with its number of words, none of which has a word in common with another. -/
def Apart (entities : List (Word × Nat)) : Prop :=
  entities.Pairwise fun x y =>
    x.1.toNat + 8 * x.2 ≤ y.1.toNat ∨ y.1.toNat + 8 * y.2 ≤ x.1.toNat

end Heap

/-- What belongs to a function apart from its own words: its storage, the accessor pair in there
with its Code entities, the map of its instances, and their prototype with its storage. -/
structure FunctionParts where
  storage : Word
  pair : Word
  getter : Word
  setter : Word
  map : Word
  proto : Word
  dictionary : Word

/-- A function with everything that belongs to it. All of it but the Code entities is new, which is
to say at or behind `a`. -/
structure Machine.Complete (stubs : String → Stub) (m : Machine) (a : Nat) (f code outer : Word)
    (n : Nat) (key : Word) (p : FunctionParts) : Prop where
  kind : m.heap.kind? f = some .function
  code : m.heap.load f Layout.Function.code = .ok code
  outer : m.heap.load f Layout.Function.outer = .ok outer
  context : ∀ i < n, m.heap.load f (Layout.Function.context + 8 * i) = .ok .undefined
  flags : m.heap.loadInt f Layout.Object.flags = .ok Layout.Object.access
  storage : m.heap.load f Layout.Object.storage = .ok p.storage
  sole : m.heap.Sole p.storage key p.pair
  name : m.heap.atoms.lookup "prototype" = some key
  pair : m.heap.kind? p.pair = some .accessPair
  getter : m.heap.load p.pair Layout.Pair.getter = .ok p.getter
  getter_code : m.entities.lookup (stubs prototypeGetter).entry = some p.getter ∧
    m.stub? p.getter = some (stubs prototypeGetter)
  setter : m.heap.load p.pair Layout.Pair.setter = .ok p.setter
  setter_code : m.entities.lookup (stubs prototypeSetter).entry = some p.setter ∧
    m.stub? p.setter = some (stubs prototypeSetter)
  instanceMap : m.heap.load f Layout.Function.instanceMap = .ok p.map
  map : m.heap.kind? p.map = some .map
  map_flags : m.heap.loadInt p.map Layout.Map.flags = .ok Layout.Map.plain
  map_proto : m.heap.load p.map Layout.Map.proto = .ok p.proto
  proto : m.heap.Empty a p.proto Kind.object.canonicalMap
  dictionary : m.heap.load p.proto Layout.Object.storage = .ok p.dictionary
  fresh : ∀ w ∈ [f, p.storage, p.pair, p.map, p.proto, p.dictionary], a ≤ w.toNat
  apart : Apart [(f, n + 7), (p.storage, 26), (p.pair, 4), (p.getter, 2), (p.setter, 2),
    (p.proto, 3), (p.dictionary, 26), (p.map, 5)]

section

variable {a n d j : Nat} {code outer key getter setter w : Word} {more front mid rest : List Word}

theorem getElem?_within (place : front.length = j) (held : mid[d]? = some w) :
    (front ++ (mid ++ rest))[j + d]? = some w := by
  subst place
  rw [← List.append_assoc]
  exact getElem?_part held

variable (a n code outer key getter setter more)

/-- The words before the prototype, where the accessors may have got their Code entities. -/
def accessWords : List Word :=
  functionWords a Layout.Object.access code (.pointer (a + 8 * (n + more.length + 66))) outer
      (.int 0) (.replicate n .undefined) ++
    (singleField key (.pointer (a + 8 * (n + 33))) ++ (pairWords getter setter ++ more))

variable {a n code outer key getter setter more}

theorem accessWords_length :
    (accessWords a n code outer key getter setter more).length = n + more.length + 37 := by
  simp [accessWords]
  omega

theorem completeWords_eq : completeWords a n code outer key getter setter more =
    accessWords a n code outer key getter setter more ++
      (freshObject (a + 8 * (n + more.length + 37)) ++
        mapWords (.pointer (a + 8 * (n + more.length + 37)))) := by
  simp only [completeWords, accessWords, List.append_assoc]

theorem completeWords_access
    (held : (accessWords a n code outer key getter setter more)[d]? = some w) :
    (completeWords a n code outer key getter setter more)[d]? = some w := by
  rw [completeWords_eq, List.getElem?_append_left (List.getElem?_eq_some_iff.mp held).1, held]

theorem completeWords_function
    (held : (functionWords a Layout.Object.access code
      (.pointer (a + 8 * (n + more.length + 66))) outer (.int 0)
        (.replicate n .undefined))[d]? = some w) :
    (completeWords a n code outer key getter setter more)[d]? = some w := by
  refine completeWords_access ?_
  rw [accessWords, List.getElem?_append_left (List.getElem?_eq_some_iff.mp held).1, held]

theorem completeWords_field
    (held : (singleField key (.pointer (a + 8 * (n + 33))))[d]? = some w) :
    (completeWords a n code outer key getter setter more)[n + 7 + d]? = some w :=
  completeWords_access (getElem?_within (by simp) held)

theorem completeWords_pair (held : (pairWords getter setter)[d]? = some w) :
    (completeWords a n code outer key getter setter more)[n + 33 + d]? = some w := by
  refine completeWords_access ?_
  rw [accessWords, ← List.append_assoc]
  exact getElem?_within (by simp) held

theorem completeWords_object
    (held : (freshObject (a + 8 * (n + more.length + 37)))[d]? = some w) :
    (completeWords a n code outer key getter setter more)[n + more.length + 37 + d]? = some w := by
  rw [completeWords_eq]
  exact getElem?_within accessWords_length held

theorem completeWords_map
    (held : (mapWords (.pointer (a + 8 * (n + more.length + 37))))[d]? = some w) :
    (completeWords a n code outer key getter setter more)[n + more.length + 66 + d]? = some w := by
  rw [completeWords_eq, ← List.append_assoc, ← List.append_nil (mapWords _)]
  exact getElem?_within (by simp [accessWords_length]) held

theorem completeWords_length :
    (completeWords a n code outer key getter setter more).length = n + more.length + 71 := by
  simp [completeWords_eq, accessWords_length]

end

namespace Machine

/-- Two Code entities of different stubs have no word in common. -/
theorem Names.apart {m : Machine} {s t : Stub} {v w : Word} (names : m.Names s v)
    (names' : m.Names t w) (sound : m.heap.Sound) (other : s ≠ t) :
    v.toNat + 8 * 2 ≤ w.toNat ∨ w.toNat + 8 * 2 ≤ v.toNat := by
  have index : Layout.Code.index = 8 := rfl
  obtain ⟨_, aligned, _⟩ := names.spans
  obtain ⟨_, aligned', _⟩ := names'.spans
  have map : ∀ i : Nat, Kind.code.canonicalMap ≠ .int i := by
    intro i same
    have int : Kind.code.canonicalMap.isInt = true := same ▸ Word.isInt_int _
    cases int
  have same : v.toNat ≠ w.toNat := by
    intro same
    obtain rfl := Word.ext_toNat same
    exact other (names.unique names' sound)
  have next (first : Word) (second : Word) (s t : Stub) (one : m.Names s first)
      (two : m.Names t second) : second.toNat ≠ first.toNat + 8 := by
    intro next
    obtain ⟨i, _, _, read⟩ := one.index
    have read' := two.map
    rw [next] at read'
    rw [index, read'] at read
    exact map i read
  have := next v w s t names names'
  have := next w v t s names' names
  omega

/-- The parts of a function at an address. -/
def partsAt (a n : Nat) (getter setter : Word) (gap : Nat) : FunctionParts where
  storage := .pointer (a + 8 * (n + 7))
  pair := .pointer (a + 8 * (n + 33))
  getter := getter
  setter := setter
  map := .pointer (a + 8 * (n + gap + 66))
  proto := .pointer (a + 8 * (n + gap + 37))
  dictionary := .pointer (a + 8 * (n + gap + 40))

variable {stubs : String → Stub} {m m' : Machine} {n : Nat}
  {code outer key getter setter : Word} {more : List Word}
  (completes : m.Completes stubs n code outer key getter setter more m')

include completes

theorem Completes.sole : m'.heap.Sole (.pointer (m.heap.region.cursor + 8 * (n + 7))) key
    (.pointer (m.heap.region.cursor + 8 * (n + 33))) := by
  have appends := completes.builds.appends
  have read {d : Nat} {w : Word} (held : (singleField key
      (.pointer (m.heap.region.cursor + 8 * (n + 33))))[d]? = some w) :
      m'.heap.load (.pointer (m.heap.region.cursor + 8 * (n + 7))) (8 * d) = .ok w :=
    appends.load (completeWords_field held)
  constructor
  · exact appends.kind? (completeWords_field (d := 0) rfl)
  · exact appends.loadInt (completeWords_field (d := 1) rfl) (by decide)
  · exact read (d := 2) rfl
  · exact read (d := 3) rfl
  · intro i inside other
    obtain ⟨i, rfl⟩ := Nat.exists_eq_succ_of_ne_zero other
    have offset : itemOffset (i + 1) Layout.Item.key = 8 * (5 + 3 * i) := by
      simp only [itemOffset, slotOffset, Layout.Field.data, Layout.Item.words, Layout.Item.key,
        Layout.word]
      omega
    rw [Nat.succ_eq_add_one, offset]
    refine read ?_
    have bound : 3 * i < 21 := by
      simp only [Layout.Object.items] at inside
      omega
    simp only [Nat.add_comm 5, singleField, List.getElem?_cons_succ]
    exact List.getElem?_replicate_of_lt bound

theorem Completes.proto : m'.heap.Empty m.heap.region.cursor
    (.pointer (m.heap.region.cursor + 8 * (n + more.length + 37))) Kind.object.canonicalMap := by
  let front := accessWords m.heap.region.cursor n code outer key getter setter more
  have length : front.length = n + more.length + 37 := accessWords_length
  have place : m.heap.region.cursor + 8 * (n + more.length + 37) + Layout.Object.size =
      m.heap.region.cursor + 8 * (front.length + 3) := by
    simp only [length, Layout.Object.size]
    omega
  have split : completeWords m.heap.region.cursor n code outer key getter setter more =
      front ++ Kind.object.canonicalMap :: .int Layout.Object.plain ::
        .pointer (m.heap.region.cursor + 8 * (front.length + 3)) ::
        freshField (Layout.Object.items * Layout.Item.words) ++
        mapWords (.pointer (m.heap.region.cursor + 8 * (n + more.length + 37))) := by
    rw [completeWords_eq, ← place, List.append_assoc]
    rfl
  have appends := completes.builds.appends
  rw [split] at appends
  rw [← length]
  exact appends.empty

theorem Completes.apart (library : Library stubs) :
    let p := partsAt m.heap.region.cursor n getter setter more.length
    Apart [(.pointer m.heap.region.cursor, n + 7), (p.storage, 26), (p.pair, 4), (p.getter, 2),
      (p.setter, 2), (p.proto, 3), (p.dictionary, 26), (p.map, 5)] := by
  have ready := completes.builds.ready
  have appends := completes.builds.appends
  obtain ⟨getter_names, getter_outside⟩ :=
    ready.accessors prototypeGetter (by decide) getter completes.getter
  obtain ⟨setter_names, setter_outside⟩ :=
    ready.accessors prototypeSetter (by decide) setter completes.setter
  have other : stubs prototypeGetter ≠ stubs prototypeSetter := fun same =>
    library.accessors (congrArg Stub.entry same)
  have apart := getter_names.apart setter_names ready.sound other
  have getter_clear := completes.clear prototypeGetter (by decide) getter completes.getter
  have setter_clear := completes.clear prototypeSetter (by decide) setter completes.setter
  have place {j : Nat} (inside : j ≤ n + more.length + 71) :
      (Word.pointer (m.heap.region.cursor + 8 * j)).toNat = m.heap.region.cursor + 8 * j :=
    appends.toNat_place (by rwa [completeWords_length])
  have start : (Word.pointer m.heap.region.cursor).toNat = m.heap.region.cursor :=
    appends.toNat_place (j := 0) (Nat.zero_le _)
  simp only [Layout.Code.size] at getter_outside setter_outside getter_clear setter_clear
  simp only [Apart, partsAt, List.pairwise_cons, List.mem_cons, List.not_mem_nil, or_false,
    forall_eq_or_imp, forall_eq, List.Pairwise.nil, false_implies, implies_true, and_true, start,
    place (j := n + 7) (by omega),
    place (j := n + 33) (by omega), place (j := n + more.length + 37) (by omega),
    place (j := n + more.length + 40) (by omega), place (j := n + more.length + 66) (by omega)]
  refine ⟨?_, ?_, ?_, ?_, ?_, ?_, ?_⟩ <;> omega

/-- Everything about the new function is as it should be. -/
theorem Completes.complete (library : Library stubs) :
    m'.Complete stubs m.heap.region.cursor (.pointer m.heap.region.cursor) code outer n key
      (partsAt m.heap.region.cursor n getter setter more.length) := by
  have ready := completes.builds.ready
  have appends := completes.builds.appends
  obtain ⟨getter_names, _⟩ :=
    ready.accessors prototypeGetter (by decide) getter completes.getter
  obtain ⟨setter_names, _⟩ :=
    ready.accessors prototypeSetter (by decide) setter completes.setter
  have read {d : Nat} {w : Word} (held : (functionWords m.heap.region.cursor Layout.Object.access
      code (.pointer (m.heap.region.cursor + 8 * (n + more.length + 66))) outer (.int 0)
        (.replicate n .undefined))[d]? = some w) :
      m'.heap.load (.pointer m.heap.region.cursor) (8 * d) = .ok w := by
    refine appends.load (j := 0) (d := d) ?_
    rw [Nat.zero_add]
    exact completeWords_function held
  have length : (List.replicate n Word.undefined).length = n := List.length_replicate
  constructor
  · exact appends.kind? (j := 0) (completeWords_function rfl)
  · exact read (d := 3) rfl
  · exact read (d := 5) rfl
  · intro i inside
    have offset : Layout.Function.context + 8 * i = 8 * (i + 7) := by
      simp only [Layout.Function.context]
      omega
    rw [offset]
    exact read (List.getElem?_replicate_of_lt inside)
  · exact appends.loadInt (j := 0) (d := 1) (completeWords_function rfl) (by decide)
  · rw [partsAt, ← length]
    exact read (d := 2) rfl
  · exact completes.sole
  · exact completes.name
  · exact appends.kind? (completeWords_pair (d := 0) rfl)
  · exact appends.load (d := 1) (completeWords_pair rfl)
  · exact ⟨completes.getter, getter_names.stub? ready.sound⟩
  · exact appends.load (d := 2) (completeWords_pair rfl)
  · exact ⟨completes.setter, setter_names.stub? ready.sound⟩
  · exact read (d := 4) rfl
  · exact appends.kind? (completeWords_map (d := 0) rfl)
  · exact appends.loadInt (d := 1) (completeWords_map rfl) (by decide)
  · exact appends.load (d := 2) (completeWords_map rfl)
  · exact completes.proto
  · have storage := appends.load (d := 2) (completeWords_object rfl)
    exact storage
  · have behind {j : Nat} (inside : j ≤ n + more.length + 71) :
        m.heap.region.cursor ≤ (Word.pointer (m.heap.region.cursor + 8 * j)).toNat := by
      rw [appends.toNat_place (by rwa [completeWords_length])]
      exact Nat.le_add_right _ _
    simp only [partsAt, List.mem_cons, List.not_mem_nil, or_false]
    rintro w (rfl | rfl | rfl | rfl | rfl | rfl)
    · exact behind (j := 0) (Nat.zero_le _)
    all_goals exact behind (by omega)
  · exact completes.apart library

omit completes in
/-- The storage of a new function comes right behind it. -/
theorem completeWords_houses :
    Houses (completeWords m.heap.region.cursor n code outer key getter setter more)
      m.heap.region.cursor 0 (n + 7) 24 .function Layout.Object.access := by
  have length : (List.replicate n Word.undefined).length = n := List.length_replicate
  refine ⟨rfl, completeWords_function rfl, completeWords_function rfl, ?_,
    completeWords_field (d := 0) rfl, completeWords_field (d := 1) rfl, by decide, by decide,
    by omega, by rw [completeWords_length]; omega⟩
  conv_rhs => rw [← length]
  exact completeWords_function rfl

theorem Completes.slotWord {i : Nat} {w : Word} (held : (singleField key
      (.pointer (m.heap.region.cursor + 8 * (n + 33))))[2 + i]? = some w) :
    m'.heap.slotWord (.pointer m.heap.region.cursor) i = w := by
  refine completes.builds.appends.slotWord completeWords_houses ?_
  rw [Nat.add_assoc]
  exact completeWords_field held

/-- The first item of the storage is that of `prototype`. -/
theorem Completes.own :
    m'.heap.own (.pointer m.heap.region.cursor) key = some (.item 0) := by
  have appends := completes.builds.appends
  have dictionary : m'.heap.flagged (.pointer m.heap.region.cursor) Layout.Object.dense = false :=
    (appends.flagged (j := 0) completeWords_houses Layout.Object.dense).trans (by decide)
  have room : 0 < m'.heap.items (.pointer m.heap.region.cursor) := by
    have slots : m'.heap.slots (.pointer m.heap.region.cursor) = 24 :=
      appends.slots (j := 0) completeWords_houses
    rw [items, slots, Layout.Item.words]
    omega
  have first : m'.heap.itemOf (.pointer m.heap.region.cursor) key = some 0 :=
    itemOf_some.mpr ⟨room, completes.slotWord (i := 0) rfl, fun _ before =>
      absurd before (Nat.not_lt_zero _)⟩
  rw [Heap.own, dictionary, if_neg Bool.false_ne_true, first]
  rfl

theorem Completes.entity (rooted : Word.hole.toNat < m.heap.region.cursor) :
    ((Word.pointer m.heap.region.cursor).isInt ||
      (Word.pointer m.heap.region.cursor).isNullish) = false := by
  have appends := completes.builds.appends
  have place : (Word.pointer m.heap.region.cursor).toNat = m.heap.region.cursor :=
    appends.toNat_place (j := 0) (Nat.zero_le _)
  have root {w : Word} (below : w.toNat ≤ Word.hole.toNat) :
      (Word.pointer m.heap.region.cursor == w) = false :=
    beq_eq_false_iff_ne.mpr fun same => by
      rw [same] at place
      omega
  have int : (Word.pointer m.heap.region.cursor).isInt = false :=
    Word.isInt_aligned (appends.spans (j := 0) (n := 0) (Nat.zero_le _)).aligned
  rw [int, Word.isNullish, root (by decide), root (by decide), root (by decide)]
  rfl

/-- The accessor of `prototype` is found. -/
theorem Completes.find (library : Library stubs)
    (rooted : Word.hole.toNat < m.heap.region.cursor) :
    m'.heap.find (.pointer m.heap.region.cursor) key = .ok (.getter getter) := by
  have ready := completes.builds.ready
  have complete := completes.complete library
  have backed : m'.heap.Backed (.pointer m.heap.region.cursor) :=
    completes.builds.appends.backed completeWords_houses
  have found := backed.ownSlot (k := key) ready.sound
  rw [completes.own] at found
  have loaded := backed.loadSlot ready.sound (own_position completes.own)
  have pair : m'.heap.slotWord (.pointer m.heap.region.cursor) (Slot.item 0).position =
      .pointer (m.heap.region.cursor + 8 * (n + 33)) := completes.slotWord rfl
  rw [pair] at loaded
  have present : getter ≠ .hole := fun none_ =>
    ready.present prototypeGetter (by decide) (none_ ▸ completes.getter)
  have kind : m'.heap.isPair (.pointer (m.heap.region.cursor + 8 * (n + 33))) = true :=
    beq_iff_eq.mpr complete.pair
  have held : m'.heap.load (.pointer (m.heap.region.cursor + 8 * (n + 33))) Layout.Pair.getter =
    .ok getter := complete.getter
  rw [Heap.find, hopLimit, Heap.findFrom]
  simp only [bind, Except.bind, completes.entity rooted, found, loaded, kind, held, if_neg present]
  rfl

omit completes in
/-- Reads of `prototype` get the prototype of the function's instances. -/
theorem Completes.reads (library : Library stubs) {s : State ρ}
    (completes : m.Completes stubs n code outer key getter setter more s.machine)
    (rooted : Word.hole.toNat < m.heap.region.cursor)
    (depth : s.machine.depth < s.machine.maxDepth) (host : Host ρ) (fuel : Nat) :
    Property.get (invoke host (fuel + 2)) (.pointer m.heap.region.cursor) key s =
      .ok (.pointer (m.heap.region.cursor + 8 * (n + more.length + 37))) s := by
  have ready := completes.builds.ready
  have complete := completes.complete library
  have names := (ready.accessors prototypeGetter (by decide) getter completes.getter).1
  have called : callValue (invoke host (fuel + 2)) getter (.pointer m.heap.region.cursor) [] s =
      invoke host (fuel + 2) (stubs prototypeGetter) (.pointer m.heap.region.cursor) [] s := by
    rw [callValue_eq, names.target ready.sound]
  rw [Property.get, estate_bind_of_ok (Exec.query_ok (completes.find library rooted))]
  refine called.trans ?_
  rw [library.invoke_graph Programs.readPrototype prototypeGetter rfl, Programs.readPrototype_run]
  refine Exec.nested_ok (t := s.deeper) depth ?_
  exact (estate_bind_of_ok (Exec.query_ok complete.instanceMap)).trans
    (Exec.query_ok complete.map_proto)

end Machine

end FastPath
