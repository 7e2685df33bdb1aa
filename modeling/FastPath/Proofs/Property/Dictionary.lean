import FastPath.Proofs.Property.Operations

/-! Objects that are dictionaries, and many of them side by side in one heap. A change that stays
inside one of them, or moves it behind the cursor, leaves the others and their contents alone. -/

namespace FastPath.Heap

/-- Neither accessors nor dense storage, and no key twice. -/
structure Dictionary (h : Heap) (o : Word) : Prop extends Backed h o where
  data : h.flagged o Layout.Object.access = false
  dictionary : h.flagged o Layout.Object.dense = false
  distinct : ∀ i < h.items o, ∀ j < h.items o, h.key o i = h.key o j → h.key o i ≠ .hole → i = j

/-- The value that a dictionary holds under a key. -/
def lookup (h : Heap) (o key : Word) : Option Word := (h.itemOf o key).map (h.value o)

/-- The start of an entity that lies neither inside one of the objects nor inside its storage. -/
structure Entity (h : Heap) (objs : List Word) (w : Word) : Prop where
  aligned : w.toNat % 8 = 0
  below : w.toNat < h.region.cursor
  outside : ∀ o ∈ objs, (w.toNat ≤ o.toNat ∨ o.toNat + 24 ≤ w.toNat) ∧
    (w.toNat ≤ (h.storageOf o).toNat ∨
      (h.storageOf o).toNat + 8 * (h.slots o + 2) ≤ w.toNat)

/-- A small integer, or an entity that is no accessor pair. -/
def Plain (h : Heap) (objs : List Word) (w : Word) : Prop :=
  w.isInt = true ∨ h.Entity objs w ∧ h.isPair w = false

/-- Dictionaries that overlap neither each other nor their storages. -/
structure Separate (h : Heap) (objs : List Word) : Prop where
  sound : h.Sound
  each : ∀ o ∈ objs, h.Dictionary o
  objects : ∀ o ∈ objs, ∀ p ∈ objs, o ≠ p → o.toNat + 24 ≤ p.toNat ∨ p.toNat + 24 ≤ o.toNat
  storages : ∀ o ∈ objs, ∀ p ∈ objs, o ≠ p →
    (h.storageOf o).toNat + 8 * (h.slots o + 2) ≤ (h.storageOf p).toNat ∨
      (h.storageOf p).toNat + 8 * (h.slots p + 2) ≤ (h.storageOf o).toNat
  crossed : ∀ o ∈ objs, ∀ p ∈ objs, o.toNat + 24 ≤ (h.storageOf p).toNat ∨
    (h.storageOf p).toNat + 8 * (h.slots p + 2) ≤ o.toNat

/-- Dictionaries that hold plain values, beside the singletons that no access may touch. -/
structure Dictionaries (h : Heap) (objs : List Word) : Prop extends Separate h objs where
  singletons : ∀ w, w.isNullish = true → h.Entity objs w ∧ h.kind? w = some .oddball
  values : ∀ o ∈ objs, ∀ i < h.items o, h.key o i ≠ .hole → h.Plain objs (h.value o i)

/-- A word that a property access to `o` may write: a slot, or the pointer to the storage. -/
def Writable (h : Heap) (o : Word) (a : Nat) : Prop :=
  a = o.toNat + Layout.Object.storage ∨ (h.storageOf o).toNat + Layout.Field.data ≤ a ∧
    a < (h.storageOf o).toNat + 8 * (h.slots o + 2)

/-- What accesses to the objects keep: the words that they may not write, and the place of every
storage that was not moved behind the cursor. -/
structure Kept (objs : List Word) (h h' : Heap) : Prop where
  sound : h'.Sound
  capacity : h'.capacity = h.capacity
  cursor : h.region.cursor ≤ h'.region.cursor
  housed : ∀ o ∈ objs, h'.storageOf o = h.storageOf o ∧ h'.slots o = h.slots o ∨
    h.region.cursor ≤ (h'.storageOf o).toNat
  words : ∀ a, a % 8 = 0 → a < h.region.cursor → (∀ o ∈ objs, ¬ h.Writable o a) →
    h'.word a = h.word a

variable {h h' h'' : Heap} {o p k m v w : Word} {i j : Nat} {objs : List Word}

theorem Dictionary.lookup_iff (d : h.Dictionary o) (real : k ≠ .hole) :
    h.lookup o k = some v ↔ ∃ i < h.items o, h.key o i = k ∧ h.value o i = v := by
  simp only [lookup, Option.map_eq_some_iff, itemOf_some]
  constructor
  · rintro ⟨i, ⟨bound, key, _⟩, value⟩
    exact ⟨i, bound, key, value⟩
  · rintro ⟨i, bound, key, value⟩
    refine ⟨i, ⟨bound, key, fun j before same => ?_⟩, value⟩
    have twice := d.distinct j (by omega) i bound (same.trans key.symm) (same ▸ real)
    omega

theorem lookup_none : h.lookup o k = none ↔ ∀ i < h.items o, h.key o i ≠ k := by
  rw [lookup, Option.map_eq_none_iff, itemOf_none]

theorem Dictionary.own_eq (d : h.Dictionary o) : h.own o k = (h.itemOf o k).map .item :=
  Heap.own_eq d.dictionary k

theorem Dictionary.own_none (d : h.Dictionary o) : h.own o k = none ↔ h.lookup o k = none := by
  rw [d.own_eq, lookup, Option.map_eq_none_iff, Option.map_eq_none_iff]

theorem Dictionary.own_some (d : h.Dictionary o) (found : h.lookup o k = some v) :
    ∃ i < h.items o, h.own o k = some (.item i) ∧ h.key o i = k ∧ h.value o i = v := by
  obtain ⟨i, place, value⟩ := Option.map_eq_some_iff.mp found
  obtain ⟨bound, key, _⟩ := itemOf_some.mp place
  refine ⟨i, bound, ?_, key, value⟩
  rw [d.own_eq, place]
  rfl

/-- What a rewritten dictionary holds under a key that is not the hole. -/
theorem Rewritten.dictionary (d : h.Dictionary o) (rewritten : Rewritten h o i k v h')
    (bound : i < h.items o) (fresh : k ≠ .hole → ∀ j < h.items o, h.key o j = k → j = i) :
    h'.Dictionary o ∧ ∀ m, m ≠ .hole → h'.lookup o m =
      if m = k then some v else if m = h.key o i then none else h.lookup o m := by
  have items : h'.items o = h.items o := by rw [Heap.items, Heap.items, rewritten.slots]
  have d' : h'.Dictionary o := by
    refine ⟨rewritten.backed, (rewritten.flagged _).trans d.data,
      (rewritten.flagged _).trans d.dictionary, fun a ha b hb same real => ?_⟩
    rw [items] at ha hb
    rw [rewritten.key, rewritten.key] at same
    rw [rewritten.key] at real
    by_cases first : a = i <;> by_cases second : b = i
    · rw [first, second]
    · rw [if_pos first, if_neg second] at same
      rw [if_pos first] at real
      exact absurd (fresh real b hb same.symm) second
    · rw [if_neg first, if_pos second] at same
      rw [if_neg first] at real
      exact absurd (fresh (same ▸ real) a ha same) first
    · rw [if_neg first, if_neg second] at same
      rw [if_neg first] at real
      exact d.distinct a ha b hb same real
  refine ⟨d', fun m real => ?_⟩
  by_cases written : m = k
  · rw [if_pos written, d'.lookup_iff real]
    exact ⟨i, items ▸ bound, by rw [rewritten.key, if_pos rfl, written],
      by rw [rewritten.value, if_pos rfl]⟩
  · rw [if_neg written]
    by_cases erased : m = h.key o i
    · rw [if_pos erased, lookup_none]
      intro j bound' same
      rw [rewritten.key] at same
      by_cases here : j = i
      · rw [if_pos here] at same
        exact written same.symm
      · rw [if_neg here] at same
        exact here (d.distinct j (items ▸ bound') i bound (same.trans erased) (same ▸ real))
    · rw [if_neg erased]
      refine Option.ext fun x => ?_
      rw [d'.lookup_iff real, d.lookup_iff real, items]
      refine exists_congr fun j => and_congr_right fun _ => ?_
      rw [rewritten.key, rewritten.value]
      by_cases here : j = i
      · rw [if_pos here, if_pos here, here]
        exact ⟨fun same => absurd same.1.symm written, fun same => absurd same.1.symm erased⟩
      · rw [if_neg here, if_neg here]

theorem Enlarged.dictionary (d : h.Dictionary o) (enlarged : Enlarged h o h') :
    h'.Dictionary o ∧ ∀ m, m ≠ .hole → h'.lookup o m = h.lookup o m := by
  have more := enlarged.more
  have d' : h'.Dictionary o := by
    refine ⟨enlarged.backed, (enlarged.flagged _).trans d.data,
      (enlarged.flagged _).trans d.dictionary, fun a ha b hb same real => ?_⟩
    rw [enlarged.items] at ha hb
    rw [enlarged.key ha, enlarged.key hb] at same
    rw [enlarged.key ha] at real
    by_cases first : a < h.items o
    · rw [if_pos first] at same real
      by_cases second : b < h.items o
      · rw [if_pos second] at same
        exact d.distinct a first b second same real
      · rw [if_neg second] at same
        exact absurd same real
    · rw [if_neg first] at real
      exact absurd rfl real
  refine ⟨d', fun m real => Option.ext fun x => ?_⟩
  rw [d'.lookup_iff real, d.lookup_iff real]
  constructor
  · rintro ⟨j, bound, key, value⟩
    rw [enlarged.items] at bound
    rw [enlarged.key bound] at key
    rw [enlarged.value bound] at value
    by_cases old : j < h.items o
    · rw [if_pos old] at key value
      exact ⟨j, old, key, value⟩
    · rw [if_neg old] at key
      exact absurd key.symm real
  · rintro ⟨j, bound, key, value⟩
    have wide : j < h.room o := by
      rw [← enlarged.items]
      omega
    refine ⟨j, enlarged.items ▸ wide, ?_, ?_⟩
    · rw [enlarged.key wide, if_pos bound, key]
    · rw [enlarged.value wide, if_pos bound, value]

theorem Kept.refl (sound : h.Sound) : Kept objs h h :=
  ⟨sound, rfl, Nat.le_refl _, fun _ _ => .inl ⟨rfl, rfl⟩, fun _ _ _ _ => rfl⟩

theorem Kept.mono (kept : Kept [o] h h') (member : o ∈ objs)
    (others : ∀ p ∈ objs, p ≠ o → h'.storageOf p = h.storageOf p ∧ h'.slots p = h.slots p) :
    Kept objs h h' := by
  refine ⟨kept.sound, kept.capacity, kept.cursor, fun p inside => ?_,
    fun a aligned below free => kept.words a aligned below ?_⟩
  · by_cases same : p = o
    · exact same ▸ kept.housed o List.mem_cons_self
    · exact .inl (others p inside same)
  · intro q only
    rw [List.mem_singleton.mp only]
    exact free o member

theorem Kept.trans (kept : Kept objs h h') (kept' : Kept objs h' h'') : Kept objs h h'' := by
  have cursor := kept.cursor
  have cursor' := kept'.cursor
  refine ⟨kept'.sound, kept'.capacity.trans kept.capacity, Nat.le_trans cursor cursor',
    fun o member => ?_, fun a aligned below free => ?_⟩
  · obtain ⟨storage', slots'⟩ | moved' := kept'.housed o member
    · obtain ⟨storage, slots⟩ | moved := kept.housed o member
      · exact .inl ⟨storage'.trans storage, slots'.trans slots⟩
      · exact .inr (storage' ▸ moved)
    · exact .inr (Nat.le_trans cursor moved')
  · rw [kept'.words a aligned (by omega) fun o member writable => ?_,
      kept.words a aligned below free]
    have free := free o member
    simp only [Writable, Layout.Object.storage, Layout.Field.data] at writable free
    obtain ⟨storage, slots⟩ | moved := kept.housed o member
    · rw [storage, slots] at writable
      exact free writable
    · omega

theorem Rewritten.keeps (rewritten : Rewritten h o i k v h') : Kept [o] h h' := by
  refine ⟨rewritten.sound, rewritten.capacity, Nat.le_of_eq (by rw [rewritten.region]),
    fun p only => ?_, fun a aligned _ free => rewritten.kept a aligned ?_⟩
  · rw [List.mem_singleton.mp only]
    exact .inl ⟨rewritten.storage, rewritten.slots⟩
  · have free := free o List.mem_cons_self
    simp only [Writable, Layout.Object.storage, Layout.Field.data] at free
    omega

theorem Enlarged.keeps (enlarged : Enlarged h o h') : Kept [o] h h' := by
  refine ⟨enlarged.sound, enlarged.capacity, Nat.le_of_lt enlarged.cursor, fun p only => ?_,
    fun a aligned below free => enlarged.kept a aligned below fun here => ?_⟩
  · rw [List.mem_singleton.mp only]
    exact .inr (Nat.le_of_eq enlarged.storage.symm)
  · exact free o List.mem_cons_self (.inl here)

theorem Kept.kind?_entity (kept : Kept [o] h h') (member : o ∈ objs)
    (entity : h.Entity objs w) : h'.kind? w = h.kind? w := by
  refine kind?_congr kept.capacity (kept.words _ entity.aligned entity.below fun q only => ?_)
  have outside := entity.outside o member
  rw [List.mem_singleton.mp only]
  simp only [Writable, Layout.Object.storage, Layout.Field.data]
  omega

/-- All that can be seen of a dictionary whose words are kept. -/
theorem Dictionary.congr (d : h.Dictionary p) (capacity : h'.capacity = h.capacity)
    (cursor : h.region.cursor ≤ h'.region.cursor)
    (object : ∀ i < 3, h'.word (p.toNat + 8 * i) = h.word (p.toNat + 8 * i))
    (storage : ∀ i < h.slots p + 2, h'.word ((h.storageOf p).toNat + 8 * i) =
      h.word ((h.storageOf p).toNat + 8 * i)) :
    h'.Dictionary p ∧ h'.storageOf p = h.storageOf p ∧ h'.slots p = h.slots p ∧
      (∀ i < h.items p, h'.key p i = h.key p i) ∧
      ∀ i < h.items p, h'.value p i = h.value p i := by
  obtain ⟨backed, place, slots, flagged⟩ := d.toBacked.congr capacity cursor object
    fun i few => storage i (by omega)
  have words : ∀ j < h.slots p, h'.slotWord p j = h.slotWord p j := fun j bound =>
    slotWord_kept place storage bound
  have items : h'.items p = h.items p := by rw [Heap.items, Heap.items, slots]
  have keys : ∀ i < h.items p, h'.key p i = h.key p i := fun i bound =>
    words _ (item_position bound).2.1
  refine ⟨⟨backed, (flagged _).trans d.data, (flagged _).trans d.dictionary, ?_⟩, place, slots,
    keys, fun i bound => words _ (item_position bound).1⟩
  intro a ha b hb same real
  rw [items] at ha hb
  rw [keys a ha, keys b hb] at same
  rw [keys a ha] at real
  exact d.distinct a ha b hb same real

section

variable (separate : Separate h objs) (member : o ∈ objs) (kept : Kept [o] h h')

include separate member kept

theorem Separate.other (inside : p ∈ objs) (apart : p ≠ o) :
    h'.Dictionary p ∧ h'.storageOf p = h.storageOf p ∧ h'.slots p = h.slots p ∧
      (∀ i < h.items p, h'.key p i = h.key p i) ∧
      ∀ i < h.items p, h'.value p i = h.value p i := by
  have d := separate.each p inside
  have objects := separate.objects p inside o member apart
  have storages := separate.storages p inside o member apart
  have crossed := separate.crossed p inside o member
  have crossed' := separate.crossed o member p inside
  have room := (separate.each o member).object
  obtain ⟨_, aligned, fits⟩ := d.object
  obtain ⟨_, aligned', fits'⟩ := d.storage
  refine d.congr kept.capacity kept.cursor (fun i few => ?_) fun i few => ?_
  all_goals
    refine kept.words _ (by omega) (by omega) fun q only => ?_
    rw [List.mem_singleton.mp only]
    simp only [Writable, Layout.Object.storage, Layout.Field.data]
    omega

/-- The dictionaries are still apart after one of them was changed. -/
theorem Separate.changed (d : h'.Dictionary o) : h'.Separate objs := by
  have cursor := kept.cursor
  -- the storage of `o` is where it was, or behind everything else
  have storage : ∀ p ∈ objs, h'.storageOf p = h.storageOf p ∧ h'.slots p = h.slots p ∨
      p = o ∧ h.region.cursor ≤ (h'.storageOf p).toNat := by
    intro p inside
    by_cases same : p = o
    · subst same
      exact (kept.housed p List.mem_cons_self).imp_right fun moved => ⟨rfl, moved⟩
    · obtain ⟨_, storage, slots, _⟩ := separate.other member kept inside same
      exact .inl ⟨storage, slots⟩
  refine ⟨kept.sound, fun p inside => ?_, separate.objects, fun p hp q hq apart => ?_,
    fun p hp q hq => ?_⟩
  · by_cases same : p = o
    · exact same ▸ d
    · exact (separate.other member kept inside same).1
  · have before := separate.storages p hp q hq apart
    have fits := (separate.each p hp).storage.fits
    have fits' := (separate.each q hq).storage.fits
    obtain ⟨place, slots⟩ | ⟨rfl, moved⟩ := storage p hp
    · rw [place, slots]
      obtain ⟨place', slots'⟩ | ⟨rfl, moved⟩ := storage q hq
      · rw [place', slots']
        exact before
      · omega
    · obtain ⟨place', slots'⟩ | ⟨rfl, _⟩ := storage q hq
      · rw [place', slots']
        omega
      · exact absurd rfl apart
  · have before := separate.crossed p hp q hq
    have fits := (separate.each p hp).object.fits
    obtain ⟨place, slots⟩ | ⟨rfl, moved⟩ := storage q hq
    · rw [place, slots]
      exact before
    · omega

theorem Separate.entity (entity : h.Entity objs w) : h'.Entity objs w := by
  have cursor := kept.cursor
  obtain ⟨aligned, below, outside⟩ := entity
  refine ⟨aligned, by omega, fun p inside => ⟨(outside p inside).1, ?_⟩⟩
  by_cases same : p = o
  · obtain ⟨storage, slots⟩ | moved := kept.housed o List.mem_cons_self
    · rw [same, storage, slots]
      exact (outside o member).2
    · rw [same]
      omega
  · obtain ⟨_, storage, slots, _⟩ := separate.other member kept inside same
    rw [storage, slots]
    exact (outside p inside).2

theorem Separate.plain (plain : h.Plain objs w) : h'.Plain objs w := by
  obtain int | ⟨entity, data⟩ := plain
  · exact .inl int
  · refine .inr ⟨separate.entity member kept entity, ?_⟩
    rw [isPair, kept.kind?_entity member entity]
    exact data

theorem Separate.lookup_other (inside : p ∈ objs) (apart : p ≠ o) (real : k ≠ .hole) :
    h'.lookup p k = h.lookup p k := by
  obtain ⟨d', _, slots, key, value⟩ := separate.other member kept inside apart
  refine Option.ext fun x => ?_
  rw [d'.lookup_iff real, (separate.each p inside).lookup_iff real, items, slots]
  refine exists_congr fun i => and_congr_right fun bound => ?_
  rw [key i bound, value i bound]

theorem Separate.kept_all : Kept objs h h' := by
  refine kept.mono member fun p inside apart => ?_
  obtain ⟨_, storage, slots, _⟩ := separate.other member kept inside apart
  exact ⟨storage, slots⟩

end

/-- Dictionaries are still that after one of them was changed and given plain values. -/
theorem Dictionaries.changed (family : h.Dictionaries objs) (member : o ∈ objs)
    (kept : Kept [o] h h') (d : h'.Dictionary o)
    (values : ∀ i < h'.items o, h'.key o i ≠ .hole → h.Plain objs (h'.value o i)) :
    h'.Dictionaries objs := by
  refine ⟨family.toSeparate.changed member kept d, fun w nullish => ?_,
    fun p inside i bound real => ?_⟩
  · obtain ⟨entity, oddball⟩ := family.singletons w nullish
    exact ⟨family.entity member kept entity, (kept.kind?_entity member entity).trans oddball⟩
  · refine family.plain member kept ?_
    by_cases same : p = o
    · subst same
      exact values i bound real
    · obtain ⟨_, _, slots, key, value⟩ := family.other member kept inside same
      rw [items, slots] at bound
      rw [key i bound] at real
      rw [value i bound]
      exact family.values p inside i bound real

end FastPath.Heap
