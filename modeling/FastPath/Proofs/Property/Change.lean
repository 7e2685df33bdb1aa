import FastPath.Proofs.Heap.Reservation
import FastPath.Proofs.Property.Backing

/-! The changes that property accesses make to the storage of an object: an item of a dictionary
is rewritten in place, and a dictionary without a free item moves behind the cursor. -/

namespace FastPath.Heap

variable {h h' : Heap} {o k v w st : Word} {i j n count start slots : Nat} {s : Slot}

theorem Backed.congr (backed : h.Backed o) (capacity : h'.capacity = h.capacity)
    (cursor : h.region.cursor ≤ h'.region.cursor)
    (object : ∀ i < 3, h'.word (o.toNat + 8 * i) = h.word (o.toNat + 8 * i))
    (header : ∀ i < 2, h'.word ((h.storageOf o).toNat + 8 * i) =
      h.word ((h.storageOf o).toNat + 8 * i)) :
    h'.Backed o ∧ h'.storageOf o = h.storageOf o ∧ h'.slots o = h.slots o ∧
      ∀ mask, h'.flagged o mask = h.flagged o mask := by
  have storage : h'.storageOf o = h.storageOf o := object 2 (by decide)
  have flags : h'.word (o.toNat + Layout.Object.flags) = h.word (o.toNat + Layout.Object.flags) :=
    object 1 (by decide)
  have length : h'.word ((h.storageOf o).toNat + Layout.Field.length) =
      h.word ((h.storageOf o).toNat + Layout.Field.length) := header 1 (by decide)
  have slots : h'.slots o = h.slots o := by rw [Heap.slots, Heap.slots, storage, length]
  have kind : h'.kind? o = h.kind? o := kind?_congr capacity (object 0 (by decide))
  have field : h'.kind? (h.storageOf o) = h.kind? (h.storageOf o) :=
    kind?_congr capacity (header 0 (by decide))
  refine ⟨⟨backed.object.later cursor, ?_, flags ▸ backed.flags, ?_, ?_, ?_, ?_⟩, storage, slots,
    fun mask => by rw [flagged, flagged, flags]⟩
  · rw [isObjectLike, kind]
    exact backed.kind
  · rw [storage, field]
    exact backed.field
  · rw [storage, length, slots]
    exact backed.length
  · rw [storage, slots]
    exact backed.storage.later cursor
  · rw [storage, slots]
    exact backed.apart

/-- The slots of an object whose storage is kept. -/
theorem slotWord_kept (storage : h'.storageOf o = h.storageOf o)
    (words : ∀ i < h.slots o + 2, h'.word ((h.storageOf o).toNat + 8 * i) =
      h.word ((h.storageOf o).toNat + 8 * i)) (bound : j < h.slots o) :
    h'.slotWord o j = h.slotWord o j := by
  rw [slotWord, slotAddress, storage, slotOffset_eq, words _ (by omega), ← slotOffset_eq]
  rfl

theorem itemOf_congr (slots : h'.slots o = h.slots o)
    (words : ∀ j < h.slots o, h'.slotWord o j = h.slotWord o j) (k : Word) :
    h'.itemOf o k = h.itemOf o k := by
  have items : h'.items o = h.items o := by rw [Heap.items, Heap.items, slots]
  have keys : ∀ i < h.items o, h'.key o i = h.key o i := fun i bound =>
    words _ (item_position bound).2.1
  refine Option.ext fun i => ?_
  rw [itemOf_some, itemOf_some, items]
  refine and_congr_right fun bound => ?_
  rw [keys i bound]
  refine and_congr_right fun _ => forall₂_congr fun j before => ?_
  rw [keys j (Nat.lt_trans before bound)]

theorem own_congr (slots : h'.slots o = h.slots o)
    (flagged : h'.flagged o Layout.Object.dense = h.flagged o Layout.Object.dense)
    (words : ∀ j < h.slots o, h'.slotWord o j = h.slotWord o j) (k : Word) :
    h'.own o k = h.own o k := by
  rw [own, own, slots, flagged, itemOf_congr slots words]

theorem Backed.slotAddress_mod (backed : h.Backed o) (j : Nat) : h.slotAddress o j % 8 = 0 := by
  have aligned := backed.storage.aligned
  rw [slotAddress, slotOffset_eq]
  omega

theorem Backed.hasWord_slot (sound : h.Sound) (backed : h.Backed o) (bound : j < h.slots o) :
    h.hasWord (h.slotAddress o j) = true :=
  backed.storage.hasWord sound (by rw [slotOffset_eq]; omega) (by rw [slotOffset_eq]; omega)

/-- Writing a slot leaves the object and the other slots as they are. -/
theorem Backed.put_slot (sound : h.Sound) (backed : h.Backed o) (bound : j < h.slots o) :
    (h.put (h.slotAddress o j) v).Backed o ∧
      (h.put (h.slotAddress o j) v).storageOf o = h.storageOf o ∧
      (h.put (h.slotAddress o j) v).slots o = h.slots o ∧
      (∀ mask, (h.put (h.slotAddress o j) v).flagged o mask = h.flagged o mask) ∧
      ∀ i, (h.put (h.slotAddress o j) v).slotWord o i = if i = j then v else h.slotWord o i := by
  have place := backed.slotAddress_mod j
  have address : h.slotAddress o j = (h.storageOf o).toNat + 8 * (j + 2) := by
    rw [slotAddress, slotOffset_eq]
  have aligned := backed.object.aligned
  have aligned' := backed.storage.aligned
  have apart := backed.apart
  obtain ⟨backed', storage, slots, flagged⟩ := backed.congr
    (capacity_put : (h.put (h.slotAddress o j) v).capacity = h.capacity) (Nat.le_refl _)
    (fun i _ => word_put_other place (by omega) (by omega))
    (fun i _ => word_put_other place (by omega) (by omega))
  refine ⟨backed', storage, slots, flagged, fun i => ?_⟩
  have same : (h.put (h.slotAddress o j) v).slotAddress o i = h.slotAddress o i :=
    congrArg (fun st => st.toNat + slotOffset i) storage
  rw [slotWord, same]
  by_cases here : i = j
  · rw [if_pos here, here, word_put_same (backed.hasWord_slot sound bound)]
  · rw [if_neg here, word_put_other place (backed.slotAddress_mod i), slotWord]
    simp only [slotAddress, slotOffset_eq]
    omega

/-- Only the three words of item `i` differ, and it now holds `v` under `k`. -/
structure Rewritten (h : Heap) (o : Word) (i : Nat) (k v : Word) (h' : Heap) : Prop where
  sound : h'.Sound
  backed : h'.Backed o
  storage : h'.storageOf o = h.storageOf o
  slots : h'.slots o = h.slots o
  flagged : ∀ mask, h'.flagged o mask = h.flagged o mask
  region : h'.region = h.region
  capacity : h'.capacity = h.capacity
  key : ∀ j, h'.key o j = if j = i then k else h.key o j
  value : ∀ j, h'.value o j = if j = i then v else h.value o j
  kept : ∀ a, a % 8 = 0 → a < (h.storageOf o).toNat + 16 ∨
    (h.storageOf o).toNat + 8 * (h.slots o + 2) ≤ a → h'.word a = h.word a

theorem Rewritten.refl (sound : h.Sound) (backed : h.Backed o) (i : Nat) :
    Rewritten h o i (h.key o i) (h.value o i) h := by
  refine ⟨sound, backed, rfl, rfl, fun _ => rfl, rfl, rfl, fun j => ?_, fun j => ?_,
    fun _ _ _ => rfl⟩
  all_goals
    split
    · next same => rw [same]
    · rfl

theorem item_word {p q : Nat} (hp : p < 3) (hq : q < 3) :
    j * Layout.Item.words + p = i * Layout.Item.words + q ↔ j = i ∧ p = q := by
  simp only [Layout.Item.words]
  omega

theorem Rewritten.put {p : Nat} (rewritten : Rewritten h o i k v h') (bound : i < h.items o)
    (known : p < 3) :
    Rewritten h o i (if p = Layout.Item.key then w else k)
      (if p = Layout.Item.value then w else v)
      (h'.put (h'.slotAddress o (i * Layout.Item.words + p)) w) := by
  have inside : i * Layout.Item.words + p < h'.slots o := by
    rw [rewritten.slots]
    simp only [items, Layout.Item.words] at bound ⊢
    omega
  obtain ⟨backed, storage, slots, flagged, words⟩ :=
    rewritten.backed.put_slot (v := w) rewritten.sound inside
  refine ⟨rewritten.sound.put, backed, storage.trans rewritten.storage,
    slots.trans rewritten.slots, fun mask => (flagged mask).trans (rewritten.flagged mask),
    rewritten.region, capacity_put.trans rewritten.capacity, fun j => ?_, fun j => ?_,
    fun a aligned outside => ?_⟩
  · have old := rewritten.key j
    rw [Heap.key] at old ⊢
    have here := item_word (i := i) (j := j) (p := Layout.Item.key) (by decide) known
    by_cases same : j = i ∧ Layout.Item.key = p
    · rw [words, if_pos (here.mpr same), if_pos same.1, if_pos same.2.symm]
    · rw [words, if_neg (mt here.mp same), old]
      by_cases item : j = i
      · rw [if_pos item, if_pos item, if_neg fun first => same ⟨item, first.symm⟩]
      · rw [if_neg item, if_neg item]
  · have old := rewritten.value j
    rw [Heap.value, Slot.position] at old ⊢
    have here := item_word (i := i) (j := j) (p := Layout.Item.value) (by decide) known
    by_cases same : j = i ∧ Layout.Item.value = p
    · rw [words, if_pos (here.mpr same), if_pos same.1, if_pos same.2.symm]
    · rw [words, if_neg (mt here.mp same), old]
      by_cases item : j = i
      · rw [if_pos item, if_pos item, if_neg fun first => same ⟨item, first.symm⟩]
      · rw [if_neg item, if_neg item]
  · rw [word_put_other (rewritten.backed.slotAddress_mod _) aligned,
      rewritten.kept a aligned outside]
    rw [rewritten.slots] at inside
    rw [slotAddress, slotOffset_eq, rewritten.storage]
    omega

theorem Rewritten.overwrite (sound : h.Sound) (backed : h.Backed o) (bound : i < h.items o)
    (v : Word) :
    Rewritten h o i (h.key o i) v (h.put (h.slotAddress o (Slot.item i).position) v) :=
  (Rewritten.refl sound backed i).put (w := v) (p := Layout.Item.value) bound (by decide)

end FastPath.Heap
