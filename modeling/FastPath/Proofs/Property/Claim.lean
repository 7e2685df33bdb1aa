import FastPath.Proofs.Property.Enlargement

/-! Claiming and clearing items of a dictionary. A new key goes to the first free item, behind the
old ones if the dictionary has to grow for it. -/

namespace FastPath.Heap

variable {h h' : Heap} {o k v : Word} {i j : Nat} {s : Slot}

/-- Writes a key and its attributes to an item of a field. -/
def stampItem (storage : Word) (i : Nat) (key : Word) : HeapM (Option Slot) := do
  store storage (itemOffset i Layout.Item.key) key
  store storage (itemOffset i Layout.Item.attributes) (.int Layout.Pair.data)
  return some (.item i)

theorem Rewritten.store {p : Nat} (rewritten : Rewritten h o i k v h') (bound : i < h.items o)
    (known : p < 3) (w : Word) :
    store (h.storageOf o) (itemOffset i p) w h' =
      .ok () (h'.put (h'.slotAddress o (i * Layout.Item.words + p)) w) := by
  have inside : i * Layout.Item.words + p < h'.slots o := by
    rw [rewritten.slots]
    simp only [items, Layout.Item.words] at bound ⊢
    omega
  rw [← rewritten.storage, itemOffset]
  exact rewritten.backed.store_slot rewritten.sound inside

theorem stampItem_ok (sound : h.Sound) (backed : h.Backed o) (bound : i < h.items o) :
    ∃ h', stampItem (h.storageOf o) i k h = .ok (some (.item i)) h' ∧
      Rewritten h o i k (h.value o i) h' := by
  have start := Rewritten.refl sound backed i
  have first := start.store bound (p := Layout.Item.key) (by decide) k
  have keyed := start.put (w := k) (p := Layout.Item.key) bound (by decide)
  have second := keyed.store bound (p := Layout.Item.attributes) (by decide)
    (.int Layout.Pair.data)
  have stamped := keyed.put (w := .int Layout.Pair.data) (p := Layout.Item.attributes) bound
    (by decide)
  exact ⟨_, (estate_bind_of_ok first).trans ((estate_bind_of_ok second).trans rfl), stamped⟩

theorem clearSlot_item (sound : h.Sound) (backed : h.Backed o) (bound : i < h.items o) :
    ∃ h', clearSlot o (.item i) h = .ok () h' ∧ Rewritten h o i .hole .hole h' := by
  have start := Rewritten.refl sound backed i
  have first := start.store bound (p := Layout.Item.key) (by decide) .hole
  have keyed := start.put (w := .hole) (p := Layout.Item.key) bound (by decide)
  have second := keyed.store bound (p := Layout.Item.value) (by decide) .hole
  have emptied := keyed.put (w := .hole) (p := Layout.Item.value) bound (by decide)
  have third := emptied.store bound (p := Layout.Item.attributes) (by decide) .hole
  have cleared := emptied.put (w := .hole) (p := Layout.Item.attributes) bound (by decide)
  refine ⟨_, ?_, cleared⟩
  exact (estate_bind_of_ok (query_ok (backed.load_storage sound))).trans
    ((estate_bind_of_ok first).trans ((estate_bind_of_ok second).trans third))

/-- Room was made for a new key at item `i`, which is the first free one. -/
def Opened (h : Heap) (o : Word) (i : Nat) (h' : Heap) : Prop :=
  (h.itemOf o .hole = some i ∧ h' = h) ∨
    (h.itemOf o .hole = none ∧ i = h.items o ∧ Enlarged h o h')

theorem Enlarged.more (enlarged : Enlarged h o h') : h.items o < h'.items o := by
  rw [enlarged.items, room, Layout.Object.items]
  omega

theorem Enlarged.itemOf_hole (enlarged : Enlarged h o h') (full : h.itemOf o .hole = none) :
    h'.itemOf o .hole = some (h.items o) := by
  have more := enlarged.more
  rw [enlarged.items] at more
  refine itemOf_some.mpr ⟨enlarged.more, ?_, fun j before => ?_⟩
  · rw [enlarged.key more, if_neg (Nat.lt_irrefl _)]
  · rw [enlarged.key (by omega), if_pos before]
    exact itemOf_none.mp full j before

namespace Opened

variable (opened : Opened h o i h')

include opened

theorem itemOf_hole : h'.itemOf o .hole = some i := by
  obtain ⟨free, rfl⟩ | ⟨full, rfl, enlarged⟩ := opened
  · exact free
  · exact enlarged.itemOf_hole full

theorem bound : i < h'.items o := (itemOf_some.mp opened.itemOf_hole).1

theorem sound (sound : h.Sound) : h'.Sound := by
  obtain ⟨_, rfl⟩ | ⟨_, _, enlarged⟩ := opened
  · exact sound
  · exact enlarged.sound

theorem backed (backed : h.Backed o) : h'.Backed o := by
  obtain ⟨_, rfl⟩ | ⟨_, _, enlarged⟩ := opened
  · exact backed
  · exact enlarged.backed

theorem flagged (mask : Int) : h'.flagged o mask = h.flagged o mask := by
  obtain ⟨_, rfl⟩ | ⟨_, _, enlarged⟩ := opened
  · rfl
  · exact enlarged.flagged mask

/-- The items before the free one are the old ones. -/
theorem key_before (before : j < i) : j < h.items o ∧ h'.key o j = h.key o j := by
  obtain ⟨free, rfl⟩ | ⟨_, rfl, enlarged⟩ := opened
  · exact ⟨Nat.lt_trans before (itemOf_some.mp free).1, rfl⟩
  · have more := enlarged.more
    rw [enlarged.items] at more
    rw [enlarged.key (Nat.lt_trans before more), if_pos before]
    exact ⟨before, rfl⟩

end Opened

/-- Claiming an item is writing to the first free one, after making room if there is none. -/
theorem claimItem?_eq (sound : h.Sound) (backed : h.Backed o)
    (dictionary : h.flagged o Layout.Object.dense = false) : claimItem? o k h =
      (match h.itemOf o .hole with
      | some i => stampItem (h.storageOf o) i k
      | none => do
        let storage ← enlarge o (some (h.storageOf o)) (h.items o)
        stampItem storage (h.items o) k) h := by
  have dense : h.isDense o = .ok false := dictionary ▸ backed.loadFlag sound _
  have free : h.findItem (h.storageOf o) .hole (h.slots o / Layout.Item.words) 0 =
      .ok (h.itemOf o .hole) := by
    rw [itemOf, List.range_eq_range']
    exact backed.findItem sound _ 0 (Nat.le_of_eq (Nat.zero_add _))
  have storage := backed.storage? sound
  have length := backed.fieldLength sound
  rw [claimItem?, estate_bind_of_ok (query_ok dense), if_neg Bool.false_ne_true,
    estate_bind_of_ok (query_ok storage)]
  dsimp only
  rw [estate_bind_of_ok (estate_pure _ _), estate_bind_of_ok (query_ok length),
    estate_bind_of_ok (query_ok free)]
  cases h.itemOf o .hole with
  | some i => rfl
  | none => rfl

theorem claimItem?_cases (sound : h.Sound) (backed : h.Backed o)
    (dictionary : h.flagged o Layout.Object.dense = false) :
    (∃ e, claimItem? o k h = .error e h) ∨
    ∃ i h₁ h', Opened h o i h₁ ∧ claimItem? o k h = .ok (some (.item i)) h' ∧
      Rewritten h₁ o i k (h₁.value o i) h' := by
  rw [claimItem?_eq sound backed dictionary]
  cases place : h.itemOf o .hole with
  | some i =>
    obtain ⟨h', stamped, rewritten⟩ := stampItem_ok (k := k) sound backed (itemOf_some.mp place).1
    exact .inr ⟨i, h, h', .inl ⟨place, rfl⟩, stamped, rewritten⟩
  | none =>
    obtain ⟨e, failed⟩ | ⟨h₁, made, enlarged⟩ := enlarge_cases sound backed
    · exact .inl ⟨e, estate_bind_of_error failed⟩
    · have opened : Opened h o (h.items o) h₁ := .inr ⟨place, rfl, enlarged⟩
      obtain ⟨h', stamped, rewritten⟩ :=
        stampItem_ok (k := k) enlarged.sound enlarged.backed opened.bound
      exact .inr ⟨h.items o, h₁, h', opened, (estate_bind_of_ok made).trans stamped, rewritten⟩

end FastPath.Heap
