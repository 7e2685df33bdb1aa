import FastPath.Proofs.Property.Change

/-! A dictionary that moves behind the cursor: its items come along in their places, and the
items behind them are free. -/

namespace FastPath.Heap

variable {h h' r : Heap} {o k v w source : Word} {a i j count start slots n : Nat}

/-- How many items an object has room for after its next enlargement. -/
def room (h : Heap) (o : Word) : Nat := max (h.items o * 2) Layout.Object.items

structure Enlarged (h : Heap) (o : Word) (h' : Heap) : Prop where
  sound : h'.Sound
  backed : h'.Backed o
  storage : (h'.storageOf o).toNat = h.region.cursor
  items : h'.items o = h.room o
  flagged : ∀ mask, h'.flagged o mask = h.flagged o mask
  cursor : h.region.cursor < h'.region.cursor
  limit : h'.region.limit = h.region.limit
  capacity : h'.capacity = h.capacity
  fits : h.region.cursor + 8 * (h'.slots o + 2) = h'.region.cursor
  words : ∀ j < h'.slots o, h'.slotWord o j =
    if j < h.items o * Layout.Item.words then h.slotWord o j else .hole
  kept : ∀ a, a % 8 = 0 → a < h.region.cursor → a ≠ o.toNat + Layout.Object.storage →
    h'.word a = h.word a

theorem copySlots_ok (count start : Nat) (sound : h.Sound) (grown : Grown h (slots + 2) h')
    (spans : h.Spans source (n + 2)) (fewer : n ≤ slots) (bound : start + count ≤ n) :
    ∃ h'', copySlots source (.pointer h.region.cursor) count start h' = .ok () h'' ∧
      Grown h (slots + 2) h'' ∧ ∀ a, a % 8 = 0 → h''.word a =
        if h.region.cursor + slotOffset start ≤ a ∧ a < h.region.cursor + slotOffset (start + count)
        then h.word (source.toNat + (a - h.region.cursor)) else h'.word a := by
  induction count generalizing start h' with
  | zero =>
    refine ⟨h', rfl, grown, fun a _ => ?_⟩
    rw [Nat.add_zero, if_neg (by omega)]
  | succ count ih =>
    have target := grown.spans sound
    have cursor := grown.cursor
    have aligned := sound.aligned
    have offset := slotOffset_eq start
    obtain ⟨begins, part, fits⟩ := spans
    have old : h'.word (source.toNat + slotOffset start) =
        h.word (source.toNat + slotOffset start) :=
      grown.kept _ (by omega) (.inl (by omega))
    have loaded : h'.load source (slotOffset start) =
        .ok (h.word (source.toNat + slotOffset start)) := by
      have spans' : h'.Spans source (n + 2) := ⟨begins, part, by omega⟩
      rw [spans'.load grown.sound (by omega) (by omega), old]
    have stored := target.store (v := h.word (source.toNat + slotOffset start))
      (d := slotOffset start) grown.sound (by omega) (by omega)
    have inside := target.hasWord (d := slotOffset start) grown.sound (by omega) (by omega)
    rw [sound.toNat_cursor] at stored inside
    obtain ⟨h'', rest, grown', words⟩ := ih (start + 1)
      (grown.put (a := h.region.cursor + slotOffset start)
        (w := h.word (source.toNat + slotOffset start)) (by omega) (by omega) (by omega)) (by omega)
    refine ⟨h'', ?_, grown', fun a part => ?_⟩
    · rw [copySlots, estate_bind_of_ok (query_ok loaded), estate_bind_of_ok stored, rest]
    · have next := slotOffset_eq (start + 1)
      have last := slotOffset_eq (start + (count + 1))
      have same : start + 1 + count = start + (count + 1) := by omega
      rw [words a part, same]
      by_cases here : a = h.region.cursor + slotOffset start
      · rw [if_neg (by omega), if_pos (by omega), here, word_put_same inside,
          Nat.add_sub_cancel_left]
      · rw [word_put_other (by omega) part here]
        congr 1
        apply propext
        omega

theorem Enlarged.key (enlarged : Enlarged h o h') (bound : i < h.room o) :
    h'.key o i = if i < h.items o then h.key o i else .hole := by
  rw [Heap.key, enlarged.words _ (item_position (enlarged.items.symm ▸ bound)).2.1]
  congr 1
  simp only [Layout.Item.words, Layout.Item.key]
  apply propext
  omega

theorem Enlarged.value (enlarged : Enlarged h o h') (bound : i < h.room o) :
    h'.value o i = if i < h.items o then h.value o i else .hole := by
  rw [Heap.value, enlarged.words _ (item_position (enlarged.items.symm ▸ bound)).1]
  congr 1
  simp only [Slot.position, Layout.Item.words, Layout.Item.value]
  apply propext
  omega

theorem kindOfMap_field : kindOfMap Kind.field.canonicalMap = .field := by decide

/-- An object that is given a field that was made at the cursor. -/
theorem Grown.rehouse (sound : h.Sound) (bare : h.Bare o) (grown : Grown h (slots + 2) h')
    (map : h'.word h.region.cursor = Kind.field.canonicalMap)
    (length : (h'.word (h.region.cursor + Layout.Field.length)).int? = some (slots : Int))
    (rehoused : r = h'.put (o.toNat + Layout.Object.storage) (.pointer h.region.cursor)) :
    r.Backed o ∧ r.storageOf o = .pointer h.region.cursor ∧ r.slots o = slots ∧
      (∀ mask, r.flagged o mask = h.flagged o mask) ∧
      ∀ a, a % 8 = 0 → a ≠ o.toNat + Layout.Object.storage → r.word a = h'.word a := by
  have cursor := grown.cursor
  obtain ⟨start, aligned, fits⟩ := bare.object
  have object : h'.Spans o 3 := bare.object.later (by omega)
  have spans := grown.spans sound
  have words : ∀ a, a % 8 = 0 → a ≠ o.toNat + Layout.Object.storage → r.word a = h'.word a := by
    intro a part other
    rw [rehoused, word_put_other (by simp only [Layout.Object.storage]; omega) part other]
  have storage : r.storageOf o = .pointer h.region.cursor := by
    rw [storageOf, rehoused, word_put_same (object.hasWord grown.sound rfl (by decide))]
  have flags : r.word (o.toNat + Layout.Object.flags) = h.word (o.toNat + Layout.Object.flags) := by
    simp only [Layout.Object.storage, Layout.Object.flags] at words ⊢
    rw [words _ (by omega) (by omega), grown.kept _ (by omega) (.inl (by omega))]
  have first : r.word h.region.cursor = Kind.field.canonicalMap := by
    simp only [Layout.Object.storage] at words
    rw [words _ sound.aligned (by omega), map]
  have second : (r.word (h.region.cursor + Layout.Field.length)).int? = some (slots : Int) := by
    have aligned := sound.aligned
    simp only [Layout.Object.storage, Layout.Field.length] at words length ⊢
    rw [words _ (by omega) (by omega), length]
  have count : r.slots o = slots := by
    rw [Heap.slots, storage, sound.toNat_cursor, second]
    rfl
  have sound' : r.Sound := rehoused ▸ grown.sound.put
  have spans' : r.Spans (.pointer h.region.cursor) (slots + 2) := rehoused ▸ spans.put
  refine ⟨⟨rehoused ▸ object.put, ?_, flags ▸ bare.flags, ?_, ?_, ?_, ?_⟩, storage, count, ?_,
    words⟩
  · have same : r.word o.toNat = h.word o.toNat := by
      simp only [Layout.Object.storage] at words
      rw [words _ aligned (by omega), grown.kept _ aligned (.inl (by omega))]
    have capacity : r.capacity = h.capacity := by
      rw [rehoused, capacity_put, grown.capacity]
    rw [isObjectLike, kind?_congr capacity same]
    exact bare.kind
  · rw [storage, spans'.kind sound', sound.toNat_cursor, first, kindOfMap_field]
  · rw [storage, sound.toNat_cursor, count, second]
  · rw [storage, count]
    exact spans'
  · rw [storage, sound.toNat_cursor]
    omega
  · intro mask
    rw [flagged, flagged, flags]

theorem enlarge_cases (sound : h.Sound) (backed : h.Backed o) :
    (∃ e, enlarge o (some (h.storageOf o)) (h.items o) h = .error e h) ∨
    ∃ h', enlarge o (some (h.storageOf o)) (h.items o) h = .ok (h'.storageOf o) h' ∧
      Enlarged h o h' := by
  obtain ⟨full, failed⟩ | ⟨h₁, made, fresh⟩ :=
    allocateField_cases (h.room o * Layout.Item.words) sound
  · exact .inl ⟨_, estate_bind_of_error failed⟩
  right
  have fewer : h.items o * Layout.Item.words ≤ h.slots o := Nat.div_mul_le_self _ _
  have wider : h.items o * Layout.Item.words ≤ h.room o * Layout.Item.words :=
    Nat.mul_le_mul_right _ (by simp only [room]; omega)
  obtain ⟨h₂, copied, grown, words⟩ := copySlots_ok (h.items o * Layout.Item.words) 0 sound
    fresh.grown
    (backed.storage.mono (Nat.add_le_add_right fewer 2)) wider (by omega)
  have cursor := grown.cursor
  have aligned := sound.aligned
  have origin := slotOffset_eq 0
  rw [Nat.zero_add] at words
  have map : h₂.word h.region.cursor = Kind.field.canonicalMap := by
    rw [words _ aligned, if_neg (by omega), fresh.map]
  have length : (h₂.word (h.region.cursor + Layout.Field.length)).int? =
      some ((h.room o * Layout.Item.words : Nat) : Int) := by
    have length := fresh.length
    simp only [Layout.Field.length] at length ⊢
    rw [words _ (by omega), if_neg (by omega), length]
  have object : h₂.Spans o 3 := backed.object.later (by omega)
  have stored := object.store (d := Layout.Object.storage) (v := .pointer h.region.cursor)
    grown.sound rfl (by decide)
  obtain ⟨backed', storage, slots, flagged, kept⟩ := grown.rehouse sound backed.bare map length rfl
  have outside := backed.object.fits
  refine ⟨_, ?_, ⟨grown.sound.put, backed', ?_, ?_, flagged, ?_, grown.limit,
    capacity_put.trans grown.capacity, ?_, fun j bound => ?_, fun a part below other => ?_⟩⟩
  · rw [storage, enlarge]
    exact (estate_bind_of_ok made).trans ((estate_bind_of_ok copied).trans
      ((estate_bind_of_ok stored).trans rfl))
  · rw [storage, sound.toNat_cursor]
  · rw [items, slots, Layout.Item.words, Nat.mul_div_cancel _ (by decide)]
  · rw [region_put]
    omega
  · rw [region_put, slots, cursor]
  · have offset := slotOffset_eq j
    have last := slotOffset_eq (h.items o * Layout.Item.words)
    have other : h.region.cursor + slotOffset j ≠ o.toNat + Layout.Object.storage := by
      simp only [Layout.Object.storage]
      omega
    rw [slots] at bound
    rw [slotWord, slotAddress, storage, sound.toNat_cursor, kept _ (by omega) other,
      words _ (by omega)]
    by_cases old : j < h.items o * Layout.Item.words
    · rw [if_pos (by omega), if_pos old, Nat.add_sub_cancel_left]
      rfl
    · have free := fresh.holes j bound
      rw [if_neg (by omega), if_neg old, ← free, Layout.Field.data]
      congr 1
      omega
  · rw [kept a part other, grown.kept a part (.inl below)]

end FastPath.Heap
