import FastPath.Proofs.Heap.Memory

/-! Allocation. A request either fits, and is given the words from the cursor on while all others
stay as they are, or it changes nothing at all. -/

namespace FastPath.Heap

/-- The heap after `size` bytes were handed out. -/
def advanced (h : Heap) (size : Nat) : Heap :=
  { h with region := { h.region with cursor := h.region.cursor + roundUp size } }

/-- The heap `h'` is `h` after `count` words were handed out and filled. -/
structure Grown (h : Heap) (count : Nat) (h' : Heap) : Prop where
  sound : h'.Sound
  cursor : h'.region.cursor = h.region.cursor + 8 * count
  limit : h'.region.limit = h.region.limit
  capacity : h'.capacity = h.capacity
  atoms : h'.atoms = h.atoms
  kept : ∀ a, a % 8 = 0 → a < h.region.cursor ∨ h'.region.cursor ≤ a → h'.word a = h.word a

variable {h h' h'' : Heap} {a b n size slots count offset : Nat} {v w : Word}

/-- The request can be rounded up within 64 bits, and there is room for it. -/
def Fits (h : Heap) (size : Nat) : Prop :=
  size + 8 < 0x10000000000000000 ∧ h.region.cursor + roundUp size ≤ h.region.limit

instance : Decidable (h.Fits size) := inferInstanceAs (Decidable (_ ∧ _))

/-- Why a request that does not fit is refused. -/
def refusal (h : Heap) (size : Nat) : HeapError :=
  if size + 8 < 0x10000000000000000 then .exhausted (roundUp size) h.region.available
  else .overflow (size + 8)

theorem refusal_eq (small : size + 8 < 0x10000000000000000) :
    h.refusal size = .exhausted (roundUp size) h.region.available := if_pos small

/-- What there is room for below 2^63 can be rounded up. -/
theorem fits_iff (limited : h.region.limit < 0x8000000000000000) :
    h.Fits size ↔ h.region.cursor + roundUp size ≤ h.region.limit := by
  have above := le_roundUp size
  exact ⟨And.right, fun room => ⟨by omega, room⟩⟩

theorem reserve_eq (size : Nat) (h : Heap) : reserve size h =
    if h.Fits size then .ok (.pointer h.region.cursor) (h.advanced size)
    else .error (h.refusal size) h := by
  unfold reserve Region.reserve? unsigned refusal Fits
  by_cases small : size + 8 < 0x10000000000000000
  · by_cases full : h.region.limit < h.region.cursor + roundUp size
    · simp [small, full]
    · simp [small, full, Nat.le_of_not_lt full, advanced]
  · simp [small]

theorem Sound.toNat_cursor (sound : h.Sound) :
    (Word.pointer h.region.cursor).toNat = h.region.cursor := by
  have bounded := sound.bounded
  have backed := sound.backed
  have small := sound.small
  exact Word.toNat_pointer (by omega)

theorem Sound.advanced (sound : h.Sound) (room : h.region.cursor + roundUp size ≤ h.region.limit) :
    (h.advanced size).Sound := by
  obtain ⟨aligned, start, bounded, backed, small⟩ := sound
  have rounded := roundUp_mod size
  exact ⟨by simp only [Heap.advanced]; omega, by simp only [Heap.advanced]; omega, room, backed,
    small⟩

theorem Grown.spans (grown : Grown h count h') (sound : h.Sound) :
    h'.Spans (.pointer h.region.cursor) count :=
  ⟨sound.toNat_cursor.symm ▸ sound.start, sound.toNat_cursor.symm ▸ sound.aligned,
    Nat.le_of_eq (by rw [sound.toNat_cursor, grown.cursor])⟩

theorem Grown.put (grown : Grown h count h') (aligned : a % 8 = 0) (fresh : h.region.cursor ≤ a)
    (inside : a < h'.region.cursor) : Grown h count (h'.put a w) := by
  refine ⟨grown.sound.put, grown.cursor, grown.limit, capacity_put.trans grown.capacity,
    grown.atoms, fun b part outside => ?_⟩
  have outside : b < h.region.cursor ∨ h'.region.cursor ≤ b := outside
  rw [word_put_other aligned part (by omega)]
  exact grown.kept b part outside

theorem addressOf_pointer (aligned : a % 8 = 0) (start : 8 ≤ a)
    (small : a < 0x10000000000000000) : addressOf (.pointer a) = .ok a := by
  have place : (Word.pointer a).toNat = a := Word.toNat_pointer small
  have address := addressOf_aligned (place.symm ▸ start) (place.symm ▸ aligned)
  rwa [place] at address

theorem store_pointer (aligned : a % 8 = 0) (start : 8 ≤ a) (offset : Nat)
    (small : a + offset < 0x10000000000000000) (w : Word) (h : Heap) :
    store (.pointer a) offset w h = write (a + offset) w h :=
  store_eq (addressOf_pointer aligned start (by omega)) small

theorem load_pointer (aligned : a % 8 = 0) (start : 8 ≤ a) (offset : Nat)
    (small : a + offset < 0x10000000000000000) (h : Heap) :
    h.load (.pointer a) offset = h.read (a + offset) :=
  load_eq (addressOf_pointer aligned start (by omega)) small

/-- Nothing is written beyond the words that there are. -/
theorem write_error (beyond : h.capacity < a + 8) :
    write a w h = .error (.outOfBounds a) h := by
  have outside : ¬ h.hasWord a = true := by
    intro inside
    have below := (hasWord_iff.mp inside).2.2
    omega
  rw [write, if_neg outside]

/-- The first of the words that were just handed out is written. -/
theorem store_advanced (aligned : h.region.cursor % 8 = 0) (start : 8 ≤ h.region.cursor)
    (small : h.region.cursor < 0x10000000000000000) (positive : 0 < size)
    (room : h.region.cursor + roundUp size ≤ h.capacity) :
    store (.pointer h.region.cursor) Layout.map w (h.advanced size) =
      .ok () ((h.advanced size).put h.region.cursor w) := by
  have above := le_roundUp size
  have whole := roundUp_mod size
  have inside : (h.advanced size).hasWord h.region.cursor = true := by
    refine hasWord_iff.mpr ⟨start, aligned, ?_⟩
    change _ ≤ h.capacity
    omega
  exact (store_pointer aligned start Layout.map small _ _).trans (write_eq inside)

theorem Sound.store_advanced (sound : h.Sound) (positive : 0 < size)
    (room : h.region.cursor + roundUp size ≤ h.region.limit) :
    store (.pointer h.region.cursor) Layout.map w (h.advanced size) =
      .ok () ((h.advanced size).put h.region.cursor w) := by
  obtain ⟨aligned, start, bounded, backed, small⟩ := sound
  exact Heap.store_advanced aligned start (by omega) positive (by omega)

theorem roundUp_max (positive : 0 < size) : roundUp (max size Layout.word) = roundUp size := by
  simp only [Layout.word]
  unfold roundUp
  omega

/-- At least one word is reserved, and the word at the cursor is stamped. -/
theorem allocate_reserved (k : Kind) (size : Nat) (h : Heap) : allocate k size h =
    if h.Fits (max size Layout.word) then (do
      store (.pointer h.region.cursor) Layout.map k.canonicalMap
      return .pointer h.region.cursor : HeapM Word) (h.advanced (max size Layout.word))
    else .error (h.refusal (max size Layout.word)) h := by
  have reserved := reserve_eq (max size Layout.word) h
  rw [allocate]
  by_cases fits : h.Fits (max size Layout.word)
  · rw [if_pos fits] at reserved
    rw [if_pos fits, estate_bind_of_ok reserved]
  · rw [if_neg fits] at reserved
    rw [if_neg fits, estate_bind_of_error reserved]

/-- A request of bytes that can be rounded up fails for want of room only. -/
theorem allocate_fitting (k : Kind) (positive : 0 < size) (small : size + 8 < 0x10000000000000000) :
    allocate k size h =
      if h.region.cursor + roundUp size ≤ h.region.limit then (do
        store (.pointer h.region.cursor) Layout.map k.canonicalMap
        return .pointer h.region.cursor : HeapM Word) (h.advanced size)
      else .error (.exhausted (roundUp size) h.region.available) h := by
  have larger : max size Layout.word + 8 < 0x10000000000000000 := by
    simp only [Layout.word]
    omega
  rw [allocate_reserved, refusal_eq larger]
  simp only [Fits, larger, true_and, advanced, roundUp_max positive]

/-- The word at the cursor is stamped, if there is room. -/
theorem allocate_eq (k : Kind) (sound : h.Sound) (positive : 0 < size) : allocate k size h =
    if h.region.limit < h.region.cursor + roundUp size then
      .error (h.refusal (max size Layout.word)) h
    else .ok (.pointer h.region.cursor) ((h.advanced size).put h.region.cursor k.canonicalMap) := by
  rw [allocate_reserved]
  simp only [fits_iff sound.limited, advanced, roundUp_max positive]
  by_cases full : h.region.limit < h.region.cursor + roundUp size
  · rw [if_neg (Nat.not_le.mpr full), if_pos full]
  · rw [if_pos (Nat.le_of_not_lt full), if_neg full]
    exact estate_bind_of_ok (sound.store_advanced positive (Nat.le_of_not_lt full))

/-- Allocation of one or more words either has no room, or stamps the words at the cursor. -/
theorem allocate_cases (k : Kind) (sound : h.Sound) (words : size = 8 * (n + 1)) :
    (h.region.limit < h.region.cursor + size ∧ allocate k size h = .error (h.refusal size) h) ∨
    ∃ h', allocate k size h = .ok (.pointer h.region.cursor) h' ∧ Grown h (n + 1) h' ∧
      h'.word h.region.cursor = k.canonicalMap := by
  have rounded : roundUp size = size := roundUp_of_mod (by omega)
  have whole : Layout.word ≤ size := words ▸ Nat.le_mul_of_pos_right 8 n.succ_pos
  have done := allocate_eq k sound (by omega : 0 < size)
  rw [rounded, Nat.max_eq_left whole] at done
  by_cases full : h.region.limit < h.region.cursor + size
  · rw [if_pos full] at done
    exact .inl ⟨full, done⟩
  · right
    rw [if_neg full] at done
    have grown : Grown h (n + 1) (h.advanced size) := by
      refine ⟨sound.advanced (by omega), ?_, rfl, rfl, rfl, fun _ _ _ => rfl⟩
      simp only [advanced, rounded]
      omega
    have inside := (grown.spans sound).hasWord (d := 0) grown.sound rfl (by omega)
    rw [sound.toNat_cursor] at inside
    refine ⟨_, done, grown.put sound.aligned (Nat.le_refl _) ?_, word_put_same inside⟩
    rw [grown.cursor]
    omega

theorem fillWords_ok (aligned : a % 8 = 0) (start : 8 ≤ a) (inside : a + 8 * n ≤ h.capacity) :
    ∃ h', fillWords w n a h = .ok () h' ∧ h'.region = h.region ∧ h'.capacity = h.capacity ∧
      h'.atoms = h.atoms ∧
      ∀ b, b % 8 = 0 → h'.word b = if a ≤ b ∧ b < a + 8 * n then w else h.word b := by
  induction n generalizing a h with
  | zero =>
    refine ⟨h, rfl, rfl, rfl, rfl, fun b _ => ?_⟩
    rw [if_neg (by omega)]
  | succ n ih =>
    have head : h.hasWord a = true := hasWord_iff.mpr ⟨start, aligned, by omega⟩
    obtain ⟨h', rest, region, capacity, atoms, words⟩ := ih (a := a + 8) (h := h.put a w)
      (by omega) (by omega) (by rw [capacity_put]; omega)
    refine ⟨h', ?_, region, capacity.trans capacity_put, atoms, fun b part => ?_⟩
    · rw [fillWords, estate_bind_of_ok (write_eq head), rest]
    · rw [words b part]
      by_cases first : b = a
      · subst first
        rw [if_neg (by omega), if_pos (by omega), word_put_same head]
      · rw [word_put_other aligned part first]
        congr 1
        apply propext
        omega

/-- Of the words that were handed out before, none has changed. -/
structure Spares (h h' : Heap) : Prop where
  cursor : h.region.cursor ≤ h'.region.cursor
  words : ∀ a, a % 8 = 0 → a < h.region.cursor → h'.word a = h.word a

theorem Spares.refl (h : Heap) : Spares h h := ⟨Nat.le_refl _, fun _ _ _ => rfl⟩

theorem Spares.trans (first : Spares h h') (second : Spares h' h'') : Spares h h'' := by
  refine ⟨Nat.le_trans first.cursor second.cursor, fun a aligned below => ?_⟩
  rw [second.words a aligned (Nat.lt_of_lt_of_le below first.cursor), first.words a aligned below]

theorem Spares.put (spares : Spares h h') (aligned : a % 8 = 0) (beyond : h.region.cursor ≤ a) :
    Spares h (h'.put a w) := by
  refine ⟨spares.cursor, fun b part below => ?_⟩
  rw [word_put_other aligned part (by omega), spares.words b part below]

theorem Grown.spares (grown : Grown h count h') : Spares h h' := by
  have cursor := grown.cursor
  exact ⟨by omega, fun a aligned below => grown.kept a aligned (.inl below)⟩

/-- A field of `slots` holes at the old cursor. -/
structure FreshField (h : Heap) (slots : Nat) (h' : Heap) : Prop where
  grown : Grown h (slots + 2) h'
  map : h'.word h.region.cursor = Kind.field.canonicalMap
  length : (h'.word (h.region.cursor + Layout.Field.length)).int? = some (slots : Int)
  holes : ∀ i < slots, h'.word (h.region.cursor + Layout.Field.data + 8 * i) = .hole

/-- Makes a field of the `count` words from an address on: what is left of them after the header
are holes. -/
def lay (a count : Nat) (length : Word) : HeapM Unit := do
  store (.pointer a) Layout.Field.length length
  fill (a + Layout.Field.data) (a + 8 * count) .hole

/-- The header is written even if there are fewer words than it takes. -/
theorem lay_ok (count : Nat) (aligned : a % 8 = 0) (start : 8 ≤ a)
    (small : a + 16 < 0x10000000000000000) (room : a + 8 * max count 2 ≤ h.capacity) :
    ∃ h', lay a count v h = .ok () h' ∧ h'.region = h.region ∧ h'.capacity = h.capacity ∧
      h'.atoms = h.atoms ∧ ∀ b, b % 8 = 0 → h'.word b =
        if b = a + Layout.Field.length then v
        else if a + Layout.Field.data ≤ b ∧ b < a + 8 * count then .hole else h.word b := by
  have header : Layout.Field.length = 8 := rfl
  have data : Layout.Field.data = 16 := rfl
  have inside : h.hasWord (a + 8) = true := hasWord_iff.mpr ⟨by omega, by omega, by omega⟩
  have stored : store (.pointer a) Layout.Field.length v h = .ok () (h.put (a + 8) v) :=
    (store_pointer aligned start Layout.Field.length (by omega) _ _).trans (write_eq inside)
  have rest : (a + 8 * count - (a + Layout.Field.data) + 7) / 8 = count - 2 := by omega
  obtain ⟨h', filled, region, capacity, atoms, words⟩ := fillWords_ok (h := h.put (a + 8) v)
    (a := a + Layout.Field.data) (n := count - 2) (w := .hole) (by omega) (by omega)
    (by rw [capacity_put]; omega)
  refine ⟨h', ?_, region, capacity.trans capacity_put, atoms, fun b part => ?_⟩
  · rw [lay, estate_bind_of_ok stored, Heap.fill, rest, filled]
  · rw [words b part]
    by_cases length : b = a + Layout.Field.length
    · subst length
      rw [if_neg (by omega), if_pos rfl, header, word_put_same inside]
    · rw [if_neg length, word_put_other (by omega) part (by omega)]
      congr 1
      apply propext
      omega

/-- Words that were just handed out have room for a header, and for holes in what is left. -/
theorem Grown.laid (grown : Grown h count h') (sound : h.Sound) (header : 2 ≤ count) (v : Word) :
    ∃ h'', lay h.region.cursor count v h' = .ok () h'' ∧ Grown h count h'' ∧
      h''.word h.region.cursor = h'.word h.region.cursor ∧
      h''.word (h.region.cursor + Layout.Field.length) = v ∧
      ∀ i, i + 2 < count → h''.word (h.region.cursor + Layout.Field.data + 8 * i) = .hole := by
  have cursor := grown.cursor
  have aligned := sound.aligned
  have start := sound.start
  obtain ⟨aligned', start', bounded, backed, small⟩ := grown.sound
  have length : Layout.Field.length = 8 := rfl
  have data : Layout.Field.data = 16 := rfl
  obtain ⟨h'', laid, region, capacity, atoms, words⟩ :=
    lay_ok (h := h') (v := v) count aligned start (by omega) (by omega)
  refine ⟨h'', laid, ⟨?_, region ▸ cursor, region ▸ grown.limit, capacity.trans grown.capacity,
    atoms.trans grown.atoms, fun b part outside => ?_⟩, ?_, ?_, fun i inside => ?_⟩
  · rw [← region] at aligned' start' bounded backed
    exact ⟨aligned', start', bounded, capacity.symm ▸ backed, capacity.symm ▸ small⟩
  · rw [region] at outside
    rw [words b part, if_neg (by omega), if_neg (by omega)]
    exact grown.kept b part outside
  · rw [words _ aligned, if_neg (by omega), if_neg (by omega)]
  · rw [words _ (by omega), if_pos rfl]
  · rw [words _ (by omega), if_neg (by omega), if_pos (by omega)]

/-- The heap allocates a field by stamping the words at the cursor and laying it out there. -/
theorem Sound.allocateField (sound : h.Sound)
    (room : h.region.cursor + Layout.Field.size slots ≤ h.region.limit)
    (laid : lay h.region.cursor (slots + 2) (.int slots)
      ((h.advanced (8 * (slots + 2))).put h.region.cursor Kind.field.canonicalMap) = .ok () h') :
    allocateField slots h = .ok (.pointer h.region.cursor) h' := by
  obtain ⟨_, h₁, stored, filled⟩ := estate_bind_ok.mp laid
  have bounded := sound.bounded
  have backed := sound.backed
  have small := sound.small
  have bytes : Layout.Field.size slots = 8 * (slots + 2) := by
    simp only [Layout.Field.size, Layout.Field.data, Layout.word]
    omega
  have stop : h.region.cursor + Layout.Field.data + slots * Layout.word =
      h.region.cursor + 8 * (slots + 2) := by
    simp only [Layout.Field.data, Layout.word]
    omega
  have length : Word.ofInt? slots = some (.int slots) := if_pos (Word.fits_natCast (by omega))
  have made := allocate_eq .field sound (by omega : 0 < 8 * (slots + 2))
  rw [roundUp_of_mod (by omega), if_neg (by omega)] at made
  have address := addressOf_pointer sound.aligned sound.start (by omega)
  rw [Heap.allocateField, bytes, estate_bind_of_ok made]
  simp only [length]
  rw [estate_bind_of_ok stored, estate_bind_of_ok (query_ok address), stop,
    estate_bind_of_ok filled]
  rfl

theorem allocateField_cases (slots : Nat) (sound : h.Sound) :
    (h.region.limit < h.region.cursor + Layout.Field.size slots ∧
      allocateField slots h = .error (h.refusal (Layout.Field.size slots)) h) ∨
    ∃ h', allocateField slots h = .ok (.pointer h.region.cursor) h' ∧ FreshField h slots h' := by
  have words : Layout.Field.size slots = 8 * (slots + 1 + 1) := by
    simp only [Layout.Field.size, Layout.Field.data, Layout.word]
    omega
  obtain ⟨full, failed⟩ | ⟨h₁, made, grown, map⟩ := allocate_cases .field sound words
  · left
    exact ⟨full, estate_bind_of_error failed⟩
  · right
    have room : h.region.cursor + Layout.Field.size slots ≤ h.region.limit := by
      rw [words, ← grown.cursor, ← grown.limit]
      exact grown.sound.bounded
    have stamped := allocate_eq .field sound (by omega : 0 < Layout.Field.size slots)
    rw [roundUp_of_mod (by omega), if_neg (by omega), words] at stamped
    obtain ⟨_, rfl⟩ := EStateM.Result.ok.inj ((words ▸ made).symm.trans stamped)
    obtain ⟨h', laid, grown, first, length, holes⟩ :=
      grown.laid sound (by omega) (.int slots)
    have bounded := grown.sound.bounded
    have backed := grown.sound.backed
    have small := grown.sound.small
    have cursor := grown.cursor
    refine ⟨h', sound.allocateField room laid, grown, first.trans map, ?_, fun i inside => ?_⟩
    · rw [length, Word.int?_natCast (by omega)]
    · exact holes i (by omega)

end FastPath.Heap
