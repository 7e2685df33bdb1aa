import FastPath.Proofs.Heap.Reservation
import FastPath.Proofs.Outcome

/-! What becomes of a heap when words are handed out and only these are written: a list of words is
put behind those that were handed out before. -/

namespace FastPath.Heap

/-- The heap `h'` is `h` with the words put behind its cursor. -/
structure Appends (h : Heap) (ws : List Word) (h' : Heap) : Prop where
  start : 8 ≤ h.region.cursor
  sound : h'.Sound
  cursor : h'.region.cursor = h.region.cursor + 8 * ws.length
  limit : h'.region.limit = h.region.limit
  capacity : h'.capacity = h.capacity
  atoms : h.atoms <+: h'.atoms
  kept : ∀ a, a % 8 = 0 → a < h.region.cursor → h'.word a = h.word a
  holds : ∀ i w, ws[i]? = some w → h'.word (h.region.cursor + 8 * i) = w

variable {h h' h'' : Heap} {ws ws' front mid rest : List Word} {i j d n count : Nat} {w : Word}

theorem Grown.appends (grown : Grown h ws.length h') (sound : h.Sound)
    (holds : ∀ i w, ws[i]? = some w → h'.word (h.region.cursor + 8 * i) = w) : Appends h ws h' :=
  ⟨sound.start, grown.sound, grown.cursor, grown.limit, grown.capacity,
    grown.atoms ▸ List.prefix_rfl, grown.spares.words, holds⟩

/-- Of words that were handed out and stamped only the first one is known. -/
theorem Grown.stamped (grown : Grown h (n + 1) h') (sound : h.Sound)
    (map : h'.word h.region.cursor = w) : ∃ ws, ws.length = n ∧ Appends h (w :: ws) h' := by
  let ws := (List.range n).map fun i => h'.word (h.region.cursor + 8 * (i + 1))
  have length : ws.length = n := by simp [ws]
  refine ⟨ws, length, Grown.appends (by rwa [List.length_cons, length]) sound fun i v held => ?_⟩
  cases i with
  | zero =>
    cases held
    exact map
  | succ i =>
    have held : ws[i]? = some v := held
    obtain ⟨_, same⟩ := List.getElem?_eq_some_iff.mp held
    simpa only [ws, List.getElem_map, List.getElem_range] using same

/-- The words of a field of holes. -/
def freshField (slots : Nat) : List Word :=
  Kind.field.canonicalMap :: .int slots :: .replicate slots .hole

@[simp] theorem freshField_length (slots : Nat) : (freshField slots).length = slots + 2 := by
  simp [freshField]

theorem FreshField.appends {slots : Nat} (fresh : FreshField h slots h') (sound : h.Sound) :
    Appends h (freshField slots) h' := by
  refine Grown.appends (by simpa using fresh.grown) sound fun i w held => ?_
  match i, held with
  | 0, rfl => exact fresh.map
  | 1, rfl => exact Word.int_of_int? fresh.length
  | i + 2, held =>
    have held : (List.replicate slots Word.hole)[i]? = some w := held
    obtain ⟨inside, _⟩ := List.getElem?_eq_some_iff.mp held
    rw [List.length_replicate] at inside
    have hole := fresh.holes i inside
    rw [Nat.add_assoc] at hole
    rw [List.eq_of_mem_replicate (List.mem_of_getElem? held), ← hole]
    congr 1
    simp only [Layout.Field.data]
    omega

/-- A part of a list of words stands behind those before it. -/
theorem getElem?_part (held : mid[d]? = some w) :
    (front ++ mid ++ rest)[front.length + d]? = some w := by
  rw [List.append_assoc, List.getElem?_append_right (Nat.le_add_right _ _),
    Nat.add_sub_cancel_left, List.getElem?_append_left (List.getElem?_eq_some_iff.mp held).1, held]

/-- A word of a part is written in that part. -/
theorem set_part (inside : d < mid.length) :
    (front ++ mid ++ rest).set (front.length + d) w = front ++ mid.set d w ++ rest := by
  rw [List.append_assoc, List.set_append_right _ _ (Nat.le_add_right _ _),
    Nat.add_sub_cancel_left, List.set_append_left _ _ inside, List.append_assoc]

namespace Appends

theorem refl (sound : h.Sound) : Appends h [] h :=
  ⟨sound.start, sound, rfl, rfl, rfl, List.prefix_rfl, fun _ _ _ => rfl, nofun⟩

variable (appends : Appends h ws h')

include appends

theorem spares : Spares h h' := ⟨by have := appends.cursor; omega, appends.kept⟩

theorem aligned : h.region.cursor % 8 = 0 := by
  have cursor := appends.cursor
  have aligned := appends.sound.aligned
  omega

theorem trans (second : Appends h' ws' h'') : Appends h (ws ++ ws') h'' := by
  have cursor := appends.cursor
  have aligned := appends.aligned
  refine ⟨appends.start, second.sound, ?_, second.limit.trans appends.limit,
    second.capacity.trans appends.capacity, appends.atoms.trans second.atoms,
    (appends.spares.trans second.spares).words, fun i w held => ?_⟩
  · rw [second.cursor, cursor, List.length_append]
    omega
  · by_cases earlier : i < ws.length
    · rw [List.getElem?_append_left earlier] at held
      rw [second.kept _ (by omega) (by omega), appends.holds i w held]
    · rw [List.getElem?_append_right (Nat.le_of_not_lt earlier)] at held
      rw [← second.holds _ w held, cursor]
      congr 1
      omega

theorem small : h.region.cursor + 8 * ws.length < 0x8000000000000000 := by
  have cursor := appends.cursor
  have bounded := appends.sound.bounded
  have backed := appends.sound.backed
  have small := appends.sound.small
  omega

theorem toNat_place (inside : j ≤ ws.length) :
    (Word.pointer (h.region.cursor + 8 * j)).toNat = h.region.cursor + 8 * j := by
  have small := appends.small
  exact Word.toNat_pointer (by omega)

/-- The words from a place on are those of an entity. -/
theorem spans (inside : j + n ≤ ws.length) :
    h'.Spans (.pointer (h.region.cursor + 8 * j)) n := by
  have start := appends.start
  have aligned := appends.aligned
  have cursor := appends.cursor
  have place := appends.toNat_place (j := j) (by omega)
  exact ⟨by omega, by omega, by omega⟩

theorem hasWord (inside : i < ws.length) : h'.hasWord (h.region.cursor + 8 * i) = true := by
  have spans := appends.spans (j := i) (n := 1) inside
  have word := spans.hasWord (d := 0) appends.sound rfl (by decide)
  rwa [appends.toNat_place (Nat.le_of_lt inside)] at word

theorem put (inside : i < ws.length) :
    Appends h (ws.set i w) (h'.put (h.region.cursor + 8 * i) w) := by
  have aligned := appends.aligned
  have cursor := appends.cursor
  refine ⟨appends.start, appends.sound.put, by rw [List.length_set]; exact cursor, appends.limit,
    capacity_put.trans appends.capacity, appends.atoms, fun a part below => ?_,
    fun k v held => ?_⟩
  · rw [word_put_other (by omega) part (by omega), appends.kept a part below]
  · by_cases same : i = k
    · subst same
      rw [List.getElem?_set_self inside] at held
      rw [word_put_same (appends.hasWord inside), Option.some.inj held]
    · rw [List.getElem?_set_ne same] at held
      rw [word_put_other (by omega) (by omega) (by omega), appends.holds k v held]

theorem load (held : ws[j + d]? = some w) :
    h'.load (.pointer (h.region.cursor + 8 * j)) (8 * d) = .ok w := by
  obtain ⟨inside, _⟩ := List.getElem?_eq_some_iff.mp held
  have spans := appends.spans (j := j) (n := d + 1) (by omega)
  rw [spans.load appends.sound (by omega) (by omega), appends.toNat_place (by omega),
    Nat.add_assoc, ← Nat.mul_add, appends.holds _ w held]

theorem store (inside : j + d < ws.length) :
    Heap.store (.pointer (h.region.cursor + 8 * j)) (8 * d) w h' =
      .ok () (h'.put (h.region.cursor + 8 * (j + d)) w) := by
  have spans := appends.spans (j := j) (n := d + 1) (by omega)
  have stored := spans.store (v := w) appends.sound (d := 8 * d) (by omega) (by omega)
  rwa [appends.toNat_place (by omega), Nat.add_assoc, ← Nat.mul_add] at stored

/-- Some of the words are filled. -/
theorem fill (split : ws = front ++ mid ++ rest) :
    ∃ h'', Heap.fill (h.region.cursor + 8 * front.length)
        (h.region.cursor + 8 * (front.length + mid.length)) w h' = .ok () h'' ∧
      Appends h (front ++ List.replicate mid.length w ++ rest) h'' ∧ h''.atoms = h'.atoms ∧
      ∀ c, c % 8 = 0 → c < h.region.cursor + 8 * front.length ∨
          h.region.cursor + 8 * (front.length + mid.length) ≤ c → h''.word c = h'.word c := by
  have aligned := appends.aligned
  have start := appends.start
  have cursor := appends.cursor
  obtain ⟨aligned', start', bounded, backed, small⟩ := appends.sound
  have holds := appends.holds
  have whole : ws.length = front.length + mid.length + rest.length := by
    simp [split, Nat.add_assoc]
  obtain ⟨h'', filled, region, capacity, atoms, words⟩ := fillWords_ok (h := h') (w := w)
    (a := h.region.cursor + 8 * front.length) (n := mid.length) (by omega) (by omega) (by omega)
  refine ⟨h'', ?_, ⟨start, ?_, ?_, region ▸ appends.limit, capacity.trans appends.capacity,
    atoms ▸ appends.atoms, fun a part below => ?_, fun i v held => ?_⟩, atoms,
    fun c part outside => ?_⟩
  · rw [Heap.fill, (by omega : (h.region.cursor + 8 * (front.length + mid.length) -
      (h.region.cursor + 8 * front.length) + 7) / 8 = mid.length), filled]
  · exact ⟨region ▸ aligned', region ▸ start', region ▸ bounded,
      by rw [region, capacity]; exact backed, capacity ▸ small⟩
  · simp only [List.length_append, List.length_replicate]
    rw [region, cursor, whole]
  · rw [words a part, if_neg (by omega), appends.kept a part below]
  · rw [words _ (by omega)]
    rw [List.append_assoc] at held
    rw [split, List.append_assoc] at holds
    by_cases before : i < front.length
    · rw [List.getElem?_append_left before] at held
      rw [if_neg (by omega)]
      exact holds i v (by rw [List.getElem?_append_left before, held])
    rw [List.getElem?_append_right (Nat.le_of_not_lt before)] at held
    by_cases inside : i < front.length + mid.length
    · rw [List.getElem?_append_left (by rw [List.length_replicate]; omega)] at held
      rw [if_pos (by omega)]
      exact (List.eq_of_mem_replicate (List.mem_of_getElem? held)).symm
    · rw [List.getElem?_append_right (by rw [List.length_replicate]; omega),
        List.length_replicate] at held
      rw [if_neg (by omega)]
      refine holds i v ?_
      rw [List.getElem?_append_right (by omega), List.getElem?_append_right (by omega), held]
  · rw [words c part, if_neg (by omega)]

end Appends

/-- Sizes are rounded up to whole words, of which there is one at least. -/
theorem Sound.allocate (sound : h.Sound) (k : Kind) (size : Nat) : Yields (allocate k size) h
    (fun w h' => w = .pointer h.region.cursor ∧ h'.atoms = h.atoms ∧
      ∃ ws, ws.length + 1 = roundUp (max size Layout.word) / 8 ∧
        Appends h (k.canonicalMap :: ws) h') fun _ h' => h' = h := by
  have whole := roundUp_mod (max size Layout.word)
  have some_ : Layout.word ≤ roundUp (max size Layout.word) :=
    Nat.le_trans (Nat.le_max_right _ _) (le_roundUp _)
  have word : Layout.word = 8 := rfl
  have same : roundUp (roundUp (max size Layout.word)) = roundUp (max size Layout.word) :=
    roundUp_of_mod whole
  have reserved := allocate_reserved k size h
  have rounded := allocate_reserved k (roundUp (max size Layout.word)) h
  simp only [fits_iff sound.limited, Nat.max_eq_left some_, Heap.advanced, same]
    at reserved rounded
  by_cases room : h.region.cursor + roundUp (max size Layout.word) ≤ h.region.limit
  · rw [if_pos room] at reserved rounded
    apply Yields.congr (reserved.trans rounded.symm)
    obtain ⟨n, words⟩ : ∃ n, roundUp (max size Layout.word) = 8 * (n + 1) :=
      ⟨roundUp (max size Layout.word) / 8 - 1, by omega⟩
    obtain ⟨full, _⟩ | ⟨h', made, grown, map⟩ := allocate_cases k sound words
    · exact absurd room (Nat.not_le.mpr full)
    · obtain ⟨ws, length, appends⟩ := grown.stamped sound map
      exact .of_ok made ⟨rfl, grown.atoms, ws, by omega, appends⟩
  · rw [if_neg room] at reserved
    exact .of_error reserved rfl

/-- An accessor pair is put behind what there is, or there is no room for it. -/
theorem Sound.pair (sound : h.Sound) : Yields allocatePair h
    (fun w h' => w = .pointer h.region.cursor ∧ h'.atoms = h.atoms ∧
      Appends h [Kind.accessPair.canonicalMap, .hole, .hole, .int Layout.Pair.fresh] h')
    fun _ h' => h' = h := by
  obtain ⟨_, failed⟩ | ⟨h₁, made, grown, map⟩ :=
    allocate_cases .accessPair sound (show Layout.Pair.size = 8 * (3 + 1) from rfl)
  · exact .of_error (estate_bind_of_error failed) rfl
  obtain ⟨ws, length, appends⟩ := grown.stamped sound map
  obtain ⟨x, y, z, rfl⟩ : ∃ x y z, ws = [x, y, z] := by
    match ws, length with
    | [x, y, z], _ => exact ⟨x, y, z, rfl⟩
  apply Yields.step made
  apply Yields.step (appends.store (j := 0) (d := 1) (w := .hole) (by simp))
  have appends := appends.put (i := 1) (w := .hole) (by simp)
  apply Yields.step (appends.store (j := 0) (d := 2) (w := .hole) (by simp))
  have appends := appends.put (i := 2) (w := .hole) (by simp)
  apply Yields.step (appends.store (j := 0) (d := 3) (w := .int Layout.Pair.fresh) (by simp))
  exact ⟨rfl, grown.atoms, appends.put (i := 3) (w := .int Layout.Pair.fresh) (by simp)⟩

/-- A known name leads to its atom. A new one is numbered, and its atom put behind what there is,
or there is no room for it, or no number. -/
theorem Sound.interns (sound : h.Sound) (name : String) : Yields (atom name) h
    (fun w h' => h.atoms.lookup name = some w ∧ h' = h ∨
      h.atoms.lookup name = none ∧ h.atoms.length < 0x80000000 ∧ w = .pointer h.region.cursor ∧
        Appends h [Kind.atom.canonicalMap, .int h.atoms.length] h' ∧
        h'.atoms = h.atoms ++ [(name, w)])
    fun _ h' => h.atoms.lookup name = none ∧ h'.atoms = h.atoms ∧
      (h' = h ∧ h.region.limit < h.region.cursor + Layout.Atom.size ∨
        0x80000000 ≤ h.atoms.length ∧ ∃ x, Appends h [Kind.atom.canonicalMap, x] h') := by
  have read : (get : HeapM Heap) h = .ok h h := rfl
  apply Yields.step read
  dsimp only
  cases known : h.atoms.lookup name with
  | some w => exact .pure (.inl ⟨rfl, rfl⟩)
  | none =>
    obtain ⟨full, failed⟩ | ⟨h₁, made, grown, map⟩ :=
      allocate_cases .atom sound (show Layout.Atom.size = 8 * (1 + 1) from rfl)
    · exact .of_error (estate_bind_of_error failed) ⟨rfl, rfl, .inl ⟨rfl, full⟩⟩
    apply Yields.step made
    obtain ⟨ws, length, appends⟩ := grown.stamped sound map
    obtain ⟨x, rfl⟩ := List.length_eq_one_iff.mp length
    by_cases few : h.atoms.length < 0x80000000
    · rw [if_pos few]
      apply Yields.step (appends.store (j := 0) (d := 1) (w := .int h.atoms.length) (by simp))
      have appends := appends.put (i := 1) (w := .int h.atoms.length) (by simp)
      have atoms : (h₁.put (h.region.cursor + 8 * 1) (.int h.atoms.length)).atoms = h.atoms :=
        grown.atoms
      refine .inr ⟨rfl, few, rfl, ⟨appends.start, ?_, appends.cursor, appends.limit,
        appends.capacity, ?_, appends.kept, appends.holds⟩, congrArg (· ++ _) atoms⟩
      · obtain ⟨aligned, start, bounded, backed, small⟩ := appends.sound
        exact ⟨aligned, start, bounded, backed, small⟩
      · exact appends.atoms.trans (List.prefix_append _ _)
    · rw [if_neg few]
      exact .throw ⟨rfl, grown.atoms, .inr ⟨Nat.le_of_not_lt few, x, appends⟩⟩

end FastPath.Heap
