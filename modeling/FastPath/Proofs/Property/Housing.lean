import FastPath.Proofs.Heap.Typing
import FastPath.Proofs.Property.Claim

/-! Property storage in typed heaps. Objects and functions have their storage in a field, and
what the property operations do to that field keeps the heap typed, as long as accessor pairs go
to functions only. -/

namespace FastPath

/-- Objects have their properties in an open field and functions in a guarded one. -/
def Inventory.Housed (Γ : Inventory shared) (o : Word) : Bool → Prop
  | false => Γ o.toNat = some .object
  | true => ∃ slots, Γ o.toNat = some (.function slots)

theorem Inventory.Housed.mono {Γ Γ' : Inventory shared} (housed : Γ.Housed o guarded)
    (stays : Γ.Extends Γ') : Γ'.Housed o guarded := by
  cases guarded with
  | false => exact stays _ _ housed
  | true =>
    obtain ⟨slots, found⟩ := housed
    exact ⟨slots, stays _ _ found⟩

namespace Heap

variable {strict shared guarded : Bool} {Γ Γ' : Inventory shared} {h h' : Heap} {a b i j n : Nat}
  {o k v w : Word}

/-- The flags of objects and of functions. -/
def objectFlags (guarded : Bool) : Int :=
  if guarded then Layout.Object.access else Layout.Object.plain

theorem housed_shape (housed : Γ.Housed o guarded) : ∃ x, Γ o.toNat = some x ∧ 3 ≤ x.words ∧
    x.finished = true ∧ x.kind.objectLike = true ∧ x.frozen 2 = false ∧
    x.content 1 = .exactly (.int (objectFlags guarded)) ∧ x.content 2 = .storage guarded ∧
    ∀ slots, x ≠ .field slots true := by
  cases guarded with
  | false =>
    exact ⟨.object, housed, by decide, rfl, rfl, rfl, rfl, rfl, fun _ same => by cases same⟩
  | true =>
    obtain ⟨slots, found⟩ := housed
    have room : 3 ≤ (Shape.function slots).words := by simp only [Shape.words]; omega
    exact ⟨.function slots, found, room, rfl, rfl, rfl, rfl, rfl, fun _ same => by cases same⟩

variable (typed : Typed strict Γ h)

include typed

theorem Typed.length_int (field : Γ a = some (.field n guarded)) :
    (h.word (a + Layout.Field.length)).int? = some (n : Int) := by
  have length : h.word (a + Layout.Field.length) = .int n :=
    typed.holds field 1 (by simp only [Shape.words]; omega)
  obtain ⟨_, _, _, fits⟩ := typed.inside field
  have bounded := typed.sound.bounded
  have backed := typed.sound.backed
  have small := typed.sound.small
  rw [length]
  simp only [Shape.words] at fits
  exact Word.int?_natCast (by omega)

theorem Typed.slots_eq (field : Γ (h.storageOf o).toNat = some (.field n guarded)) :
    h.slots o = n := by
  rw [Heap.slots, typed.length_int field]
  rfl

theorem Typed.storage (housed : Γ.Housed o guarded) :
    Γ (h.storageOf o).toNat = some (.field (h.slots o) guarded) := by
  obtain ⟨x, found, room, _, _, _, _, storage, _⟩ := housed_shape housed
  have accepts := typed.holds found 2 (by omega)
  rw [storage] at accepts
  obtain ⟨slots, field⟩ : ∃ slots, Γ (h.storageOf o).toNat = some (.field slots guarded) := accepts
  rwa [typed.slots_eq field]

theorem Typed.flags (housed : Γ.Housed o guarded) :
    h.word (o.toNat + Layout.Object.flags) = .int (objectFlags guarded) := by
  obtain ⟨x, found, room, _, _, _, flags, _⟩ := housed_shape housed
  have accepts := typed.holds found 1 (by omega)
  rw [flags] at accepts
  exact accepts

theorem Typed.flagged (housed : Γ.Housed o guarded) (mask : Int) :
    h.flagged o mask = Bits.overlap (objectFlags guarded) mask := by
  rw [Heap.flagged, typed.flags housed]
  cases guarded <;> rfl

/-- The object has its properties in a field that the inventory knows as such. -/
structure Stored (Γ : Inventory shared) (h : Heap) (o : Word) (guarded : Bool) : Prop where
  backed : h.Backed o
  field : Γ (h.storageOf o).toNat = some (.field (h.slots o) guarded)

theorem Typed.stored_at {x : Shape} (found : Γ o.toNat = some x) (room : 3 ≤ x.words)
    (object : h.isObjectLike o = true)
    (flags : ∃ f, (h.word (o.toNat + Layout.Object.flags)).int? = some f)
    (field : Γ (h.storageOf o).toNat = some (.field n guarded)) (other : x ≠ .field n guarded) :
    Stored Γ h o guarded := by
  obtain rfl := typed.slots_eq field
  refine ⟨⟨(typed.spans found).mono room, object, flags, typed.kind field rfl,
    typed.length_int field, typed.spans field, ?_⟩, field⟩
  have apart : o.toNat ≠ (h.storageOf o).toNat := by
    intro same
    rw [same] at found
    exact other (Option.some.inj (found.symm.trans field))
  rcases Nat.lt_or_gt_of_ne apart with before | behind
  · have beyond := typed.apart found field before
    omega
  · exact .inr (typed.apart field found behind)

theorem Typed.stored (housed : Γ.Housed o guarded) : Stored Γ h o guarded := by
  have flags := typed.flags housed
  have field := typed.storage housed
  obtain ⟨x, found, room, finished, objectLike, _⟩ := housed_shape housed
  refine typed.stored_at found room ?_ ⟨objectFlags guarded, ?_⟩ field ?_
  · rw [isObjectLike, typed.kind found finished]
    exact objectLike
  · rw [flags]
    cases guarded <;> rfl
  · rintro rfl
    cases objectLike

theorem Typed.backed (housed : Γ.Housed o guarded) : h.Backed o := (typed.stored housed).backed

omit typed in
theorem Stored.rewritten (stored : Stored Γ h o guarded) (rewritten : Rewritten h o i k v h') :
    Stored Γ h' o guarded :=
  ⟨rewritten.backed, by rw [rewritten.storage, rewritten.slots]; exact stored.field⟩

theorem Typed.no_dense (housed : Γ.Housed o guarded) :
    h.flagged o Layout.Object.dense = false := by
  rw [typed.flagged housed]
  cases guarded <;> rfl

theorem Typed.access (housed : Γ.Housed o guarded) :
    h.flagged o Layout.Object.access = guarded := by
  rw [typed.flagged housed]
  cases guarded <;> rfl

/-- Among the values only objects and functions have properties. -/
theorem Typed.objectLike (value : Γ.Value w) (object : h.isObjectLike w = true) :
    ∃ guarded, Γ.Housed w guarded := by
  rcases value with int | ⟨x, found, handled⟩
  · rw [isObjectLike, kind?_int int] at object
    cases object
  · rw [isObjectLike, typed.kind found (Shape.finished_of_handled handled)] at object
    cases x with
    | object => exact ⟨false, found⟩
    | function slots => exact ⟨true, slots, found⟩
    | draft => cases handled
    | _ => cases object

theorem Typed.isPair (value : Γ.Value w) :
    h.isPair w = true ↔ Γ w.toNat = some .pair ∨ Γ w.toNat = some .blank := by
  rcases value with int | ⟨x, found, handled⟩
  · rw [isPair_int int]
    constructor
    · nofun
    · rintro (found | found)
      all_goals
        rw [Word.isInt_aligned (typed.inside found).2.1] at int
        cases int
  · rw [Heap.isPair, typed.kind found (Shape.finished_of_handled handled), found]
    cases x with
    | draft => cases handled
    | _ => simp [Shape.kind]

omit typed in
/-- What may stand in a slot does not depend on the field. -/
theorem slotContent_moves (accepts : (Shape.slotContent guarded j).Accepts Γ a w) :
    (Shape.slotContent guarded j).Accepts Γ b w := by
  unfold Shape.slotContent at *
  split at accepts
  next both =>
    rw [if_pos both]
    exact accepts
  next other =>
    rw [if_neg other]
    exact accepts

/-- A slot of a field is overwritten. In a guarded field an accessor pair needs its name, be it
that the pair is written or the name. -/
theorem Typed.put_slot (field : Γ a = some (.field n guarded)) (bound : j < n)
    (accepts : (Shape.slotContent guarded j).Accepts Γ a w)
    (paired : strict = true → guarded = true → ∀ i, j = i * Layout.Item.words + Layout.Item.value →
      Γ w.toNat = some .pair →
      h.atoms.lookup "prototype" = some (h.word (a + itemOffset i Layout.Item.key)))
    (renamed : strict = true → guarded = true → ∀ i, j = i * Layout.Item.words + Layout.Item.key →
      Γ (h.word (a + itemOffset i Layout.Item.value)).toNat = some .pair →
      h.atoms.lookup "prototype" = some w) :
    Typed strict Γ (h.put (a + slotOffset j) w) := by
  rw [slotOffset_eq]
  have inside : j + 2 < (Shape.field n guarded).words := by simp only [Shape.words]; omega
  refine typed.put field inside accepts fun strict => ?_
  intro b slots found i room
  obtain ⟨value, key, here⟩ := item_places room
  have named := typed.named strict b slots found i room
  rw [value, key] at named ⊢
  rw [typed.word_put field found inside here, typed.word_put field found inside
    (by simp only [Shape.words]; omega)]
  intro pair
  by_cases same : b = a
  · subst same
    cases field.symm.trans found
    have paired := paired strict rfl i
    have renamed := renamed strict rfl i
    rw [key] at paired
    rw [value] at renamed
    simp only [Layout.Item.words, Layout.Item.value, Layout.Item.key] at paired renamed
    by_cases first : j = i * 3 + 1
    · rw [if_pos ⟨rfl, by omega⟩] at pair
      rw [if_neg (by omega)]
      exact paired first pair
    · rw [if_neg (by omega)] at pair
      by_cases second : j = i * 3 + 0
      · rw [if_pos ⟨rfl, by omega⟩]
        exact renamed second pair
      · rw [if_neg (by omega)]
        exact named pair
  · rw [if_neg fun both => same both.1] at pair ⊢
    exact named pair

theorem Typed.store_slot (field : Γ w.toNat = some (.field n guarded)) (bound : j < n) (v : Word) :
    Heap.store w (slotOffset j) v h = .ok () (h.put (w.toNat + slotOffset j) v) := by
  have stored := typed.store (v := v) (i := j + 2) field (by simp only [Shape.words]; omega)
  rwa [← slotOffset_eq] at stored

omit typed in
theorem Rooted.hole_fits (rooted : Rooted Γ) (guarded : Bool) (j : Nat) {a : Nat} :
    (Shape.slotContent guarded j).Accepts Γ a .hole := by
  unfold Shape.slotContent
  split
  · exact .inr ⟨.oddball, rooted.hole, rfl, nofun⟩
  · exact .inr ⟨.oddball, rooted.hole, rfl⟩

omit typed in
theorem Rooted.hole_plain (rooted : Rooted Γ) : Γ Word.hole.toNat ≠ some .pair := by
  rw [rooted.hole]
  nofun

/-- A fresh field may serve as the storage of an object or of a function. -/
theorem Typed.field (fresh : FreshField h n h') (guarded : Bool) :
    Typed strict (Γ.set h.region.cursor (.field n guarded)) h' := by
  have rooted : Rooted (Γ.set h.region.cursor (.field n guarded)) :=
    typed.rooted.mono (Inventory.extends_set typed.fresh).settles
  have hole {j : Nat} (bound : j < n) : h'.word (h.region.cursor + 8 * (j + 2)) = .hole := by
    rw [← fresh.holes j bound]
    congr 1
    simp only [Layout.Field.data]
    omega
  apply typed.grow fresh.grown rfl (by omega)
  · rintro (_ | _ | j) bound
    · exact fresh.map
    · exact Word.int_of_int? fresh.length
    · rw [hole (by omega)]
      exact rooted.hole_fits guarded j
  · intro slots same i room pair
    cases same
    obtain ⟨value, _, inside⟩ := item_places room
    rw [value, hole (by omega)] at pair
    exact absurd pair rooted.hole_plain
  · intro object
    cases object

/-- A slot is copied to a fresh field. Names are there before what they name. -/
theorem Typed.copySlot {source target : Word} {start : Nat}
    (held : Γ source.toNat = some (.field n guarded))
    (held' : Γ target.toNat = some (.field m guarded)) (room : (start / 3 + 1) * 3 ≤ n)
    (room' : (start / 3 + 1) * 3 ≤ m) (done : ∀ j < start, h.word (target.toNat + slotOffset j) =
      h.word (source.toNat + slotOffset j))
    (free : ∀ j, start ≤ j → j < m → h.word (target.toNat + slotOffset j) = .hole) :
    let w := h.word (source.toNat + slotOffset start)
    let h' := h.put (target.toNat + slotOffset start) w
    h.load source (slotOffset start) = .ok w ∧
      Heap.store target (slotOffset start) w h = .ok () h' ∧ Typed strict Γ h' ∧
      (∀ New, Evolves New Γ h Γ h') ∧
      ∀ b k x, Γ b = some (.field x guarded) → k < x → h'.word (b + slotOffset k) =
        if b = target.toNat ∧ k = start then w else h.word (b + slotOffset k) := by
  intro w h'
  have inside : start + 2 < (Shape.field n guarded).words := by simp only [Shape.words]; omega
  have inside' : start + 2 < (Shape.field m guarded).words := by simp only [Shape.words]; omega
  have loaded := typed.load held inside
  have accepts := typed.holds held (start + 2) inside
  rw [← slotOffset_eq] at loaded accepts
  have stored := typed.store_slot held' (j := start) (by omega) w
  have accepts := slotContent_moves (b := target.toNat) accepts
  refine ⟨loaded, stored, typed.put_slot held' (by omega) accepts ?_ ?_, fun New => ?_,
    fun b k x found bound => ?_⟩
  · intro strict same i value pair
    subst same
    simp only [Layout.Item.words, Layout.Item.value] at value
    have named := typed.named strict source.toNat n held i
      (by simp only [Layout.Item.words]; omega)
    subst value
    rw [itemOffset, Layout.Item.words, Layout.Item.key, Nat.add_zero, done _ (by omega)]
    exact named pair
  · intro strict same i key pair
    simp only [Layout.Item.words, Layout.Item.key] at key
    rw [itemOffset, Layout.Item.words, Layout.Item.value, free _ (by omega) (by omega)] at pair
    exact absurd pair typed.rooted.hole_plain
  · change Evolves New Γ h Γ (h.put (target.toNat + slotOffset start) w)
    rw [slotOffset_eq]
    exact (Evolves.refl New Γ h).put typed held' inside' (.inr (by simp [Shape.frozen]))
  · change (h.put (target.toNat + slotOffset start) w).word (b + slotOffset k) = _
    rw [slotOffset_eq, slotOffset_eq, typed.word_put held' found inside'
      (by simp only [Shape.words]; omega)]
    simp only [Nat.add_right_cancel_iff]

/-- Slots are copied one after the other. -/
theorem Typed.copySlots {source target : Word} (held : Γ source.toNat = some (.field n guarded))
    (held' : Γ target.toNat = some (.field m guarded)) (apart : source.toNat ≠ target.toNat)
    (count start : Nat) (whole : (start + count) % 3 = 0) (room : start + count ≤ n)
    (room' : start + count ≤ m) (done : ∀ j < start, h.word (target.toNat + slotOffset j) =
      h.word (source.toNat + slotOffset j))
    (free : ∀ j, start ≤ j → j < m → h.word (target.toNat + slotOffset j) = .hole) :
    ∃ h', copySlots source target count start h = .ok () h' ∧ Typed strict Γ h' ∧
      ∀ New, Evolves New Γ h Γ h' := by
  induction count generalizing start h with
  | zero => exact ⟨h, rfl, typed, fun New => .refl New Γ h⟩
  | succ count ih =>
    obtain ⟨loaded, stored, copied, evolves, words⟩ :=
      typed.copySlot held held' (by omega) (by omega) done free
    have rest := ih copied (start + 1) (by omega) (by omega) (by omega) ?_ ?_
    · obtain ⟨h', rest, typed', evolves'⟩ := rest
      refine ⟨h', ?_, typed', fun New => (evolves New).trans (evolves' New)⟩
      rw [Heap.copySlots, estate_bind_of_ok (query_ok loaded), estate_bind_of_ok stored, rest]
    · intro j before
      have still := words _ j _ held (by omega)
      rw [if_neg fun both => apart both.1] at still
      rw [words _ j _ held' (by omega), still]
      by_cases last : j = start
      · rw [if_pos ⟨rfl, last⟩, last]
      · rw [if_neg fun both => last both.2, done j (by omega)]
    · intro j behind bound
      rw [words _ j _ held' bound, if_neg (by omega), free j (by omega) bound]

/-- A bigger storage takes the place of the old one. -/
theorem Typed.enlarge (housed : Γ.Housed o guarded) :
    (∃ e, Heap.enlarge o (some (h.storageOf o)) (h.items o) h = .error e h) ∨
    ∃ h' Γ', Heap.enlarge o (some (h.storageOf o)) (h.items o) h = .ok (h'.storageOf o) h' ∧
      Enlarged h o h' ∧ Typed strict Γ' h' ∧ Evolves Complete Γ h Γ' h' := by
  have sound := typed.sound
  have backed := typed.backed housed
  have outcome := enlarge_cases sound backed
  rcases allocateField_cases (h.room o * Layout.Item.words) sound with
    ⟨full, failed⟩ | ⟨h₁, made, fresh⟩
  · exact .inl ⟨_, estate_bind_of_error failed⟩
  · have first := typed.field fresh guarded
    have grown : Evolves Complete Γ h
        (Γ.set h.region.cursor (.field (h.room o * Layout.Item.words) guarded)) h₁ :=
      .grow typed fresh.grown ⟨rfl, rfl⟩
    have old := typed.storage housed
    have apart : (h.storageOf o).toNat ≠ (Word.pointer h.region.cursor).toNat := by
      have below := (typed.inside old).2.2.2
      rw [sound.toNat_cursor]
      simp only [Shape.words] at below
      omega
    have fewer : 0 + h.items o * Layout.Item.words ≤ h.slots o := by
      rw [Nat.zero_add]
      exact Nat.div_mul_le_self _ _
    have wider : 0 + h.items o * Layout.Item.words ≤ h.room o * Layout.Item.words := by
      rw [Nat.zero_add]
      exact Nat.mul_le_mul_right _ (by simp only [room]; omega)
    have copied := first.copySlots (grown.stays _ _ old) typed.at_cursor apart
      (h.items o * Layout.Item.words) 0 (by simp [Layout.Item.words]) fewer wider
      (fun _ below => absurd below (Nat.not_lt_zero _)) ?_
    · obtain ⟨h₂, copied, second, moved⟩ := copied
      obtain ⟨x, found, room, _, _, loose, _, storage, plain⟩ :=
        housed_shape (housed.mono grown.stays)
      have stored := second.store (v := .pointer h.region.cursor) found (i := 2) (by omega)
      have third := second.put_plain (w := .pointer h.region.cursor) found (i := 2) (by omega)
        (storage ▸ ⟨_, typed.at_cursor⟩) plain
      have evolves := (grown.trans (moved Complete)).put (w := .pointer h.region.cursor) second
        found (i := 2) (by omega) (.inr loose)
      have done : Heap.enlarge o (some (h.storageOf o)) (h.items o) h =
          .ok (.pointer h.region.cursor) (h₂.put (o.toNat + 8 * 2) (.pointer h.region.cursor)) :=
        (estate_bind_of_ok made).trans ((estate_bind_of_ok copied).trans (estate_bind_of_ok stored))
      rcases outcome with ⟨e, failed⟩ | ⟨h', ran, enlarged⟩
      · cases failed.symm.trans done
      · obtain ⟨same, rfl⟩ := EStateM.Result.ok.inj (done.symm.trans ran)
        exact .inr ⟨_, _, ran, enlarged, third, evolves⟩
    · intro j _ bound
      rw [sound.toNat_cursor, ← fresh.holes j bound, slotOffset_eq, Layout.Field.data]
      congr 1
      omega

theorem Typed.no_atom : h.atoms.lookup "prototype" ≠ some .hole := by
  intro named
  have atom := typed.atoms named
  rw [typed.rooted.hole] at atom
  cases atom

/-- Writing to one part of an item of an object's storage. -/
theorem Typed.put_item {p : Nat} (stored : Stored Γ h o guarded) (bound : i < h.items o)
    (known : p < 3)
    (accepts : (Shape.slotContent guarded (i * Layout.Item.words + p)).Accepts Γ
      (h.storageOf o).toNat w)
    (paired : strict = true → guarded = true → p = Layout.Item.value → Γ w.toNat = some .pair →
      h.atoms.lookup "prototype" = some (h.key o i))
    (renamed : strict = true → guarded = true → p = Layout.Item.key →
      Γ (h.value o i).toNat = some .pair → h.atoms.lookup "prototype" = some w) :
    Heap.store (h.storageOf o) (itemOffset i p) w h =
        .ok () (h.put (h.slotAddress o (i * Layout.Item.words + p)) w) ∧
      Typed strict Γ (h.put (h.slotAddress o (i * Layout.Item.words + p)) w) ∧
      ∀ New, Evolves New Γ h Γ (h.put (h.slotAddress o (i * Layout.Item.words + p)) w) := by
  have field := stored.field
  have inside : i * Layout.Item.words + p < h.slots o := by
    simp only [items, Layout.Item.words] at bound ⊢
    omega
  refine ⟨typed.store_slot field inside w, typed.put_slot field inside accepts ?_ ?_, fun New => ?_⟩
  · intro strict closed j same pair
    simp only [Layout.Item.words, Layout.Item.value] at same
    obtain rfl : j = i := by omega
    exact paired strict closed (by simp only [Layout.Item.value]; omega) pair
  · intro strict closed j same pair
    simp only [Layout.Item.words, Layout.Item.key] at same
    obtain rfl : j = i := by omega
    exact renamed strict closed (by simp only [Layout.Item.key]; omega) pair
  · rw [slotAddress, slotOffset_eq]
    exact (Evolves.refl New Γ h).put typed field (by simp only [Shape.words]; omega)
      (.inr (by simp [Shape.frozen]))

omit typed in
theorem slotContent_value {p : Nat} (other : p ≠ Layout.Item.value) (small : p < 3) :
    Shape.slotContent guarded (i * Layout.Item.words + p) = .value := by
  rw [Shape.slotContent, if_neg]
  simp only [Layout.Item.words, Layout.Item.value] at other ⊢
  omega

theorem Typed.stampItem (stored : Stored Γ h o guarded) (bound : i < h.items o) (key : Γ.Value k)
    (free : h.key o i = .hole) :
    ∃ h', Heap.stampItem (h.storageOf o) i k h = .ok (some (.item i)) h' ∧ Typed strict Γ h' ∧
      ∀ New, Evolves New Γ h Γ h' := by
  -- a pair under the hole would have a name
  have plain (strict : strict = true) (closed : guarded = true) :
      Γ (h.value o i).toNat ≠ some .pair := by
    intro pair
    subst closed
    have named := typed.named strict _ _ stored.field i
      (by simp only [items, Layout.Item.words] at bound ⊢; omega) pair
    change h.atoms.lookup "prototype" = some (h.key o i) at named
    rw [free] at named
    exact typed.no_atom named
  obtain ⟨first, typed₁, moved₁⟩ := typed.put_item (w := k) (p := Layout.Item.key) stored bound
    (by decide) (slotContent_value (p := Layout.Item.key) (by decide) (by decide) ▸ key)
    (fun _ _ same => by cases same) fun strict closed _ pair => absurd pair (plain strict closed)
  have keyed := (Rewritten.refl typed.sound stored.backed i).put (w := k)
    (p := Layout.Item.key) bound (by decide)
  obtain ⟨second, typed₂, moved₂⟩ := typed₁.put_item (i := i) (w := .int Layout.Pair.data)
    (p := Layout.Item.attributes) (stored.rewritten keyed) (by rwa [items, keyed.slots]) (by decide)
    (slotContent_value (p := Layout.Item.attributes) (by decide) (by decide) ▸ .inl rfl)
    (fun _ _ same => by cases same) (fun _ _ same => by cases same)
  rw [keyed.storage] at second
  refine ⟨_, ?_, typed₂, fun New => (moved₁ New).trans (moved₂ New)⟩
  exact (estate_bind_of_ok first).trans ((estate_bind_of_ok second).trans rfl)

theorem Typed.claimItem? (housed : Γ.Housed o guarded) (key : Γ.Value k) :
    (∃ e, Heap.claimItem? o k h = .error e h) ∨
    ∃ i h' Γ', Heap.claimItem? o k h = .ok (some (.item i)) h' ∧ i < h'.items o ∧ h'.key o i = k ∧
      Typed strict Γ' h' ∧ Evolves Complete Γ h Γ' h' := by
  have sound := typed.sound
  have backed := typed.backed housed
  have dictionary := typed.no_dense housed
  rcases claimItem?_cases (k := k) sound backed dictionary with
    ⟨e, failed⟩ | ⟨i, h₁, h', opened, claimed, rewritten⟩
  · exact .inl ⟨e, failed⟩
  · have bound : i < h'.items o := by
      rw [items, rewritten.slots]
      exact opened.bound
    have keyed : h'.key o i = k := by rw [rewritten.key, if_pos rfl]
    have ran := claimed
    rw [claimItem?_eq sound backed dictionary] at ran
    rcases opened with ⟨place, rfl⟩ | ⟨full, rfl, _⟩
    · obtain ⟨inside, free, _⟩ := itemOf_some.mp place
      obtain ⟨h'', stamped, typed', moved⟩ := typed.stampItem (typed.stored housed) inside key
        free
      rw [place] at ran
      obtain ⟨_, rfl⟩ := EStateM.Result.ok.inj (stamped.symm.trans ran)
      exact .inr ⟨i, _, Γ, claimed, bound, keyed, typed', moved _⟩
    · rw [full] at ran
      rcases typed.enlarge housed with ⟨e, failed⟩ | ⟨h₂, Γ', made, enlarged, typed₂, evolves⟩
      · dsimp only at ran
        rw [estate_bind_of_error failed] at ran
        cases ran
      · obtain ⟨inside, free, _⟩ := itemOf_some.mp (enlarged.itemOf_hole full)
        obtain ⟨h'', stamped, typed', moved⟩ := typed₂.stampItem
          (typed₂.stored (housed.mono evolves.stays)) inside (key.mono evolves.stays.settles) free
        dsimp only at ran
        rw [estate_bind_of_ok made, stamped] at ran
        obtain ⟨_, rfl⟩ := EStateM.Result.ok.inj ran
        exact .inr ⟨_, _, Γ', claimed, bound, keyed, typed', evolves.trans (moved _)⟩

omit typed in
theorem value_fits (value : Γ.Value w) (data : guarded = false → Γ.Data w) (j : Nat) {a : Nat} :
    (Shape.slotContent guarded j).Accepts Γ a w := by
  unfold Shape.slotContent
  split
  next both => exact data both.2
  next => exact value

theorem Typed.put_value (stored : Stored Γ h o guarded) (bound : i < h.items o) (value : Γ.Value w)
    (data : guarded = false → Γ.Data w) (named : strict = true → Γ w.toNat = some .pair →
      h.atoms.lookup "prototype" = some (h.key o i)) :
    Typed strict Γ (h.put (h.slotAddress o (Slot.item i).position) w) ∧
      ∀ New, Evolves New Γ h Γ (h.put (h.slotAddress o (Slot.item i).position) w) :=
  (typed.put_item (w := w) (p := Layout.Item.value) stored bound (by decide)
    (value_fits value data _) (fun strict _ _ pair => named strict pair) nofun).2

omit typed in
theorem slotAddress_congr (same : h'.storageOf o = h.storageOf o) (j : Nat) :
    h'.slotAddress o j = h.slotAddress o j := by
  rw [slotAddress, slotAddress, same]

/-- The value goes with its name: a pair never stands under the hole. -/
theorem Typed.clearItem (stored : Stored Γ h o guarded) (bound : i < h.items o) :
    ∃ h', clearSlot o (.item i) h = .ok () h' ∧ Typed strict Γ h' ∧
      ∀ New, Evolves New Γ h Γ h' := by
  have backed := stored.backed
  have hole := typed.rooted.hole_fits guarded
  have plain := typed.rooted.hole_plain
  have start := Rewritten.refl typed.sound backed i
  have first := start.store bound (p := Layout.Item.key) (by decide) .hole
  have keyed := start.put (w := .hole) (p := Layout.Item.key) bound (by decide)
  have second := keyed.store bound (p := Layout.Item.value) (by decide) .hole
  have cleared := keyed.put (w := .hole) (p := Layout.Item.value) bound (by decide)
  have third := cleared.store bound (p := Layout.Item.attributes) (by decide) .hole
  -- the name goes first, but typing wants the value to be gone by then
  obtain ⟨_, typed₁, moved₁⟩ := typed.put_item (w := .hole) (p := Layout.Item.value) stored bound
    (by decide) (hole _) (fun _ _ _ pair => absurd pair plain) (fun _ _ same => by cases same)
  have emptied := start.put (w := .hole) (p := Layout.Item.value) bound (by decide)
  obtain ⟨_, typed₂, moved₂⟩ := typed₁.put_item (i := i) (w := .hole) (p := Layout.Item.key)
    (stored.rewritten emptied) (by rwa [items, emptied.slots]) (by decide) (hole _)
    (fun _ _ same => by cases same)
    (fun _ _ _ pair => absurd (by rwa [emptied.value, if_pos rfl] at pair) plain)
  have moved := fun New => (moved₁ New).trans (moved₂ New)
  have swap : h.slotAddress o (i * Layout.Item.words + Layout.Item.value) ≠
      h.slotAddress o (i * Layout.Item.words + Layout.Item.key) := by
    simp only [slotAddress, slotOffset_eq, Layout.Item.value, Layout.Item.key]
    omega
  have same : (h.put (h.slotAddress o (i * Layout.Item.words + Layout.Item.value)) .hole).put
      ((h.put (h.slotAddress o (i * Layout.Item.words + Layout.Item.value)) .hole).slotAddress o
        (i * Layout.Item.words + Layout.Item.key)) .hole =
      (h.put (h.slotAddress o (i * Layout.Item.words + Layout.Item.key)) .hole).put
      ((h.put (h.slotAddress o (i * Layout.Item.words + Layout.Item.key)) .hole).slotAddress o
        (i * Layout.Item.words + Layout.Item.value)) .hole := by
    rw [slotAddress_congr emptied.storage, slotAddress_congr keyed.storage,
      put_comm (backed.slotAddress_mod _) (backed.slotAddress_mod _) swap]
  rw [same] at typed₂ moved
  obtain ⟨_, typed₃, moved₃⟩ := typed₂.put_item (i := i) (w := .hole)
    (p := Layout.Item.attributes) (stored.rewritten cleared) (by rwa [items, cleared.slots])
    (by decide) (hole _) (fun _ _ same => by cases same) (fun _ _ same => by cases same)
  refine ⟨_, ?_, typed₃, fun New => (moved New).trans (moved₃ New)⟩
  exact (estate_bind_of_ok (query_ok (backed.load_storage typed.sound))).trans
    ((estate_bind_of_ok first).trans ((estate_bind_of_ok second).trans third))

end Heap

end FastPath
