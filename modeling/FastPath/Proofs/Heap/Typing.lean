import FastPath.Proofs.Heap.Inventory
import FastPath.Proofs.Outcome

/-! Changes of typed heaps: a word is replaced by another that may stand in its place, the next
word of a draft is filled in, a new entity is made at the cursor. -/

namespace FastPath.Heap

variable {strict shared : Bool} {Γ Γ' : Inventory shared} {h h' : Heap} {a b i j m n : Nat}
  {x y : Shape}
  {c : Content} {content : Nat → Content} {w v : Word}

theorem Typed.spans (typed : Typed strict Γ h) (found : Γ w.toNat = some x) :
    h.Spans w x.words := by
  obtain ⟨start, aligned, _, fits⟩ := typed.inside found
  exact ⟨start, aligned, fits⟩

/-- Different words of entities are at different addresses. -/
theorem Typed.same_place (typed : Typed strict Γ h) (found : Γ a = some x) (found' : Γ b = some y)
    (inside : i < x.words) (inside' : j < y.words) (same : a + 8 * i = b + 8 * j) :
    a = b ∧ i = j := by
  rcases Nat.lt_trichotomy a b with before | rfl | behind
  · have apart := typed.apart found found' before
    omega
  · exact ⟨rfl, by omega⟩
  · have apart := typed.apart found' found behind
    omega

theorem Typed.word_put (typed : Typed strict Γ h) (found : Γ a = some x) (found' : Γ b = some y)
    (inside : i < x.words) (inside' : j < y.words) :
    (h.put (a + 8 * i) w).word (b + 8 * j) =
      if b = a ∧ j = i then w else h.word (b + 8 * j) := by
  obtain ⟨start, aligned, _, fits⟩ := typed.inside found
  obtain ⟨_, aligned', _, _⟩ := typed.inside found'
  by_cases same : b = a ∧ j = i
  · obtain ⟨rfl, rfl⟩ := same
    have bounded := typed.sound.bounded
    have backed := typed.sound.backed
    have place : h.hasWord (b + 8 * j) = true := hasWord_iff.mpr ⟨by omega, by omega, by omega⟩
    rw [if_pos ⟨rfl, rfl⟩, word_put_same place]
  · rw [if_neg same, word_put_other (by omega) (by omega)]
    intro together
    exact same (typed.same_place found' found inside' inside together)

/-- Whatever spares what was there leaves the words of entities as they are. -/
theorem Typed.spared_word (typed : Typed strict Γ h) (spares : Spares h h') (found : Γ a = some x)
    (inside : i < x.words) : h'.word (a + 8 * i) = h.word (a + 8 * i) := by
  obtain ⟨_, aligned, _, fits⟩ := typed.inside found
  exact spares.words _ (by omega) (by omega)

/-- A word is replaced by one that may stand in its place. -/
theorem Typed.put (typed : Typed strict Γ h) (found : Γ a = some x) (inside : i < x.words)
    (accepts : (x.content i).Accepts Γ a w)
    (named : strict = true → Named Γ (h.put (a + 8 * i) w)) :
    Typed strict Γ (h.put (a + 8 * i) w) := by
  constructor
  · exact typed.sound.put
  · exact typed.inside
  · exact typed.apart
  · exact typed.covers
  · intro b y found' j inside'
    rw [typed.word_put found found' inside inside']
    split
    next same =>
      obtain ⟨rfl, rfl⟩ := same
      cases found.symm.trans found'
      exact accepts
    next => exact typed.holds found' j inside'
  · exact typed.rooted
  · exact typed.atoms
  · exact named
  · exact typed.flanked

theorem item_places (bound : (i + 1) * Layout.Item.words ≤ n) :
    itemOffset i Layout.Item.value = 8 * (i * 3 + 3) ∧
      itemOffset i Layout.Item.key = 8 * (i * 3 + 2) ∧ i * 3 + 3 < n + 2 := by
  simp only [itemOffset, slotOffset, Layout.Item.words, Layout.Item.value, Layout.Item.key,
    Layout.Field.data, Layout.word] at *
  omega

/-- What is no guarded field is not asked for names. -/
theorem Named.put (named : Named Γ h) (typed : Typed strict Γ h) (found : Γ a = some x)
    (inside : i < x.words) (other : ∀ slots, x ≠ .field slots true) :
    Named Γ (h.put (a + 8 * i) w) := by
  intro b slots found' k bound
  obtain ⟨value, key, room⟩ := item_places bound
  have apart : b ≠ a := by
    rintro rfl
    cases found.symm.trans found'
    exact other slots rfl
  rw [value, key, typed.word_put found found' inside room, if_neg (fun same => apart same.1),
    typed.word_put found found' inside (by simp only [Shape.words]; omega),
    if_neg (fun same => apart same.1), ← value, ← key]
  exact named b slots found' k bound

theorem Typed.put_plain (typed : Typed strict Γ h) (found : Γ a = some x) (inside : i < x.words)
    (accepts : (x.content i).Accepts Γ a w) (other : ∀ slots, x ≠ .field slots true) :
    Typed strict Γ (h.put (a + 8 * i) w) :=
  typed.put found inside accepts fun strict => (typed.named strict).put typed found inside other

/-- Nothing is known yet of what is behind the cursor. -/
theorem Typed.fresh (typed : Typed strict Γ h) : Γ h.region.cursor = none := by
  cases found : Γ h.region.cursor with
  | none => rfl
  | some x =>
    obtain ⟨_, _, room, fits⟩ := typed.inside found
    omega

/-- All values are older than what is made next. -/
theorem Typed.older (typed : Typed strict Γ h) (value : Γ.Value w) :
    w.isInt = true ∨ w.toNat < h.region.cursor := by
  rcases value with int | ⟨x, found, _⟩
  · exact .inl int
  · obtain ⟨_, _, room, fits⟩ := typed.inside found
    exact .inr (by omega)

theorem Typed.at_cursor (typed : Typed strict Γ h) :
    Γ'.set h.region.cursor x (Word.pointer h.region.cursor).toNat = some x := by
  rw [typed.sound.toNat_cursor]
  exact Inventory.set_same

theorem Typed.toNat_pointer (typed : Typed strict Γ h) (found : Γ a = some x) :
    (Word.pointer a).toNat = a := by
  obtain ⟨_, _, _, fits⟩ := typed.inside found
  have bounded := typed.sound.bounded
  have backed := typed.sound.backed
  have small := typed.sound.small
  exact Word.toNat_pointer (by omega)

theorem Typed.aligned_set (typed : Typed strict Γ h) (aligned : a % 8 = 0)
    (found : Γ.set a x b = some y) : b % 8 = 0 := by
  obtain ⟨rfl, _⟩ | ⟨_, old⟩ := Inventory.of_set found
  · exact aligned
  · exact (typed.inside old).2.1

/-- The words of a field's items are values. -/
theorem Typed.item_value (typed : Typed strict Γ h) {guarded : Bool}
    (found : Γ a = some (.field n guarded)) (bound : (i + 1) * Layout.Item.words ≤ n) :
    Γ.Value (h.word (a + itemOffset i Layout.Item.value)) := by
  obtain ⟨value, _, room⟩ := item_places bound
  have accepts := typed.holds found (i * 3 + 3) room
  rw [value]
  cases guarded with
  | true =>
    have content : Shape.content (.field n true) (i * 3 + 3) = .value := by
      simp [Shape.content, Shape.slotContent]
    rwa [content] at accepts
  | false =>
    have content : Shape.content (.field n false) (i * 3 + 3) = .data := by
      simp [Shape.content, Shape.slotContent, Layout.Item.words, Layout.Item.value]
    rw [content] at accepts
    exact Inventory.Data.value accepts

/-- Names stay when more is finished, also in a heap that has the same words there. -/
theorem Typed.named_later (typed : Typed strict Γ h) (named : Named Γ h)
    (found : Γ b = some (.field n true)) (bound : (i + 1) * Layout.Item.words ≤ n)
    (settles : Γ.Settles Γ') (aligned : ∀ a x, Γ' a = some x → a % 8 = 0)
    (pair : Γ' (h.word (b + itemOffset i Layout.Item.value)).toNat = some .pair) :
    h.atoms.lookup "prototype" = some (h.word (b + itemOffset i Layout.Item.key)) := by
  apply named b n found i bound
  rcases typed.item_value found bound with int | ⟨x, held, handled⟩
  · rw [Word.isInt_aligned (aligned _ _ pair)] at int
    cases int
  · have same := settles _ _ held (Shape.finished_of_handled handled)
    cases pair.symm.trans same
    exact held

/-- A draft becomes something else of the same size. -/
theorem Typed.retype (typed : Typed strict Γ h) (draft : Γ a = some (.draft m content))
    (size : x.words = m)
    (accepts : ∀ i < m, (x.content i).Accepts (Γ.set a x) a (h.word (a + 8 * i)))
    (holes : ∀ slots, x = .field slots true → ∀ i, 2 ≤ i → i < m → h.word (a + 8 * i) = .hole)
    (flanked : x = .object → ∃ slots guarded, Γ (a + 24) = some (.field slots guarded)) :
    Typed strict (Γ.set a x) h := by
  have settles : Γ.Settles (Γ.set a x) := Inventory.settles_set draft rfl
  obtain ⟨start, aligned, room, fits⟩ := typed.inside draft
  have known {b y} (found : Γ.set a x b = some y) :
      ∃ z, Γ b = some z ∧ z.words = y.words := by
    obtain ⟨rfl, rfl⟩ | ⟨_, old⟩ := Inventory.of_set found
    · exact ⟨_, draft, size.symm⟩
    · exact ⟨y, old, rfl⟩
  constructor
  · exact typed.sound
  · intro b y found
    obtain ⟨z, old, words⟩ := known found
    exact words ▸ typed.inside old
  · intro b d y z found found' before
    obtain ⟨_, old, words⟩ := known found
    obtain ⟨_, old', _⟩ := known found'
    exact words ▸ typed.apart old old' before
  · intro b start aligned below
    obtain ⟨d, y, found, before, behind⟩ := typed.covers start aligned below
    by_cases same : d = a
    · subst same
      cases draft.symm.trans found
      exact ⟨d, x, Inventory.set_same, before, size.symm ▸ behind⟩
    · exact ⟨d, y, by rw [Inventory.set_other same, found], before, behind⟩
  · intro b y found i inside
    obtain ⟨rfl, rfl⟩ | ⟨_, old⟩ := Inventory.of_set found
    · exact accepts i (size ▸ inside)
    · exact Inventory.accepts_mono (typed.holds old i inside) settles
  · exact typed.rooted.mono settles
  · intro name w found
    exact settles _ _ (typed.atoms found) rfl
  · intro strict b slots found i bound pair
    obtain ⟨rfl, rfl⟩ | ⟨_, old⟩ := Inventory.of_set found
    · obtain ⟨value, _, inside⟩ := item_places bound
      rw [value, holes slots rfl _ (by omega) (by rw [← size]; exact inside)] at pair
      have root := settles _ _ typed.rooted.hole rfl
      cases pair.symm.trans root
    · exact typed.named_later (typed.named strict) old bound settles
        (fun _ _ held => typed.aligned_set aligned held) pair
  · intro b found
    have beside : ∃ slots guarded, Γ (b + 24) = some (.field slots guarded) := by
      obtain ⟨rfl, same⟩ | ⟨_, old⟩ := Inventory.of_set found
      · exact flanked same.symm
      · exact typed.flanked old
    obtain ⟨slots, guarded, field⟩ := beside
    exact ⟨slots, guarded, settles _ _ field rfl⟩

/-- A draft whose words are as another shape has them turns into an entity of that shape. -/
theorem Typed.finish (typed : Typed strict Γ h) (draft : Γ a = some (.draft m content))
    (size : x.words = m)
    (agree : ∀ i < m, ∀ w, (content i).Accepts Γ a w → (x.content i).Accepts Γ a w)
    (plain : ∀ slots, x ≠ .field slots true)
    (flanked : x = .object → ∃ slots guarded, Γ (a + 24) = some (.field slots guarded)) :
    Typed strict (Γ.set a x) h := by
  refine typed.retype draft size ?_ (fun slots field => absurd field (plain slots)) flanked
  intro i inside
  have accepts := agree i inside _ (typed.holds draft i inside)
  exact Inventory.accepts_mono accepts (Inventory.settles_set draft rfl)

/-- Any word of a draft is filled in. -/
theorem Typed.fill_in (typed : Typed strict Γ h) (draft : Γ a = some (.draft m content))
    (inside : i < m) (c : Content) (accepts : c.Accepts Γ a w) :
    Typed strict (Γ.set a (.draft m (Function.update content i c))) (h.put (a + 8 * i) w) := by
  have settles {x : Shape} : Γ.Settles (Γ.set a x) := Inventory.settles_set draft rfl
  -- the old word is forgotten before the new one is written
  have bare : Typed strict (Γ.set a (.draft m (Function.update content i .anything))) h := by
    apply typed.retype draft rfl
    · intro j bound
      change Content.Accepts _ _ (Function.update content i .anything j) _
      by_cases same : j = i
      · rw [same, Function.update_self]
        trivial
      · rw [Function.update_of_ne same]
        exact Inventory.accepts_mono (typed.holds draft j bound) settles
    · nofun
    · nofun
  have written := bare.put_plain (w := w) Inventory.set_same inside
    (by rw [Shape.content, Function.update_self]; trivial) nofun
  rw [← Inventory.set_set (Γ := Γ) (x := .draft m (Function.update content i .anything))]
  apply written.retype Inventory.set_same rfl
  · intro j bound
    rw [Inventory.set_set, bare.word_put Inventory.set_same Inventory.set_same inside bound]
    change Content.Accepts _ _ (Function.update content i c j) _
    by_cases same : j = i
    · rw [if_pos ⟨rfl, same⟩, same, Function.update_self]
      exact Inventory.accepts_mono accepts settles
    · rw [if_neg fun both => same both.2, Function.update_of_ne same]
      exact Inventory.accepts_mono (typed.holds draft j bound) settles
  · nofun
  · nofun

/-- A new entity is made at the cursor. -/
theorem Typed.grow (typed : Typed strict Γ h) (grown : Grown h n h') (size : x.words = n)
    (some_ : 0 < n) (accepts : ∀ i < n, (x.content i).Accepts (Γ.set h.region.cursor x)
      h.region.cursor (h'.word (h.region.cursor + 8 * i)))
    (named : ∀ slots, x = .field slots true → ∀ i, (i + 1) * Layout.Item.words ≤ slots →
      (Γ.set h.region.cursor x (h'.word (h.region.cursor + itemOffset i Layout.Item.value)).toNat) =
        some .pair →
      strict = true → h.atoms.lookup "prototype" =
        some (h'.word (h.region.cursor + itemOffset i Layout.Item.key)))
    (plain : x ≠ .object) : Typed strict (Γ.set h.region.cursor x) h' := by
  have fresh : Γ h.region.cursor = none := typed.fresh
  have extends_ : Γ.Extends (Γ.set h.region.cursor x) := Inventory.extends_set fresh
  have cursor := grown.cursor
  have words {b y i} (found : Γ b = some y) (inside : i < y.words) :
      h'.word (b + 8 * i) = h.word (b + 8 * i) := by
    obtain ⟨_, aligned, _, fits⟩ := typed.inside found
    exact grown.kept _ (by omega) (.inl (by omega))
  constructor
  · exact grown.sound
  · intro b y found
    rcases Inventory.of_set found with ⟨rfl, rfl⟩ | ⟨_, old⟩
    · exact ⟨typed.sound.start, typed.sound.aligned, by omega, by omega⟩
    · obtain ⟨start, aligned, room, fits⟩ := typed.inside old
      exact ⟨start, aligned, room, by omega⟩
  · intro b d y z found found' before
    rcases Inventory.of_set found with ⟨rfl, rfl⟩ | ⟨_, old⟩
    · rcases Inventory.of_set found' with ⟨rfl, rfl⟩ | ⟨_, old'⟩
      · omega
      · obtain ⟨_, _, _, fits⟩ := typed.inside old'
        omega
    · rcases Inventory.of_set found' with ⟨rfl, rfl⟩ | ⟨_, old'⟩
      · obtain ⟨_, _, _, fits⟩ := typed.inside old
        exact fits
      · exact typed.apart old old' before
  · intro b start aligned below
    by_cases old : b < h.region.cursor
    · obtain ⟨d, y, found, around⟩ := typed.covers start aligned old
      exact ⟨d, y, extends_ _ _ found, around⟩
    · exact ⟨h.region.cursor, x, Inventory.set_same, by omega, by omega⟩
  · intro b y found i inside
    rcases Inventory.of_set found with ⟨rfl, rfl⟩ | ⟨_, old⟩
    · exact accepts i (size ▸ inside)
    · rw [words old inside]
      exact Inventory.accepts_mono (typed.holds old i inside) extends_.settles
  · exact typed.rooted.mono extends_.settles
  · intro name w found
    rw [grown.atoms] at found
    exact extends_ _ _ (typed.atoms found)
  · intro strict b slots found i bound pair
    rw [grown.atoms]
    rcases Inventory.of_set found with ⟨rfl, rfl⟩ | ⟨_, old⟩
    · exact named slots rfl i bound pair strict
    · obtain ⟨value, key, room⟩ := item_places bound
      rw [value, words old room] at pair
      rw [key, words old (by simp only [Shape.words]; omega)]
      rw [← value] at pair
      rw [← key]
      exact typed.named_later (typed.named strict) old bound extends_.settles
        (fun _ _ held => typed.aligned_set typed.sound.aligned held) pair
  · intro b found
    rcases Inventory.of_set found with ⟨rfl, rfl⟩ | ⟨_, old⟩
    · exact absurd rfl plain
    · obtain ⟨slots, guarded, field⟩ := typed.flanked old
      exact ⟨slots, guarded, extends_ _ _ field⟩

/-- New entities that are complete, and no Code entities, which the machine has to know about. -/
def Complete (_ : Nat) (x : Shape) : Prop := x.isCode = false ∧ x.finished = true

def Partial (_ : Nat) (x : Shape) : Prop := x.isCode = false

namespace Evolves

variable {New New' : Nat → Shape → Prop} {Γ₀ : Inventory shared} {h₀ : Heap}

theorem grow (typed : Typed strict Γ h) (grown : Grown h n h') (new : New h.region.cursor x) :
    Evolves New Γ h (Γ.set h.region.cursor x) h' := by
  constructor
  · exact Inventory.extends_set typed.fresh
  · intro a y found
    obtain ⟨rfl, rfl⟩ | ⟨_, old⟩ := Inventory.of_set found
    · exact .inr new
    · exact .inl old
  · intro a y found i inside _
    obtain ⟨_, aligned, _, fits⟩ := typed.inside found
    exact grown.kept _ (by omega) (.inl (by omega))
  · intro name w found
    rw [grown.atoms]
    exact found

/-- What was not there before may change in any way, and words that are not frozen too. -/
theorem put (evolves : Evolves New Γ₀ h₀ Γ h) (typed : Typed strict Γ h) (found : Γ a = some x)
    (inside : i < x.words) (loose : Γ₀ a = none ∨ x.frozen i = false) :
    Evolves New Γ₀ h₀ Γ (h.put (a + 8 * i) w) := by
  refine ⟨evolves.stays, evolves.new, ?_, evolves.atoms⟩
  intro b y old j inside' still
  have found' := evolves.stays _ _ old
  rw [typed.word_put found found' inside inside', if_neg, evolves.frozen old j inside' still]
  rintro ⟨rfl, rfl⟩
  cases found.symm.trans found'
  rcases loose with fresh | loose
  · simp [fresh] at old
  · simp [loose] at still

/-- What was not there before turns into something else. -/
theorem set (evolves : Evolves New Γ₀ h₀ Γ h) (fresh : Γ₀ a = none) (new : New' a x)
    (others : ∀ b y, b ≠ a → New b y → New' b y) : Evolves New' Γ₀ h₀ (Γ.set a x) h := by
  constructor
  · intro b y old
    have other : b ≠ a := by
      rintro rfl
      simp [fresh] at old
    rw [Inventory.set_other other]
    exact evolves.stays _ _ old
  · intro b y found
    obtain ⟨rfl, rfl⟩ | ⟨other, old⟩ := Inventory.of_set found
    · exact .inr new
    · exact (evolves.new old).imp_right (others _ _ other)
  · exact evolves.frozen
  · exact evolves.atoms

theorem register (evolves : Evolves New Γ₀ h₀ Γ h) (name : String) (w : Word) :
    Evolves New Γ₀ h₀ Γ { h with atoms := h.atoms ++ [(name, w)] } := by
  refine ⟨evolves.stays, evolves.new, evolves.frozen, ?_⟩
  intro other v found
  rw [List.lookup_append, evolves.atoms found]
  rfl

end Evolves

theorem Typed.store (typed : Typed strict Γ h) (found : Γ w.toNat = some x) (inside : i < x.words) :
    store w (8 * i) v h = .ok () (h.put (w.toNat + 8 * i) v) :=
  (typed.spans found).store typed.sound (by omega) (by omega)

theorem Typed.load (typed : Typed strict Γ h) (found : Γ w.toNat = some x) (inside : i < x.words) :
    h.load w (8 * i) = .ok (h.word (w.toNat + 8 * i)) :=
  (typed.spans found).load typed.sound (by omega) (by omega)

/-- The prototype of every canonical map is null. -/
theorem Typed.load_canonical_proto (typed : Typed strict Γ h) (k : Kind) :
    h.load k.canonicalMap Layout.Map.proto = .ok .null := by
  have root := typed.rooted.map k
  have proto : h.word (k.canonicalMap.toNat + 8 * 2) = .null :=
    typed.holds root 2 (by decide : 2 < 5)
  have loaded := typed.load root (i := 2) (by decide : 2 < 5)
  rwa [proto] at loaded

theorem Shape.lt_function_words {slots : Nat} (own : i < 7) : i < (Shape.function slots).words := by
  simp only [Shape.words]
  omega

/-- The map that a function's instances get. -/
theorem Typed.instanceMap {slots : Nat} (typed : Typed strict Γ h)
    (function : Γ w.toNat = some (.function slots)) :
    h.load w Layout.Function.instanceMap = .ok (h.word (w.toNat + 8 * 4)) ∧
      Γ (h.word (w.toNat + 8 * 4)).toNat = some .instanceMap := by
  have inside : 4 < (Shape.function slots).words := Shape.lt_function_words (by decide)
  exact ⟨typed.load function inside, typed.holds function 4 inside⟩

theorem Typed.loadInt_ok {z : Int} (typed : Typed strict Γ h) (found : Γ w.toNat = some x)
    (inside : i < x.words) (number : (h.word (w.toNat + 8 * i)).int? = some z) :
    h.loadInt w (8 * i) = .ok z := by
  rw [loadInt, typed.load found inside]
  simp only [bind, Except.bind, number]

/-- The contents of an entity of which only the map is set. -/
def stamp (k : Kind) (i : Nat) : Content := if i = 0 then .exactly k.canonicalMap else .anything

theorem Typed.allocate (typed : Typed strict Γ h) (k : Kind) (n : Nat) :
    Yields (allocate k (8 * (n + 1))) h
      (fun w h' => w = .pointer h.region.cursor ∧ Grown h (n + 1) h' ∧
        Typed strict (Γ.set h.region.cursor (.draft (n + 1) (stamp k))) h')
      fun _ h' => h' = h := by
  rcases allocate_cases k typed.sound rfl with ⟨_, failed⟩ | ⟨h', done, grown, map⟩
  · exact .of_error failed rfl
  · apply Yields.of_ok done
    refine ⟨rfl, grown, typed.grow grown rfl (Nat.succ_pos n) ?_ nofun nofun⟩
    intro i _
    change Content.Accepts _ _ (stamp k i) _
    unfold stamp
    split
    next first => rw [first]; exact map
    next => trivial

theorem Typed.register (typed : Typed strict Γ h) (name : String)
    (atom : Γ w.toNat = some .atom) :
    Typed strict Γ { h with atoms := h.atoms ++ [(name, w)] } := by
  have looked (other : String) : (h.atoms ++ [(name, w)]).lookup other =
      (h.atoms.lookup other).or ([(name, w)].lookup other) := List.lookup_append
  constructor
  · exact ⟨typed.sound.aligned, typed.sound.start, typed.sound.bounded, typed.sound.backed,
      typed.sound.small⟩
  · exact typed.inside
  · exact typed.apart
  · exact typed.covers
  · exact typed.holds
  · exact typed.rooted
  · intro other v found
    change (h.atoms ++ [(name, w)]).lookup other = some v at found
    rw [looked] at found
    rcases Option.or_eq_some_iff.mp found with old | ⟨_, new⟩
    · exact typed.atoms old
    · rw [List.lookup_cons] at new
      split at new
      · cases new
        exact atom
      · cases new
  · intro strict b slots found i bound pair
    change (h.atoms ++ [(name, w)]).lookup "prototype" = _
    rw [looked, typed.named strict b slots found i bound pair]
    rfl
  · exact typed.flanked

/-- A new entity of two words is complete once its second word is written. -/
theorem Typed.fill_second (typed : Typed strict Γ h) {k : Kind} (grown : Grown h 2 h')
    (made : Typed strict (Γ.set h.region.cursor (.draft 2 (stamp k))) h') (size : x.words = 2)
    (first : x.content 0 = .exactly k.canonicalMap)
    (second : (x.content 1).Accepts Γ h.region.cursor v)
    (plain : ∀ slots, x ≠ .field slots true) (other : x ≠ .object) :
    let filled := h'.put (h.region.cursor + 8 * 1) v
    Heap.store (.pointer h.region.cursor) (8 * 1) v h' = .ok () filled ∧
      Typed strict (Γ.set h.region.cursor x) filled ∧ Spares h filled ∧
      ∀ New, New h.region.cursor x → Evolves New Γ h (Γ.set h.region.cursor x) filled := by
  intro filled
  have place := typed.sound.toNat_cursor
  have aligned := typed.sound.aligned
  have stored := made.store (v := v) (i := 1) typed.at_cursor Nat.one_lt_two
  rw [place] at stored
  have settles := (Inventory.extends_set (x := .draft 2 (stamp k)) typed.fresh).settles
  have written := made.fill_in (i := 1) (w := v) Inventory.set_same Nat.one_lt_two (x.content 1)
    (Inventory.accepts_mono second settles)
  have whole := written.finish (x := x) Inventory.set_same size ?_ plain
    fun same => absurd same other
  rw [Inventory.set_set, Inventory.set_set] at whole
  refine ⟨stored, whole, grown.spares.put (by omega) (by omega), fun New new => ?_⟩
  · have evolves : Evolves (fun a y => a = h.region.cursor ∨ New a y) Γ h _ h' :=
      .grow typed grown (x := .draft 2 (stamp k)) (.inl rfl)
    rw [← Inventory.set_set (x := .draft 2 (stamp k))]
    exact (evolves.put (w := v) made Inventory.set_same (i := 1) Nat.one_lt_two
      (.inl typed.fresh)).set typed.fresh new fun _ _ apart was => was.resolve_left apart
  · rintro (_ | _ | i) bound w accepts
    · exact first ▸ accepts
    · exact accepts
    · omega

/-- An atom is an entity from when it is first asked for. -/
theorem Typed.atom (typed : Typed strict Γ h) (name : String) :
    Yields (Heap.atom name) h
      (fun w h' => ∃ Γ', Evolves Complete Γ h Γ' h' ∧ Spares h h' ∧ Typed strict Γ' h' ∧
        Γ' w.toNat = some .atom ∧ h'.atoms.lookup name = some w)
      fun _ h' => ∃ Γ', Evolves Partial Γ h Γ' h' ∧ Spares h h' ∧ Typed strict Γ' h' := by
  have read : (get : HeapM Heap) h = .ok h h := rfl
  apply Yields.step read
  dsimp only
  cases known : h.atoms.lookup name with
  | some w => exact .pure ⟨Γ, .refl _ Γ h, .refl h, typed, typed.atoms known, known⟩
  | none =>
    refine ((typed.allocate .atom 1).mono (fun _ _ made => made) ?_).bind_mono ?_
    · rintro _ _ rfl
      exact ⟨Γ, .refl _ Γ _, .refl _, typed⟩
    rintro w h₁ ⟨rfl, grown, made⟩
    by_cases few : h.atoms.length < 0x80000000
    · rw [if_pos few]
      -- the number is the last word to be filled in
      obtain ⟨stored, whole, spared, evolves⟩ := typed.fill_second (x := .atom)
        (v := .int h.atoms.length) grown made rfl rfl ⟨_, Word.int?_natCast (by omega)⟩ nofun nofun
      apply Yields.step stored
      have atom : Γ.set h.region.cursor .atom (Word.pointer h.region.cursor).toNat = some .atom :=
        typed.at_cursor
      have unknown : (h₁.put (h.region.cursor + 8 * 1) (.int h.atoms.length)).atoms.lookup name =
          none := grown.atoms.symm ▸ known
      refine ⟨_, (evolves Complete ⟨rfl, rfl⟩).register name _, ⟨spared.cursor, spared.words⟩,
        whole.register name atom, atom, ?_⟩
      simp [List.lookup_append, unknown]
    · rw [if_neg few]
      have evolves : Evolves Partial Γ h _ h₁ :=
        .grow typed grown (x := .draft 2 (stamp .atom)) rfl
      exact .throw ⟨_, evolves, grown.spares, made⟩

theorem kindOfMap_canonical (k : Kind) : kindOfMap k.canonicalMap = k := by
  cases k <;> decide

theorem Typed.kindOfMap_instance (typed : Typed strict Γ h)
    (found : Γ w.toNat = some .instanceMap) : kindOfMap w = .object := by
  have none : Kind.all.find? (fun k => k.canonicalMap == w) = none := by
    rw [List.find?_eq_none]
    intro k _ same
    rw [← eq_of_beq same, typed.rooted.map k] at found
    cases found
  rw [kindOfMap, none]
  rfl

/-- Every entity has the canonical map of its kind, but for objects, which may have an instance
map. -/
theorem Typed.mapOf (typed : Typed strict Γ h) (found : Γ w.toNat = some x)
    (finished : x.finished = true) : ∃ m, h.mapOf w = .ok m ∧ h.word w.toNat = m ∧
      (m = x.kind.canonicalMap ∨
        x = .object ∧ Γ m.toNat = some .instanceMap ∧ m.toNat < w.toNat) := by
  obtain ⟨_, _, room, _⟩ := typed.inside found
  have first := typed.holds found 0 room
  refine ⟨_, typed.load (i := 0) found room, rfl, ?_⟩
  cases x with
  | draft => cases finished
  | object =>
    rcases first with canonical | instance_
    · exact .inl canonical
    · exact .inr ⟨rfl, instance_⟩
  | _ => exact .inl first

/-- The map of an entity tells whether it can be called. -/
theorem Typed.mapFlags (typed : Typed strict Γ h) (found : Γ w.toNat = some x)
    (finished : x.finished = true) : ∃ m, h.mapOf w = .ok m ∧
      h.load m Layout.Map.flags = .ok (.int (Shape.mapFlags x.kind)) := by
  obtain ⟨m, mapped, _, map⟩ := typed.mapOf found finished
  refine ⟨m, mapped, ?_⟩
  rcases map with rfl | ⟨rfl, instance_, _⟩
  · have map := typed.rooted.map x.kind
    have flags : h.word (x.kind.canonicalMap.toNat + 8 * 1) = .int (Shape.mapFlags x.kind) :=
      typed.holds map 1 (by decide : 1 < 5)
    have loaded := typed.load map (i := 1) (by decide : 1 < 5)
    rwa [flags] at loaded
  · have flags : h.word (m.toNat + 8 * 1) = .int Layout.Map.plain :=
      typed.holds instance_ 1 (by decide : 1 < 5)
    have loaded := typed.load instance_ (i := 1) (by decide : 1 < 5)
    rwa [flags] at loaded

/-- The map of an entity tells its kind. -/
theorem Typed.kind (typed : Typed strict Γ h) (found : Γ w.toNat = some x)
    (finished : x.finished = true) : h.kind? w = some x.kind := by
  obtain ⟨m, _, first, map⟩ := typed.mapOf found finished
  have room := (typed.inside found).2.2.1
  rw [((typed.spans found).mono (m := 0 + 1) (by omega)).kind typed.sound, first]
  rcases map with canonical | ⟨rfl, instance_, _⟩
  · rw [canonical, kindOfMap_canonical]
  · rw [typed.kindOfMap_instance instance_]
    rfl

end FastPath.Heap
