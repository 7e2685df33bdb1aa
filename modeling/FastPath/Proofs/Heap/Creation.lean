import FastPath.Proofs.Heap.Typing

/-! The heap that everything starts from is typed. What is laid out does not depend on the size of
the region, so one look at the smallest region that has room is enough. -/

namespace FastPath.Heap

/-- The second heap has more room, and the words of the first. -/
structure Wider (h H : Heap) : Prop where
  cursor : H.region.cursor = h.region.cursor
  limit : h.region.limit ≤ H.region.limit
  capacity : h.capacity ≤ H.capacity
  atoms : H.atoms = h.atoms
  words : ∀ a, h.hasWord a = true → H.word a = h.word a

/-- The action does not mind more room, and leaves the room as it is. -/
def Scales (act : HeapM α) : Prop :=
  ∀ h H, Wider h H → ∀ a h', act h = .ok a h' → ∃ H', act H = .ok a H' ∧ Wider h' H' ∧
    H'.region.limit = H.region.limit ∧ H'.capacity = H.capacity

namespace Scales

theorem pure (a : α) : Scales (pure a : HeapM α) := by
  intro h H wider b h' done
  cases done
  exact ⟨H, rfl, wider, rfl, rfl⟩

theorem bind {act : HeapM α} {next : α → HeapM β} (first : Scales act)
    (rest : ∀ a, Scales (next a)) : Scales (act >>= next) := by
  intro h H wider b h' done
  obtain ⟨a, h₁, ran, done⟩ := estate_bind_ok.mp done
  obtain ⟨H₁, ran', wider₁, limit, capacity⟩ := first h H wider a h₁ ran
  obtain ⟨H', done', wider', limit', capacity'⟩ := rest a h₁ H₁ wider₁ b h' done
  exact ⟨H', (estate_bind_of_ok ran').trans done', wider', limit'.trans limit,
    capacity'.trans capacity⟩

theorem reserve (size : Nat) : Scales (reserve size) := by
  intro h H wider a h' done
  obtain ⟨cursor, limit, capacity, atoms, words⟩ := wider
  rw [reserve_eq] at done ⊢
  split at done
  next fits =>
    cases done
    obtain ⟨small, room⟩ := fits
    rw [cursor, if_pos ⟨small, by omega⟩]
    refine ⟨_, rfl, ⟨?_, limit, capacity, atoms, words⟩, rfl, rfl⟩
    exact congrArg (· + roundUp size) cursor
  next => cases done

theorem write (a : Nat) (w : Word) : Scales (write a w) := by
  intro h H wider u h' done
  obtain ⟨cursor, limit, capacity, atoms, words⟩ := wider
  unfold Heap.write at done ⊢
  split at done
  next inside =>
    cases done
    obtain ⟨start, aligned, room⟩ := hasWord_iff.mp inside
    have inside' : H.hasWord a = true := hasWord_iff.mpr ⟨start, aligned, by omega⟩
    rw [if_pos inside']
    refine ⟨H.put a w, rfl, ⟨cursor, limit, ?_, atoms, fun b found => ?_⟩, rfl, capacity_put⟩
    · change (h.put a w).capacity ≤ _
      rwa [capacity_put, capacity_put]
    · have found : h.hasWord b = true := by
        obtain ⟨start, aligned, room⟩ := hasWord_iff.mp found
        exact hasWord_iff.mpr ⟨start, aligned, capacity_put (h := h) (a := a) (w := w) ▸ room⟩
      change (H.put a w).word b = (h.put a w).word b
      by_cases same : b = a
      · rw [same, word_put_same inside, word_put_same inside']
      · have aligned' := (hasWord_iff.mp found).2.1
        rw [word_put_other aligned aligned' same, word_put_other aligned aligned' same,
          words b found]
  next => cases done

theorem store (base : Word) (offset : Nat) (w : Word) : Scales (store base offset w) := by
  refine bind ?_ fun a => write _ w
  intro h H wider a h' done
  unfold query at done
  split at done
  next read =>
    cases done
    exact ⟨H, query_ok read, wider, rfl, rfl⟩
  next => cases done

theorem allocate (k : Kind) (size : Nat) : Scales (allocate k size) :=
  (reserve _).bind fun w => (store w _ _).bind fun _ => pure w

theorem forIn (xs : List α) {f : α → PUnit → HeapM (ForInStep PUnit)}
    (each : ∀ x u, Scales (f x u)) (u : PUnit) : Scales (ForIn.forIn xs u f) := by
  induction xs generalizing u with
  | nil => exact pure _
  | cons x xs ih =>
    rw [List.forIn_cons]
    refine (each x u).bind fun step => ?_
    cases step with
    | done u => exact pure u
    | yield u => exact ih u

theorem populate : Scales populate := by
  refine bind (forIn _ (fun _ _ => ?_) _) fun _ => bind (forIn _ (fun k _ => ?_) _) fun _ =>
    bind (forIn _ (fun which _ => ?_) _) fun _ => bind (forIn _ (fun truth _ => ?_) _) fun _ =>
    bind (forIn _ (fun k _ => ?_) _) fun _ => pure _
  · exact (reserve _).bind fun m => (store m _ _).bind fun _ => pure _
  · exact (store _ _ _).bind fun _ => (store _ _ _).bind fun _ => pure _
  · exact (allocate _ _).bind fun w => (store w _ _).bind fun _ => pure _
  · exact (allocate _ _).bind fun w => (store w _ _).bind fun _ => pure _
  · exact (store _ _ _).bind fun _ => (store _ _ _).bind fun _ => pure _

end Scales

/-- The words that every heap starts with, from the first on that is handed out. -/
def rootWords : List Word :=
  (Kind.all.flatMap fun k =>
    [Kind.map.canonicalMap, .int (Shape.mapFlags k), .null, .hole, .int 0]) ++
  [Layout.Oddball.undefined, Layout.Oddball.null, Layout.Oddball.hole].flatMap (fun which =>
    [Kind.oddball.canonicalMap, .int which]) ++
  [1, 0].flatMap fun truth => [Kind.boolean.canonicalMap, .int truth]

/-- The heap that fits the first entities and nothing else. -/
theorem populate_least : ∃ h, populate (blank 448) = .ok () h ∧ h.region.cursor = 448 ∧
    h.atoms = [] ∧ h.capacity = 448 ∧
    ∀ j < 55, h.word (8 * (j + 1)) = rootWords.getD j default := by
  obtain ⟨_, h, done, met⟩ : ∃ u h, populate (blank 448) = .ok u h ∧ h.region.cursor = 448 ∧
      h.atoms = [] ∧ h.capacity = 448 ∧
      ∀ j < 55, h.word (8 * (j + 1)) = rootWords.getD j default :=
    Yields.returns (by decide +kernel)
  exact ⟨h, done, met⟩

theorem populate_small : ∀ n < 56, ¬ ∃ u h, populate (blank (8 * n)) = .ok u h := by
  have facts : ∀ n < 56, Yields populate (blank (8 * n)) (fun _ _ => False) fun _ _ => True := by
    decide +kernel
  rintro n small ⟨u, h, done⟩
  exact (facts n small).ok done

theorem capacity_blank (size : Nat) : (blank size).capacity = roundUp size := by
  have rounded := roundUp_mod size
  simp only [blank, Heap.capacity, Array.size_replicate]
  omega

theorem blank_wider {size : Nat} (room : 448 ≤ roundUp size) : Wider (blank 448) (blank size) := by
  refine ⟨rfl, room, ?_, rfl, fun a inside => ?_⟩
  · rw [capacity_blank, capacity_blank]
    exact room
  · obtain ⟨_, _, bound⟩ := hasWord_iff.mp inside
    rw [capacity_blank] at bound
    have bound : a + 8 ≤ 448 := bound
    have first : a / 8 < roundUp size / 8 := by omega
    have second : a / 8 < roundUp 448 / 8 := by change a / 8 < 56; omega
    simp [word, blank, first, second]

/-- A heap can be made if the first entities fit. -/
theorem create_ok {size : Nat} (room : 448 ≤ roundUp size) : ∃ h, create size = .ok h := by
  obtain ⟨l, least, _⟩ := populate_least
  obtain ⟨h, done, _⟩ := Scales.populate _ _ (blank_wider room) _ _ least
  exact ⟨h, by rw [create, done]⟩

/-- Every heap is that one with more room. -/
theorem create_widens {h : Heap} {size : Nat} (created : create size = .ok h) :
    ∃ l, Wider l h ∧ l.region.cursor = 448 ∧ l.atoms = [] ∧ l.capacity = 448 ∧
      (∀ j < 55, l.word (8 * (j + 1)) = rootWords.getD j default) ∧
      h.region.limit = roundUp size ∧ h.capacity = roundUp size ∧ 448 ≤ roundUp size := by
  have populated : ∃ u, populate (blank size) = .ok u h := by
    unfold create at created
    split at created
    next u h' done =>
      cases created
      exact ⟨u, done⟩
    next => cases created
  obtain ⟨u, done⟩ := populated
  have aligned := roundUp_mod size
  have room : 448 ≤ roundUp size := by
    by_contra short
    have same : blank size = blank (8 * (roundUp size / 8)) := by
      have rounded : roundUp (8 * (roundUp size / 8)) = roundUp size := by
        rw [roundUp_of_mod (by omega)]
        omega
      rw [blank, blank, rounded]
    exact populate_small (roundUp size / 8) (by omega) ⟨u, h, same ▸ done⟩
  obtain ⟨l, least, cursor, atoms, capacity, words⟩ := populate_least
  obtain ⟨h', done', wider, limit, capacity'⟩ :=
    Scales.populate _ _ (blank_wider room) _ _ least
  obtain ⟨_, rfl⟩ := EStateM.Result.ok.inj (done'.symm.trans done)
  exact ⟨l, wider, cursor, atoms, capacity, words, limit,
    capacity'.trans (capacity_blank size), room⟩

theorem create_words {h : Heap} {size : Nat} (created : create size = .ok h)
    (small : size < 0x7ffffffffffffff8) : h.Sound ∧ h.region.cursor = 448 ∧ h.atoms = [] ∧
      ∀ j < 55, h.word (8 * (j + 1)) = rootWords.getD j default := by
  obtain ⟨l, wider, cursor, atoms, capacity, words, limit, capacity', room⟩ :=
    create_widens created
  have near := roundUp_lt size
  refine ⟨⟨?_, ?_, ?_, ?_, ?_⟩, wider.cursor.trans cursor, wider.atoms.trans atoms,
    fun j bound => ?_⟩
  · rw [wider.cursor, cursor]
  · rw [wider.cursor, cursor]
    decide
  · rw [wider.cursor, cursor, limit]
    exact room
  · exact Nat.le_of_eq (limit.trans capacity'.symm)
  · rw [capacity']
    omega
  · rw [wider.words _ (hasWord_iff.mpr ⟨by omega, by omega, by omega⟩), words j bound]

/-- What every heap starts with. -/
def rootShape (a : Nat) : Option Shape :=
  if a < 368 then if a % 40 = 8 then (Kind.all[a / 40]?).map .canonicalMap else none
  else if a = 368 ∨ a = 384 ∨ a = 400 then some .oddball
  else if a = 416 ∨ a = 432 then some .boolean
  else none

theorem kind_of_index : ∀ n < 9, ∃ k ∈ Kind.all, Kind.all[n]? = some k ∧ k.index = n := by
  decide

theorem rootShape_map (k : Kind) : rootShape (8 + 40 * k.index) = some (.canonicalMap k) := by
  cases k <;> rfl

theorem rootShape_cases {a : Nat} {x : Shape} (found : rootShape a = some x) :
    (∃ k : Kind, a = 8 + 40 * k.index ∧ x = .canonicalMap k) ∨
    (∃ i < 3, a = 368 + 16 * i ∧ x = .oddball) ∨ ∃ i < 2, a = 416 + 16 * i ∧ x = .boolean := by
  unfold rootShape at found
  split at found
  next below =>
    split at found
    next start =>
      obtain ⟨k, _, known, index⟩ := kind_of_index (a / 40) (by omega)
      rw [known] at found
      cases found
      exact .inl ⟨k, by omega, rfl⟩
    next => cases found
  next =>
    split at found
    next here =>
      cases found
      exact .inr (.inl ⟨(a - 368) / 16, by omega, by omega, rfl⟩)
    next =>
      split at found
      next here =>
        cases found
        exact .inr (.inr ⟨(a - 416) / 16, by omega, by omega, rfl⟩)
      next => cases found

theorem rootWords_map (k : Kind) :
    rootWords.getD (5 * k.index) default = Kind.map.canonicalMap ∧
    rootWords.getD (5 * k.index + 1) default = .int (Shape.mapFlags k) ∧
    rootWords.getD (5 * k.index + 2) default = .null ∧
    rootWords.getD (5 * k.index + 3) default = .hole ∧
    rootWords.getD (5 * k.index + 4) default = .int 0 := by
  cases k <;> decide

theorem rootWords_oddball : ∀ i < 3, rootWords.getD (45 + 2 * i) default =
    Kind.oddball.canonicalMap ∧ rootWords.getD (46 + 2 * i) default = .int i := by
  decide

theorem rootWords_boolean : ∀ i < 2, rootWords.getD (51 + 2 * i) default =
    Kind.boolean.canonicalMap ∧ rootWords.getD (52 + 2 * i) default = .int (1 - i) := by
  decide

/-- Nine maps, and then entities of two words each. -/
theorem rootShape_layout {a : Nat} {x : Shape} (found : rootShape a = some x) :
    (a < 368 ∧ a % 40 = 8 ∧ x.words = 5) ∨
      (368 ≤ a ∧ a < 448 ∧ a % 16 = 0 ∧ x.words = 2) := by
  rcases rootShape_cases found with ⟨k, rfl, rfl⟩ | ⟨i, small, rfl, rfl⟩ | ⟨i, small, rfl, rfl⟩
  · have below := k.index_lt
    exact .inl ⟨by omega, by omega, rfl⟩
  · exact .inr ⟨by omega, by omega, by omega, rfl⟩
  · exact .inr ⟨by omega, by omega, by omega, rfl⟩

/-- There are no properties yet, and no stubs. -/
theorem rootShape_plain {a : Nat} {x : Shape} (found : rootShape a = some x) : x ≠ .object ∧
    (∀ slots guarded, x ≠ .field slots guarded) ∧ x.isCode = false := by
  rcases rootShape_cases found with ⟨_, _, rfl⟩ | ⟨_, _, _, rfl⟩ | ⟨_, _, _, rfl⟩ <;>
    exact ⟨nofun, nofun, rfl⟩

/-- Every word belongs to one of them. -/
theorem rootShape_covers {a : Nat} (start : 8 ≤ a) (below : a < 448) :
    ∃ b x, rootShape b = some x ∧ b ≤ a ∧ a < b + 8 * x.words := by
  by_cases map : a < 368
  · obtain ⟨k, _, _, index⟩ := kind_of_index ((a - 8) / 40) (by omega)
    exact ⟨_, _, rootShape_map k, by omega, by simp only [Shape.words]; omega⟩
  · by_cases oddball : a < 416
    · refine ⟨368 + 16 * ((a - 368) / 16), .oddball, ?_, by omega,
        by simp only [Shape.words]; omega⟩
      rw [rootShape, if_neg (by omega), if_pos (by omega)]
    · refine ⟨416 + 16 * ((a - 416) / 16), .boolean, ?_, by omega,
        by simp only [Shape.words]; omega⟩
      rw [rootShape, if_neg (by omega), if_neg (by omega), if_pos (by omega)]

/-- Nothing that a heap starts with is shared more than anything else. -/
def rootInventory (shared : Bool) : Inventory shared := rootShape

theorem rootInventory_rooted (shared : Bool) : Rooted (rootInventory shared) := by
  refine ⟨fun k => ?_, rfl, rfl, rfl, fun b => ?_⟩
  · have below := k.index_lt
    rw [rootInventory, Kind.canonicalMap, Word.toNat_pointer (by omega), rootShape_map]
  · cases b <;> rfl

/-- The words of an entity that was there from the start stand in a row, as its shape has them. -/
theorem rootShape_accepts (shared : Bool) {a i : Nat} {x : Shape} (found : rootShape a = some x)
    (inside : i < x.words) : ∃ j < 55, a + 8 * i = 8 * (j + 1) ∧
      (x.content i).Accepts (rootInventory shared) a (rootWords.getD j default) := by
  have rooted := rootInventory_rooted shared
  rcases rootShape_cases found with ⟨k, rfl, rfl⟩ | ⟨j, low, rfl, rfl⟩ | ⟨j, low, rfl, rfl⟩
  · have below := k.index_lt
    obtain ⟨map, flags, proto, edges, transitions⟩ := rootWords_map k
    simp only [Shape.words] at inside
    refine ⟨5 * k.index + i, by omega, by omega, ?_⟩
    rcases i with _ | _ | _ | _ | _ | i
    · exact map
    · exact flags
    · exact proto
    · rw [edges]
      exact .inr ⟨_, rooted.hole, rfl⟩
    · exact transitions
    · omega
  · obtain ⟨map, number⟩ := rootWords_oddball j low
    simp only [Shape.words] at inside
    rcases i with _ | _ | i
    · exact ⟨45 + 2 * j, by omega, by omega, map⟩
    · refine ⟨46 + 2 * j, by omega, by omega, ?_⟩
      rw [number]
      exact ⟨j, Word.int?_natCast (by omega)⟩
    · omega
  · obtain ⟨map, truth⟩ := rootWords_boolean j low
    simp only [Shape.words] at inside
    rcases i with _ | _ | i
    · exact ⟨51 + 2 * j, by omega, by omega, map⟩
    · refine ⟨52 + 2 * j, by omega, by omega, ?_⟩
      rw [truth]
      exact ⟨1 - j, Word.int?_int ⟨by simp only [Word.minInt]; omega,
        by simp only [Word.maxInt]; omega⟩⟩
    · omega

/-- A fresh heap is typed. -/
theorem create_typed {h : Heap} {size : Nat} (created : create size = .ok h)
    (small : size < 0x7ffffffffffffff8) (strict shared : Bool) :
    Typed strict (rootInventory shared) h := by
  obtain ⟨sound, cursor, atoms, words⟩ := create_words created small
  constructor
  · exact sound
  · intro a x found
    rcases rootShape_layout found with place | place
    · omega
    · omega
  · intro a x b y found found' before
    rcases rootShape_layout found with place | place
    · rcases rootShape_layout found' with place' | place' <;> omega
    · rcases rootShape_layout found' with place' | place' <;> omega
  · intro a start _ below
    exact rootShape_covers start (cursor ▸ below)
  · intro a x found i inside
    obtain ⟨j, bound, same, accepts⟩ := rootShape_accepts shared found inside
    rwa [same, words j bound]
  · exact rootInventory_rooted shared
  · intro name w found
    rw [atoms] at found
    cases found
  · intro _ a slots found
    exact absurd rfl ((rootShape_plain found).2.1 slots true)
  · intro a found
    exact absurd rfl (rootShape_plain found).1

end FastPath.Heap
