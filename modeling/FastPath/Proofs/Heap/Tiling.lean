import FastPath.Proofs.Heap.Typing

/-! The words of a region that were handed out, as a sequence of entities without gaps. Every heap
that some inventory types is such a sequence. -/

namespace FastPath

/-- How many words an entity of the kind has. Fields and functions have as many slots as were asked
for. -/
def Kind.Sized : Kind → Nat → Prop
  | .map, n => n = 5
  | .object, n => n = 3
  | .accessPair, n => n = 4
  | .field, n => 2 ≤ n
  | .function, n => 7 ≤ n
  | .code, n | .boolean, n | .oddball, n | .atom, n => n = 2

/-- Words that were handed out together, to an entity of the kind or, if there is none, to one whose
maker failed. -/
structure Extent where
  start : Nat
  words : Nat
  kind : Option Kind

namespace Heap

/-- From the address on, the extents follow each other up to the cursor, and each begins with a map
of its kind. -/
def Tiles (h : Heap) : Nat → List Extent → Prop
  | a, [] => a = h.region.cursor
  | a, e :: es => e.start = a ∧ 0 < e.words ∧
      (∀ k, e.kind = some k → h.kind? (.pointer a) = some k ∧ k.Sized e.words) ∧
      h.Tiles (a + 8 * e.words) es

/-- How many map entities there are. -/
def mapCount (es : List Extent) : Nat := es.countP fun e => e.kind = some .map

theorem Tiles.inside {h : Heap} {a : Nat} {es : List Extent} (tiles : h.Tiles a es) :
    ∀ e ∈ es, a ≤ e.start ∧ e.start % 8 = a % 8 ∧ e.start + 8 * e.words ≤ h.region.cursor := by
  have bounded {a : Nat} {es : List Extent} (tiles : h.Tiles a es) : a ≤ h.region.cursor := by
    induction es generalizing a with
    | nil => exact Nat.le_of_eq tiles
    | cons e es ih =>
      have rest := ih tiles.2.2.2
      omega
  induction es generalizing a with
  | nil => nofun
  | cons e es ih =>
    obtain ⟨rfl, _, _, rest⟩ := tiles
    intro e' member
    rcases List.mem_cons.mp member with rfl | later
    · exact ⟨Nat.le_refl _, rfl, bounded rest⟩
    · obtain ⟨behind, aligned, fits⟩ := ih rest e' later
      omega

end Heap

/-- What there is to see of an entity at the address. -/
def Shape.extent (x : Shape) (a : Nat) : Extent :=
  { start := a, words := x.words, kind := if x.finished then some x.kind else none }

theorem Shape.isSome_extent (x : Shape) (a : Nat) : (x.extent a).kind.isSome = x.finished := by
  unfold extent
  cases x.finished <;> rfl

theorem Shape.sized {x : Shape} (finished : x.finished = true) : x.kind.Sized x.words := by
  cases x with
  | draft => cases finished
  | field slots guarded => exact Nat.le_add_left 2 slots
  | function slots => exact Nat.le_add_left 7 slots
  | _ => rfl

namespace Heap

variable {strict shared : Bool} {Γ : Inventory shared} {h : Heap} {a : Nat}

theorem Typed.kind_at (typed : Typed strict Γ h) (found : Γ a = some x)
    (finished : x.finished = true) : h.kind? (.pointer a) = some x.kind :=
  typed.kind (by rwa [typed.toNat_pointer found]) finished

/-- The entities from a boundary on. -/
theorem Typed.tiles_from (typed : Typed strict Γ h) (start : 8 ≤ a) (aligned : a % 8 = 0)
    (below : a ≤ h.region.cursor) (boundary : ∀ b x, Γ b = some x → b < a → b + 8 * x.words ≤ a) :
    ∃ es, h.Tiles a es ∧ ∀ e, e ∈ es ↔ ∃ b x, a ≤ b ∧ Γ b = some x ∧ e = x.extent b := by
  induction left : h.region.cursor - a using Nat.strongRecOn generalizing a with
  | ind n ih =>
    rcases Nat.eq_or_lt_of_le below with last | more
    · refine ⟨[], last, fun e => ⟨nofun, ?_⟩⟩
      rintro ⟨b, x, behind, found, _⟩
      have inside := typed.inside found
      omega
    · obtain ⟨b, x, found, before, behind⟩ := typed.covers start aligned more
      obtain rfl : b = a := by
        by_contra apart
        have short := boundary b x found (Nat.lt_of_le_of_ne before apart)
        omega
      obtain ⟨_, _, room, fits⟩ := typed.inside found
      have next (c : Nat) (y : Shape) (known : Γ c = some y) (earlier : c < b + 8 * x.words) :
          c + 8 * y.words ≤ b + 8 * x.words := by
        rcases Nat.lt_trichotomy c b with before | rfl | later
        · have short := boundary c y known before
          omega
        · cases found.symm.trans known
          exact Nat.le_refl _
        · have beyond := typed.apart found known later
          omega
      obtain ⟨es, tiles, members⟩ := ih (h.region.cursor - (b + 8 * x.words)) (by omega)
        (a := b + 8 * x.words) (by omega) (by omega) fits next rfl
      refine ⟨x.extent b :: es, ⟨rfl, room, fun k same => ?_, tiles⟩, fun e => ?_⟩
      · unfold Shape.extent at same
        split at same
        next finished =>
          cases same
          exact ⟨typed.kind_at found finished, Shape.sized finished⟩
        next => cases same
      · rw [List.mem_cons, members]
        constructor
        · rintro (rfl | ⟨c, y, beyond, known, rfl⟩)
          · exact ⟨b, x, Nat.le_refl b, found, rfl⟩
          · exact ⟨c, y, by omega, known, rfl⟩
        · rintro ⟨c, y, beyond, known, rfl⟩
          rcases Nat.eq_or_lt_of_le beyond with rfl | later
          · cases found.symm.trans known
            exact .inl rfl
          · exact .inr ⟨c, y, typed.apart found known later, known, rfl⟩

/-- The region is tiled by the entities of the inventory. -/
theorem Typed.tiles (typed : Typed strict Γ h) : ∃ es, h.Tiles 8 es ∧
    ∀ e, e ∈ es ↔ ∃ a x, Γ a = some x ∧ e = x.extent a := by
  have first (a : Nat) (x : Shape) (found : Γ a = some x) (before : a < 8) :
      a + 8 * x.words ≤ 8 := by
    have start := (typed.inside found).1
    omega
  obtain ⟨es, tiles, members⟩ := typed.tiles_from (Nat.le_refl 8) rfl typed.sound.start first
  refine ⟨es, tiles, fun e => (members e).trans ⟨?_, ?_⟩⟩
  · rintro ⟨a, x, _, found, same⟩
    exact ⟨a, x, found, same⟩
  · rintro ⟨a, x, found, same⟩
    exact ⟨a, x, (typed.inside found).1, found, same⟩

end Heap

end FastPath
