import FastPath.Heap.Allocation
import FastPath.Proofs.Traversal
import FastPath.Proofs.Word

/-! The heap as a map from addresses to words. Every access inside a span of allocated words
succeeds, and what it does is said by `word` and `put` alone. -/

namespace FastPath

namespace Heap

/-- The word at an address, whether or not it may be read. -/
def word (h : Heap) (a : Nat) : Word := h.words.getD (a / 8) default

def put (h : Heap) (a : Nat) (w : Word) : Heap :=
  { h with words := h.words.setIfInBounds (a / 8) w }

/-- The cursor stands at a word boundary of a region that the words make up, in a heap that can be
addressed. -/
structure Sound (h : Heap) : Prop where
  aligned : h.region.cursor % 8 = 0
  start : 8 ≤ h.region.cursor
  bounded : h.region.cursor ≤ h.region.limit
  backed : h.region.limit ≤ h.capacity
  small : h.capacity < 0x8000000000000000

theorem Sound.limited {h : Heap} (sound : h.Sound) : h.region.limit < 0x8000000000000000 :=
  Nat.lt_of_le_of_lt sound.backed sound.small

/-- `w` points to `n` words that were handed out. -/
structure Spans (h : Heap) (w : Word) (n : Nat) : Prop where
  start : 8 ≤ w.toNat
  aligned : w.toNat % 8 = 0
  fits : w.toNat + 8 * n ≤ h.region.cursor

variable {h h' : Heap} {a b d n : Nat} {v w : Word}

@[simp] theorem region_put : (h.put a w).region = h.region := rfl

@[simp] theorem capacity_put : (h.put a w).capacity = h.capacity := by
  simp [capacity, put]

theorem hasWord_iff : h.hasWord a = true ↔ 8 ≤ a ∧ a % 8 = 0 ∧ a + 8 ≤ h.capacity := by
  simp [hasWord, and_assoc]

theorem word_put_same (inside : h.hasWord a = true) : (h.put a w).word a = w := by
  obtain ⟨_, _, fits⟩ := hasWord_iff.mp inside
  have bound : a / 8 < h.words.size := by
    unfold capacity at fits
    omega
  simp [word, put, bound]

theorem word_put_other (aligned : a % 8 = 0) (aligned' : b % 8 = 0) (other : b ≠ a) :
    (h.put a w).word b = h.word b := by
  have apart : a / 8 ≠ b / 8 := by omega
  simp [word, put, Array.getElem?_setIfInBounds_ne apart]

theorem put_comm (aligned : a % 8 = 0) (aligned' : b % 8 = 0) (other : a ≠ b) :
    (h.put a v).put b w = (h.put b w).put a v := by
  have apart : a / 8 ≠ b / 8 := by omega
  simp only [put]
  rw [Array.setIfInBounds_comm _ _ apart]

theorem read_eq (inside : h.hasWord a = true) : h.read a = .ok (h.word a) := by
  rw [read, if_pos inside]
  rfl

theorem write_eq (inside : h.hasWord a = true) : write a w h = .ok () (h.put a w) := by
  rw [write, if_pos inside]
  rfl

theorem Sound.put (sound : h.Sound) : (h.put a w).Sound :=
  ⟨sound.aligned, sound.start, sound.bounded, capacity_put.symm ▸ sound.backed,
    capacity_put.symm ▸ sound.small⟩

theorem query_ok {f : Heap → Except HeapError α} {x : α} (read : f h = .ok x) :
    query f h = .ok x h := by
  rw [query, read]

theorem addressOf_aligned (start : 8 ≤ w.toNat) (aligned : w.toNat % 8 = 0) :
    addressOf w = .ok w.toNat := by
  unfold addressOf
  rw [Word.address?_aligned aligned]
  split
  · contradiction
  next zero =>
    have zero := Option.some.inj zero
    omega
  next same => rw [Option.some.inj same]

theorem unsigned_ok (small : n < 0x10000000000000000) : unsigned n = .ok n := if_pos small

/-- An offset that stays within 64 bits is added to the address. -/
theorem load_eq (address : addressOf w = .ok a) (small : a + d < 0x10000000000000000) :
    h.load w d = h.read (a + d) := by
  rw [load, address]
  change (do h.read (← unsigned (a + d))) = _
  rw [unsigned_ok small]
  rfl

theorem store_eq (address : addressOf w = .ok a) (small : a + d < 0x10000000000000000) :
    store w d v h = write (a + d) v h := by
  have place : (do unsigned ((← addressOf w) + d)) = Except.ok (a + d) := by
    rw [address]
    exact unsigned_ok small
  rw [store, estate_bind_of_ok (query_ok place)]

/-- A sum beyond 64 bits ends the program before anything is written. -/
theorem store_overflow (address : addressOf w = .ok a) (large : ¬ a + d < 0x10000000000000000) :
    store w d v h = .error (.overflow (a + d)) h := by
  have place : (do unsigned ((← addressOf w) + d)) = Except.error (.overflow (a + d)) := by
    rw [address]
    exact if_neg large
  have stopped : query (fun _ => do unsigned ((← addressOf w) + d)) h =
      .error (.overflow (a + d)) h := by
    rw [query, place]
  exact estate_bind_of_error stopped

theorem loadInt_ok {n : Int} (read : h.loadInt w d = .ok n) :
    ∃ x, h.load w d = .ok x ∧ x.int? = some n := by
  obtain ⟨x, loaded, read⟩ := except_bind_ok.mp read
  cases int : x.int? with
  | none => simp [int] at read
  | some m =>
    simp only [int] at read
    cases read
    exact ⟨x, loaded, int⟩

namespace Spans

theorem hasWord (spans : h.Spans w n) (sound : h.Sound) (part : d % 8 = 0)
    (inside : d < 8 * n) : h.hasWord (w.toNat + d) = true := by
  obtain ⟨start, aligned, fits⟩ := spans
  have bounded := sound.bounded
  have backed := sound.backed
  exact hasWord_iff.mpr ⟨by omega, by omega, by omega⟩

/-- Words that were handed out can be addressed. -/
theorem small (spans : h.Spans w n) (sound : h.Sound) (inside : d < 8 * n) :
    w.toNat + d < 0x10000000000000000 := by
  have fits := spans.fits
  have bounded := sound.bounded
  have backed := sound.backed
  have small := sound.small
  omega

theorem load (spans : h.Spans w n) (sound : h.Sound) (part : d % 8 = 0)
    (inside : d < 8 * n) : h.load w d = .ok (h.word (w.toNat + d)) := by
  have address := addressOf_aligned spans.start spans.aligned
  rw [load_eq address (spans.small sound inside)]
  exact read_eq (spans.hasWord sound part inside)

theorem store (spans : h.Spans w n) (sound : h.Sound) (part : d % 8 = 0)
    (inside : d < 8 * n) : store w d v h = .ok () (h.put (w.toNat + d) v) := by
  have address := addressOf_aligned spans.start spans.aligned
  rw [store_eq address (spans.small sound inside)]
  exact write_eq (spans.hasWord sound part inside)

theorem mono (spans : h.Spans w n) (fewer : m ≤ n) : h.Spans w m :=
  ⟨spans.start, spans.aligned, by have := spans.fits; omega⟩

theorem put (spans : h.Spans w n) : (h.put a v).Spans w n :=
  ⟨spans.start, spans.aligned, spans.fits⟩

theorem later (spans : h.Spans w n) (cursor : h.region.cursor ≤ h'.region.cursor) :
    h'.Spans w n :=
  ⟨spans.start, spans.aligned, Nat.le_trans spans.fits cursor⟩

end Spans

/-- The kind of the entities with the map `m`. -/
def kindOfMap (m : Word) : Kind := (Kind.all.find? (fun k => k.canonicalMap == m)).getD .object

theorem Spans.kind (spans : h.Spans w (n + 1)) (sound : h.Sound) :
    h.kind? w = some (kindOfMap (h.word w.toNat)) := by
  have map : h.mapOf w = .ok (h.word w.toNat) := spans.load sound rfl (by simp [Layout.map])
  rw [kind?, map]
  rfl

/-- The kind of an entity depends on its first word only. -/
theorem kind?_congr (capacity : h'.capacity = h.capacity)
    (same : h'.word w.toNat = h.word w.toNat) :
    h'.kind? w = h.kind? w := by
  have read : h'.read w.toNat = h.read w.toNat := by
    simp only [Heap.read, Heap.hasWord, capacity]
    rw [← word, ← word, same]
    rfl
  have map : h'.mapOf w = h.mapOf w := by
    cases address : addressOf w with
    | error e => simp only [mapOf, Heap.load, address, bind, Except.bind]
    | ok a =>
      have place : a = w.toNat := by
        unfold addressOf Word.address? at address
        split at address
        · cases address
        · cases address
        next found =>
          split at found
          · cases found
          · cases found
            cases address
            rfl
      cases place
      rw [mapOf, mapOf, load_eq address w.toNat_lt, load_eq address w.toNat_lt]
      exact read
  rw [kind?, kind?, map]

theorem kind?_int (int : w.isInt = true) : h.kind? w = none := by
  have map : h.mapOf w = .error (.notPointer w) := by
    simp [mapOf, load, addressOf, Word.address?, int, bind, Except.bind]
  rw [kind?, map]

theorem isPair_int (int : w.isInt = true) : h.isPair w = false := by
  rw [isPair, kind?_int int]
  rfl

end Heap

end FastPath
