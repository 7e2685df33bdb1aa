import FastPath.Proofs.Property.Backing

/-! Ledgers: which entities were handed out, and how many words each of them was given. Entities lie
below the cursor and beside each other, so what is written to one of them is not seen in another. -/

namespace FastPath

/-- The bytes that an entity of the kind has at least. -/
def Kind.size : Kind → Nat
  | .map => Layout.Map.size
  | .boolean => Layout.Boolean.size
  | .field => Layout.Field.size 0
  | .object => Layout.Object.size
  | .function => Layout.Function.size 0
  | .accessPair => Layout.Pair.size
  | .code => Layout.Code.size
  | .oddball => Layout.Oddball.size
  | .atom => Layout.Atom.size

theorem Kind.size_objectLike {k : Kind} (object : k.objectLike = true) : 24 ≤ k.size := by
  cases k with
  | object | function => decide
  | _ => cases object

theorem Kind.size_pos (k : Kind) : 8 ≤ k.size := by
  cases k with
  | _ => decide

/-- The address and the number of words of each entity. -/
abbrev Ledger := List (Nat × Nat)

namespace Heap

/-- The entities of the ledger lie below the cursor and do not overlap. -/
structure Booked (h : Heap) (ledger : Ledger) : Prop where
  sound : h.Sound
  inside : ∀ e ∈ ledger, 8 ≤ e.1 ∧ e.1 % 8 = 0 ∧ e.1 + 8 * e.2 ≤ h.region.cursor
  apart : ∀ e ∈ ledger, ∀ f ∈ ledger, e.1 < f.1 → e.1 + 8 * e.2 ≤ f.1

/-- The start of an entity of the ledger that was given the words of its kind. -/
def Whole (h : Heap) (ledger : Ledger) (w : Word) : Prop :=
  ∃ k n, h.kind? w = some k ∧ (w.toNat, n) ∈ ledger ∧ k.size ≤ 8 * n

/-- A field of the ledger that was given as many slots as it says. -/
def Filed (h : Heap) (ledger : Ledger) (w : Word) : Prop :=
  ∃ slots : Nat, (w.toNat, slots + 2) ∈ ledger ∧
    (h.word (w.toNat + Layout.Field.length)).int? = some (slots : Int)

/-- Whatever field an object has for its storage was given the slots that it says. -/
structure Stocked (h : Heap) (ledger : Ledger) : Prop extends Booked h ledger where
  fields : ∀ o, h.Whole ledger o → h.isObjectLike o = true →
    h.kind? (h.storageOf o) = some .field → h.Filed ledger (h.storageOf o)

variable {h : Heap} {ledger : Ledger} {o w : Word} {a b m n : Nat}

theorem Booked.spans (booked : h.Booked ledger) (listed : (w.toNat, n) ∈ ledger) : h.Spans w n := by
  obtain ⟨start, aligned, fits⟩ := booked.inside _ listed
  exact ⟨start, aligned, fits⟩

/-- Entities with different addresses lie beside each other. -/
theorem Booked.beside (booked : h.Booked ledger) (listed : (a, m) ∈ ledger)
    (listed' : (b, n) ∈ ledger) (other : a ≠ b) : a + 8 * m ≤ b ∨ b + 8 * n ≤ a := by
  rcases Nat.lt_or_gt_of_ne other with before | behind
  · exact .inl (booked.apart _ listed _ listed' before)
  · exact .inr (booked.apart _ listed' _ listed behind)

theorem kind_of_objectLike (object : h.isObjectLike o = true) :
    ∃ k : Kind, h.kind? o = some k ∧ k.objectLike = true := by
  unfold isObjectLike at object
  cases kind : h.kind? o with
  | none =>
    rw [kind] at object
    cases object
  | some k =>
    rw [kind] at object
    exact ⟨k, rfl, object⟩

/-- Entities that are no objects have other addresses than objects. -/
theorem ne_of_objectLike {k : Kind} (object : h.isObjectLike o = true) (kind : h.kind? w = some k)
    (other : k.objectLike = false) : o.toNat ≠ w.toNat := by
  intro same
  obtain ⟨k', kind', like⟩ := kind_of_objectLike object
  rw [Word.ext_toNat same] at kind'
  cases kind.symm.trans kind'
  cases other.symm.trans like

/-- An object of the ledger has room for its header. -/
theorem Whole.object (whole : h.Whole ledger o) (object : h.isObjectLike o = true) :
    ∃ n, (o.toNat, n) ∈ ledger ∧ 3 ≤ n := by
  obtain ⟨k, n, kind, listed, size⟩ := whole
  obtain ⟨k', kind', like⟩ := kind_of_objectLike object
  obtain rfl : k = k' := Option.some.inj (kind.symm.trans kind')
  have least := Kind.size_objectLike like
  exact ⟨n, listed, by omega⟩

theorem Whole.spans (whole : h.Whole ledger o) (booked : h.Booked ledger)
    (object : h.isObjectLike o = true) : h.Spans o 3 := by
  obtain ⟨n, listed, room⟩ := whole.object object
  exact (booked.spans listed).mono room

theorem whole_iff : h.Whole ledger w ↔ ∃ e ∈ ledger, ∃ k ∈ Kind.all, e.1 = w.toNat ∧
    h.kind? w = some k ∧ k.size ≤ 8 * e.2 := by
  constructor
  · rintro ⟨k, n, kind, listed, size⟩
    exact ⟨_, listed, k, k.mem_all, rfl, kind, size⟩
  · rintro ⟨⟨a, n⟩, listed, k, _, rfl, kind, size⟩
    exact ⟨k, n, kind, listed, size⟩

instance : Decidable (h.Whole ledger w) := decidable_of_iff _ whole_iff.symm

theorem filed_iff : h.Filed ledger w ↔ ∃ e ∈ ledger, e.1 = w.toNat ∧ 2 ≤ e.2 ∧
    (h.word (w.toNat + Layout.Field.length)).int? = some ((e.2 - 2 : Nat) : Int) := by
  constructor
  · rintro ⟨slots, listed, length⟩
    exact ⟨_, listed, rfl, Nat.le_add_left 2 slots, length⟩
  · rintro ⟨⟨a, n⟩, listed, rfl, header, length⟩
    obtain ⟨slots, rfl⟩ : ∃ slots, n = slots + 2 := ⟨n - 2, by omega⟩
    exact ⟨slots, listed, length⟩

instance : Decidable (h.Filed ledger w) := decidable_of_iff _ filed_iff.symm

/-- An object of the ledger with a storage of the ledger has it to itself. -/
theorem Booked.backed (booked : h.Booked ledger) (whole : h.Whole ledger o)
    (object : h.isObjectLike o = true)
    (flags : ∃ n, (h.word (o.toNat + Layout.Object.flags)).int? = some n)
    (field : h.kind? (h.storageOf o) = some .field) (filed : h.Filed ledger (h.storageOf o)) :
    h.Backed o ∧ ((h.storageOf o).toNat, h.slots o + 2) ∈ ledger := by
  obtain ⟨n, listed, room⟩ := whole.object object
  obtain ⟨slots, listed', length⟩ := filed
  have count : h.slots o = slots := by
    rw [Heap.slots, length]
    rfl
  have beside := booked.beside listed listed' (ne_of_objectLike object field rfl)
  refine ⟨⟨(booked.spans listed).mono room, object, flags, field, ?_, ?_, ?_⟩, ?_⟩
  · rw [length, count]
  · rw [count]
    exact booked.spans listed'
  · rw [count]
    omega
  · rw [count]
    exact listed'

end Heap

end FastPath
