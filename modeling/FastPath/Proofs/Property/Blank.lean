import FastPath.Proofs.Heap.Appending
import FastPath.Proofs.Heap.Typing
import FastPath.Proofs.Property.Operations

/-! Objects among words that were just put behind the cursor. Their storage is one of the new
fields, and the first property of a dictionary goes to its first item. -/

namespace FastPath

namespace Heap

variable {h h' : Heap} {ws : List Word} {j q n : Nat} {f : Int} {k : Kind}

/-- An object at the `j`-th of the new words, with a field at the `q`-th one as its storage. -/
structure Houses (ws : List Word) (a j q n : Nat) (k : Kind) (f : Int) : Prop where
  like : k.objectLike = true
  map : ws[j]? = some k.canonicalMap
  flags : ws[j + 1]? = some (.int f)
  storage : ws[j + 2]? = some (.pointer (a + 8 * q))
  field : ws[q]? = some Kind.field.canonicalMap
  length : ws[q + 1]? = some (.int n)
  fits : Word.Fits f
  few : n < 0x4000000000000
  apart : j + 3 ≤ q
  inside : q + n + 2 ≤ ws.length

variable (houses : Houses ws h.region.cursor j q n k f) (appends : Appends h ws h')

include houses

/-- Words that are neither those of the header nor those of the field's header may be written. -/
theorem Houses.set {i : Nat} {w : Word} (behind : q + 2 ≤ i) :
    Houses (ws.set i w) h.region.cursor j q n k f := by
  obtain ⟨like, map, flags, storage, field, length, fits, few, apart, inside⟩ := houses
  have other {d : Nat} (before : d < q + 2) : (ws.set i w)[d]? = ws[d]? :=
    List.getElem?_set_ne (by omega)
  refine ⟨like, ?_, ?_, ?_, ?_, ?_, fits, few, apart, ?_⟩
  · rw [other (by omega), map]
  · rw [other (by omega), flags]
  · rw [other (by omega), storage]
  · rw [other (by omega), field]
  · rw [other (by omega), length]
  · rwa [List.length_set]

include appends

theorem Appends.storageOf : h'.storageOf (.pointer (h.region.cursor + 8 * j)) =
    .pointer (h.region.cursor + 8 * q) := by
  have apart := houses.apart
  have inside := houses.inside
  rw [Heap.storageOf, appends.toNat_place (by omega), ← appends.holds _ _ houses.storage]
  congr 1

theorem Appends.slots : h'.slots (.pointer (h.region.cursor + 8 * j)) = n := by
  have inside := houses.inside
  have few := houses.few
  have length := appends.holds _ _ houses.length
  rw [Nat.mul_add, ← Nat.add_assoc] at length
  rw [Heap.slots, appends.storageOf houses, appends.toNat_place (by omega), Layout.Field.length,
    length, Word.int?_natCast (by omega)]
  rfl

theorem Appends.flagged (mask : Int) : h'.flagged (.pointer (h.region.cursor + 8 * j)) mask =
    Bits.overlap f mask := by
  have apart := houses.apart
  have inside := houses.inside
  have flags := appends.holds _ _ houses.flags
  rw [Nat.mul_add, ← Nat.add_assoc] at flags
  rw [Heap.flagged, appends.toNat_place (by omega), Layout.Object.flags, flags,
    Word.int?_int houses.fits]
  rfl

theorem Appends.slotWord {i : Nat} {w : Word} (held : ws[q + 2 + i]? = some w) :
    h'.slotWord (.pointer (h.region.cursor + 8 * j)) i = w := by
  have inside := houses.inside
  rw [Heap.slotWord, slotAddress, appends.storageOf houses, slotOffset_eq,
    appends.toNat_place (by omega), ← appends.holds _ _ held]
  congr 1
  omega

theorem Appends.backed : h'.Backed (.pointer (h.region.cursor + 8 * j)) := by
  have apart := houses.apart
  have inside := houses.inside
  have storage := appends.storageOf houses
  have slots := appends.slots houses
  have place := appends.toNat_place (j := j) (by omega)
  have place' := appends.toNat_place (j := q) (by omega)
  have flags := appends.holds _ _ houses.flags
  have length := appends.holds _ _ houses.length
  rw [Nat.mul_add, ← Nat.add_assoc] at flags length
  constructor
  · exact appends.spans (by omega)
  · rw [isObjectLike, Heap.kind?, Heap.mapOf, Layout.map, ← Nat.mul_zero 8,
      appends.load (d := 0) houses.map]
    change (some (kindOfMap k.canonicalMap)).any Kind.objectLike = true
    rw [kindOfMap_canonical]
    exact houses.like
  · rw [place, Layout.Object.flags, flags]
    exact ⟨f, Word.int?_int houses.fits⟩
  · rw [storage, Heap.kind?, Heap.mapOf, Layout.map, ← Nat.mul_zero 8,
      appends.load (d := 0) houses.field]
    rfl
  · have few := houses.few
    rw [storage, slots, place', Layout.Field.length, length]
    exact Word.int?_natCast (by omega)
  · rw [storage, slots]
    exact appends.spans (by omega)
  · rw [storage, slots, place, place']
    omega

/-- A dictionary with nothing but holes in its storage has no properties, and its first item is
free. -/
theorem Appends.blank_items {key : Word} (dictionary : Bits.overlap f Layout.Object.dense = false)
    (some_ : 3 ≤ n) (blank : ∀ i < n, ws[q + 2 + i]? = some .hole) (real : key ≠ .hole) :
    h'.own (.pointer (h.region.cursor + 8 * j)) key = none ∧
      h'.itemOf (.pointer (h.region.cursor + 8 * j)) .hole = some 0 := by
  have slots := appends.slots houses
  have flagged := appends.flagged houses Layout.Object.dense
  have holes (i : Nat) (bound : i < h'.items (.pointer (h.region.cursor + 8 * j))) :
      h'.key (.pointer (h.region.cursor + 8 * j)) i = .hole := by
    have known := (item_position bound).2.1
    rw [slots] at known
    rw [Heap.key, appends.slotWord houses (blank _ known)]
  have room : 0 < h'.items (.pointer (h.region.cursor + 8 * j)) := by
    rw [items, slots, Layout.Item.words]
    omega
  constructor
  · rw [own, flagged, dictionary, if_neg Bool.false_ne_true, itemOf_none.mpr]
    · rfl
    · intro i bound same
      exact real (same.symm.trans (holes i bound))
  · exact itemOf_some.mpr ⟨room, holes 0 room, fun i before => absurd before (Nat.not_lt_zero i)⟩

/-- The words with a property in the first item of the field. -/
def firstProperty (ws : List Word) (q : Nat) (key value : Word) : List Word :=
  ((ws.set (q + 2) key).set (q + 4) (.int Layout.Pair.data)).set (q + 3) value

end Heap

open Heap

/-- The first property of a blank dictionary takes the first item. -/
theorem Property.set_first {s : State ρ} {h : Heap} {ws : List Word} {j q n : Nat} {k : Kind}
    {f : Int} {o key v : Word} (houses : Houses ws h.region.cursor j q n k f)
    (appends : h.Appends ws s.machine.heap) (place : o = .pointer (h.region.cursor + 8 * j))
    (dictionary : Bits.overlap f Layout.Object.dense = false) (some_ : 3 ≤ n)
    (blank : ∀ i < n, ws[q + 2 + i]? = some .hole) (real : key ≠ .hole) (invoke : Invoke ρ) :
    ∃ h', Property.set invoke o key v s = .ok .undefined (s.withHeap h') ∧
      h.Appends (firstProperty ws q key v) h' ∧ h'.atoms = s.machine.heap.atoms ∧
      h'.region = s.machine.heap.region ∧
      ∀ c, c % 8 = 0 → c < h.region.cursor + 8 * (q + 2) ∨ h.region.cursor + 8 * (q + 5) ≤ c →
        h'.word c = s.machine.heap.word c := by
  subst place
  have sound := appends.sound
  have backed := appends.backed houses
  have flagged := appends.flagged houses Layout.Object.dense
  have storage := appends.storageOf houses
  have inside := houses.inside
  obtain ⟨absent, free⟩ := appends.blank_items houses dictionary some_ blank real
  have own := backed.ownSlot (k := key) sound
  rw [absent] at own
  -- the three words of the item, in the order in which they are written
  have first := appends.store (j := q) (d := 2) (w := key) (by omega)
  have appends₁ := appends.put (i := q + 2) (w := key) (by omega)
  have second := appends₁.store (j := q) (d := 4) (w := .int Layout.Pair.data)
    (by rw [List.length_set]; omega)
  have appends₂ := appends₁.put (i := q + 4) (w := .int Layout.Pair.data)
    (by rw [List.length_set]; omega)
  have houses₂ := (houses.set (i := q + 2) (w := key) (Nat.le_refl _)).set (i := q + 4)
    (w := .int Layout.Pair.data) (by omega)
  have loaded := appends₂.load (j := j) (d := 2) houses₂.storage
  have third := appends₂.store (j := q) (d := 3) (w := v)
    (by rw [List.length_set, List.length_set]; omega)
  have appends₃ := appends₂.put (i := q + 3) (w := v)
    (by rw [List.length_set, List.length_set]; omega)
  refine ⟨_, ?_, appends₃, rfl, rfl, fun c part outside => ?_⟩
  · have claimed := claimItem?_eq (k := key) sound backed (flagged.trans dictionary)
    rw [free] at claimed
    dsimp only at claimed
    rw [storage] at claimed
    have stamped : stampItem (.pointer (h.region.cursor + 8 * q)) 0 key s.machine.heap = _ :=
      (estate_bind_of_ok first).trans ((estate_bind_of_ok second).trans rfl)
    have taken : claim (.pointer (h.region.cursor + 8 * j)) key none s = _ :=
      estate_bind_of_ok (Exec.onHeap_ok (claimed.trans stamped))
    rw [set_adds invoke v backed.kind own]
    have stored : storeSlot (.pointer (h.region.cursor + 8 * j)) (.item 0) v _ = _ :=
      (estate_bind_of_ok (query_ok loaded)).trans third
    exact (estate_bind_of_ok taken).trans (estate_bind_of_ok (Exec.onHeap_ok stored))
  · have aligned := appends.aligned
    rw [word_put_other (by omega) part (by omega), word_put_other (by omega) part (by omega),
      word_put_other (by omega) part (by omega)]

end FastPath
