import FastPath.Proofs.Property.Accesses
import FastPath.Proofs.Property.Write

/-! What a write to one object leaves as it was. All other entities keep their words, but for the
slots of the object's storage; and a function keeps the pair of accessors that it holds, whatever
object is written to, as plain values do not get past it. -/

namespace FastPath

namespace Heap

variable {h h' h₁ : Heap} {f o k key v : Word} {a i : Nat}

/-- What an object holds is said by its storage alone. -/
theorem lookup_shared (shared : h.storageOf f = h.storageOf o) :
    h.lookup f key = h.lookup o key := by
  have slot : h.slotWord f = h.slotWord o := by
    funext j
    rw [slotWord, slotAddress, shared, slotWord, slotAddress]
  have length : h.slots f = h.slots o := by rw [slots, shared, slots]
  have value_ : h.value f = h.value o := by
    funext j
    rw [Heap.value, slot, Heap.value]
  simp only [lookup, itemOf, items, Heap.key, slot, length, value_]

theorem lookup_kept (storage : h'.storageOf f = h.storageOf f)
    (words : ∀ i < h.slots f + 2, h'.word ((h.storageOf f).toNat + 8 * i) =
      h.word ((h.storageOf f).toNat + 8 * i)) : h'.lookup f key = h.lookup f key := by
  have length : h'.slots f = h.slots f := by
    rw [slots, storage]
    exact congrArg (fun w => (Word.int? w |>.getD 0).toNat) (words 1 (by omega))
  have slot (j : Nat) (inside : j < h.slots f) : h'.slotWord f j = h.slotWord f j :=
    slotWord_kept storage words inside
  rw [lookup, lookup, itemOf_congr length slot]
  refine Option.map_congr fun i found => ?_
  exact slot _ (item_position (itemOf_some.mp found).1).1

/-- An item that never had the key does not matter to what is held under it. -/
theorem Rewritten.lookup_other (rewritten : Rewritten h o i k v h') (other : k ≠ key)
    (old : h.key o i ≠ key) : h'.lookup o key = h.lookup o key := by
  refine Option.ext fun w => ?_
  simp only [lookup, Option.map_eq_some_iff, itemOf_some, items, rewritten.slots, rewritten.key,
    rewritten.value]
  refine exists_congr fun j => ?_
  by_cases here : j = i
  · subst here
    simp only [if_true]
    exact ⟨fun held => absurd held.1.2.1 other, fun held => absurd held.1.2.1 old⟩
  · simp only [if_neg here]
    refine and_congr_left fun _ => and_congr_right fun _ => and_congr_right fun _ => ?_
    refine forall_congr' fun l => imp_congr_right fun _ => ?_
    by_cases there : l = i
    · subst there
      rw [if_pos rfl]
      exact ⟨fun _ => old, fun _ => other⟩
    · rw [if_neg there]

/-- A bigger storage holds the same under every key. -/
theorem Enlarged.lookup (enlarged : Enlarged h o h') (real : key ≠ .hole) :
    h'.lookup o key = h.lookup o key := by
  have more := enlarged.more
  refine Option.ext fun w => ?_
  simp only [Heap.lookup, Option.map_eq_some_iff, itemOf_some, enlarged.items]
  rw [enlarged.items] at more
  refine exists_congr fun j => ?_
  constructor
  · rintro ⟨⟨inside, found, first⟩, held⟩
    rw [enlarged.key inside] at found
    rw [enlarged.value inside] at held
    by_cases old : j < h.items o
    · rw [if_pos old] at found held
      refine ⟨⟨old, found, fun l before => ?_⟩, held⟩
      have unlike := first l before
      rwa [enlarged.key (by omega), if_pos (by omega)] at unlike
    · rw [if_neg old] at found
      exact absurd found.symm real
  · rintro ⟨⟨inside, found, first⟩, held⟩
    refine ⟨⟨by omega, ?_, fun l before => ?_⟩, ?_⟩
    · rw [enlarged.key (by omega), if_pos inside, found]
    · rw [enlarged.key (by omega), if_pos (by omega)]
      exact first l before
    · rw [enlarged.value (by omega), if_pos inside, held]

/-- When the storage has moved, only the word that says so has changed. -/
theorem Enlarged.kept_behind (enlarged : Enlarged h o h₁) (rewritten : Rewritten h₁ o i k v h')
    (part : a % 8 = 0) (below : a < h.region.cursor) (other : a ≠ o.toNat + Layout.Object.storage) :
    h'.word a = h.word a := by
  rw [rewritten.kept a part (.inl (by rw [enlarged.storage]; omega)), enlarged.kept a part below
    other]

variable {strict shared guarded : Bool} {Γ : Inventory shared} {x : Shape} {pair : Word}

/-- What an object holds is found by its items alone. -/
theorem Typed.own_eq (typed : Typed strict Γ h) (housed : Γ.Housed o guarded) (k : Word) :
    h.own o k = (h.itemOf o k).map .item :=
  Heap.own_eq (typed.no_dense housed) k

/-- Only slots of fields and the words that say where they are matter to what an object holds. -/
theorem Typed.lookup_stays (typed : Typed strict Γ h) (housed : Γ.Housed o guarded)
    (kept : ∀ a x i, Γ a = some x → i < x.words → (∃ slots guarded, x = .field slots guarded) ∨
      i = 2 → h'.word (a + 8 * i) = h.word (a + 8 * i)) : h'.lookup o key = h.lookup o key := by
  obtain ⟨x, found, room, _⟩ := housed_shape housed
  have field := typed.storage housed
  refine lookup_kept (kept _ _ 2 found room (.inr rfl)) fun i inside => ?_
  exact kept _ _ i field (by simp only [Shape.words]; omega) (.inl ⟨_, _, rfl⟩)

/-- Words of other entities lie outside of the slots of the object. -/
theorem Typed.outside (typed : Typed strict Γ h) (housed : Γ.Housed o guarded)
    (found : Γ a = some x) (inside : i < x.words) (other : a ≠ (h.storageOf o).toNat) :
    a + 8 * i < (h.storageOf o).toNat + 16 ∨
      (h.storageOf o).toNat + 8 * (h.slots o + 2) ≤ a + 8 * i := by
  have field := typed.storage housed
  obtain ⟨_, aligned, _, _⟩ := typed.inside found
  obtain ⟨_, aligned', _, _⟩ := typed.inside field
  by_contra within
  rw [not_or, Nat.not_lt, Nat.not_le] at within
  have here : a + 8 * i = (h.storageOf o).toNat +
      8 * ((a + 8 * i - (h.storageOf o).toNat) / 8) := by omega
  exact other (typed.same_place found field inside (by simp only [Shape.words]; omega) here).1

/-- Of the words of all entities but fields only the one that says where the storage is may change
when the object is written to. -/
theorem Typed.written_word (typed : Typed strict Γ h) (housed : Γ.Housed o guarded)
    (written : h.Written o k v h') (found : Γ a = some x) (inside : i < x.words)
    (plain : ∀ slots guarded, x ≠ .field slots guarded) (place : a ≠ o.toNat ∨ i ≠ 2) :
    h'.word (a + 8 * i) = h.word (a + 8 * i) := by
  obtain ⟨y, found', room, _⟩ := housed_shape housed
  obtain ⟨_, aligned, _, fits⟩ := typed.inside found
  have other : a ≠ (h.storageOf o).toNat := by
    rintro rfl
    exact plain _ _ (Option.some.inj (found.symm.trans (typed.storage housed)))
  have outside := typed.outside housed found inside other
  refine written.keeps.words _ (by omega) (by omega) fun p only => ?_
  rw [List.mem_singleton.mp only]
  rintro (same | ⟨behind, before⟩)
  · obtain ⟨rfl, rfl⟩ := typed.same_place found found' inside (j := 2) (by omega) same
    exact place.elim (absurd rfl) (absurd rfl)
  · simp only [Layout.Field.data] at behind
    omega

section

variable (typed : Typed strict Γ h) (housed : Γ.Housed o guarded) (function : Γ.Housed f true)

include typed housed function

/-- An item of one object is rewritten. If its storage is that of the function, then the item has
not got the key. -/
theorem Typed.rewritten_lookup (rewritten : Rewritten h o i k v h')
    (unlike : h.storageOf f = h.storageOf o → k ≠ key ∧ h.key o i ≠ key) :
    h'.lookup f key = h.lookup f key := by
  obtain ⟨x, found, room, _, objectLike, _⟩ := housed_shape function
  obtain ⟨_, aligned, _, _⟩ := typed.inside found
  have field := typed.storage function
  obtain ⟨_, aligned', _, _⟩ := typed.inside field
  have storage : h'.storageOf f = h.storageOf f := by
    refine rewritten.kept (f.toNat + 8 * 2) (by omega) (typed.outside housed found (by omega) ?_)
    intro same
    cases found.symm.trans (same ▸ typed.storage housed)
    cases objectLike
  by_cases shared : h.storageOf f = h.storageOf o
  · obtain ⟨other, old⟩ := unlike shared
    have shared' : h'.storageOf f = h'.storageOf o := by rw [storage, shared, rewritten.storage]
    rw [lookup_shared shared', rewritten.lookup_other other old, lookup_shared shared]
  · refine lookup_kept storage fun j inside => rewritten.kept _ (by omega) ?_
    exact typed.outside housed field inside fun same => shared (Word.ext_toNat same)

/-- The storage of one object has moved, and an item of it is rewritten. If the object is the
function, then the item has not got the key. -/
theorem Typed.moved_lookup (enlarged : Enlarged h o h₁) (rewritten : Rewritten h₁ o i k v h')
    (real : key ≠ .hole) (unlike : f = o → k ≠ key ∧ h₁.key o i ≠ key) :
    h'.lookup f key = h.lookup f key := by
  by_cases same : f = o
  · obtain ⟨other, old⟩ := unlike same
    rw [same, rewritten.lookup_other other old, enlarged.lookup real]
  · obtain ⟨x, found, room, _⟩ := housed_shape function
    obtain ⟨y, found', room', _, objectLike, _⟩ := housed_shape housed
    obtain ⟨_, aligned, _, fits⟩ := typed.inside found
    have field := typed.storage function
    obtain ⟨_, aligned', _, fits'⟩ := typed.inside field
    have storage : h'.storageOf f = h.storageOf f := by
      refine enlarged.kept_behind rewritten (a := f.toNat + 8 * 2) (by omega) (by omega) ?_
      intro here
      exact same (Word.ext_toNat (typed.same_place found found' (by omega) (j := 2) (by omega)
        here).1)
    refine lookup_kept storage fun j inside => ?_
    simp only [Shape.words] at fits'
    refine enlarged.kept_behind rewritten (by omega) (by omega) fun here => ?_
    have apart := (typed.same_place field found' inside (j := 2) (by omega) here).1
    rw [apart, found'] at field
    cases field
    cases objectLike

/-- A plain value does not get past the pair of a function, so the function keeps the pair. -/
theorem Typed.written_lookup {pair : Word} (written : h.Written o k v h') (real : key ≠ .hole)
    (plain : h.isPair v = false) (free : ∀ i, h.own o k = some (.item i) →
      h.isPair v = true ∨ h.isPair (h.value o i) = false)
    (held : h.lookup f key = some pair) (paired : h.isPair pair = true) :
    h'.lookup f key = some pair := by
  rw [← held]
  -- the item that is found under the key holds the pair, which is in the way
  have other (shared : h.storageOf f = h.storageOf o) : k ≠ key := by
    rintro rfl
    rw [lookup_shared shared] at held
    obtain ⟨i, item, value⟩ := Option.map_eq_some_iff.mp held
    have taken := (free i (by rw [typed.own_eq housed, item]; rfl)).resolve_left (by simp [plain])
    rw [value, paired] at taken
    cases taken
  cases written with
  | old found rewritten =>
    refine typed.rewritten_lookup housed function rewritten fun shared => ⟨other shared, ?_⟩
    obtain ⟨i, _, same, key⟩ := typed.own_item housed found
    cases same
    exact key ▸ other shared
  | new absent opened rewritten =>
    have vacant := (itemOf_some.mp opened.itemOf_hole).2.1
    obtain ⟨_, rfl⟩ | ⟨_, _, enlarged⟩ := opened
    · exact typed.rewritten_lookup housed function rewritten fun shared =>
        ⟨other shared, vacant ▸ real.symm⟩
    · exact typed.moved_lookup housed function enlarged rewritten real fun same =>
        ⟨other (by rw [same]), vacant ▸ real.symm⟩

end

end Heap

open Heap

/-- A write changes nothing, or stores the value, unless a pair is in the way of it. -/
theorem Property.set_writes {strict shared : Bool} {Γ : Inventory shared} {s : State ρ}
    {o k : Word} (typed : Typed strict Γ s.machine.heap) (obj : Γ.Value o) (v : Word)
    (calls : Invoke ρ) (free : ∀ guarded i, Γ.Housed o guarded →
      s.machine.heap.own o k = some (.item i) →
      s.machine.heap.isPair v = true ∨ s.machine.heap.isPair (s.machine.heap.value o i) = false) :
    Yields (Property.set calls o k v) s
      (fun _ t => t = s ∨ ∃ guarded h, Γ.Housed o guarded ∧ t = s.withHeap h ∧
        s.machine.heap.Written o k v h)
      fun _ t => t = s := by
  by_cases object : s.machine.heap.isObjectLike o = true
  · obtain ⟨guarded, housed⟩ := typed.objectLike obj object
    have backed := typed.backed housed
    cases found : s.machine.heap.own o k with
    | none =>
      rcases set_absent rfl typed.sound backed calls v found (typed.no_dense housed) with
        ⟨e, failed⟩ | ⟨i, h₁, h, opened, rewritten, written⟩
      · exact .of_error failed rfl
      · exact .of_ok written (.inr ⟨guarded, h, housed, rfl, .new found opened rewritten⟩)
    | some sl =>
      obtain ⟨i, bound, rfl, key⟩ := typed.own_item housed found
      have rewritten := Rewritten.overwrite typed.sound backed bound v
      rw [key] at rewritten
      exact .of_ok (set_own rfl typed.sound backed found (free guarded i housed found))
        (.inr ⟨guarded, _, housed, rfl, .old found rewritten⟩)
  · have ran : Property.set calls o k v s = .ok .undefined s := by
      rw [Property.set, estate_bind_of_ok (Exec.heap_ok s), if_neg object]
      rfl
    exact .of_ok ran (.inl rfl)

end FastPath
