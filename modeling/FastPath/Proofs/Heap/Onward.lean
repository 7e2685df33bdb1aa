import FastPath.Property.Storage
import FastPath.Proofs.Outcome
import FastPath.Proofs.Heap.Reservation

/-! What no action on a heap can undo. The cursor goes forward only, from word boundary to word
boundary and never beyond the limit, the region stays as large as it is, and interned names keep
their numbers. This holds of every word and every address that an action is given. -/

namespace FastPath.Heap

/-- The heap `h'` is `h` after some actions. -/
structure Onward (h h' : Heap) : Prop where
  cursor : h.region.cursor ≤ h'.region.cursor
  aligned : h.region.cursor % 8 = 0 → h'.region.cursor % 8 = 0
  bounded : h.region.cursor ≤ h.region.limit → h'.region.cursor ≤ h'.region.limit
  limit : h'.region.limit = h.region.limit
  size : h'.words.size = h.words.size
  atoms : h.atoms <+: h'.atoms

variable {h h' h'' : Heap}

theorem Onward.refl (h : Heap) : Onward h h :=
  ⟨Nat.le_refl _, id, id, rfl, rfl, List.prefix_rfl⟩

theorem Onward.trans (first : Onward h h') (second : Onward h' h'') : Onward h h'' := by
  constructor
  · exact Nat.le_trans first.cursor second.cursor
  · exact fun aligned => second.aligned (first.aligned aligned)
  · exact fun bounded => second.bounded (first.bounded bounded)
  · exact second.limit.trans first.limit
  · exact second.size.trans first.size
  · exact first.atoms.trans second.atoms

/-- Actions that lead onward, whether they return or fail. -/
def Advances (act : HeapM α) : Prop :=
  ∀ h, Yields act h (fun _ => Onward h) fun _ => Onward h

namespace Advances

theorem pure (a : α) : Advances (pure a) := fun h => .pure (.refl h)

theorem throw (e : HeapError) : Advances (throw e : HeapM α) := fun h => .throw (.refl h)

theorem bind {act : HeapM α} {next : α → HeapM β} (first : Advances act)
    (rest : ∀ a, Advances (next a)) : Advances (act >>= next) := by
  intro h
  apply Yields.bind
  apply (first h).mono
  · intro a h' onward
    exact (rest a h').mono (fun _ _ => onward.trans) fun _ _ => onward.trans
  · exact fun _ _ onward => onward

theorem query (f : Heap → Except HeapError α) : Advances (query f) := by
  intro h
  rw [Yields, Heap.query]
  split
  next a h' done =>
    split at done
    · cases done
      exact .refl h
    · cases done
  next e h' failed =>
    split at failed
    · cases failed
    · cases failed
      exact .refl h

theorem get : Advances (get : HeapM Heap) := fun h => .of_ok rfl (.refl h)

end Advances

theorem write_advances (address : Nat) (w : Word) : Advances (write address w) := by
  intro h
  rw [Yields, write]
  by_cases inside : h.hasWord address = true
  · rw [if_pos inside]
    exact { Onward.refl h with size := Array.size_setIfInBounds }
  · rw [if_neg inside]
    exact .refl h

theorem store_advances (base : Word) (offset : Nat) (w : Word) : Advances (store base offset w) :=
  (Advances.query _).bind fun _ => write_advances _ w

theorem fillWords_advances (w : Word) (count address : Nat) :
    Advances (fillWords w count address) := by
  induction count generalizing address with
  | zero => exact .pure ()
  | succ count ih => exact (write_advances address w).bind fun _ => ih _

theorem fill_advances (start stop : Nat) (w : Word) : Advances (fill start stop w) :=
  fillWords_advances w _ start

theorem reserve_advances (size : Nat) : Advances (reserve size) := by
  intro h
  rw [Yields, reserve_eq]
  have rounded := roundUp_mod size
  by_cases fits : h.Fits size
  · rw [if_pos fits]
    constructor
    · exact Nat.le_add_right _ _
    · intro aligned
      change (h.region.cursor + roundUp size) % 8 = 0
      omega
    · exact fun _ => fits.2
    · rfl
    · rfl
    · exact List.prefix_rfl
  · rw [if_neg fits]
    exact .refl h

theorem moveCursor_advances (cursor : Nat) : Advances (moveCursor cursor) := by
  intro h
  rw [Yields, moveCursor, Region.moveTo?]
  by_cases fits : cursor % 8 = 0 ∧ h.region.cursor ≤ cursor ∧ cursor ≤ h.region.limit
  · rw [if_pos fits]
    obtain ⟨aligned, forward, bounded⟩ := fits
    exact ⟨forward, fun _ => aligned, fun _ => bounded, rfl, rfl, List.prefix_rfl⟩
  · rw [if_neg fits]
    exact .refl h

theorem allocate_advances (k : Kind) (size : Nat) : Advances (allocate k size) :=
  (reserve_advances _).bind fun _ => (store_advances _ _ _).bind fun _ => .pure _

theorem allocateField_advances (slots : Nat) : Advances (allocateField slots) := by
  apply (allocate_advances _ _).bind
  intro w
  cases Word.ofInt? slots with
  | none => exact .throw _
  | some length =>
    apply (store_advances _ _ _).bind
    intro _
    apply (Advances.query _).bind
    intro a
    exact (fill_advances _ _ _).bind fun _ => .pure w

/-- A new name comes after all that are there. -/
theorem atom_advances (name : String) : Advances (atom name) := by
  apply Advances.get.bind
  intro h
  dsimp only
  cases h.atoms.lookup name with
  | some w => exact .pure w
  | none =>
    apply (allocate_advances _ _).bind
    intro w
    by_cases room : h.atoms.length < 0x80000000
    · simp only [if_pos room]
      have noted : Advances (modify fun h => { h with atoms := h.atoms ++ [(name, w)] }) :=
        fun h => .of_ok rfl { Onward.refl h with atoms := List.prefix_append _ _ }
      exact (store_advances _ _ _).bind fun _ => noted.bind fun _ => .pure w
    · simp only [if_neg room]
      exact .throw _

/-! Accesses to storages. -/

theorem storeSlot_advances (o : Word) (s : Slot) (w : Word) : Advances (storeSlot o s w) :=
  (Advances.query _).bind fun _ => store_advances _ _ _

theorem clearSlot_advances (o : Word) (s : Slot) : Advances (clearSlot o s) := by
  apply (Advances.query _).bind
  intro storage
  cases s with
  | dense => exact store_advances _ _ _
  | item =>
    exact (store_advances _ _ _).bind fun _ => (store_advances _ _ _).bind fun _ =>
      store_advances _ _ _

theorem copySlots_advances (source target : Word) (count index : Nat) :
    Advances (copySlots source target count index) := by
  induction count generalizing index with
  | zero => exact .pure ()
  | succ count ih =>
    exact (Advances.query _).bind fun w => (store_advances _ _ w).bind fun _ => ih _

theorem enlarge_advances (o : Word) (old : Option Word) (items : Nat) :
    Advances (enlarge o old items) := by
  apply (allocateField_advances _).bind
  intro storage
  cases old with
  | none => exact (Advances.pure ()).bind fun _ => (store_advances _ _ _).bind fun _ => .pure _
  | some old =>
    exact (copySlots_advances _ _ _ _).bind fun _ => (store_advances _ _ _).bind fun _ => .pure _

theorem claimItem?_advances (o k : Word) : Advances (claimItem? o k) := by
  apply (Advances.query _).bind
  intro dense
  cases dense with
  | true => exact .pure none
  | false =>
    have key (storage : Word) (item : Nat) : Advances (do
        store storage (itemOffset item Layout.Item.key) k
        store storage (itemOffset item Layout.Item.attributes) (.int Layout.Pair.data)
        return some (Slot.item item)) :=
      (store_advances _ _ _).bind fun _ => (store_advances _ _ _).bind fun _ => .pure _
    apply (Advances.query _).bind
    intro known
    obtain _ | known := known
    on_goal 1 => refine (enlarge_advances _ _ _).bind fun storage => ?_
    on_goal 2 => refine (Advances.pure known).bind fun storage => ?_
    -- from here on it does not matter where the storage comes from
    all_goals
      apply (Advances.query _).bind
      intro length
      apply (Advances.query _).bind
      intro free
      cases free with
      | some item => exact key storage item
      | none => exact (enlarge_advances _ _ _).bind fun larger => key larger _

end FastPath.Heap
