import FastPath.InlineCache

/-! What an inline cache remembers: the slot that was last recorded under a map, for as long as it
remembers the map at all. -/

namespace FastPath.InlineCache

namespace Cells

variable {c : Cells} {e : Entry} {i : Nat}

theorem length_used (c : Cells) : c.used.length = c.length := by
  rw [used, List.length_take, Vector.length_toList]
  exact Nat.min_eq_left c.fits

theorem used_overwrite : (c.overwrite i e).used = c.used.set i e := by
  rw [used, overwrite, Vector.toList_setIfInBounds, List.take_set]
  rfl

theorem used_push (room : c.length < capacity) : (c.push e room).used = c.used ++ [e] := by
  have held : c.length < c.entries.toList.length := by
    rw [Vector.length_toList]
    exact room
  rw [used, push, Vector.toList_set, List.take_add_one, List.getElem?_set_self held,
    List.take_set_of_le (Nat.le_refl _)]
  rfl

end Cells

/-- The slot of a map among some entries. -/
def slotOf (l : List Entry) (m : Word) : Option Nat := (l.find? fun e => e.map == m).map Entry.slot

section SlotOf

variable {l : List Entry} {m n : Word} {x y i : Nat}

theorem slotOf_cons (e : Entry) : slotOf (e :: l) n =
    if e.map = n then some e.slot else slotOf l n := by
  rw [slotOf, List.find?_cons]
  by_cases here : e.map = n
  · rw [beq_iff_eq.mpr here, if_pos here]
    rfl
  · rw [beq_eq_false_iff_ne.mpr here, if_neg here]
    rfl

/-- A map that is seen again takes the new slot. -/
theorem slotOf_overwritten (seen : l.findIdx? (fun e => e.map == m) = some i)
    (found : slotOf (l.set i ⟨m, x⟩) n = some y) :
    n = m ∧ y = x ∨ n ≠ m ∧ slotOf l n = some y := by
  induction l generalizing i with
  | nil => cases seen
  | cons e l ih =>
    rw [List.findIdx?_cons] at seen
    by_cases same : e.map = m
    · rw [beq_iff_eq.mpr same, if_pos rfl] at seen
      cases seen
      rw [List.set_cons_zero, slotOf_cons] at found
      rw [slotOf_cons]
      by_cases here : m = n
      · rw [if_pos here] at found
        exact .inl ⟨here.symm, (Option.some.inj found).symm⟩
      · rw [if_neg here] at found
        rw [if_neg (same ▸ here)]
        exact .inr ⟨Ne.symm here, found⟩
    · rw [beq_eq_false_iff_ne.mpr same, if_neg Bool.false_ne_true] at seen
      obtain ⟨j, later, rfl⟩ := Option.map_eq_some_iff.mp seen
      rw [List.set_cons_succ, slotOf_cons] at found
      rw [slotOf_cons]
      by_cases here : e.map = n
      · rw [if_pos here] at found ⊢
        exact .inr ⟨here ▸ same, found⟩
      · rw [if_neg here] at found ⊢
        exact ih later found

/-- A new map comes behind the others. -/
theorem slotOf_appended (new : ∀ e ∈ l, e.map ≠ m)
    (found : slotOf (l ++ [⟨m, x⟩]) n = some y) :
    n = m ∧ y = x ∨ n ≠ m ∧ slotOf l n = some y := by
  induction l with
  | nil =>
    rw [List.nil_append, slotOf_cons] at found
    by_cases here : m = n
    · rw [if_pos here] at found
      exact .inl ⟨here.symm, (Option.some.inj found).symm⟩
    · rw [if_neg here] at found
      cases found
  | cons e l ih =>
    obtain ⟨other, new⟩ := List.forall_mem_cons.mp new
    rw [List.cons_append, slotOf_cons] at found
    rw [slotOf_cons]
    by_cases here : e.map = n
    · rw [if_pos here] at found ⊢
      exact .inr ⟨here ▸ other, found⟩
    · rw [if_neg here] at found ⊢
      exact ih new found

end SlotOf

namespace State

variable {s : State} {m n : Word} {x y : Nat}

theorem lookup_eq (s : State) (m : Word) : s.lookup m = slotOf s.entries m := rfl

theorem lookup_record (found : (s.record m x).lookup n = some y) :
    n = m ∧ y = x ∨ n ≠ m ∧ s.lookup n = some y := by
  rw [lookup_eq] at found ⊢
  cases s with
  | uninitialized => exact slotOf_appended (l := []) nofun found
  | monomorphic e =>
    rw [record] at found
    by_cases seen : e.map = m
    · rw [if_pos seen] at found
      refine slotOf_overwritten (l := [e]) (i := 0) ?_ found
      rw [List.findIdx?_cons, beq_iff_eq.mpr seen, if_pos rfl]
    · rw [if_neg seen] at found
      exact slotOf_appended (l := [e]) (by simpa using seen) found
  | polymorphic c =>
    rw [record] at found
    cases seen : c.used.findIdx? fun e => e.map == m with
    | some i =>
      simp only [seen, entries, Cells.used_overwrite] at found
      exact slotOf_overwritten seen found
    | none =>
      have new : ∀ e ∈ c.used, e.map ≠ m := by simpa using seen
      simp only [seen] at found
      split at found
      · rw [entries, Cells.used_push] at found
        exact slotOf_appended new found
      · cases found
  | megamorphic => cases found

end State

namespace Table

variable {t : Table} {i j : CacheId} {m n : Word} {x y : Nat}

theorem state_record : (t.record i m x).state j =
    if j = i then (t.state i).record m x else t.state j := by
  rw [record, state, List.lookup_cons]
  by_cases same : j = i
  · simp only [same, beq_self_eq_true, if_true, Option.getD_some]
  · have other : (t.states.filter fun p => p.1 != i).lookup j = t.states.lookup j := by
      induction t.states with
      | nil => rfl
      | cons p l ih =>
        by_cases here : p.1 = i
        · rw [List.filter_cons_of_neg (by simpa using here), ih, List.lookup_cons,
            beq_eq_false_iff_ne.mpr (here ▸ same)]
        · rw [List.filter_cons_of_pos (by simpa using here), List.lookup_cons, List.lookup_cons, ih]
    rw [beq_eq_false_iff_ne.mpr same, if_neg same, other]
    rfl

/-- A cache remembers what was just recorded, or what it remembered before. -/
theorem lookup_record (found : ((t.record i m x).state j).lookup n = some y) :
    j = i ∧ n = m ∧ y = x ∨ ¬ (j = i ∧ n = m) ∧ (t.state j).lookup n = some y := by
  rw [state_record] at found
  by_cases same : j = i
  · rw [if_pos same] at found
    obtain ⟨here, value⟩ | ⟨other, before⟩ := State.lookup_record found
    · exact .inl ⟨same, here, value⟩
    · exact .inr ⟨fun both => other both.2, same ▸ before⟩
  · rw [if_neg same] at found
    exact .inr ⟨fun both => same both.1, found⟩

end Table

end FastPath.InlineCache
