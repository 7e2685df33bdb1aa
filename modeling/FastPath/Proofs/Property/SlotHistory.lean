import FastPath.Proofs.Property.CacheHistory

/-! A slot that was looked up is good for as long as its property is not deleted: through growths of
the storage, deletions of other properties and stores that go through the slot itself. -/

namespace FastPath

open Heap

/-- What may happen while a slot is remembered: a property access, or a store into the slot. -/
inductive Visit where
  | call (c : Call)
  | store (value : Word)

namespace Visit

/-- The access that a visit amounts to. -/
def access (o k : Word) : Visit → Call
  | .call c => c
  | .store value => ⟨o, k, .set value⟩

/-- The value that a visit stores under the property, through the property or through its slot. -/
def stored? (o k : Word) : Visit → Option Word
  | .call ⟨p, l, .set value⟩ => if p = o ∧ l = k then some value else none
  | .call _ => none
  | .store value => some value

/-- The value last stored under the property, which is the first one if none is. -/
def lastStored (o k : Word) (first : Word) (visits : List Visit) : Word :=
  visits.foldl (fun old visit => (visit.stored? o k).getD old) first

end Visit

/-- A run of visits that all return, and of which none deletes the property. -/
inductive Visits (calls : Invoke PropertyHost) (host : Host PropertyHost) (fuel : Nat)
    (store : Stub) (objs : List Word) (o k w : Word) :
    State PropertyHost → List Visit → State PropertyHost → Prop
  | nil : Visits calls host fuel store objs o k w s [] s
  | call : c.Allowed s.machine.heap objs → ¬ c.Deletes o k → c.run calls s = .ok x s' →
      Visits calls host fuel store objs o k w s' visits t →
      Visits calls host fuel store objs o k w s (.call c :: visits) t
  | store : s.machine.heap.Plain objs v →
      invoke host (fuel + 1) store .undefined [o, k, w, v] s = .ok x s' →
      Visits calls host fuel store objs o k w s' visits t →
      Visits calls host fuel store objs o k w s (.store v :: visits) t

variable {calls : Invoke PropertyHost} {host : Host PropertyHost} {fuel : Nat} {store : Stub}
  {objs : List Word} {o k w v x : Word} {s s' t : State PropertyHost} {visits : List Visit}
  {c : Call} {i : Nat}

/-- No setter runs in place of a write to a dictionary of plain values. -/
theorem Call.SetterQuiet.of_plain (family : s.machine.heap.Dictionaries objs)
    (allowed : c.Allowed s.machine.heap objs) : c.SetterQuiet calls objs s := by
  rintro v stub - ⟨j, setter, found, _, pair, _⟩
  obtain ⟨member, real, _⟩ := allowed
  obtain ⟨bound, key⟩ := item_of_own found
  have plain := (family.values _ member j bound (key ▸ real)).not_pair
  rw [plain] at pair
  cases pair

/-- A call that does not delete a property leaves it in its item. -/
theorem Call.keeps_item (family : s.machine.heap.Dictionaries objs)
    (allowed : c.Allowed s.machine.heap objs) (kept : ¬ c.Deletes o k)
    (done : c.run calls s = .ok x s') (member : o ∈ objs) (real : k ≠ .hole)
    (own : s.machine.heap.own o k = some (.item i)) :
    s'.machine.heap.Dictionaries objs ∧ s'.machine.heap.own o k = some (.item i) := by
  have quiet : c.SetterQuiet calls objs s := .of_plain family allowed
  have stays := (Call.step family.toSeparate quiet allowed.1).stays
  have after : c.after calls s = s' := by rw [Call.after, done, final]
  rw [after] at stays
  exact ⟨(Call.becomes family allowed done).family, stays.places o member k real kept _ own⟩

section

variable (is : SlotStub .store store) (slot : w.int? = some (i : Int)) (small : i < 0x100000000)
  (enough : 9 ≤ fuel) (member : o ∈ objs) (real : k ≠ .hole)

include is slot small enough member real

/-- A store into the slot is a write of the property. -/
theorem store_sets (family : s.machine.heap.Dictionaries objs)
    (own : s.machine.heap.own o k = some (.item i))
    (done : invoke host (fuel + 1) store .undefined [o, k, w, v] s = .ok x s') :
    Property.set calls o k v s = .ok .undefined s' := by
  have d := family.each o member
  obtain ⟨bound, key⟩ := item_of_own own
  have depth : s.machine.depth < s.machine.maxDepth := by
    by_contra deep
    rw [invoke_succ, Exec.nested_eq, if_neg deep] at done
    cases done
  have given : SlotArgs .store o k w v [o, k, w, v] := ⟨[v], rfl, fun _ => rfl⟩
  rw [storeSlot_ok family.sound d.toBacked d.data (own_suits own) (own_position own) slot small
    depth enough is given] at done
  cases done
  exact Property.set_own rfl family.sound d.toBacked own
    (.inr (family.values o member i bound (key ▸ real)).not_pair)

/-- A run of visits is a run of accesses, in which the property stays in its item. -/
theorem Visits.runs (ran : Visits calls host fuel store objs o k w s visits t)
    (family : s.machine.heap.Dictionaries objs)
    (own : s.machine.heap.own o k = some (.item i)) :
    Runs calls objs s (visits.map (Visit.access o k)) t ∧
      t.machine.heap.own o k = some (.item i) := by
  induction ran with
  | nil => exact ⟨.nil, own⟩
  | call allowed kept done _ ih =>
    obtain ⟨family', own'⟩ := Call.keeps_item family allowed kept done member real own
    obtain ⟨rest, last⟩ := ih family' own'
    exact ⟨.cons allowed done rest, last⟩
  | @store v s x s' visits t plain done _ ih =>
    have allowed : (⟨o, k, .set v⟩ : Call).Allowed s.machine.heap objs := by
      refine ⟨member, real, fun value same => ?_⟩
      cases same
      exact plain
    have set : (⟨o, k, .set v⟩ : Call).run calls s = .ok .undefined s' :=
      store_sets is slot small enough member real family own done
    have kept : ¬ (⟨o, k, .set v⟩ : Call).Deletes o k := by simp [Call.Deletes]
    obtain ⟨family', own'⟩ := Call.keeps_item family allowed kept set member real own
    obtain ⟨rest, last⟩ := ih family' own'
    exact ⟨.cons allowed set rest, last⟩

end

/-- A visit that does not delete the property leaves the value it stores, or the one before. -/
theorem Visit.replay_access {m : Contents} {visit : Visit}
    (kept : ¬ (visit.access o k).Deletes o k) (held : m o k = some x) :
    (visit.access o k).replay m o k = some ((visit.stored? o k).getD x) := by
  cases visit with
  | store value => simp [access, stored?, Call.replay, Call.result]
  | call c =>
    obtain ⟨p, l, act⟩ := c
    rw [access] at kept ⊢
    by_cases here : o = p ∧ k = l
    · obtain ⟨rfl, rfl⟩ := here
      cases act with
      | set value => simp [stored?, Call.replay, Call.result]
      | delete => exact absurd ⟨rfl, rfl, rfl⟩ kept
      | slot id update => cases update <;> simp [stored?, Call.replay, Call.result, held]
    · have missed : stored? o k (.call ⟨p, l, act⟩) = none := by
        cases act with
        | set value => exact if_neg fun same => here ⟨same.1.symm, same.2.symm⟩
        | delete | slot => rfl
      rw [Call.replay, if_neg here, missed, held]
      rfl

theorem Visits.replayed (ran : Visits calls host fuel store objs o k w s visits t) {m : Contents}
    (held : m o k = some x) :
    (visits.map (Visit.access o k)).foldl Call.replay m o k =
      some (Visit.lastStored o k x visits) := by
  induction ran generalizing m x with
  | nil => exact held
  | call _ kept _ _ ih => exact ih (Visit.replay_access kept held)
  | store _ _ _ ih =>
    refine ih (Visit.replay_access ?_ held)
    simp [Visit.access, Call.Deletes]

/-- A property keeps the slot in which it was found until it is deleted, and the slot holds the
value last stored under the property. -/
theorem property_keeps_slot {stubs : PropertyOp → Stub}
    (compiled : ∀ op : PropertyOp, op.Compiled (stubs op)) {s₀ : State PropertyHost}
    (family : s₀.machine.heap.Dictionaries objs) (member : o ∈ objs) (real : k ≠ .hole)
    (looked : PropertyHost.slot ic o k update s₀ = .ok w s) (found : w.isInt = true)
    (enough : 9 ≤ fuel) (ran : Visits calls host fuel (stubs .store) objs o k w s visits t) :
    ∃ (i : Nat) (x : Word), w.int? = some (i : Int) ∧
      s.machine.heap.ownSlot o k = .ok (some (.item i)) ∧
      s.machine.heap.ownValue? o k = .ok (some x) ∧
      t.machine.heap.Dictionaries objs ∧
      t.machine.heap.ownSlot o k = .ok (some (.item i)) ∧
      ∀ host self rest, invoke host (fuel + 1) (stubs .load) self (o :: k :: w :: rest) t =
        if t.machine.depth < t.machine.maxDepth then .ok (Visit.lastStored o k x visits) t
        else .error (.trap (.fatal .callDepth)) t := by
  have d₀ := family.each o member
  have looks : (⟨o, k, .slot ic update⟩ : Call).run calls s₀ = .ok w s := looked
  have family' := (Call.becomes family ⟨member, real, fun _ same => by cases same⟩ looks).family
  have d' := family'.each o member
  obtain ⟨_, _, _, sl, own, slot, small⟩ :=
    slot_placed family.sound d₀.toBacked d₀.data looked found
  obtain ⟨i, bound, key, rfl⟩ := (d'.own_iff real).mp own
  obtain ⟨runs, last⟩ := ran.runs (compiled .store).slotStub slot small enough member real family'
    own
  have held : s.machine.heap.lookup o k = some (s.machine.heap.value o i) :=
    (d'.lookup_iff real).mpr ⟨i, bound, key, rfl⟩
  have result := runs.becomes family' fun _ _ _ _ => rfl
  have d := result.family.each o member
  have holds := (result.contents o member k real).trans (ran.replayed held)
  obtain ⟨inside, named⟩ := item_of_own last
  have value : t.machine.heap.lookup o k = some (t.machine.heap.value o i) :=
    (d.lookup_iff real).mpr ⟨i, inside, named, rfl⟩
  refine ⟨i, s.machine.heap.value o i, slot, own ▸ d'.ownSlot family'.sound, ?_, result.family,
    last ▸ d.ownSlot result.family.sound, fun host self rest => ?_⟩
  · rw [d'.ownValue? family'.sound, held]
  · split
    next depth =>
      rw [← Option.some.inj (value.symm.trans holds)]
      exact loadSlot_ok result.family.sound d.toBacked d.data (own_suits last)
        (own_position last) slot small depth enough (compiled .load).slotStub (v := .hole)
        ⟨rest, rfl, fun same => by cases same⟩
    next deep => rw [invoke_succ, Exec.nested_eq, if_neg deep]

/-- The property keeps its slot while the storage grows for another one and the slot is written. -/
theorem openShelves_keep_slot : ∃ s t,
    PropertyHost.slot 5 (.pointer 448) (.int 1) true openShelves = .ok (.int 0) s ∧
    Visits (invoke PropertyHost.serve 9) .absent 9 PropertyOp.store.stub
      [.pointer 448, .pointer 512] (.pointer 448) (.int 1) (.int 0) s
      [.call ⟨.pointer 448, .int 2, .set (.int 20)⟩, .store (.int 7)] t ∧
    t.machine.heap.ownSlot (.pointer 448) (.int 1) = .ok (some (.item 0)) ∧
    invoke .absent 10 PropertyOp.load.stub .undefined [.pointer 448, .int 1, .int 0] t =
      .ok (.int 7) t := by
  obtain ⟨_, s, looked, rfl, sets⟩ : ∃ w s,
      PropertyHost.slot 5 (.pointer 448) (.int 1) true openShelves = .ok w s ∧ w = .int 0 ∧
      Yields (Property.set (invoke PropertyHost.serve 9) (.pointer 448) (.int 2) (.int 20)) s
        (fun _ u => Yields (invoke .absent 10 PropertyOp.store.stub .undefined
          [.pointer 448, .int 1, .int 0, .int 7]) u
          (fun _ t => t.machine.depth < t.machine.maxDepth) fun _ _ => False)
        fun _ _ => False := Yields.returns (by decide +kernel)
  obtain ⟨_, u, set, stores⟩ := sets.returns
  obtain ⟨_, t, stored, depth⟩ := stores.returns
  have ran : Visits (invoke PropertyHost.serve 9) .absent 9 PropertyOp.store.stub
      [.pointer 448, .pointer 512] (.pointer 448) (.int 1) (.int 0) s
      [.call ⟨.pointer 448, .int 2, .set (.int 20)⟩, .store (.int 7)] t := by
    refine .call ⟨by decide, by decide, fun v same => .inl ?_⟩ (by simp [Call.Deletes]) set
      (.store (.inl (by decide)) stored .nil)
    cases same
    decide
  have family : openShelves.machine.heap.Dictionaries [.pointer 448, .pointer 512] :=
    twoShelves_dictionaries
  obtain ⟨i, x, slot, _, _, _, own, load⟩ := property_keeps_slot PropertyOp.stub_compiled
    family (by decide) (by decide) looked (by decide) (Nat.le_refl 9) ran
  have first : (Word.int 0).int? = some ((0 : Nat) : Int) := by decide
  obtain rfl : i = 0 := Int.ofNat.inj (Option.some.inj (slot.symm.trans first))
  refine ⟨s, t, looked, ran, own, ?_⟩
  rw [load .absent .undefined [], if_pos depth]
  rfl

/-- Without call depth a load traps, whatever its slot holds. -/
theorem atShelves_load_overflows : ∃ s t,
    atShelves.machine.heap.Dictionaries [.pointer 448, .pointer 512] ∧
    Property.set (invoke PropertyHost.serve 9) (.pointer 448) (.int 1) (.int 5) atShelves =
      .ok .undefined s ∧
    PropertyHost.slot 0 (.pointer 448) (.int 1) false s = .ok (.int 0) t ∧
    t.machine.heap.ownValue? (.pointer 448) (.int 1) = .ok (some (.int 5)) ∧
    invoke PropertyHost.serve 10 PropertyOp.load.stub .undefined
      [.pointer 448, .int 1, .int 0] t = .error (.trap (.fatal .callDepth)) t := by
  obtain ⟨_, s, set, rfl, looks⟩ : ∃ x s,
      Property.set (invoke PropertyHost.serve 9) (.pointer 448) (.int 1) (.int 5) atShelves =
        .ok x s ∧ x = .undefined ∧
      Yields (PropertyHost.slot 0 (.pointer 448) (.int 1) false) s (fun w t => w = .int 0 ∧
        (t.machine.heap.ownValue? (.pointer 448) (.int 1)).toOption = some (some (.int 5)) ∧
        ¬ t.machine.depth < t.machine.maxDepth) fun _ _ => False :=
    Yields.returns (by decide +kernel)
  obtain ⟨_, t, looked, rfl, value, deep⟩ := looks.returns
  refine ⟨s, t, twoShelves_dictionaries, set, looked, except_toOption_some.mp value, ?_⟩
  rw [invoke_succ, Exec.nested_eq, if_neg deep]

end FastPath
