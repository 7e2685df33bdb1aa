import FastPath.Proofs.InlineCache
import FastPath.Proofs.Property.Placement
import FastPath.Proofs.Property.SlotAgreement
import FastPath.Session

/-! What inline caches know about dictionaries. A cache is told where one object keeps a property,
and objects share maps whatever they hold. What it remembers for a map is therefore what the last
lookup found that came upon an object with the map: it is right for that object until the property
is deleted, and for others only as far as they keep the property in the same place. -/

namespace FastPath

open Heap

/-- The state in which an action ends, whether it returns or halts. -/
def final : EStateM.Result Halt (State ρ) α → State ρ
  | .ok _ t | .error _ t => t

theorem final_bind_pure {act : Exec ρ α} {s : State ρ} (b : β) :
    final ((act >>= fun _ => pure b : Exec ρ β) s) = final (act s) := by
  cases done : act s with
  | ok a t => rw [estate_bind_of_ok done]; rfl
  | error e t => rw [estate_bind_of_error done]; rfl

/-- The action leaves alone where the objects keep their properties, and what is noted in caches. -/
def Quiet (objs : List Word) (act : Exec PropertyHost α) (s : State PropertyHost) : Prop :=
  Stays objs (fun _ _ => False) s.machine.heap (final (act s)).machine.heap ∧
    (final (act s)).host.caches = s.host.caches

/-- The stub of the setter that runs in place of a write. -/
def Property.Diverted (s : State ρ) (o k v : Word) (stub : Stub) : Prop :=
  ∃ i setter, s.machine.heap.own o k = some (.item i) ∧ s.machine.heap.isPair v = false ∧
    s.machine.heap.isPair (s.machine.heap.value o i) = true ∧
    s.machine.heap.load (s.machine.heap.value o i) Layout.Pair.setter = .ok setter ∧
    setter ≠ .hole ∧ s.machine.target setter = .ok stub

namespace Property

variable {s : State PropertyHost} {objs : List Word} {o k v : Word} {invoke : Invoke PropertyHost}
  {gone : Word → Word → Prop} (family : s.machine.heap.Separate objs) (member : o ∈ objs)

include family member

theorem set_stays
    (quiet : ∀ stub, Property.Diverted s o k v stub → Quiet objs (invoke stub o [v]) s) :
    Stays objs gone s.machine.heap (final (Property.set invoke o k v s)).machine.heap ∧
      (final (Property.set invoke o k v s)).host.caches = s.host.caches := by
  have d := family.each o member
  have unchanged : Stays objs gone s.machine.heap s.machine.heap ∧
      s.host.caches = s.host.caches := ⟨.refl family, rfl⟩
  by_cases free : ∀ i, s.machine.heap.own o k = some (.item i) →
      s.machine.heap.isPair v = true ∨ s.machine.heap.isPair (s.machine.heap.value o i) = false
  · obtain ⟨e, failed⟩ | ⟨h', written, set⟩ :=
      Backed.set_cases d.dictionary rfl family.sound d.toBacked invoke free
    · rw [failed]
      exact unchanged
    · rw [set]
      exact ⟨family.stays_written member written, rfl⟩
  · simp only [not_forall, not_or, Bool.not_eq_true, Bool.not_eq_false] at free
    obtain ⟨i, found, plain, pair⟩ := free
    rw [set_paired rfl family.sound d.toBacked invoke found plain pair]
    cases read : s.machine.heap.load (s.machine.heap.slotWord o (Slot.item i).position)
        Layout.Pair.setter with
    | error e =>
      rw [estate_bind_of_error (Exec.query_error read)]
      exact unchanged
    | ok setter =>
      rw [estate_bind_of_ok (Exec.query_ok read)]
      by_cases missing : setter = .hole
      · rw [if_neg (not_not.mpr missing)]
        exact unchanged
      · rw [if_pos missing, final_bind_pure, callValue_eq]
        cases callee : s.machine.target setter with
        | error t => exact unchanged
        | ok stub =>
          have diverted : Property.Diverted s o k v stub :=
            ⟨i, setter, found, plain, pair, read, missing, callee⟩
          obtain ⟨stays, caches⟩ := quiet stub diverted
          exact ⟨stays.mono fun _ _ _ absurd => absurd.elim, caches⟩

theorem delete_stays :
    Stays objs (fun p m => p = o ∧ m = k) s.machine.heap
      (final (Property.delete o k s)).machine.heap ∧
      (final (Property.delete o k s)).host.caches = s.host.caches := by
  have d := family.each o member
  obtain ⟨_, deleted⟩ | ⟨i, h', found, cleared, deleted⟩ :=
    Backed.delete_cases (k := k) d.dictionary rfl family.sound d.toBacked
  · rw [deleted]
    exact ⟨.refl family, rfl⟩
  · rw [deleted]
    obtain ⟨bound, key⟩ := item_of_own found
    have stays := family.stays_rewritten member cleared bound fun absent => absurd rfl absent
    refine ⟨stays.mono ?_, rfl⟩
    rintro p m _ ⟨same, erased, _⟩
    exact ⟨same, erased.trans key⟩

theorem slot?_stays (gone : Word → Word → Prop) (update : Bool) :
    Stays objs gone s.machine.heap (final (Property.slot? o k update s)).machine.heap ∧
      (final (Property.slot? o k update s)).host = s.host := by
  have d := family.each o member
  obtain ⟨e, failed⟩ | ⟨_, looked⟩ | ⟨i, h', _, _, written, looked⟩ :=
    d.slot?_cases (k := k) rfl family.sound update
  · rw [failed]
    exact ⟨.refl family, rfl⟩
  · rw [looked]
    exact ⟨.refl family, rfl⟩
  · rw [looked]
    exact ⟨family.stays_written member written, rfl⟩

end Property

/-- A lookup notes what it returns, which is where the property is then. If it returns no slot, it
notes nothing. -/
theorem PropertyHost.slot_stays {s t : State PropertyHost} {gone : Word → Word → Prop}
    {ic : CacheId} (family : s.machine.heap.Separate objs) (member : o ∈ objs)
    (ends : final (PropertyHost.slot ic o k update s) = t) :
    Stays objs gone s.machine.heap t.machine.heap ∧
      ((t.host.caches = s.host.caches ∧
        ∀ (n : Int) u, PropertyHost.slot ic o k update s ≠ .ok (.int n) u) ∨
      ∃ y : Nat, y < 0x100000000 ∧ PropertyHost.slot ic o k update s = .ok (.int y) t ∧
        t.machine.heap.own o k = some (.item y) ∧
        t.host.caches = s.host.caches.record ic (t.machine.heap.word o.toNat) y) := by
  have d := family.each o member
  obtain ⟨stays, host⟩ := Property.slot?_stays (k := k) family member gone update
  have returned {u v : State PropertyHost} (n : Int) :
      EStateM.Result.ok Word.undefined u ≠ (.ok (.int n) v : EStateM.Result Halt _ _) := by
    intro same
    have int := Word.isInt_int n
    rw [← (EStateM.Result.ok.inj same).1] at int
    exact absurd int (by decide)
  cases result : Property.slot? o k update s with
  | error e u =>
    rw [slot_error result] at ends ⊢
    rw [result] at stays host
    cases ends
    exact ⟨stays, .inl ⟨congrArg caches host, fun _ _ same => by cases same⟩⟩
  | ok found u =>
    rw [result] at stays host
    cases found with
    | none =>
      rw [slot_none result] at ends ⊢
      cases ends
      exact ⟨stays, .inl ⟨congrArg caches host, fun n _ => returned n⟩⟩
    | some sl =>
      obtain ⟨h', rfl, sound, backed, _, own⟩ :=
        Property.slot?_placed family.sound d.toBacked d.data result
      have looked : slot ic o k update s = _ := slot_some result sound backed.object
      rw [looked] at ends ⊢
      by_cases small : sl.index < 0x100000000
      · rw [if_pos small] at ends ⊢
        cases ends
        obtain ⟨y, _, rfl⟩ := Option.map_eq_some_iff.mp
          ((stays.family.each o member).own_eq ▸ own)
        exact ⟨stays, .inr ⟨y, small, rfl, own, rfl⟩⟩
      · rw [if_neg small] at ends ⊢
        cases ends
        exact ⟨stays, .inl ⟨rfl, fun n _ => returned n⟩⟩

namespace Call

/-- The state after a call, whether it returned or trapped. -/
def after (invoke : Invoke PropertyHost) (s : State PropertyHost) (c : Call) : State PropertyHost :=
  final (c.run invoke s)

/-- The state after a run of calls. -/
def afterAll (invoke : Invoke PropertyHost) (s : State PropertyHost) (calls : List Call) :
    State PropertyHost :=
  calls.foldl (after invoke) s

def Deletes (c : Call) (o k : Word) : Prop := o = c.obj ∧ k = c.key ∧ c.access = .delete

/-- A setter that the call runs is quiet. -/
def SetterQuiet (invoke : Invoke PropertyHost) (objs : List Word) (s : State PropertyHost)
    (c : Call) : Prop :=
  ∀ v stub, c.access = .set v → Property.Diverted s c.obj c.key v stub →
    Quiet objs (invoke stub c.obj [v]) s

/-- The setters that a run of calls runs are quiet. -/
def SettersQuiet (invoke : Invoke PropertyHost) (objs : List Word) :
    State PropertyHost → List Call → Prop
  | _, [] => True
  | s, c :: calls =>
    c.SetterQuiet invoke objs s ∧ SettersQuiet invoke objs (c.after invoke s) calls

/-- The call is a lookup for the cache, and returns a slot of an object with the map. -/
def Finds (invoke : Invoke PropertyHost) (s : State PropertyHost) (c : Call) (ic : CacheId)
    (m : Word) : Prop :=
  ∃ update n t, c.access = .slot ic update ∧ c.run invoke s = .ok (.int n) t ∧
    t.machine.heap.mapOf c.obj = .ok m

/-- No call of a run finds a slot. -/
def NoneFinds (invoke : Invoke PropertyHost) (ic : CacheId) (m : Word) :
    State PropertyHost → List Call → Prop
  | _, [] => True
  | s, c :: calls => ¬ c.Finds invoke s ic m ∧ NoneFinds invoke ic m (c.after invoke s) calls

variable {invoke : Invoke PropertyHost} {objs : List Word} {s t : State PropertyHost} {c : Call}
  {calls : List Call}

/-- What a call keeps, and what it notes if it finds a slot. -/
structure Step (invoke : Invoke PropertyHost) (objs : List Word) (c : Call)
    (s t : State PropertyHost) : Prop where
  stays : Stays objs c.Deletes s.machine.heap t.machine.heap
  caches : (t.host.caches = s.host.caches ∧ ∀ ic m, ¬ c.Finds invoke s ic m) ∨
    ∃ ic update, c.access = .slot ic update ∧
      ∃ y : Nat, y < 0x100000000 ∧ c.run invoke s = .ok (.int y) t ∧
      t.machine.heap.own c.obj c.key = some (.item y) ∧
      t.host.caches = s.host.caches.record ic (t.machine.heap.word c.obj.toNat) y

theorem step (family : s.machine.heap.Separate objs) (quiet : c.SetterQuiet invoke objs s)
    (member : c.obj ∈ objs) : Step invoke objs c s (c.after invoke s) := by
  obtain ⟨o, k, access⟩ := c
  cases access with
  | set v =>
    obtain ⟨stays, caches⟩ := Property.set_stays (k := k) (v := v) family member
      fun stub => quiet v stub rfl
    refine ⟨stays, .inl ⟨caches, ?_⟩⟩
    rintro ic m ⟨_, _, _, looked, _⟩
    cases looked
  | delete =>
    obtain ⟨stays, caches⟩ := Property.delete_stays (k := k) family member
    refine ⟨stays.mono fun p m _ ⟨same, named⟩ => ⟨same, named, rfl⟩, .inl ⟨caches, ?_⟩⟩
    rintro ic m ⟨_, _, _, looked, _⟩
    cases looked
  | slot ic update =>
    obtain ⟨stays, ⟨caches, nothing⟩ | noted⟩ :=
      PropertyHost.slot_stays (k := k) family member rfl
    · refine ⟨stays, .inl ⟨caches, ?_⟩⟩
      rintro ic m ⟨_, n, u, looked, found, _⟩
      cases looked
      exact nothing n u found
    · exact ⟨stays, .inr ⟨ic, update, rfl, noted⟩⟩

/-- A property stays where it is through a run that does not delete it. -/
theorem afterAll_stays (family : s.machine.heap.Separate objs)
    (quiet : SettersQuiet invoke objs s calls) (members : ∀ c ∈ calls, c.obj ∈ objs) :
    Stays objs (fun o k => ∃ c ∈ calls, c.Deletes o k) s.machine.heap
      (afterAll invoke s calls).machine.heap := by
  induction calls generalizing s with
  | nil => exact .refl family
  | cons c calls ih =>
    obtain ⟨member, members⟩ := List.forall_mem_cons.mp members
    have first := (step family quiet.1 member).stays
    have rest := ih first.family quiet.2 members
    refine (first.mono fun o k _ deleted => ?_).trans (rest.mono fun o k _ deleted => ?_)
    · exact ⟨c, List.mem_cons_self, deleted⟩
    · obtain ⟨c', later, deleted⟩ := deleted
      exact ⟨c', List.mem_cons_of_mem c later, deleted⟩

theorem afterAll_append (before after : List Call) :
    afterAll invoke s (before ++ after) = afterAll invoke (afterAll invoke s before) after :=
  List.foldl_append

theorem SettersQuiet.split {before after : List Call}
    (quiet : SettersQuiet invoke objs s (before ++ after)) :
    SettersQuiet invoke objs s before ∧
      SettersQuiet invoke objs (afterAll invoke s before) after := by
  induction before generalizing s with
  | nil => exact ⟨trivial, quiet⟩
  | cons c before ih =>
    obtain ⟨first, rest⟩ := quiet
    obtain ⟨rest, last⟩ := ih rest
    exact ⟨⟨first, rest⟩, last⟩

theorem NoneFinds.append (none : NoneFinds invoke ic m s calls)
    (last : ¬ c.Finds invoke (afterAll invoke s calls) ic m) :
    NoneFinds invoke ic m s (calls ++ [c]) := by
  induction calls generalizing s with
  | nil => exact ⟨last, trivial⟩
  | cons c' calls ih => exact ⟨none.1, ih none.2 last⟩

/-- The last lookup of the run that found a slot of an object with the map found this one. -/
def Noted (invoke : Invoke PropertyHost) (s : State PropertyHost) (calls : List Call)
    (ic : CacheId) (m : Word) (y : Nat) : Prop :=
  ∃ before c after update u, calls = before ++ c :: after ∧ c.access = .slot ic update ∧
    y < 0x100000000 ∧ c.run invoke (afterAll invoke s before) = .ok (.int y) u ∧
    u.machine.heap.word c.obj.toNat = m ∧ u.machine.heap.own c.obj c.key = some (.item y) ∧
    NoneFinds invoke ic m u after

/-- The state in which the call returned leads on to the end of the run. -/
theorem afterAll_cons {before : List Call} (after : List Call) {u : State PropertyHost} {w : Word}
    (ran : c.run invoke (afterAll invoke s before) = .ok w u) :
    afterAll invoke s (before ++ c :: after) = afterAll invoke u after := by
  have step : c.after invoke (afterAll invoke s before) = u := by rw [Call.after, ran, final]
  rw [afterAll_append, afterAll, List.foldl_cons, step, afterAll]

theorem Noted.later (noted : Noted invoke s calls ic m y)
    (other : ¬ c.Finds invoke (afterAll invoke s calls) ic m) :
    Noted invoke s (calls ++ [c]) ic m y := by
  obtain ⟨before, c', after, update, u, rfl, looked, small, ran, map, own, none⟩ := noted
  rw [afterAll_cons _ ran] at other
  exact ⟨before, c', after ++ [c], update, u, by rw [List.append_assoc, List.cons_append], looked,
    small, ran, map, own, none.append other⟩

/-- Whatever a cache remembers for a map was noted by the last lookup that found a slot there. -/
theorem noted_of_cached (family : s.machine.heap.Separate objs)
    (quiet : SettersQuiet invoke objs s calls) (empty : s.host.caches = {})
    (members : ∀ c ∈ calls, c.obj ∈ objs)
    (cached : ((afterAll invoke s calls).host.caches.state ic).lookup m = some y) :
    Noted invoke s calls ic m y := by
  induction calls using List.reverseRecOn with
  | nil =>
    rw [afterAll, List.foldl_nil, empty] at cached
    cases cached
  | append_singleton calls c ih =>
    obtain ⟨members, member⟩ := List.forall_mem_append.mp members
    obtain ⟨before, now⟩ := quiet.split
    have stays := afterAll_stays family before members
    have last : afterAll invoke s (calls ++ [c]) = c.after invoke (afterAll invoke s calls) :=
      afterAll_append calls [c]
    have inside := member c List.mem_cons_self
    obtain ⟨kept, caches⟩ := step stays.family now.1 inside
    rw [← last] at kept caches
    obtain ⟨same, nothing⟩ | ⟨ic', update, looked, y', small, ran, own, recorded⟩ := caches
    · exact (ih before members (same ▸ cached)).later (nothing ic m)
    · rw [recorded] at cached
      obtain ⟨rfl, rfl, rfl⟩ | ⟨other, earlier⟩ := InlineCache.Table.lookup_record cached
      · exact ⟨calls, c, [], update, _, rfl, looked, small, ran, rfl, own, trivial⟩
      · refine (ih before members earlier).later ?_
        rintro ⟨update', n, u, looked', ran', map⟩
        -- what the call found it noted, which was for another cache or map
        obtain ⟨_, rfl⟩ := EStateM.Result.ok.inj (ran.symm.trans ran')
        have mapped := (kept.family.each c.obj inside).object.load kept.family.sound
          (d := Layout.map) rfl (by decide)
        cases looked.symm.trans looked'
        exact other ⟨rfl, Except.ok.inj (map.symm.trans mapped)⟩

end Call

/-- The slot is that of the property, for the load and the store stub as well. -/
structure SlotServes (stubs : PropertyOp → Stub) (t : State PropertyHost) (o k : Word) (y : Nat) :
    Prop where
  own : t.machine.heap.ownSlot o k = .ok (some (.item y))
  load : t.machine.depth < t.machine.maxDepth → ∀ fuel ≥ 9, ∃ x,
    t.machine.heap.loadSlot o (.item y) = .ok x ∧ ∀ host self rest,
      invoke host (fuel + 1) (stubs .load) self (o :: k :: .int y :: rest) t = .ok x t
  store : t.machine.depth < t.machine.maxDepth → ∀ fuel ≥ 9, ∀ v, ∃ h,
    h.ownSlot o k = .ok (some (.item y)) ∧ h.loadSlot o (.item y) = .ok v ∧ ∀ host self rest,
      invoke host (fuel + 1) (stubs .store) self (o :: k :: .int y :: v :: rest) t =
        .ok .undefined (t.withHeap h)

theorem slotServes {stubs : PropertyOp → Stub}
    (compiled : ∀ op : PropertyOp, op.Compiled (stubs op)) {t : State PropertyHost}
    (family : t.machine.heap.Separate objs) (member : o ∈ objs) (real : k ≠ .hole)
    (own : t.machine.heap.own o k = some (.item y)) (small : y < 0x100000000) :
    SlotServes stubs t o k y := by
  have d := family.each o member
  have sound := family.sound
  obtain ⟨i, bound, key, same⟩ := (d.own_iff real).mp own
  obtain rfl : i = y := Slot.item.inj same
  have inside := (item_position bound).1
  have number : (Word.int i).int? = some (i : Int) := Word.int?_natCast (by omega)
  refine ⟨own ▸ d.ownSlot sound, fun depth fuel enough => ?_, fun depth fuel enough v => ?_⟩
  · refine ⟨_, d.loadSlot sound inside, fun host self rest => ?_⟩
    exact loadSlot_ok sound d.toBacked d.data (own_suits own) inside number small depth enough
      (compiled .load).slotStub (v := .hole) ⟨rest, rfl, fun same => by cases same⟩
  · have written := Rewritten.overwrite sound d.toBacked bound v
    have stays := family.stays_rewritten member written bound fun named j within twice =>
      d.distinct j within i bound twice (twice ▸ named)
    have own' := stays.places o member k real (fun gone => gone.2.2 gone.2.1) _ own
    have inside' := inside
    rw [← written.slots] at inside'
    have value := written.value i
    rw [if_pos rfl] at value
    refine ⟨_, own' ▸ written.backed.ownSlot written.sound, ?_, fun host self rest => ?_⟩
    · rw [written.backed.loadSlot written.sound inside']
      exact congrArg _ value
    · exact storeSlot_ok sound d.toBacked d.data (own_suits own) inside number small depth enough
        (compiled .store).slotStub ⟨v :: rest, rfl, fun _ => rfl⟩

/-- What a cache has for a map is the slot that the last lookup returned which found one in an
object with the map. It is that of the property in this object and in every other that had the
property in the same slot then, until the property is deleted there. -/
theorem cached_slots_hold {stubs : PropertyOp → Stub}
    (compiled : ∀ op : PropertyOp, op.Compiled (stubs op)) {s t : State PropertyHost}
    {invoke : Invoke PropertyHost} (family : s.machine.heap.Separate objs)
    (quiet : Call.SettersQuiet invoke objs s calls) (empty : s.host.caches = {})
    (members : ∀ c ∈ calls, c.obj ∈ objs) (run : Call.afterAll invoke s calls = t)
    (keyed : ∀ c ∈ calls, ∀ update, c.access = .slot ic update → c.key = k) (real : k ≠ .hole)
    (cached : (t.host.caches.state ic).lookup m = some y) :
    ∃ before p update after u, calls = before ++ ⟨p, k, .slot ic update⟩ :: after ∧
      (⟨p, k, .slot ic update⟩ : Call).run invoke (Call.afterAll invoke s before) =
        .ok (.int y) u ∧
      Call.afterAll invoke u after = t ∧ Call.NoneFinds invoke ic m u after ∧
      u.machine.heap.mapOf p = .ok m ∧ u.machine.heap.ownSlot p k = .ok (some (.item y)) ∧
      ∀ o ∈ objs, (∀ c ∈ after, ¬ c.Deletes o k) →
        u.machine.heap.ownSlot o k = .ok (some (.item y)) → SlotServes stubs t o k y := by
  subst run
  obtain ⟨before, c, after, update, u, rfl, looked, small, ran, map, own, none⟩ :=
    Call.noted_of_cached family quiet empty members cached
  obtain ⟨p, l, access⟩ := c
  obtain rfl : access = .slot ic update := looked
  obtain rfl : l = k := keyed ⟨p, l, .slot ic update⟩ (by simp) update rfl
  have ends : Call.afterAll invoke s (before ++ [⟨p, l, .slot ic update⟩]) = u :=
    Call.afterAll_cons [] ran
  have whole := Call.afterAll_cons after ran
  rw [List.append_cons, List.forall_mem_append] at members
  rw [List.append_cons] at quiet
  obtain ⟨before_quiet, after_quiet⟩ := quiet.split
  have first := Call.afterAll_stays family before_quiet members.1
  rw [ends] at first after_quiet
  have later := Call.afterAll_stays first.family after_quiet members.2
  have d := first.family.each p (members.1 ⟨p, l, .slot ic update⟩ (by simp))
  have sound := first.family.sound
  refine ⟨before, p, update, after, u, rfl, ran, whole.symm, none, ?_, own ▸ d.ownSlot sound,
    fun o member kept held => ?_⟩
  · rw [← map]
    exact d.object.load sound rfl (by decide)
  · rw [(first.family.each o member).ownSlot sound] at held
    rw [whole]
    refine slotServes compiled later.family member real ?_ small
    refine later.places o member l real ?_ _ (Except.ok.inj held)
    rintro ⟨c, within, deleted⟩
    exact kept c within deleted

theorem Call.SetterQuiet.of_absent {s : State PropertyHost} {invoke : Invoke PropertyHost}
    {c : Call} (absent : s.machine.heap.own c.obj c.key = none) : c.SetterQuiet invoke objs s := by
  rintro v stub _ ⟨i, setter, found, _⟩
  rw [absent] at found
  cases found

/-- A property is looked up and another added, for which the storage grows; the other object gets
the first property too. -/
def cachedShelving : List Call :=
  [⟨.pointer 448, .int 1, .slot 5 true⟩, ⟨.pointer 448, .int 2, .set (.int 20)⟩,
    ⟨.pointer 512, .int 1, .set (.int 10)⟩]

def openShelves : State PropertyHost := { machine := .ofHeap twoShelves 8, host := {} }

theorem cachedShelving_holds : ∃ t,
    Call.afterAll (invoke PropertyHost.serve 9) openShelves cachedShelving = t ∧
    t.machine.heap.mapOf (.pointer 448) = .ok Kind.object.canonicalMap ∧
    (t.host.caches.state 5).lookup Kind.object.canonicalMap = some 0 ∧
    SlotServes PropertyOp.stub t (.pointer 448) (.int 1) 0 := by
  have facts : (let t := Call.afterAll (invoke PropertyHost.serve 9) openShelves cachedShelving
    t.machine.heap.mapOf (.pointer 448) = .ok Kind.object.canonicalMap ∧
    (t.host.caches.state 5).lookup Kind.object.canonicalMap = some 0) := by decide +kernel
  obtain ⟨t, run⟩ : ∃ t,
      Call.afterAll (invoke PropertyHost.serve 9) openShelves cachedShelving = t := ⟨_, rfl⟩
  rw [run] at facts
  obtain ⟨mapped, cached⟩ := facts
  have family : openShelves.machine.heap.Separate [.pointer 448, .pointer 512] :=
    twoShelves_dictionaries.toSeparate
  have quiet : Call.SettersQuiet (invoke PropertyHost.serve 9) [.pointer 448, .pointer 512]
      openShelves cachedShelving := by
    refine ⟨.of_absent ?_, .of_absent ?_, .of_absent ?_, trivial⟩
    all_goals decide +kernel
  have keyed : ∀ c ∈ cachedShelving, ∀ update, c.access = .slot 5 update → c.key = .int 1 := by
    simp [cachedShelving]
  obtain ⟨before, p, update, after, u, parts, _, _, _, _, own, serves⟩ := cached_slots_hold
    PropertyOp.stub_compiled family quiet rfl (by decide) run keyed (by decide) cached
  refine ⟨t, run, mapped, cached, ?_⟩
  -- the first call is the only lookup
  cases before with
  | nil =>
    obtain ⟨same, rfl⟩ := List.cons.inj parts
    obtain ⟨rfl, _, _⟩ := Call.mk.inj same
    exact serves (.pointer 448) (by decide) (by simp [Call.Deletes]) own
  | cons c before =>
    have member : (⟨p, .int 1, .slot 5 update⟩ : Call) ∈ cachedShelving.tail := by
      rw [parts]
      simp
    simp [cachedShelving] at member

/-- Two objects from the allocation stub. -/
def twins : SessionM (Word × Word) := do
  let a ← Session.call PropertyHost.serve 10 Catalogue.allocObject .undefined []
  let b ← Session.call PropertyHost.serve 10 Catalogue.allocObject .undefined []
  return (a, b)

/-- A cache has a slot for the map of an object that lacks the property. -/
def Misleads (s : State PropertyHost) (ic : CacheId) (o k : Word) : Prop :=
  s.machine.heap.isObjectLike o = true ∧
    s.machine.heap.loadFlag o Layout.Object.flags Layout.Object.access = .ok false ∧
    s.machine.heap.mapOf o = .ok Kind.object.canonicalMap ∧
    (s.host.caches.state ic).lookup Kind.object.canonicalMap = some 0 ∧
    s.machine.heap.ownSlot o k = .ok none

instance : Decidable (Misleads s ic o k) := inferInstanceAs (Decidable (_ ∧ _))

/-- A lookup in one object misleads those in the other, and a deletion those in the same. -/
def Confuses (a b : Word) (s : State PropertyHost) : Prop :=
  Yields (PropertyHost.slot 5 a (.int 1) true) s (fun w t => w = .int 0 ∧
    Misleads t 5 b (.int 1) ∧
    Yields (Property.delete a (.int 1)) t
      (fun w u => w = .boolean true ∧ Misleads u 5 a (.int 1)) fun _ _ => False) fun _ _ => False

instance : Decidable (Confuses a b s) := inferInstanceAs (Decidable (Yields _ _ _ _))

/-- The objects share their map, so a slot of one is noted for the other, and it stays noted when
the property is deleted. -/
theorem twins_misled : ∃ a b s t u,
    (Session.create 1024 8 [.allocation, .construction]).map twins = .ok (.ok (a, b) s) ∧
    PropertyHost.slot 5 a (.int 1) true s.state = .ok (.int 0) t ∧ Misleads t 5 b (.int 1) ∧
    Property.delete a (.int 1) t = .ok (.boolean true) u ∧ Misleads u 5 a (.int 1) := by
  have facts : ∃ s₀ ∈ (Session.create 1024 8 [.allocation, .construction]).toOption,
      Yields twins s₀ (fun r s => Confuses r.1 r.2 s.state) fun _ _ => False := by decide +kernel
  obtain ⟨s₀, created, yields⟩ := facts
  obtain ⟨⟨a, b⟩, s, built, confuses⟩ := yields.returns
  obtain ⟨_, t, looked, rfl, misled, yields⟩ := Yields.returns confuses
  obtain ⟨_, u, deleted, rfl, misled'⟩ := yields.returns
  refine ⟨a, b, s, t, u, ?_, looked, misled, deleted, misled'⟩
  rw [except_toOption_some.mp created]
  exact congrArg Except.ok built

end FastPath
