import FastPath.Proofs.Property.Refinement
import FastPath.Proofs.Property.Serving
import FastPath.Proofs.Property.SlotStub

/-! The slot stubs against the accesses that they stand for. In a slot that was just looked up they
read and write what the access would, and on an object with accessors they leave it to the host. -/

namespace FastPath

namespace Property

open Heap

variable {s t : State ρ} {h h' : Heap} {o k : Word} {i : Nat} {sl : Slot}
  (sound : s.machine.heap.Sound) (backed : s.machine.heap.Backed o)

include sound backed

theorem claim_dense (dense : s.machine.heap.flagged o Layout.Object.dense = true) :
    ∃ e t, claim o k none s = .error e t := by
  have read : s.machine.heap.isDense o = .ok true := dense ▸ backed.loadFlag sound _
  have refused : claimItem? o k s.machine.heap = .ok none s.machine.heap := by
    rw [claimItem?, estate_bind_of_ok (query_ok read)]
    rfl
  exact ⟨_, _, estate_bind_of_ok (Exec.onHeap_ok refused)⟩

/-- A lookup that yields a slot leaves the property in it. -/
theorem slot?_placed (data : s.machine.heap.flagged o Layout.Object.access = false)
    (looked : slot? o k update s = .ok (some sl) t) :
    ∃ h', t = s.withHeap h' ∧ h'.Sound ∧ h'.Backed o ∧
      h'.flagged o Layout.Object.access = false ∧ h'.own o k = some sl := by
  cases place : s.machine.heap.own o k with
  | some sl' =>
    rw [slot?_own rfl sound backed data place] at looked
    cases looked
    exact ⟨s.machine.heap, rfl, sound, backed, data, place⟩
  | none =>
    cases update with
    | false =>
      rw [slot?_missing rfl sound backed data place] at looked
      cases looked
    | true =>
      cases dense : s.machine.heap.flagged o Layout.Object.dense with
      | true =>
        obtain ⟨e, t', failed⟩ := claim_dense (k := k) sound backed dense
        rw [slot?_claim rfl sound backed data place, estate_bind_of_error failed] at looked
        cases looked
      | false =>
        obtain ⟨e, failed⟩ | ⟨i, h₁, h', opened, written, done⟩ :=
          slot?_absent rfl sound backed data place dense
        · rw [failed] at looked
          cases looked
        · rw [done] at looked
          cases looked
          refine ⟨h', rfl, written.sound, written.backed, ?_, ?_⟩
          · rw [written.flagged, opened.flagged, data]
          · exact opened.own_new dense place written

end Property

/-- The access that a slot stub stands for. -/
def PropertyOp.direct (op : PropertyOp) (calls : Invoke ρ) (o k v : Word) : Exec ρ Word :=
  match op with
  | .load => Property.get calls o k
  | .store => Property.set calls o k v
  | .delete => Property.delete o k

/-- What the host serves to a slot stub that leaves the access to it. -/
theorem serve_direct (op : PropertyOp) (calls : Invoke PropertyHost) (s : State PropertyHost) :
    PropertyHost.serve calls op.service (o :: k :: if op = .store then [v] else []) s =
      op.direct calls o k v s.counted := by
  cases op <;> rfl

/-- A slot stub has to leave an access to the host where the object has accessors, and a load also
where there is no slot. -/
def PropertyOp.Hosted (op : PropertyOp) (h : Heap) (o w : Word) : Prop :=
  h.flagged o Layout.Object.access = true ∨ op = .load ∧ w.isInt = false

/-- Then the stub arrives at its request to the host. -/
theorem slot_leads_host (self : Word) (is : SlotStub op stub) (given : SlotArgs op o k w v args)
    {s : State ρ} (sound : s.machine.heap.Sound) (backed : s.machine.heap.Backed o)
    (hosted : op.Hosted s.machine.heap o w) (host : Host ρ) (calls : Invoke ρ) :
    ∃ n f, n ≤ 3 ∧ stub.body.Leads host calls n 0 (stub.body.frame self args) s 9 f s ∧
      SlotFrame op o k w v f := by
  obtain ⟨n, flags⟩ := backed.flags
  have loaded := backed.object.load (d := Layout.Object.flags) sound rfl (by decide)
  have overlap : s.machine.heap.flagged o Layout.Object.access =
      Bits.overlap n Layout.Object.access := by
    rw [Heap.flagged, flags]
    rfl
  obtain ⟨f, entry, ready, _⟩ := slot_entry host calls self is given loaded flags
  rw [← overlap] at entry
  cases access : s.machine.heap.flagged o Layout.Object.access with
  | true =>
    rw [access] at entry
    have jump := Body.leads_of_goto (is.found 1) (Body.insts_nil host calls)
      (Body.leave_jump (f := f) (s := s) (is.found 9) rfl)
    exact ⟨_, f, by decide, entry.trans jump, ready⟩
  | false =>
    obtain ⟨rfl, slot⟩ := hosted.resolve_left (by rw [access]; exact Bool.false_ne_true)
    rw [access] at entry
    have branch : stub.body.leave f (.branch (.isInt 3) 3 4) s =
        .ok (.goto (if w.isInt then 3 else 4) f) s :=
      Body.leave_branch (Frame.test_isInt ready.slot s)
    rw [slot] at branch
    have missed := Body.leads_of_goto (is.found 2) (Body.insts_nil host calls) branch
    have jump := Body.leads_of_goto (is.found 4) (Body.insts_nil host calls)
      (Body.leave_jump (f := f) (s := s) (is.found 9) rfl)
    exact ⟨_, f, by decide, entry.trans (missed.trans jump), ready⟩

/-- From there on the access is the host's. -/
theorem slot_host_run (is : SlotStub op stub) {s : State PropertyHost}
    (path : stub.body.Leads PropertyHost.serve calls n 0 (stub.body.frame self args) s 9 f s)
    (ready : SlotFrame op o k w v f) (enough : n < fuel) :
    stub.body.run PropertyHost.serve calls fuel self args s = op.direct calls o k v s.counted := by
  obtain ⟨extra, rfl⟩ : ∃ extra, fuel = extra + 1 + n := ⟨fuel - 1 - n, by omega⟩
  rw [Body.run, path, ← serve_direct]
  have room := ready.length
  cases op with
  | load | delete =>
    exact Body.runFrom_service (is.found 9) (.cons ready.obj (.cons ready.key .nil))
      (by rw [room]; decide) extra
  | store =>
    exact Body.runFrom_service (is.found 9)
      (.cons ready.obj (.cons ready.key (.cons (ready.value rfl) .nil))) (by rw [room]; decide)
      extra

/-- One side is a call deeper, and its host has counted one request more. -/
def Ahead (n : Nat) (s s' : State PropertyHost) : Prop :=
  s'.machine.depth = n ∧ s = s'.deeper.counted

theorem ahead_lockstep : Lockstep Ahead (· = .trap (.fatal .callDepth)) where
  heap := by
    rintro _ _ _ ⟨_, rfl⟩
    rfl
  code := by
    rintro _ _ _ ⟨_, rfl⟩
    rfl
  entities := by
    rintro _ _ _ ⟨_, rfl⟩
    rfl
  rebuilt := by
    rintro _ _ _ ⟨depth, rfl⟩ _ _ _ _ _
    exact ⟨depth, rfl⟩
  enter := by
    rintro _ _ s' ⟨depth, rfl⟩ room
    exact ⟨Nat.lt_of_succ_lt room, congrArg Nat.succ depth, rfl⟩
  refuse := fun _ _ => .inl rfl
  leave := by
    rintro n _ ⟨⟨h, c, es, d, m⟩, host⟩ ⟨depth, rfl⟩
    have depth : d = n + 1 := depth
    subst depth
    exact ⟨rfl, rfl⟩

theorem ahead_attended (n : Nat) : Attended (Ahead n) where
  counted := by
    rintro _ _ ⟨depth, rfl⟩
    exact ⟨depth, rfl⟩
  noted := by
    rintro _ _ ⟨depth, rfl⟩ id map slot
    exact ⟨depth, rfl⟩

theorem Ahead.shallower (ahead : Ahead n s t) : s.shallower = t.counted := by
  obtain ⟨_, rfl⟩ := ahead
  rfl

theorem PropertyOp.direct_mirrors {R : Nat → State ρ → State ρ' → Prop}
    (lockstep : Lockstep R excused) {calls : Invoke ρ} {calls' : Invoke ρ'}
    (called : ∀ stub self args,
      Mirrors (R n) excused (calls stub self args) (calls' stub self args))
    (op : PropertyOp) (o k v : Word) :
    Mirrors (R n) excused (op.direct calls o k v) (op.direct calls' o k v) := by
  cases op with
  | load => exact lockstep.get called o k
  | store => exact lockstep.set called o k v
  | delete => exact lockstep.delete o k

/-- A call of a stub comes to what the access itself comes to, unless the call of the stub is one
too many. -/
def Defers (op : PropertyOp) (o k v : Word) (stub : Stub) (self : Word) (args : List Word)
    (fuel : Nat) (s : State PropertyHost) : Prop :=
  (∃ t, invoke PropertyHost.serve (fuel + 1) stub self args s =
    .error (.trap (.fatal .callDepth)) t) ∨
  (∃ x t, op.direct (invoke PropertyHost.serve fuel) o k v s = .ok x t ∧
    invoke PropertyHost.serve (fuel + 1) stub self args s = .ok x t.counted) ∨
  ∃ e t, op.direct (invoke PropertyHost.serve fuel) o k v s = .error e t ∧
    invoke PropertyHost.serve (fuel + 1) stub self args s = .error e t.counted

/-- A body that runs as the access does makes a call that comes to what the access comes to. -/
theorem Defers.of_run {op : PropertyOp} {s : State PropertyHost}
    (run : stub.body.run PropertyHost.serve (invoke PropertyHost.serve fuel) fuel self args
      s.deeper = op.direct (invoke PropertyHost.serve fuel) o k v s.deeper.counted) :
    Defers op o k v stub self args fuel s := by
  rw [Defers, invoke_succ, Exec.nested_eq]
  by_cases room : s.machine.depth < s.machine.maxDepth
  · have called := ahead_lockstep.invoke (n := s.machine.depth)
      (fun called => ahead_lockstep.serve (ahead_attended _) called) fuel
    have result := op.direct_mirrors ahead_lockstep called o k v s.deeper.counted s ⟨rfl, rfl⟩
    rw [if_pos room, run]
    revert result
    generalize op.direct _ o k v s.deeper.counted = r, op.direct _ o k v s = r'
    rintro (ahead | ahead | rfl)
    · exact .inr (.inl ⟨_, _, rfl, congrArg _ ahead.shallower⟩)
    · exact .inr (.inr ⟨_, _, rfl, congrArg _ ahead.shallower⟩)
    · exact .inl ⟨_, rfl⟩
  · rw [if_neg room]
    exact .inl ⟨s, rfl⟩

/-- On an object with accessors a slot stub defers to the access. -/
theorem slot_stub_defers (is : SlotStub op stub) (given : SlotArgs op o k w v args)
    {s : State PropertyHost} (sound : s.machine.heap.Sound) (backed : s.machine.heap.Backed o)
    (access : s.machine.heap.flagged o Layout.Object.access = true) (enough : 4 ≤ fuel) :
    Defers op o k v stub self args fuel s := by
  obtain ⟨n, f, few, path, ready⟩ := slot_leads_host self is given (s := s.deeper) sound backed
    (.inl access) PropertyHost.serve (invoke PropertyHost.serve fuel)
  exact .of_run (slot_host_run is path ready (by omega))

/-- A slot lookup that yields a small integer leaves the property in the slot of that number. -/
theorem slot_placed {s t : State PropertyHost} (sound : s.machine.heap.Sound)
    (backed : s.machine.heap.Backed o)
    (data : s.machine.heap.flagged o Layout.Object.access = false)
    (looked : PropertyHost.slot ic o k update s = .ok w t) (found : w.isInt = true) :
    t.machine.heap.Sound ∧ t.machine.heap.Backed o ∧
      t.machine.heap.flagged o Layout.Object.access = false ∧
      ∃ sl, t.machine.heap.own o k = some sl ∧ w.int? = some (sl.index : Int) ∧
        sl.index < 0x100000000 := by
  cases result : Property.slot? o k update s with
  | error e t' =>
    rw [PropertyHost.slot_error result] at looked
    cases looked
  | ok slot t' =>
    cases slot with
    | none =>
      rw [PropertyHost.slot_none result] at looked
      cases looked
      cases found
    | some sl =>
      obtain ⟨h', rfl, sound', backed', data', own⟩ :=
        Property.slot?_placed sound backed data result
      rw [PropertyHost.slot_some result sound' backed'.object] at looked
      split at looked
      next small =>
        cases looked
        exact ⟨sound', backed', data', sl, own, Word.int?_natCast (by omega), small⟩
      next =>
        cases looked
        cases found

/-- Where an object has no accessors, a slot that was just looked up serves the load and the store
stub as well as the property itself serves an access, and the stubs ask the host for nothing. Where
it has accessors, the slot stubs come to what the accesses come to, whatever slot they are given. -/
theorem slot_stubs_agree {stubs : PropertyOp → Stub}
    (compiled : ∀ op : PropertyOp, op.Compiled (stubs op)) {s : State PropertyHost}
    (sound : s.machine.heap.Sound) (backed : s.machine.heap.Backed o)
    (real : o.isNullish = false) (enough : 9 ≤ fuel) :
    (s.machine.heap.flagged o Layout.Object.access = false → ∀ ic update w t,
      PropertyHost.slot ic o k update s = .ok w t → w.isInt = true →
      t.machine.depth < t.machine.maxDepth →
      ∃ sl x, t.machine.heap.own o k = some sl ∧ t.machine.heap.loadSlot o sl = .ok x ∧
        (∀ host self rest, invoke host (fuel + 1) (stubs .load) self (o :: k :: w :: rest) t =
          .ok x t) ∧
        (x ≠ .hole → t.machine.heap.isPair x = false →
          ∀ calls, Property.get calls o k t = .ok x t) ∧
        ∀ v, t.machine.heap.isPair x = false ∨ t.machine.heap.isPair v = true →
          ∃ h, (∀ host self rest, invoke host (fuel + 1) (stubs .store) self
              (o :: k :: w :: v :: rest) t = .ok .undefined (t.withHeap h)) ∧
            ∀ calls, Property.set calls o k v t = .ok .undefined (t.withHeap h)) ∧
    (s.machine.heap.flagged o Layout.Object.access = true → ∀ op w v self args,
      SlotArgs op o k w v args →
      (∃ t, invoke PropertyHost.serve (fuel + 1) (stubs op) self args s =
        .error (.trap (.fatal .callDepth)) t) ∨
      (∃ x t, op.direct (invoke PropertyHost.serve fuel) o k v s = .ok x t ∧
        invoke PropertyHost.serve (fuel + 1) (stubs op) self args s = .ok x t.counted) ∨
      ∃ e t, op.direct (invoke PropertyHost.serve fuel) o k v s = .error e t ∧
        invoke PropertyHost.serve (fuel + 1) (stubs op) self args s = .error e t.counted) := by
  refine ⟨fun data ic update w t looked found depth => ?_, fun access op w v self args given =>
    slot_stub_defers (compiled op).slotStub given sound backed access (by omega)⟩
  obtain ⟨sound', backed', data', sl, own, slot, small⟩ :=
    slot_placed sound backed data looked found
  have suits := own_suits own
  have inside := Heap.own_position own
  refine ⟨sl, _, own, backed'.loadSlot sound' inside, fun host self rest => ?_,
    fun real' plain calls => ?_, fun v free =>
    ⟨t.machine.heap.put (t.machine.heap.slotAddress o sl.position) v, fun host self rest => ?_,
      fun calls => Property.set_own rfl sound' backed' own free.symm⟩⟩
  · exact loadSlot_ok sound' backed' data' suits inside slot small depth enough
      (compiled .load).slotStub (v := .hole) ⟨rest, rfl, nofun⟩
  · rw [Property.get_own rfl sound' backed' calls own real plain, if_neg real']
  · exact storeSlot_ok sound' backed' data' suits inside slot small depth enough
      (compiled .store).slotStub ⟨v :: rest, rfl, fun _ => rfl⟩

/-- A dictionary without accessors beside an object with accessors. -/
def guardedShelf : State PropertyHost :=
  { machine := .ofHeap (twoShelves.put 520 (.int Layout.Object.access)) 8, host := {} }

theorem guardedShelf_agrees :
    (∃ t h, PropertyHost.slot 0 (.pointer 448) (.int 2) true guardedShelf = .ok (.int 0) t ∧
      invoke .absent 10 PropertyOp.load.stub .undefined [.pointer 448, .int 2, .int 0] t =
        .ok .undefined t ∧
      Property.get (invoke .absent 9) (.pointer 448) (.int 2) t = .ok .undefined t ∧
      invoke .absent 10 PropertyOp.store.stub .undefined
        [.pointer 448, .int 2, .int 0, .int 5] t = .ok .undefined (t.withHeap h) ∧
      Property.set (invoke .absent 9) (.pointer 448) (.int 2) (.int 5) t =
        .ok .undefined (t.withHeap h)) ∧
    ∃ x t, Property.set (invoke PropertyHost.serve 9) (.pointer 512) (.int 2) (.int 5)
        guardedShelf = .ok x t ∧
      invoke PropertyHost.serve 10 PropertyOp.store.stub .undefined
        [.pointer 512, .int 2, .undefined, .int 5] guardedShelf = .ok x t.counted := by
  have sound : guardedShelf.machine.heap.Sound := by
    refine ⟨?_, ?_, ?_, ?_, ?_⟩
    all_goals decide +kernel
  have backed : ∀ o ∈ [Word.pointer 448, .pointer 512], guardedShelf.machine.heap.Backed o := by
    refine List.forall_mem_cons.mpr ⟨?_, List.forall_mem_singleton.mpr ?_⟩
    · refine ⟨⟨?_, ?_, ?_⟩, ?_, ⟨0, ?_⟩, ?_, ?_, ⟨?_, ?_, ?_⟩, ?_⟩
      all_goals decide +kernel
    · refine ⟨⟨?_, ?_, ?_⟩, ?_, ⟨Layout.Object.access, ?_⟩, ?_, ?_, ⟨?_, ?_, ?_⟩, ?_⟩
      all_goals decide +kernel
  constructor
  · have agree := slot_stubs_agree (k := .int 2) PropertyOp.stub_compiled sound
      (backed (.pointer 448) (by decide)) (by decide) (Nat.le_refl 9)
    obtain ⟨_, t, looked, rfl, depth, own, value, plain⟩ : ∃ w t,
        PropertyHost.slot 0 (.pointer 448) (.int 2) true guardedShelf = .ok w t ∧ w = .int 0 ∧
        t.machine.depth < t.machine.maxDepth ∧
        t.machine.heap.own (.pointer 448) (.int 2) = some (.item 0) ∧
        (t.machine.heap.loadSlot (.pointer 448) (.item 0)).toOption = some .undefined ∧
        t.machine.heap.isPair .undefined = false := Yields.returns (by decide +kernel)
    obtain ⟨sl, x, place, loaded, load, get, store⟩ :=
      agree.1 (by decide +kernel) 0 true _ t looked (by decide) depth
    obtain rfl := Option.some.inj (place.symm.trans own)
    rw [loaded] at value
    obtain rfl : x = .undefined := Option.some.inj value
    obtain ⟨h, stored, set⟩ := store (.int 5) (.inl plain)
    exact ⟨t, h, looked, load _ _ [], get (by decide) plain _, stored _ _ [], set _⟩
  · have agree := slot_stubs_agree (k := .int 2) PropertyOp.stub_compiled sound
      (backed (.pointer 512) (by decide)) (by decide) (Nat.le_refl 9)
    obtain ⟨_, _, returns, _⟩ : ∃ w t, invoke PropertyHost.serve (9 + 1) PropertyOp.store.stub
        .undefined [.pointer 512, .int 2, .undefined, .int 5] guardedShelf = .ok w t ∧ True :=
      Yields.returns (by decide +kernel)
    obtain ⟨t, run⟩ | ⟨x, t, direct, run⟩ | ⟨e, t, _, run⟩ := agree.2 (by decide +kernel) .store
      .undefined (.int 5) .undefined [.pointer 512, .int 2, .undefined, .int 5]
      ⟨[.int 5], rfl, fun _ => rfl⟩
    · cases returns.symm.trans run
    · exact ⟨x, t, direct, run⟩
    · cases returns.symm.trans run

end FastPath
