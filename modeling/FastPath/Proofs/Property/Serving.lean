import FastPath.Proofs.Execution.Simulation

/-! Property accesses in lockstep. The host of property accesses looks at its own state only to
note a slot and to count a request, so related states are served to related results. -/

namespace FastPath

namespace Lockstep

variable {R : Nat → State ρ → State ρ' → Prop} {excused : Halt → Prop}
  (lockstep : Lockstep R excused) {n : Nat}

include lockstep

theorem claim (o k : Word) (own : Option Slot) :
    Mirrors (R n) excused (Property.claim o k own) (Property.claim o k own) := by
  cases own with
  | some s => exact .pure s
  | none =>
    refine (lockstep.onHeap (Heap.claimItem?_advances o k)).bind fun claimed => ?_
    cases claimed with
    | some s => exact .pure s
    | none => exact .throw _

theorem delete (o k : Word) :
    Mirrors (R n) excused (Property.delete o k) (Property.delete o k) := by
  refine lockstep.heap_read.bind fun h => ?_
  by_cases object : h.isObjectLike o
  · simp only [if_pos object]
    refine (lockstep.query _).bind fun own => ?_
    cases own with
    | some s => exact (lockstep.onHeap (Heap.clearSlot_advances o s)).bind fun _ => .pure _
    | none => exact .pure _
  · simp only [if_neg object]
    exact .pure _

theorem slot? (o k : Word) (update : Bool) :
    Mirrors (R n) excused (Property.slot? o k update) (Property.slot? o k update) := by
  refine lockstep.heap_read.bind fun h => ?_
  by_cases object : h.isObjectLike o
  · simp only [if_pos object]
    refine (lockstep.query _).bind fun access => ?_
    cases access with
    | true => exact .pure none
    | false =>
      refine (lockstep.query _).bind fun own => ?_
      cases own with
      | some s => exact .pure _
      | none =>
        cases update with
        | true =>
          exact (lockstep.claim o k none).bind fun _ =>
            (lockstep.onHeap (Heap.storeSlot_advances _ _ _)).bind fun _ => .pure _
        | false => exact .pure none
  · simp only [if_neg object]
    exact .pure none

section

variable {calls : Invoke ρ} {calls' : Invoke ρ'} (called : ∀ stub self args,
  Mirrors (R n) excused (calls stub self args) (calls' stub self args))

include called

theorem get (o k : Word) :
    Mirrors (R n) excused (Property.get calls o k) (Property.get calls' o k) := by
  refine (lockstep.query _).bind fun found => ?_
  cases found with
  | value w => exact .pure w
  | getter callee => exact lockstep.callValue called callee o []

theorem set (o k v : Word) :
    Mirrors (R n) excused (Property.set calls o k v) (Property.set calls' o k v) := by
  have write (own : Option Slot) : Mirrors (R n) excused
      (do
        let s ← Property.claim o k own
        Exec.onHeap (Heap.storeSlot o s v)
        return Word.undefined)
      (do
        let s ← Property.claim o k own
        Exec.onHeap (Heap.storeSlot o s v)
        return Word.undefined) :=
    (lockstep.claim o k own).bind fun _ =>
      (lockstep.onHeap (Heap.storeSlot_advances _ _ _)).bind fun _ => .pure _
  refine lockstep.heap_read.bind fun h => ?_
  by_cases object : h.isObjectLike o
  · simp only [if_pos object]
    refine (lockstep.query _).bind fun own => ?_
    cases own with
    | some s =>
      refine (lockstep.query _).bind fun pair => ?_
      cases pair with
      | some pair =>
        refine (lockstep.query _).bind fun setter => ?_
        by_cases missing : setter = .hole
        · simp only [missing, ne_eq, not_true_eq_false, if_false]
          exact .pure _
        · simp only [ne_eq, missing, not_false_eq_true, if_true]
          exact (lockstep.callValue called setter o [v]).bind fun _ => .pure _
      | none => exact write (some s)
    | none =>
      simp only [pure_bind]
      exact write none
  · simp only [if_neg object]
    exact .pure _

end

end Lockstep

/-- The state in which the host has counted one more request. -/
def State.counted (s : State PropertyHost) : State PropertyHost :=
  { s with host := { s.host with served := s.host.served + 1 } }

/-- Relations between states of the property host that counting and noting keep. -/
structure Attended (R : State PropertyHost → State PropertyHost → Prop) : Prop where
  counted : R s s' → R s.counted s'.counted
  noted : R s s' → ∀ id map slot, R (PropertyHost.noted s id map slot)
    (PropertyHost.noted s' id map slot)

namespace Lockstep

variable {R : Nat → State PropertyHost → State PropertyHost → Prop} {excused : Halt → Prop}
  (lockstep : Lockstep R excused) {n : Nat} (attended : Attended (R n))

include lockstep attended

theorem slot (id : CacheId) (o k : Word) (update : Bool) :
    Mirrors (R n) excused (PropertyHost.slot id o k update) (PropertyHost.slot id o k update) := by
  refine (lockstep.slot? o k update).bind fun found => ?_
  cases found with
  | none => exact .pure _
  | some s =>
    dsimp only
    cases Word.ofInt? s.index with
    | none => exact .pure _
    | some w =>
      dsimp only
      by_cases small : s.index < 0x100000000
      · simp only [if_pos small]
        exact (lockstep.query _).bind fun map => Mirrors.bind
          (fun s s' related => .ok (attended.noted related id map _)) fun _ => .pure w
      · simp only [if_neg small]
        exact .pure _

theorem serve {calls calls' : Invoke PropertyHost} (called : ∀ stub self args,
      Mirrors (R n) excused (calls stub self args) (calls' stub self args))
    (service : Service) (args : List Word) :
    Mirrors (R n) excused (PropertyHost.serve calls service args)
      (PropertyHost.serve calls' service args) := by
  have arg (i : Nat) :
      Mirrors (R n) excused (PropertyHost.arg args i) (PropertyHost.arg args i) := by
    unfold PropertyHost.arg
    cases args[i]? with
    | some w => exact .pure w
    | none => exact .throw _
  refine Mirrors.bind (fun s s' related => .ok (attended.counted related)) fun _ => ?_
  cases service with
  | getProperty => exact (arg 0).bind fun o => (arg 1).bind fun k => lockstep.get called o k
  | setProperty =>
    exact (arg 0).bind fun o => (arg 1).bind fun k => (arg 2).bind fun v =>
      lockstep.set called o k v
  | deleteProperty => exact (arg 0).bind fun o => (arg 1).bind fun k => lockstep.delete o k
  | getPropertySlot =>
    have number (w : Word) :
        Mirrors (R n) excused (PropertyHost.cacheId w) (PropertyHost.cacheId w) := by
      unfold PropertyHost.cacheId
      split
      · split
        · exact .pure _
        · exact .throw _
      · exact .throw _
    exact (arg 0).bind fun w => (number w).bind fun id => (arg 3).bind fun update =>
      (arg 1).bind fun o => (arg 2).bind fun k => lockstep.slot attended id o k _
  | coerce kind =>
    cases kind with
    | boolean => exact (arg 0).bind fun w => (lockstep.query _).bind fun _ => .pure _
    | _ => exact .throw _

end Lockstep

end FastPath
