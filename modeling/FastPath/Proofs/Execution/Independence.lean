import FastPath.Proofs.Execution.Bounds

/-! What execution does not depend on. A call reads the limit on the depth of calls only where it
refuses to go deeper, and its host only where a service is asked for. Both end in a trap that
nothing on the way out turns into anything else, so a call that ends otherwise goes the same way
under any higher limit, and with any host whatever its state. -/

namespace FastPath

/-- What one side comes to, the other comes to as well. -/
theorem Mirrors.repeated {R : State ρ → State ρ' → Prop} {excused : Halt → Prop} {act : Exec ρ α}
    {act' : Exec ρ' α} {s : State ρ} {s' : State ρ'} (mirrors : Mirrors R excused act act')
    (related : R s s') :
    Yields act s (fun a t => ∃ t', act' s' = .ok a t' ∧ R t t')
      fun e t => excused e ∨ ∃ t', act' s' = .error e t' ∧ R t t' := by
  have matched := mirrors s s' related
  rw [Yields]
  revert matched
  generalize act s = r, act' s' = r'
  intro matched
  cases matched with
  | ok left => exact ⟨_, rfl, left⟩
  | error left => exact .inr ⟨_, rfl, left⟩
  | excused allowed => exact .inl allowed

/-- The state with another limit on the depth of calls. -/
def State.limited (s : State ρ) (limit : Nat) : State ρ :=
  { s with machine := { s.machine with maxDepth := limit } }

/-- One side runs under `limit`, the other in the same state but for its limit, `limit'`. -/
def Relaxed (limit limit' : Nat) (_ : Nat) (s s' : State ρ) : Prop :=
  s.machine.maxDepth = limit ∧ s' = s.limited limit'

section

variable {limit limit' : Nat}

/-- With no less room on the other side, the only difference is a call that this side refuses. -/
theorem relaxed_lockstep (more : limit ≤ limit') :
    Lockstep (Relaxed limit limit' : Nat → State ρ → State ρ → Prop)
      (· = .trap (.fatal .callDepth)) where
  heap := by
    rintro _ _ _ ⟨_, rfl⟩
    rfl
  code := by
    rintro _ _ _ ⟨_, rfl⟩
    rfl
  entities := by
    rintro _ _ _ ⟨_, rfl⟩
    rfl
  rebuilt := by
    rintro _ _ _ ⟨limits, rfl⟩ h c es _ _
    exact ⟨limits, rfl⟩
  enter := by
    rintro _ s _ ⟨limits, rfl⟩ room
    rw [limits] at room
    exact ⟨Nat.lt_of_lt_of_le room more, limits, rfl⟩
  refuse := by
    intro _ _ _ _ _
    exact .inl rfl
  leave := by
    rintro _ _ _ ⟨limits, rfl⟩
    exact ⟨limits, rfl⟩

theorem relaxed_attended (n : Nat) : Attended (Relaxed limit limit' n) where
  counted := by
    rintro _ _ ⟨limits, rfl⟩
    exact ⟨limits, rfl⟩
  noted := by
    rintro _ _ ⟨limits, rfl⟩ id map slot
    exact ⟨limits, rfl⟩

/-- However the call ends under `limit`, it ends so under `limit'` too, in a state that differs in
nothing but the limit, unless it was refused for its depth. -/
def Conservative (host : Host ρ) (fuel : Nat) (stub : Stub) (receiver : Word) (args : List Word)
    (limit limit' : Nat) (s : State ρ) : Prop :=
  Yields (invoke host fuel stub receiver args) (s.limited limit)
    (fun w t => t.machine.maxDepth = limit ∧
      invoke host fuel stub receiver args (s.limited limit') = .ok w (t.limited limit'))
    fun e t => e = .trap (.fatal .callDepth) ∨ t.machine.maxDepth = limit ∧
      invoke host fuel stub receiver args (s.limited limit') = .error e (t.limited limit')

theorem conservative_of_served {host : Host ρ}
    (served : ∀ {n} {calls calls' : Invoke ρ},
      (∀ stub self args, Mirrors (Relaxed limit limit' n) (· = .trap (.fatal .callDepth))
        (calls stub self args) (calls' stub self args)) →
      ∀ service args, Mirrors (Relaxed limit limit' n) (· = .trap (.fatal .callDepth))
        (host calls service args) (host calls' service args))
    (more : limit ≤ limit') (fuel : Nat) (stub : Stub) (self : Word) (args : List Word)
    (s : State ρ) : Conservative host fuel stub self args limit limit' s := by
  have mirrors := (relaxed_lockstep more).invoke served fuel stub self args (n := 0)
  have related : Relaxed limit limit' 0 (s.limited limit) (s.limited limit') := ⟨rfl, rfl⟩
  apply (mirrors.repeated related).mono
  · rintro w t ⟨_, ran, limits, rfl⟩
    exact ⟨limits, ran⟩
  · rintro e t (tooDeep | ⟨_, ran, limits, rfl⟩)
    · exact .inl tooDeep
    · exact .inr ⟨limits, ran⟩

end

/-- Raising the limit on the depth of calls is conservative: whatever a call of a stub comes to
other than the refusal of a call that is one too many, it comes to under every higher limit, with
the same heap, tables, depth, caches and count of requests. -/
theorem higher_limit_conservative {limit limit' : Nat} (more : limit ≤ limit') (stub : Stub)
    (fuel : Nat) (self : Word) (args : List Word) :
    (∀ s : State PropertyHost,
      Conservative PropertyHost.serve fuel stub self args limit limit' s) ∧
    ∀ {ρ : Type} (s : State ρ), Conservative Host.absent fuel stub self args limit limit' s := by
  constructor
  · intro s
    refine conservative_of_served (fun called => ?_) more fuel stub self args s
    exact (relaxed_lockstep more).serve (relaxed_attended _) called
  · intro ρ s
    refine conservative_of_served (fun _ service _ => ?_) more fuel stub self args s
    exact .throw (.trap (.fatal (.noService service.name)))

/-- Two calls deep is enough for `taking` and one is not, so it goes under the limit of two as
under any other but that of one. -/
theorem taking_conservative :
    let s : State Unit := { machine := .ofHeap (Heap.blank 64) 0, host := () }
    2 ≤ 256 ∧
      (∃ t, invoke Host.absent 3 taking .undefined [] (s.limited 1) =
        .error (.trap (.fatal .callDepth)) t) ∧
      ∃ t, t.machine.heap.region.cursor = 24 ∧
        invoke Host.absent 3 taking .undefined [] (s.limited 2) = .ok .undefined t ∧
        invoke Host.absent 3 taking .undefined [] (s.limited 256) =
          .ok .undefined (t.limited 256) := by
  intro s
  have refused : Yields (invoke Host.absent 3 taking .undefined []) (s.limited 1)
      (fun _ _ => False) fun e _ => e = .trap (.fatal .callDepth) := by decide +kernel
  have returned : Yields (invoke Host.absent 3 taking .undefined []) (s.limited 2)
      (fun w t => w = .undefined ∧ t.machine.heap.region.cursor = 24) fun _ _ => False := by
    decide +kernel
  have more : 2 ≤ 256 := by decide
  have conservative := (higher_limit_conservative more taking 3 .undefined []).2 s
  obtain ⟨_, t₁, failed, rfl⟩ := refused.fails
  obtain ⟨_, t₂, ran, rfl, cursor⟩ := returned.returns
  exact ⟨more, ⟨t₁, failed⟩, t₂, cursor, ran, (conservative.ok ran).2⟩

/-- One side is without a host, the other has the same machine and a host in state `h`. -/
def Unserved (h : σ) (_ : Nat) (s : State ρ) (s' : State σ) : Prop := s' = ⟨s.machine, h⟩

/-- The trap of a stub that asks for a service there is none for. -/
def Halt.Unavailable (e : Halt) : Prop := ∃ service, e = .trap (.fatal (.noService service))

theorem unserved_lockstep (h : σ) :
    Lockstep (Unserved h : Nat → State ρ → State σ → Prop) Halt.Unavailable where
  heap := by
    rintro _ _ _ rfl
    rfl
  code := by
    rintro _ _ _ rfl
    rfl
  entities := by
    rintro _ _ _ rfl
    rfl
  rebuilt := by
    rintro _ _ _ rfl h c es _ _
    rfl
  enter := by
    rintro _ _ _ rfl room
    exact ⟨room, rfl⟩
  refuse := by
    rintro _ _ _ rfl full
    exact .inr full
  leave := by
    rintro _ _ _ rfl
    rfl

/-- Whatever a request would have done, without a host there is the trap in its place. -/
theorem absent_mirrors (h : σ) (n : Nat) (act : Exec σ Word) (calls : Invoke ρ) (service : Service)
    (args : List Word) :
    Mirrors (Unserved h n) Halt.Unavailable (Host.absent calls service args) act := by
  intro s s' _
  exact .excused ⟨service.name, rfl⟩

/-- Fast paths do not depend on the host of property accesses: whatever a call of a stub comes to
without a host, other than the trap that a service is missing, it comes to in the same machine with
the host, whose caches and count of requests it leaves alone. -/
theorem fast_path_needs_no_host (stub : Stub) (fuel : Nat) (self : Word) (args : List Word)
    (s : State ρ) (caches : InlineCache.Table) (served : Nat) :
    Yields (invoke Host.absent fuel stub self args) s
      (fun w t => invoke PropertyHost.serve fuel stub self args ⟨s.machine, { caches, served }⟩ =
        .ok w ⟨t.machine, { caches, served }⟩)
      fun e t => (∃ service, e = .trap (.fatal (.noService service))) ∨
        invoke PropertyHost.serve fuel stub self args ⟨s.machine, { caches, served }⟩ =
          .error e ⟨t.machine, { caches, served }⟩ := by
  let h : PropertyHost := { caches, served }
  have mirrors : Mirrors (Unserved h 0) Halt.Unavailable
      (invoke (Host.absent : Host ρ) fuel stub self args)
      (invoke PropertyHost.serve fuel stub self args) :=
    (unserved_lockstep h).invoke (fun _ _ _ => absent_mirrors h _ _ _ _ _) fuel stub self args
  have related : Unserved h 0 s ⟨s.machine, h⟩ := rfl
  apply (mirrors.repeated related).mono
  · rintro w t ⟨_, ran, rfl⟩
    exact ran
  · rintro e t (missing | ⟨_, ran, rfl⟩)
    · exact .inl missing
    · exact .inr ran

/-- `taking` asks for no service, so a host that has served seven requests still has served
seven. -/
theorem taking_needs_no_host :
    let m : Machine := .ofHeap (Heap.blank 64) 2
    ∃ m' : Machine, m'.heap.region.cursor = 24 ∧
      invoke Host.absent 3 taking .undefined [] ⟨m, ()⟩ = .ok .undefined ⟨m', ()⟩ ∧
      invoke PropertyHost.serve 3 taking .undefined [] ⟨m, { caches := {}, served := 7 }⟩ =
        .ok .undefined ⟨m', { caches := {}, served := 7 }⟩ := by
  intro m
  have returned : Yields (invoke Host.absent 3 taking .undefined []) ⟨m, ()⟩
      (fun w t => w = .undefined ∧ t.machine.heap.region.cursor = 24) fun _ _ => False := by
    decide +kernel
  obtain ⟨_, ⟨m', _⟩, ran, rfl, cursor⟩ := returned.returns
  have same := fast_path_needs_no_host taking 3 .undefined [] ⟨m, ()⟩ {} 7
  exact ⟨m', cursor, ran, same.ok ran⟩

end FastPath
