import FastPath.Proofs.Execution.Block
import Mathlib.Data.List.Chain
import Mathlib.Logic.Relation

/-! Calls of stubs by stubs that were made after them. Every stub depends on stubs with smaller
entry points only, so chains of such calls are bounded by the entry point that they start at,
whatever the stubs are called by now. Calls of values and calls made by a host start chains of
their own. -/

namespace FastPath

namespace Stub

/-- How many stubs its compiler had made before it. -/
def index (s : Stub) : Nat := (s.entry - 0x1000) / 0x10

/-- One of the first `count` stubs of a compiler, with dependencies from before it. -/
inductive Grounded : Nat → Stub → Prop
  | of : s.entry = 0x1000 + 0x10 * s.index → s.index < count →
      (∀ t ∈ s.deps, Grounded s.index t) → Grounded count s

def Uses (s t : Stub) : Prop := t ∈ s.deps

variable {s t : Stub}

namespace Grounded

theorem within (grounded : s.Grounded count) (least : s.index < count') : s.Grounded count' := by
  obtain ⟨entry, _, deps⟩ := grounded
  exact .of entry least deps

theorem mono (grounded : s.Grounded count) (more : count ≤ count') : s.Grounded count' := by
  obtain ⟨_, before, _⟩ := id grounded
  exact grounded.within (Nat.lt_of_lt_of_le before more)

theorem uses (grounded : s.Grounded count) (uses : s.Uses t) : t.Grounded s.index := by
  obtain ⟨_, _, deps⟩ := grounded
  exact deps t uses

theorem index_lt (grounded : s.Grounded count) (uses : s.Uses t) : t.index < s.index := by
  obtain ⟨_, before, _⟩ := grounded.uses uses
  exact before

theorem descends (grounded : s.Grounded count) (uses : s.Uses t) : t.entry < s.entry := by
  obtain ⟨entry, _, _⟩ := id grounded
  obtain ⟨entry', before, _⟩ := grounded.uses uses
  omega

theorem reaches (grounded : s.Grounded count) (path : Relation.ReflTransGen Uses s t) :
    t.Grounded count := by
  induction path with
  | refl => exact grounded
  | tail _ uses ih =>
    obtain ⟨_, before, _⟩ := id ih
    exact (ih.uses uses).mono before.le

theorem falls (grounded : s.Grounded count) (path : Relation.TransGen Uses s t) :
    t.entry < s.entry := by
  induction path with
  | single uses => exact grounded.descends uses
  | tail path uses ih => exact ((grounded.reaches path.to_reflTransGen).descends uses).trans ih

theorem chain_length (grounded : s.Grounded count) (chain : (s :: rest).IsChain Uses) :
    rest.length ≤ s.index := by
  induction rest generalizing s count with
  | nil => exact Nat.zero_le _
  | cons t rest ih =>
    obtain ⟨uses, chain⟩ := List.isChain_cons_cons.mp chain
    have shorter := ih (grounded.uses uses) chain
    exact Nat.succ_le_of_lt (Nat.lt_of_le_of_lt shorter (grounded.index_lt uses))

end Grounded

end Stub

section

variable (alarm : Halt)

/-- An instruction that calls dependencies by `direct` and all else by `calls`. -/
def Body.stepChained (b : Body σ) (host : Host ρ) (calls direct : Invoke ρ) (f : Frame) :
    Inst σ → Exec ρ Frame
  | .define v (.callStub s args) => b.step host direct f (.define v (.callStub s args))
  | i => b.step host calls f i

def Body.runChained (b : Body σ) (host : Host ρ) (calls direct : Invoke ρ) :
    (fuel : Nat) → BlockId → Frame → Exec ρ Word
  | 0, _, _ => throw .outOfFuel
  | fuel + 1, id, f => do
    let block ← b.block id
    let f ← block.insts.foldlM (b.stepChained host calls direct) f
    match ← b.leave f block.exit with
    | .done w => return w
    | .goto id f => runChained b host calls direct fuel id f

/-- Calls a stub that starts a chain of at most `room` calls, each made by the one before it as of
a dependency. One call more raises the alarm. -/
def invokeChained (host : Host ρ) : (fuel room : Nat) → Invoke ρ
  | _, 0 => fun _ _ _ => throw alarm
  | 0, _ + 1 => fun _ _ _ => throw .outOfFuel
  | fuel + 1, room + 1 => fun s self args => Exec.nested
      (s.body.runChained host (invoke host fuel) (invokeChained host fuel room) fuel 0
        (s.body.frame self args))

end

section

variable {host : Host ρ} {calls direct : Invoke ρ} {b : Body σ}
  (same : ∀ i t, b.link i = some t → direct t = calls t)

include same

theorem Body.stepChained_eq (f : Frame) (i : Inst σ) :
    b.stepChained host calls direct f i = b.step host calls f i := by
  unfold stepChained
  split
  next v i args =>
    simp only [step, eval, callee]
    cases linked : b.link i with
    | none => rfl
    | some t => simp only [pure_bind, same i t linked]
  next => rfl

theorem Body.runChained_eq (fuel : Nat) (id : BlockId) (f : Frame) :
    b.runChained host calls direct fuel id f = b.runFrom host calls fuel id f := by
  have step : b.stepChained host calls direct = b.step host calls := by
    funext f i
    exact stepChained_eq same f i
  induction fuel generalizing id f with
  | zero => rfl
  | succ fuel ih =>
    simp only [runChained, step, ih]
    rfl

end

/-- A chain never gets as long as the number of stubs that were made up to its first. -/
theorem invokeChained_eq (alarm : Halt) (host : Host ρ) (fuel : Nat) {s : Stub}
    (grounded : s.Grounded room) :
    invokeChained alarm host fuel room s = invoke host fuel s := by
  induction room generalizing fuel s with
  | zero =>
    obtain ⟨_, before, _⟩ := grounded
    exact absurd before (Nat.not_lt_zero _)
  | succ room ih =>
    cases fuel with
    | zero => rfl
    | succ fuel =>
      have same : ∀ (i : Nat) t, s.body.link i = some t →
          invokeChained alarm host fuel room t = invoke host fuel t := by
        intro i t linked
        obtain ⟨_, before, deps⟩ := grounded
        exact ih fuel ((deps t (List.mem_of_getElem? linked)).mono (Nat.le_of_lt_succ before))
      funext self args
      exact congrArg Exec.nested (Body.runChained_eq same fuel 0 _)

end FastPath
