import FastPath.Proofs.Execution.Simulation
import FastPath.Proofs.Graph.Closed

/-! Closed stubs never use a block, a register or a stub that does not exist, and never jump with
the wrong number of arguments: they do not fault. What a machine can call are the stubs of its code
table and the dependencies of the stub that runs, so it is enough that all of these are closed. -/

namespace FastPath

namespace Exec

/-- Actions that keep `I`, give values with `post` only and make `allowed` halts only. -/
def Keeps (I : State ρ → Prop) (allowed : Halt → Prop) (act : Exec ρ α) (post : α → Prop) : Prop :=
  ∀ s, I s → Yields act s (fun a t => I t ∧ post a) (fun e t => I t ∧ allowed e)

namespace Keeps

variable {I : State ρ → Prop} {allowed : Halt → Prop}

theorem pure {post : α → Prop} (a : α) (met : post a) : Keeps I allowed (pure a) post :=
  fun _ held => .pure ⟨held, met⟩

theorem throw {post : α → Prop} (e : Halt) (fine : allowed e) :
    Keeps I allowed (throw e : Exec ρ α) post :=
  fun _ held => .throw ⟨held, fine⟩

theorem bind {act : Exec ρ α} {next : α → Exec ρ β} {mid : α → Prop} {post : β → Prop}
    (first : Keeps I allowed act mid) (rest : ∀ a, mid a → Keeps I allowed (next a) post) :
    Keeps I allowed (act >>= next) post :=
  fun s held => (first s held).bind_mono fun a t met => rest a met.2 t met.1

theorem mono {act : Exec ρ α} {post post' : α → Prop} (kept : Keeps I allowed act post)
    (weaker : ∀ a, post a → post' a) : Keeps I allowed act post' :=
  fun s held => (kept s held).mono (fun a _ met => ⟨met.1, weaker a met.2⟩) fun _ _ met => met

theorem mapM {f : α → Exec ρ β} {as : List α} {post : β → Prop}
    (each : ∀ a ∈ as, Keeps I allowed (f a) post) :
    Keeps I allowed (as.mapM f) fun bs => bs.length = as.length := by
  induction as with
  | nil => exact pure _ rfl
  | cons a as ih =>
    rw [List.mapM_cons]
    refine (each a List.mem_cons_self).bind fun b _ => ?_
    refine (ih fun a later => each a (List.mem_cons_of_mem _ later)).bind fun bs same => ?_
    exact pure _ (congrArg Nat.succ same)

theorem foldlM {f : β → α → Exec ρ β} {as : List α} {inv : β → Prop}
    (each : ∀ b, inv b → ∀ a ∈ as, Keeps I allowed (f b a) inv) {b : β} (start : inv b) :
    Keeps I allowed (as.foldlM f b) inv := by
  induction as generalizing b with
  | nil => exact pure _ start
  | cons a as ih =>
    rw [List.foldlM_cons]
    refine (each b start a List.mem_cons_self).bind fun b held => ?_
    exact ih (fun b held a later => each b held a (List.mem_cons_of_mem _ later)) held

theorem nested {act : Exec ρ α} {post : α → Prop} (deep : allowed (.trap (.fatal .callDepth)))
    (enter : ∀ s, I s → I s.deeper) (leave : ∀ s, I s → I s.shallower)
    (inside : Keeps I allowed act post) : Keeps I allowed (Exec.nested act) post := by
  intro s held
  refine Yields.nested ?_ fun _ => ⟨held, deep⟩
  exact (inside _ (enter s held)).mono (fun _ t met => ⟨leave t met.1, met.2⟩)
    fun _ t met => ⟨leave t met.1, met.2⟩

end Keeps

end Exec

namespace Machine

variable {m m' : Machine}

theorem stub?_mem (found : m.stub? w = some s) : s ∈ m.code := by
  unfold stub? at found
  split at found
  · split at found
    · exact List.mem_of_getElem? found
    · cases found
  · cases found

/-- Only stubs of the table are called by value. -/
theorem target_mem (found : m.target callee = .ok s) : s ∈ m.code := by
  unfold target at found
  dsimp only at found
  split at found
  · cases found
  split at found
  next direct =>
    cases found
    exact stub?_mem direct
  next =>
    obtain ⟨callable, _, found⟩ := except_bind_ok.mp found
    split at found
    · obtain ⟨code, _, found⟩ := except_bind_ok.mp found
      split at found
      next held =>
        cases found
        exact stub?_mem held
      next => cases found
    · cases found

end Machine

/-- All stubs that can be called by value are closed. -/
def State.Closed (s : State ρ) : Prop := ∀ stub ∈ s.machine.code, stub.Closed

/-- Actions that do not fault and put only closed stubs into the code table, with values as
`post` says. -/
abbrev Exec.Gives (act : Exec ρ α) (post : α → Prop) : Prop :=
  Exec.Keeps State.Closed (· ≠ .fault) act post

abbrev Exec.Safe (act : Exec ρ α) : Prop := Exec.Gives act fun _ => True

namespace Exec

end Exec

/-- Calls of closed stubs are safe. -/
def Invoke.Safe (calls : Invoke ρ) : Prop :=
  ∀ stub, stub.Closed → ∀ self args, Exec.Safe (calls stub self args)

section

variable (f : Frame)

end

/-- Where a block leaves to is a block of the body, with as many registers. -/
def Next.Inside (b : Body σ) : Next → Prop
  | .done _ => True
  | .goto id g => id < b.blocks.length ∧ g.registers.length = b.varCount

section

variable {b : Body σ} {host : Host ρ} {calls : Invoke ρ}

variable (served : ∀ id args, Exec.Safe (host calls id args)) (called : calls.Safe)

include served called

end

/-- Hosts that are safe whatever safe calls they are given. -/
def Host.Safe (host : Host ρ) : Prop :=
  ∀ calls, Invoke.Safe calls → ∀ id args, Exec.Safe (host calls id args)

end FastPath
