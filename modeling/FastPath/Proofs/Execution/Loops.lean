import FastPath.Proofs.Compilation.Meaning
import FastPath.Proofs.Execution.Block

/-! The blocks that a run enters, one after the other, of which the iterations of a loop are those
that are its head. Stretches of a run are put together as paths are, and the blocks with them. -/

namespace FastPath

namespace Body

/-- What becomes of a run in one block. -/
def enter (b : Body σ) (host : Host ρ) (calls : Invoke ρ) (id : BlockId) (f : Frame) :
    Exec ρ Next := do
  let block ← b.block id
  let f ← b.insts host calls block.insts f
  b.leave f block.exit

/-- The blocks that a run from the given one on enters. -/
def entered (b : Body σ) (host : Host ρ) (calls : Invoke ρ) :
    (fuel : Nat) → BlockId → Frame → State ρ → List BlockId
  | 0, _, _, _ => []
  | fuel + 1, id, f, s =>
    id :: match b.enter host calls id f s with
      | .ok (.goto id f) s => b.entered host calls fuel id f s
      | _ => []

theorem runFrom_enter (b : Body σ) (host : Host ρ) (calls : Invoke ρ) (fuel : Nat) (id : BlockId)
    (f : Frame) : b.runFrom host calls (fuel + 1) id f = (do
      match ← b.enter host calls id f with
      | .done w => return w
      | .goto id f => b.runFrom host calls fuel id f) := by
  rw [runFrom, enter, bind_assoc]
  refine bind_congr fun block => ?_
  rw [bind_assoc]
  rfl

namespace Renamed

variable {f : σ → Except ε τ} {b : Body σ} {b' : Body τ} (renamed : b.Renamed f b')
  (host : Host ρ) (calls : Invoke ρ)

include renamed

theorem enter (id : BlockId) (frame : Frame) :
    b'.enter host calls id frame = b.enter host calls id frame := by
  rw [Body.enter, Body.enter]
  obtain ⟨x, y, found, found', same⟩ | ⟨absent, absent'⟩ := renamed.block (ρ := ρ) id
  · simp only [found, found', pure_bind, Body.insts, renamed.insts host calls same.insts,
      renamed.leave, same.exit]
  · simp only [absent, absent']
    rfl

/-- Renamed bodies enter the same blocks. -/
theorem entered (fuel : Nat) (id : BlockId) (frame : Frame) (s : State ρ) :
    b'.entered host calls fuel id frame s = b.entered host calls fuel id frame s := by
  induction fuel generalizing id frame s with
  | zero => rfl
  | succ fuel ih => simp only [Body.entered, renamed.enter, ih]

end Renamed

section

variable (b : Body σ) (host : Host ρ) (calls : Invoke ρ)

/-- A run goes through the blocks and on to another one. -/
def Passes (ids : List BlockId) (id : BlockId) (f : Frame) (s : State ρ) (id' : BlockId)
    (f' : Frame) (s' : State ρ) : Prop :=
  ∀ fuel, b.runFrom host calls (fuel + ids.length) id f s = b.runFrom host calls fuel id' f' s' ∧
    b.entered host calls (fuel + ids.length) id f s =
      ids ++ b.entered host calls fuel id' f' s'

/-- A run goes through the blocks and ends. -/
def Ends (ids : List BlockId) (id : BlockId) (f : Frame) (s : State ρ)
    (r : EStateM.Result Halt (State ρ) Word) : Prop :=
  ∀ fuel, b.runFrom host calls (fuel + ids.length) id f s = r ∧
    b.entered host calls (fuel + ids.length) id f s = ids

end

variable {b : Body σ} {host : Host ρ} {calls : Invoke ρ} {ids ids' : List BlockId}
  {id id' id'' : BlockId} {f f' f'' : Frame} {s t u : State ρ}
  {r : EStateM.Result Halt (State ρ) Word} {w : Word} {e : Halt}

theorem Passes.trans (first : b.Passes host calls ids id f s id' f' t)
    (second : b.Passes host calls ids' id' f' t id'' f'' u) :
    b.Passes host calls (ids ++ ids') id f s id'' f'' u := by
  intro fuel
  obtain ⟨run, path⟩ := first (fuel + ids'.length)
  obtain ⟨run', path'⟩ := second fuel
  rw [List.length_append, Nat.add_comm ids.length, ← Nat.add_assoc]
  exact ⟨run.trans run', by rw [path, path', List.append_assoc]⟩

theorem Passes.ends (first : b.Passes host calls ids id f s id' f' t)
    (second : b.Ends host calls ids' id' f' t r) : b.Ends host calls (ids ++ ids') id f s r := by
  intro fuel
  obtain ⟨run, path⟩ := first (fuel + ids'.length)
  obtain ⟨run', path'⟩ := second fuel
  rw [List.length_append, Nat.add_comm ids.length, ← Nat.add_assoc]
  exact ⟨run.trans run', by rw [path, path']⟩

theorem enter_eq {block : Block σ} (found : b.blocks[id]? = some block)
    (body : b.insts host calls block.insts f s = .ok f' t) :
    b.enter host calls id f s = b.leave f' block.exit t := by
  rw [enter, estate_bind_of_ok (block_ok found s)]
  exact estate_bind_of_ok body

/-- A block that runs through leads to the next one. -/
theorem passes_block {block : Block σ} (found : b.blocks[id]? = some block)
    (body : b.insts host calls block.insts f s = .ok f' t)
    (exit : b.leave f' block.exit t = .ok (.goto id' f'') u) :
    b.Passes host calls [id] id f s id' f'' u := by
  have ran := (enter_eq found body).trans exit
  intro fuel
  constructor
  · exact (congrFun (b.runFrom_enter host calls fuel id f) s).trans (estate_bind_of_ok ran)
  · change b.entered host calls (fuel + 1) id f s = _
    rw [entered, ran]
    rfl

theorem ends_block {block : Block σ} (found : b.blocks[id]? = some block)
    (body : b.insts host calls block.insts f s = .ok f' t)
    (exit : b.leave f' block.exit t = .ok (.done w) u) :
    b.Ends host calls [id] id f s (.ok w u) := by
  have ran := (enter_eq found body).trans exit
  intro fuel
  constructor
  · exact (congrFun (b.runFrom_enter host calls fuel id f) s).trans (estate_bind_of_ok ran)
  · change b.entered host calls (fuel + 1) id f s = _
    rw [entered, ran]

theorem ends_failing {block : Block σ} (found : b.blocks[id]? = some block)
    (failed : b.insts host calls block.insts f s = .error e t) :
    b.Ends host calls [id] id f s (.error e t) := by
  have ran : b.enter host calls id f s = .error e t := by
    rw [enter, estate_bind_of_ok (block_ok found s)]
    exact estate_bind_of_error failed
  intro fuel
  constructor
  · exact (congrFun (b.runFrom_enter host calls fuel id f) s).trans (estate_bind_of_error ran)
  · change b.entered host calls (fuel + 1) id f s = _
    rw [entered, ran]

end Body

/-- The blocks that a call of a stub enters, without those that calls on the way enter. -/
def Stub.entered (host : Host ρ) (fuel : Nat) (stub : Stub) (self : Word) (args : List Word)
    (s : State ρ) : List BlockId :=
  match fuel with
  | 0 => []
  | fuel + 1 =>
    if s.machine.depth < s.machine.maxDepth then
      stub.body.entered host (invoke host fuel) fuel 0 (stub.body.frame self args) s.deeper
    else []

end FastPath
