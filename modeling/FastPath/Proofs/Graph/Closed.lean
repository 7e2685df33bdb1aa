import FastPath.Graph.Draft
import FastPath.Proofs.Compilation.Meaning

/-! Closed bodies: every block, variable and stub that a body mentions is one of its own, and every
jump fits its target. A draft is closed up to the targets of its exits if each call on it mentions
only variables that calls before it handed out; finishing it checks the targets, and compiling the
graph checks the stubs. -/

namespace FastPath

def CallArgs.vars : CallArgs → List Var
  | .list vs => vs
  | .forward _ count => [count]

def Op.vars : Op σ → List Var
  | .stubArg _ | .arg _ | .receiver | .literal _ | .cache | .canonicalMap _ | .cursor | .limit
  | .stubRef _ => []
  | .load v _ | .negate v | .roundUp v => [v]
  | .loadAt v w | .arith _ v w | .advance v w => [v, w]
  | .service _ vs => vs
  | .callStub _ args => args.vars
  | .call callee self args => callee :: self :: args.vars

def Effect.vars : Effect → List Var
  | .store base value _ => [base, value]
  | .storeAt base value offset => [base, value, offset]
  | .fill start stop value => [start, stop, value]
  | .moveCursor v => [v]

def Inst.vars : Inst σ → List Var
  | .define v op => v :: op.vars
  | .perform effect => effect.vars

def Condition.vars : Condition → List Var
  | .isInt v => [v]
  | .overlap v w | .compareInts _ v w | .compareWords _ v w => [v, w]
  | .overflowed => []

def Exit.vars : Exit → List Var
  | .ret value => value.toList
  | .jump _ args => args
  | .branch condition _ _ => condition.vars
  | .trap _ => []

def Block.vars (b : Block σ) : List Var := b.params ++ b.insts.flatMap Inst.vars ++ b.exit.vars

/-- The targets of an exit exist, and a jump supplies just the parameters of its target. -/
def Exit.Fits (blocks : List (Block σ)) : Exit → Prop
  | .jump target args => ∃ b, blocks[target]? = some b ∧ b.params.length = args.length
  | .branch _ yes no => yes < blocks.length ∧ no < blocks.length
  | .ret _ | .trap _ => True

structure Body.Closed (b : Body σ) : Prop where
  entry : 0 < b.blocks.length
  vars : ∀ x ∈ b.blocks, ∀ v ∈ x.vars, v < b.varCount
  exits : ∀ x ∈ b.blocks, x.exit.Fits b.blocks
  callees : ∀ x ∈ b.blocks, ∀ i ∈ x.insts, ∀ s, i.callee? = some s → ∃ stub, b.link s = some stub

namespace Draft

/-- The variables that a call mentions. -/
def Call.vars : Call → List Var
  | .define op => op.vars
  | .perform effect => effect.vars
  | .leave exit => exit.vars
  | .block | .param _ | .enter _ | .guardOverflow _ => []

/-- The variable that a call hands out. -/
def returned (d : Draft) : Call → Option Var
  | .param _ | .define _ => some d.varCount
  | _ => none

/-- Drafts made by calls that mention only variables handed out by calls before them, with all the
variables handed out. -/
inductive Built : Draft → List Var → Prop
  | start (stub : String) : Built (start stub) []
  | call {d vars c} : Built d vars → (∀ v ∈ c.vars, v ∈ vars) →
    Built (d.call c) (vars ++ (d.returned c).toList)

end Draft

def OpenBlock.vars (o : OpenBlock) : List Var :=
  o.params ++ o.insts.flatMap Inst.vars ++ o.exit.toList.flatMap Exit.vars

namespace Draft

/-- The draft has its entry block and mentions only variables that it counts. -/
structure Bounded (d : Draft) : Prop where
  entry : 0 < d.blocks.length
  vars : ∀ o ∈ d.blocks, ∀ v ∈ o.vars, v < d.varCount

namespace Bounded

variable {d : Draft} (bounded : d.Bounded)

include bounded

theorem note (e : GraphError) : (d.note e).Bounded := ⟨bounded.entry, bounded.vars⟩

theorem counted : Bounded { d with varCount := d.varCount + 1 } :=
  ⟨bounded.entry, fun o member v mentioned => Nat.lt_succ_of_lt (bounded.vars o member v mentioned)⟩

theorem addBlock : d.addBlock.Bounded := by
  refine ⟨by simp [Draft.addBlock], fun o member v mentioned => ?_⟩
  obtain old | fresh := List.mem_append.mp member
  · exact bounded.vars o old v mentioned
  · cases List.mem_singleton.mp fresh
    simp [OpenBlock.vars] at mentioned

theorem enter (b : BlockId) : (d.enter b).Bounded := by
  unfold Draft.enter
  split
  · exact ⟨bounded.entry, bounded.vars⟩
  · exact bounded.note _

/-- A change of one block that mentions nothing beyond what is counted. -/
theorem modify {f : OpenBlock → OpenBlock}
    (kept : ∀ o, (∀ v ∈ o.vars, v < d.varCount) → ∀ v ∈ (f o).vars, v < d.varCount)
    (b : BlockId) : Bounded { d with blocks := d.blocks.modify b f } := by
  refine ⟨by simpa using bounded.entry, fun o member => ?_⟩
  obtain old | ⟨o', old, rfl⟩ := mem_modify member
  · exact bounded.vars o old
  · exact kept o' (bounded.vars o' old)

theorem extend {f : OpenBlock → OpenBlock}
    (kept : ∀ o, (∀ v ∈ o.vars, v < d.varCount) → ∀ v ∈ (f o).vars, v < d.varCount) :
    (d.extend f).Bounded := by
  unfold Draft.extend
  split
  · exact bounded.modify kept _
  · exact bounded.note _

theorem push {i : Inst String} (counted : ∀ v ∈ i.vars, v < d.varCount) : (d.push i).Bounded := by
  refine bounded.extend fun o kept v mentioned => ?_
  simp only [OpenBlock.vars, List.flatMap_append, List.flatMap_singleton, List.mem_append]
    at mentioned kept
  obtain (old | old | fresh) | old := mentioned
  · exact kept v (.inl (.inl old))
  · exact kept v (.inl (.inr old))
  · exact counted v fresh
  · exact kept v (.inr old)

theorem leave {exit : Exit} (counted : ∀ v ∈ exit.vars, v < d.varCount) :
    (d.leave exit).Bounded := by
  refine bounded.extend fun o kept v mentioned => ?_
  simp only [OpenBlock.vars, Option.toList_some, List.flatMap_singleton, List.mem_append]
    at mentioned kept
  obtain old | fresh := mentioned
  · exact kept v (.inl old)
  · exact counted v fresh

theorem addParam (b : BlockId) : (d.addParam b).Bounded := by
  unfold Draft.addParam
  dsimp only
  split
  · refine bounded.counted.modify (fun o kept v mentioned => ?_) b
    simp only [OpenBlock.vars, List.mem_append, List.mem_singleton] at mentioned kept
    obtain ((old | fresh) | old) | old := mentioned
    · exact kept v (.inl (.inl old))
    · exact fresh ▸ Nat.lt_succ_self _
    · exact kept v (.inl (.inr old))
    · exact kept v (.inr old)
  · exact bounded.counted.note _

theorem call {c : Draft.Call} (counted : ∀ v ∈ c.vars, v < d.varCount) : (d.call c).Bounded := by
  cases c with
  | block => exact bounded.addBlock
  | param b => exact bounded.addParam b
  | enter b => exact bounded.enter b
  | define op =>
    refine bounded.counted.push fun v mentioned => ?_
    obtain rfl | used := List.mem_cons.mp mentioned
    · exact Nat.lt_succ_self _
    · exact Nat.lt_succ_of_lt (counted v used)
  | perform effect => exact bounded.push counted
  | leave exit => exact bounded.leave counted
  | guardOverflow target =>
    exact (bounded.addBlock.leave fun v mentioned => by cases mentioned).enter _

end Bounded

@[simp] theorem extend_varCount (d : Draft) (f : OpenBlock → OpenBlock) :
    (d.extend f).varCount = d.varCount := by
  unfold extend
  split <;> rfl

@[simp] theorem enter_varCount (d : Draft) (b : BlockId) : (d.enter b).varCount = d.varCount := by
  unfold enter
  split <;> rfl

theorem call_varCount (d : Draft) (c : Call) :
    (d.call c).varCount = d.varCount + (d.returned c).toList.length := by
  cases c with
  | param b =>
    simp only [call, addParam, returned]
    split <;> rfl
  | _ => simp [call, addBlock, push, leave, returned]

theorem Built.bounded {d : Draft} {vars : List Var} (built : Built d vars) :
    d.Bounded ∧ ∀ v ∈ vars, v < d.varCount := by
  induction built with
  | start stub => exact ⟨⟨Nat.one_pos, by simp [Draft.start, OpenBlock.vars]⟩, by simp⟩
  | @call d vars c _ mentioned ih =>
    obtain ⟨bounded, counted⟩ := ih
    refine ⟨bounded.call fun v used => counted v (mentioned v used), fun v member => ?_⟩
    rw [call_varCount]
    obtain old | fresh := List.mem_append.mp member
    · exact Nat.lt_add_right _ (counted v old)
    · cases c with
      | param | define =>
        cases List.mem_singleton.mp fresh
        exact Nat.lt_succ_self _
      | _ => cases fresh

/-- A finished block is the open one with the exit that it was given. -/
structure Closes (o : OpenBlock) (b : Block String) : Prop where
  params : b.params = o.params
  insts : b.insts = o.insts
  exit : o.exit = some b.exit

theorem Closes.vars {o : OpenBlock} {b : Block String} (closes : Closes o b) : b.vars = o.vars := by
  rw [Block.vars, OpenBlock.vars, closes.params, closes.insts, closes.exit, Option.toList_some,
    List.flatMap_singleton]

variable {name : String} {arities : List Nat}

theorem closeBlock_ok (h : closeBlock name arities o b = .ok x) :
    Closes o x ∧ checkExit name arities x.exit = .ok () := by
  unfold closeBlock at h
  split at h
  · cases h
  next exit given =>
    obtain ⟨⟨⟩, checked, done⟩ := except_bind_ok.mp h
    cases done
    exact ⟨⟨rfl, rfl, given⟩, checked⟩

theorem arity_ok (h : arity name arities b = .ok n) : arities[b]? = some n := by
  unfold arity at h
  split at h
  · cases h
    assumption
  · cases h

theorem checkExit_fits {blocks : List (Block String)}
    (h : checkExit name (blocks.map fun b => b.params.length) exit = .ok ()) :
    exit.Fits blocks := by
  have target {b n} (known : arity name (blocks.map fun b => b.params.length) b = .ok n) :
      ∃ x, blocks[b]? = some x ∧ x.params.length = n := by
    have found := arity_ok known
    rw [List.getElem?_map] at found
    exact Option.map_eq_some_iff.mp found
  have inside {b n} (known : arity name (blocks.map fun b => b.params.length) b = .ok n) :
      b < blocks.length := by
    obtain ⟨x, found, _⟩ := target known
    exact (List.getElem?_eq_some_iff.mp found).1
  cases exit with
  | ret | trap => trivial
  | jump b args =>
    obtain ⟨n, known, same⟩ := except_bind_ok.mp h
    obtain ⟨x, found, rfl⟩ := target known
    split at same
    next fits => exact ⟨x, found, fits⟩
    next => cases same
  | branch condition yes no =>
    obtain ⟨_, first, h⟩ := except_bind_ok.mp h
    obtain ⟨_, second, _⟩ := except_bind_ok.mp h
    obtain ⟨_, yesKnown, _⟩ := except_bind_ok.mp first
    obtain ⟨_, noKnown, _⟩ := except_bind_ok.mp second
    exact ⟨inside yesKnown, inside noKnown⟩

/-- No draft with more variables than 32 bits hold is finished. -/
theorem finish_counts {d : Draft} {g : Graph} (h : d.finish = .ok g) :
    ¬ 0x100000000 ≤ d.varCount := by
  intro many
  rw [finish, if_pos many] at h
  cases h

theorem finish_ok {d : Draft} {g : Graph} (h : d.finish = .ok g) :
    g.varCount = d.varCount ∧ List.Forall₂ Closes d.blocks g.blocks ∧
      ∀ x ∈ g.blocks, x.exit.Fits g.blocks := by
  unfold finish at h
  rw [if_neg (finish_counts h)] at h
  split at h
  · cases h
  · obtain ⟨blocks, closed, done⟩ := except_bind_ok.mp h
    cases done
    have each := except_mapM_forall₂ closed
    have closes : List.Forall₂ Closes d.blocks blocks := by
      have numbered : List.Forall₂ (fun o x => Closes o.1 x) d.blocks.zipIdx blocks :=
        List.Forall₂.imp (fun _ _ met => (closeBlock_ok met).1) each
      have plain := List.forall₂_map_left_iff.mpr numbered
      rwa [List.zipIdx_map_fst] at plain
    have arities : (d.blocks.map fun o => o.params.length) =
        blocks.map fun b => b.params.length := by
      refine List.forall₂_eq_eq_eq ▸ ?_
      exact List.forall₂_map_left_iff.mpr (List.forall₂_map_right_iff.mpr
        (List.Forall₂.imp (fun _ _ same => by rw [same.params]) closes))
    refine ⟨rfl, closes, fun x member => ?_⟩
    obtain ⟨o, _, met⟩ := forall₂_mem each member
    have checked := (closeBlock_ok met).2
    rw [arities] at checked
    exact checkExit_fits checked

/-- The graph of a draft that was built call by call is closed, but for the stubs that it names. -/
theorem Built.closed {d : Draft} {vars : List Var} {g : Graph} (built : Built d vars)
    (h : d.finish = .ok g) {cache : Option CacheId} {deps : List (String × Stub)}
    (linked : ∀ name ∈ g.callees, name ∈ deps.map Prod.fst) : (g.body cache deps).Closed := by
  obtain ⟨count, closes, fits⟩ := finish_ok h
  have bounded := built.bounded.1
  constructor
  · exact closes.length_eq ▸ bounded.entry
  · intro x member v mentioned
    obtain ⟨o, opened, closes⟩ := forall₂_mem closes member
    rw [closes.vars] at mentioned
    change v < g.varCount
    exact count ▸ bounded.vars o opened v mentioned
  · exact fits
  · intro x member i inside name called
    have named := linked name (Compiler.mem_callees.mpr ⟨x, member, i, inside, called⟩)
    cases found : deps.lookup name with
    | some stub => exact ⟨stub, found⟩
    | none =>
      obtain ⟨dep, paired, rfl⟩ := List.mem_map.mp named
      have apart := List.lookup_eq_none_iff.mp found dep paired
      simp at apart

end Draft

section

variable {f : σ → Except ε τ} {b : Body σ} {b' : Body τ}

theorem Op.mapCallee_vars {op : Op σ} {op' : Op τ} (mapped : op.mapCallee f = .ok op') :
    op'.vars = op.vars := by
  cases op with
  | callStub | stubRef =>
    obtain ⟨t, _, mapped⟩ := except_bind_ok.mp mapped
    cases mapped
    rfl
  | _ =>
    cases mapped
    rfl

theorem Inst.mapCallee_vars {i : Inst σ} {j : Inst τ} (mapped : i.mapCallee f = .ok j) :
    j.vars = i.vars := by
  cases i with
  | define v op =>
    obtain ⟨op', named, same⟩ := except_bind_ok.mp mapped
    cases same
    rw [Inst.vars, Inst.vars, Op.mapCallee_vars named]
  | perform effect =>
    cases mapped
    rfl

/-- What stands for a stub after renaming is the new name of one that stood there. -/
theorem Inst.mapCallee_callee {i : Inst σ} {j : Inst τ} (mapped : i.mapCallee f = .ok j)
    (called : j.callee? = some t) : ∃ s, i.callee? = some s ∧ f s = .ok t := by
  cases i with
  | define v op =>
    obtain ⟨op', named, same⟩ := except_bind_ok.mp mapped
    cases same
    cases op with
    | callStub s | stubRef s =>
      obtain ⟨t, placed, mapped⟩ := except_bind_ok.mp named
      cases mapped
      cases called
      exact ⟨s, rfl, placed⟩
    | _ =>
      cases named
      cases called
  | perform effect =>
    cases mapped
    cases called

theorem Inst.mapCallee_all_vars {is : List (Inst σ)} {js : List (Inst τ)}
    (mapped : List.Forall₂ (fun i j => i.mapCallee f = .ok j) is js) :
    js.flatMap Inst.vars = is.flatMap Inst.vars := by
  induction mapped with
  | nil => rfl
  | cons head _ ih => rw [List.flatMap_cons, List.flatMap_cons, ih, mapCallee_vars head]

theorem Block.Renamed.vars {x : Block σ} {y : Block τ} (renamed : Block.Renamed f x y) :
    y.vars = x.vars := by
  rw [Block.vars, Block.vars, renamed.params, renamed.exit, Inst.mapCallee_all_vars renamed.insts]

/-- Renaming keeps a body closed. -/
theorem Body.Renamed.closed (renamed : b.Renamed f b') (closed : b.Closed) : b'.Closed := by
  have length : b'.blocks.length = b.blocks.length := renamed.blocks.length_eq.symm
  have fits {exit : Exit} (h : exit.Fits b.blocks) : exit.Fits b'.blocks := by
    cases exit with
    | ret | trap => trivial
    | jump target args =>
      obtain ⟨x, found, fits⟩ := h
      obtain ⟨x', y, held, held', same⟩ | ⟨absent, _⟩ := forall₂_getElem? renamed.blocks target
      · cases found.symm.trans held
        exact ⟨y, held', same.params ▸ fits⟩
      · cases found.symm.trans absent
    | branch condition yes no => exact ⟨length ▸ h.1, length ▸ h.2⟩
  constructor
  · exact length ▸ closed.entry
  · intro y member v mentioned
    obtain ⟨x, inside, same⟩ := forall₂_mem renamed.blocks member
    exact renamed.varCount ▸ closed.vars x inside v (same.vars ▸ mentioned)
  · intro y member
    obtain ⟨x, inside, same⟩ := forall₂_mem renamed.blocks member
    exact same.exit ▸ fits (closed.exits x inside)
  · intro y member j held t called
    obtain ⟨x, inside, same⟩ := forall₂_mem renamed.blocks member
    obtain ⟨i, held, mapped⟩ := forall₂_mem same.insts held
    obtain ⟨s, called, named⟩ := Inst.mapCallee_callee mapped called
    obtain ⟨stub, linked⟩ := closed.callees x inside i held s called
    exact ⟨stub, (renamed.link named).trans linked⟩

end

/-- Stubs compiled from graphs that were built call by call, with dependencies of the same
making. -/
inductive Stub.Produced : Stub → Prop
  | intro {d : Draft} {vars : List Var} {g : Graph} {c c' : Compiler} {config : Config}
      {deps : List (String × Stub)} {s : Stub} :
    Draft.Built d vars → d.finish = .ok g → (∀ dep ∈ deps, Produced dep.2) →
    c.compile g config deps = .ok (s, c') → Produced s

/-- Stubs whose bodies are closed, and so are those of their dependencies. -/
inductive Stub.Closed : Stub → Prop
  | intro {s : Stub} : s.body.Closed → (∀ dep ∈ s.deps, Closed dep) → Closed s

theorem Stub.Produced.closed {s : Stub} (produced : s.Produced) : s.Closed := by
  induction produced with
  | @intro d vars g c c' config deps s built finished _ compiled ih =>
    have linked := (Compiler.compile_ok compiled).1
    refine .intro ((Compiler.compile_renamed compiled).closed (built.closed finished linked)) ?_
    obtain ⟨_, _, made⟩ := except_bind_ok.mp compiled
    cases made
    intro dep member
    obtain ⟨pair, inside, rfl⟩ := List.mem_map.mp member
    exact ih pair inside

end FastPath
