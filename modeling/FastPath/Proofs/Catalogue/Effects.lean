import FastPath.Proofs.Execution.Descent
import FastPath.Proofs.Execution.Quiet

/-! Stubs without effects. A stub that neither writes nor asks the host nor calls a value, and whose
dependencies do none of it either, leaves the state as it was, however its call ends. The operators
and the check for functions are such stubs. -/

namespace FastPath

open Catalogue Relation

section

variable {f : σ → Except ε τ}

theorem Op.mapCallee_quiet {op : Op σ} {op' : Op τ} (mapped : op.mapCallee f = .ok op') :
    op'.quiet = op.quiet := by
  cases op with
  | callStub | stubRef =>
    obtain ⟨t, _, mapped⟩ := except_bind_ok.mp mapped
    cases mapped
    rfl
  | literal l =>
    cases mapped
    cases l <;> rfl
  | _ =>
    cases mapped
    rfl

theorem Inst.mapCallee_quiet {i : Inst σ} {j : Inst τ} (mapped : i.mapCallee f = .ok j) :
    j.quiet = i.quiet := by
  cases i with
  | define v op =>
    obtain ⟨op', named, same⟩ := except_bind_ok.mp mapped
    cases same
    exact Op.mapCallee_quiet named
  | perform effect =>
    cases mapped
    rfl

namespace Body.Renamed

variable {b : Body σ} {b' : Body τ} (renamed : b.Renamed f b')

include renamed

/-- Every instruction comes from one that differs in what it calls it by. -/
theorem mapped {y : Block τ} (inside : y ∈ b'.blocks) {j : Inst τ} (member : j ∈ y.insts) :
    ∃ x ∈ b.blocks, ∃ i ∈ x.insts, i.mapCallee f = .ok j := by
  obtain ⟨x, inside, same⟩ := forall₂_mem renamed.blocks inside
  obtain ⟨i, member, mapped⟩ := forall₂_mem same.insts member
  exact ⟨x, inside, i, member, mapped⟩

theorem quiet (quiet : b.Quiet) : b'.Quiet := by
  intro y inside j member
  obtain ⟨x, inside, i, member, mapped⟩ := renamed.mapped inside member
  rw [Inst.mapCallee_quiet mapped]
  exact quiet x inside i member

theorem calls {stub : Stub} (called : b'.Calls stub) : b.Calls stub := by
  obtain ⟨y, inside, j, member, t, called, linked⟩ := called
  obtain ⟨x, inside, i, member, mapped⟩ := renamed.mapped inside member
  obtain ⟨s, called, named⟩ := Inst.mapCallee_callee mapped called
  exact ⟨x, inside, i, member, s, called, (renamed.link named).symm.trans linked⟩

end Body.Renamed

end

namespace Stub

/-- Neither the body of the stub nor that of any stub called from it, directly or through others,
has an instruction with an effect. -/
def Effectless (s : Stub) : Prop :=
  ∀ t, ReflTransGen (fun s t => s.body.Calls t) s t → t.body.Quiet

variable {s t : Stub}

theorem uses_of_calls (calls : s.body.Calls t) : s.Uses t := by
  obtain ⟨_, _, _, _, i, _, linked⟩ := calls
  exact List.mem_of_getElem? linked

/-- It is enough that no dependency has such an instruction, whether it is called or not. -/
theorem Effectless.of_deps (quiet : ∀ t, ReflTransGen Uses s t → t.body.Quiet) : s.Effectless :=
  fun t path => quiet t (ReflTransGen.mono (fun _ _ => uses_of_calls) _ _ path)

theorem Effectless.callee (effectless : s.Effectless) (calls : s.body.Calls t) : t.Effectless :=
  fun u path => effectless u (path.head calls)

theorem Effectless.reads (effectless : s.Effectless) (host : Host ρ) (fuel : Nat) (self : Word)
    (args : List Word) : (invoke host fuel s self args).Reads := by
  induction fuel generalizing s self args with
  | zero => exact .throw _
  | succ fuel ih =>
    have quiet : s.body.Quiet := effectless s .refl
    have nested (t : Stub) (calls : s.body.Calls t) (args : List Word) :
        (invoke host fuel t .undefined args).Reads := ih (effectless.callee calls) .undefined args
    exact (quiet.reads nested fuel 0 _).nested

end Stub

/-- Whether no instruction has an effect. -/
def Graph.quiet (g : Graph) : Bool := g.blocks.all fun x => x.insts.all Inst.quiet

/-- The declarations of the operators and of the check that one of them calls. -/
def readers : List Declaration :=
  types.filter (fun d => d.name == checkFunction) ++ unaryOperators ++ binaryOperators

/-- No reader has an instruction with an effect, and readers call readers only. -/
theorem readers_quiet : ∀ d ∈ readers, ∃ g, d.template d.name d.config = .ok g ∧ g.quiet = true ∧
    ∀ name ∈ g.callees, name ∈ readers.map Declaration.name := by
  have checked : ∀ d ∈ readers, (match d.template d.name d.config with
      | .ok g => g.quiet && g.callees.all (readers.map Declaration.name).contains
      | .error _ => false) = true := by decide +kernel
  intro d member
  have passed := checked d member
  cases built : d.template d.name d.config with
  | error e =>
    rw [built] at passed
    cases passed
  | ok g =>
    rw [built, Bool.and_eq_true, List.all_eq_true] at passed
    obtain ⟨quiet, known⟩ := passed
    exact ⟨g, rfl, quiet, fun name used => List.contains_iff_mem.mp (known name used)⟩

namespace Declaration.CompiledTo

variable {d : Declaration} {stubs : String → Stub} {stub t : Stub} {g : Graph}
  (compiled : d.CompiledTo stubs stub) (built : d.template d.name d.config = .ok g)

include compiled built

theorem quiet (quiet : g.quiet = true) : stub.body.Quiet := by
  obtain ⟨g', c, c', deps, built', made, _⟩ := compiled
  obtain rfl := Except.ok.inj (built'.symm.trans built)
  apply (Compiler.compile_renamed made).quiet
  intro x inside
  exact List.all_eq_true.mp (List.all_eq_true.mp quiet x inside)

/-- The stub calls what the names in its graph stand for. -/
theorem calls (calls : stub.body.Calls t) : ∃ name ∈ g.callees, t = stubs name := by
  obtain ⟨g', c, c', deps, built', made, linked⟩ := compiled
  obtain rfl := Except.ok.inj (built'.symm.trans built)
  obtain ⟨x, inside, i, member, name, called, found⟩ := (Compiler.compile_renamed made).calls calls
  have used : name ∈ g'.callees := Compiler.mem_callees.mpr ⟨x, inside, i, member, called⟩
  exact ⟨name, used, Option.some.inj (found.symm.trans (linked name used))⟩

end Declaration.CompiledTo

section

variable {stubs : String → Stub} (compiled : ∀ d ∈ readers, d.CompiledTo stubs (stubs d.name))
  {d : Declaration} {t : Stub}

include compiled

theorem readers_closed (member : d ∈ readers)
    (path : ReflTransGen (fun s t => s.body.Calls t) (stubs d.name) t) :
    ∃ e ∈ readers, t = stubs e.name := by
  induction path with
  | refl => exact ⟨d, member, rfl⟩
  | tail _ calls ih =>
    obtain ⟨e, member, rfl⟩ := ih
    obtain ⟨g, built, _, known⟩ := readers_quiet e member
    obtain ⟨name, used, rfl⟩ := (compiled e member).calls built calls
    obtain ⟨e', member', same⟩ := List.mem_map.mp (known name used)
    exact ⟨e', member', congrArg stubs same.symm⟩

theorem readers_effectless (member : d ∈ readers) : (stubs d.name).Effectless := by
  intro t path
  obtain ⟨e, member, rfl⟩ := readers_closed compiled member path
  obtain ⟨g, built, quiet, _⟩ := readers_quiet e member
  exact (compiled e member).quiet built quiet

end

/-- A call of a stub without effects changes nothing about the machine or its host, whether it
returns or is trapped, for any receiver and arguments and whatever else the host would do. Such are
the stubs none of whose dependencies has an instruction with an effect, and among them those of the
operators and of the check for functions. -/
theorem effectless_calls_change_nothing :
    (∀ stub : Stub, (∀ t, ReflTransGen Stub.Uses stub t → t.body.Quiet) → stub.Effectless) ∧
    (∀ stub : Stub, stub.Effectless → ∀ {ρ : Type} (host : Host ρ) (fuel : Nat) (self : Word)
      (args : List Word) (s : State ρ),
      Yields (invoke host fuel stub self args) s (fun _ t => t = s) fun _ t => t = s) ∧
    ∀ stubs : String → Stub, (∀ d ∈ readers, d.CompiledTo stubs (stubs d.name)) →
      ∀ d ∈ readers, (stubs d.name).Effectless := by
  constructor
  · intro stub quiet
    exact .of_deps quiet
  constructor
  · intro stub effectless ρ host fuel self args s
    exact (effectless.reads host fuel self args).yields s
  · intro stubs compiled d member
    exact readers_effectless compiled member

/-- No number is an instance of another, and asking leaves no trace. -/
theorem refused_test_leaves_no_trace :
    let tester := stubsOf readers BinaryOp.instanceOf.stubName
    let s : State Unit := ⟨Machine.ofHeap (Heap.blank 64) 2, ()⟩
    tester.Effectless ∧ invoke Host.absent 5 tester .undefined [.int 5, .int 7] s =
      .error (.trap (.fatal .notFunction)) s := by
  intro tester s
  obtain ⟨_, unchanged, effectless⟩ := effectless_calls_change_nothing
  obtain ⟨d, member, named⟩ : ∃ d ∈ readers, d.name = BinaryOp.instanceOf.stubName := by decide
  have works : (assemble { id := 0 } [] readers).isOk = true := by decide +kernel
  have apart : (readers.map Declaration.name).Nodup := by decide +kernel
  have quiet := effectless _ (fun d member => stubsOf_compiled works apart member) d member
  rw [named] at quiet
  have refused : (match invoke Host.absent 5 tester .undefined [.int 5, .int 7] s with
    | .error (.trap (.fatal .notFunction)) _ => true
    | _ => false) = true := by decide +kernel
  constructor
  · exact quiet
  · split at refused
    next t ran =>
      have same : t = s := (unchanged tester quiet _ _ _ _ s).error ran
      rw [ran, same]
    next => cases refused

end FastPath
