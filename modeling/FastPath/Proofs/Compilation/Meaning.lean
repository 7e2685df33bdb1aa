import FastPath.Execution
import FastPath.Proofs.Compilation
import Mathlib.Data.List.Forall2

/-! Compilation keeps the meaning of a graph. A graph can be run as it stands, with each name
linked to the first stub that is paired with it; the compiled stub does the same with the places
that the compiler put for the names. Entry points are handed out one after the other, and only to
graphs that are compiled. -/

namespace FastPath

/-- The body of a graph whose names stand for the stubs that they are paired with, the first one
where there are several. -/
def Graph.body (g : Graph) (cache : Option CacheId) (deps : List (String × Stub)) : Body String :=
  { blocks := g.blocks, varCount := g.varCount, cache, link := fun name => deps.lookup name }

/-- Calls a graph without compiling it, with fuel as `FastPath.invoke` has it. -/
def Graph.invoke (g : Graph) (cache : Option CacheId) (deps : List (String × Stub))
    (host : Host ρ) : (fuel : Nat) → Word → List Word → Exec ρ Word
  | 0 => fun _ _ => throw .outOfFuel
  | fuel + 1 => fun self args =>
    Exec.nested ((g.body cache deps).run host (FastPath.invoke host fuel) fuel self args)

/-- What the instructions of two blocks refer to is renamed, and nothing else differs. -/
structure Block.Renamed (f : σ → Except ε τ) (x : Block σ) (y : Block τ) : Prop where
  params : y.params = x.params
  insts : List.Forall₂ (fun i j => i.mapCallee f = .ok j) x.insts y.insts
  exit : y.exit = x.exit

/-- The bodies differ only in how they refer to stubs, and what stands for a stub in one is linked
to the same stub in the other. -/
structure Body.Renamed (f : σ → Except ε τ) (b : Body σ) (b' : Body τ) : Prop where
  blocks : List.Forall₂ (Block.Renamed f) b.blocks b'.blocks
  varCount : b'.varCount = b.varCount
  cache : b'.cache = b.cache
  link : f s = .ok t → b'.link t = b.link s

namespace Body.Renamed

variable {f : σ → Except ε τ} {b : Body σ} {b' : Body τ} (renamed : b.Renamed f b')
  (host : Host ρ) (calls : Invoke ρ)

include renamed

theorem callee (named : f s = .ok t) : (b'.callee t : Exec ρ Stub) = b.callee s := by
  rw [Body.callee, Body.callee, renamed.link named]

theorem eval (frame : Frame) {op : Op σ} {op' : Op τ} (mapped : op.mapCallee f = .ok op') :
    b'.eval host calls frame op' = b.eval host calls frame op := by
  cases op with
  | callStub s args =>
    obtain ⟨t, named, mapped⟩ := except_bind_ok.mp mapped
    cases mapped
    simp only [Body.eval, renamed.callee named]
  | stubRef s =>
    obtain ⟨t, named, mapped⟩ := except_bind_ok.mp mapped
    cases mapped
    simp only [Body.eval, renamed.callee named]
  | cache =>
    cases mapped
    simp only [Body.eval, renamed.cache]
  | _ =>
    cases mapped
    rfl

theorem step (frame : Frame) {i : Inst σ} {j : Inst τ} (mapped : i.mapCallee f = .ok j) :
    b'.step host calls frame j = b.step host calls frame i := by
  cases i with
  | define v op =>
    obtain ⟨op', named, same⟩ := except_bind_ok.mp mapped
    cases same
    simp only [Body.step, renamed.eval host calls frame named]
  | perform effect =>
    cases mapped
    rfl

theorem insts {is : List (Inst σ)} {js : List (Inst τ)}
    (mapped : List.Forall₂ (fun i j => i.mapCallee f = .ok j) is js) (frame : Frame) :
    js.foldlM (b'.step host calls) frame = is.foldlM (b.step host calls) frame := by
  induction mapped generalizing frame with
  | nil => rfl
  | cons head _ ih =>
    rw [List.foldlM_cons, List.foldlM_cons, renamed.step host calls frame head]
    exact bind_congr ih

/-- A block number stands for renamed blocks in both bodies or for a block in neither. -/
theorem block (id : BlockId) :
    (∃ x y, (b.block id : Exec ρ _) = pure x ∧ (b'.block id : Exec ρ _) = pure y ∧
      Block.Renamed f x y) ∨
    ((b.block id : Exec ρ _) = throw .fault ∧ (b'.block id : Exec ρ _) = throw .fault) := by
  obtain ⟨x, y, found, found', same⟩ | ⟨absent, absent'⟩ := forall₂_getElem? renamed.blocks id
  · exact .inl ⟨x, y, by rw [Body.block, found], by rw [Body.block, found'], same⟩
  · exact .inr ⟨by rw [Body.block, absent], by rw [Body.block, absent']⟩

theorem leave (frame : Frame) (exit : Exit) :
    (b'.leave frame exit : Exec ρ Next) = b.leave frame exit := by
  cases exit with
  | jump target args =>
    refine bind_congr fun values => ?_
    obtain ⟨x, y, found, found', same⟩ | ⟨absent, absent'⟩ := renamed.block (ρ := ρ) target
    · simp only [found, found', pure_bind, same.params]
    · simp only [absent, absent']
      rfl
  | ret value => cases value <;> rfl
  | branch condition yes no => rfl
  | trap t => rfl

theorem runFrom (fuel : Nat) (id : BlockId) (frame : Frame) :
    b'.runFrom host calls fuel id frame = b.runFrom host calls fuel id frame := by
  induction fuel generalizing id frame with
  | zero => rfl
  | succ fuel ih =>
    rw [Body.runFrom, Body.runFrom]
    obtain ⟨x, y, found, found', same⟩ | ⟨absent, absent'⟩ := renamed.block (ρ := ρ) id
    · simp only [found, found', pure_bind, renamed.insts host calls same.insts, renamed.leave,
        same.exit, ih]
    · simp only [absent, absent']
      rfl

theorem run (fuel : Nat) (self : Word) (args : List Word) :
    b'.run host calls fuel self args = b.run host calls fuel self args := by
  have frame : b'.frame self args = b.frame self args := by
    rw [Body.frame, Body.frame, renamed.varCount]
  rw [Body.run, Body.run, frame, renamed.runFrom]

end Body.Renamed

namespace Compiler

variable {c c' : Compiler} {g : Graph} {config : Config} {deps : List (String × Stub)} {s : Stub}

/-- A name is put at the place of the first stub that is paired with it. -/
theorem place_lookup (placed : place stub deps name = .ok i) :
    (deps.map Prod.snd)[i]? = deps.lookup name := by
  unfold place at placed
  split at placed
  next found =>
    cases placed
    obtain ⟨inside, same, first⟩ := List.findIdx?_eq_some_iff_getElem.mp found
    have found : deps.lookup name = some deps[i].2 := by
      refine List.lookup_eq_some_iff.mpr ⟨deps.take i, deps.drop (i + 1), ?_, ?_⟩
      · rw [← eq_of_beq same, ← List.drop_eq_getElem_cons inside, List.take_append_drop]
      · intro d earlier
        obtain ⟨j, before, rfl⟩ := List.mem_take_iff_getElem.mp earlier
        refine bne_iff_ne.mpr fun named => first j (by omega) ?_
        rw [named]
        exact beq_self_eq_true _
    rw [found, List.getElem?_map, List.getElem?_eq_getElem inside, Option.map_some]
  next => cases placed

theorem compile_renamed (h : c.compile g config deps = .ok (s, c')) :
    (g.body config.cache deps).Renamed (place g.stub deps) s.body := by
  obtain ⟨blocks, compiled, done⟩ := except_bind_ok.mp h
  cases done
  refine ⟨?_, rfl, rfl, place_lookup⟩
  refine List.Forall₂.imp (fun x y met => ?_) (except_mapM_forall₂ compiled)
  obtain ⟨insts, each, same⟩ := except_bind_ok.mp met
  cases same
  refine ⟨rfl, List.Forall₂.imp (fun i j met => ?_) (except_mapM_forall₂ each), rfl⟩
  exact compileInst_mapped met

/-- Which graphs are compiled. -/
theorem compile_succeeds : (∃ s c', c.compile g config deps = .ok (s, c')) ↔
    (∀ b ∈ g.callees, b ∈ deps.map Prod.fst) ∧
      (g.usesCache = true → config.cache.isSome = true) := by
  constructor
  · rintro ⟨s, c', h⟩
    exact compile_ok h
  · rintro ⟨linked, cached⟩
    cases h : c.compile g config deps with
    | ok made => exact ⟨made.1, made.2, rfl⟩
    | error e =>
      obtain ⟨uses, none, _⟩ | ⟨b, needed, absent, _⟩ := compile_error h
      · simp [none] at cached
        simp [cached] at uses
      · exact absurd (linked b needed) absent

theorem compile_invoke (h : c.compile g config deps = .ok (s, c')) (host : Host ρ) (fuel : Nat) :
    invoke host fuel s = g.invoke config.cache deps host fuel := by
  cases fuel with
  | zero => rfl
  | succ fuel =>
    funext self args
    exact congrArg Exec.nested ((compile_renamed h).run host (invoke host fuel) fuel self args)

/-- A graph to be compiled, with its configuration and the stubs that its names stand for. -/
structure Request where
  graph : Graph
  config : Config
  deps : List (String × Stub)

/-- The stubs that come of some requests, made one after the other, and the compiler after them. A
request that is refused leaves the compiler as it was. -/
def compileAll (c : Compiler) : List Request → List Stub × Compiler
  | [] => ([], c)
  | r :: rest =>
    match c.compile r.graph r.config r.deps with
    | .ok (s, c) => (s :: (c.compileAll rest).1, (c.compileAll rest).2)
    | .error _ => c.compileAll rest

theorem compile_entry (h : c.compile g config deps = .ok (s, c')) :
    s.entry = c.nextEntry ∧ c'.nextEntry = c.nextEntry + 0x10 := by
  obtain ⟨blocks, _, done⟩ := except_bind_ok.mp h
  cases done
  refine ⟨rfl, ?_⟩
  simp only [nextEntry]
  omega

/-- The entry points given out follow each other without a gap. -/
theorem compileAll_entries (requests : List Request) :
    (c.compileAll requests).1.map Stub.entry =
      List.range' c.nextEntry (c.compileAll requests).1.length 0x10 := by
  induction requests generalizing c with
  | nil => rfl
  | cons r rest ih =>
    unfold compileAll
    split
    next s c' made =>
      obtain ⟨entry, next⟩ := compile_entry made
      rw [List.map_cons, List.length_cons, List.range'_succ, ih, entry, next]
    next => exact ih

/-- A graph is compiled if and only if every stub that it names is supplied and it has its inline
cache. A compiled stub then does what its graph does when every name stands for the first stub
paired with it: the same result or the same halt, on the same machine and in the same state of the
host. The stubs that a compiler makes get entry points that increase without a gap, however many
requests it refuses in between. -/
theorem compile_keeps_meaning (c : Compiler) (g : Graph) (config : Config)
    (deps : List (String × Stub)) :
    ((∃ s c', c.compile g config deps = .ok (s, c')) ↔
      (∀ b ∈ g.callees, b ∈ deps.map Prod.fst) ∧
        (g.usesCache = true → config.cache.isSome = true)) ∧
    (∀ s c', c.compile g config deps = .ok (s, c') →
      ∀ {ρ : Type} (host : Host ρ) (fuel : Nat) (self : Word) (args : List Word) (st : State ρ),
        invoke host fuel s self args st = g.invoke config.cache deps host fuel self args st) ∧
    (∀ requests, ((c.compileAll requests).1.map Stub.entry).Pairwise (· < ·) ∧
      (c.compileAll requests).1.map Stub.entry =
        List.range' c.nextEntry (c.compileAll requests).1.length 0x10) := by
  refine ⟨compile_succeeds, fun s c' h ρ host fuel self args st => ?_, fun requests => ?_⟩
  · rw [compile_invoke h]
  · refine ⟨?_, compileAll_entries requests⟩
    rw [compileAll_entries]
    exact List.pairwise_lt_range' 0x10 (by decide)

/-- A stub that returns a number. -/
def leaf (entry : Nat) (n : Int) : Stub :=
  { name := "leaf", origin := 0, entry, varCount := 1, deps := [], cache := none
    blocks := [{ params := [], insts := [.define 0 (.literal (.int n))], exit := .ret (some 0) }] }

/-- A graph that returns what `leaf` returns. -/
def relay : Graph :=
  { stub := "relay", varCount := 1
    blocks := [{ params := [], insts := [.define 0 (.callStub "leaf" (.list []))],
                 exit := .ret (some 0) }] }

/-- Of two stubs of one name the first is called. -/
theorem relay_keeps_meaning :
    let deps := [("leaf", leaf 0x1000 1), ("leaf", leaf 0x1010 2)]
    let st : State Unit := { machine := { (default : Machine) with maxDepth := 2 }, host := () }
    ∃ s c', Compiler.compile { id := 0, compiled := 2 } relay {} deps = .ok (s, c') ∧
      invoke Host.absent 3 s .undefined [] st =
        relay.invoke none deps Host.absent 3 .undefined [] st ∧
      invoke Host.absent 3 s .undefined [] st = .ok (.int 1) st := by
  intro deps st
  refine ⟨_, _, rfl, ?_, rfl⟩
  exact (compile_keeps_meaning { id := 0, compiled := 2 } relay {} deps).2.1 _ _ rfl
    Host.absent 3 .undefined [] st

end Compiler

end FastPath
