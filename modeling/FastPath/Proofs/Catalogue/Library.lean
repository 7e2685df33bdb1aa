import FastPath.Catalogue.Families
import FastPath.Proofs.Compilation.Meaning

/-! Libraries: the stubs of the catalogue that allocate, construct and check, each compiled from
its declaration with the others as its dependencies. -/

namespace FastPath

/-- The stub was compiled from the declaration, and every name that it uses stands for its stub. -/
def Declaration.CompiledTo (d : Declaration) (stubs : String → Stub) (stub : Stub) : Prop :=
  ∃ (g : Graph) (c c' : Compiler) (deps : List (String × Stub)),
    d.template d.name d.config = .ok g ∧ c.compile g d.config deps = .ok (stub, c') ∧
      ∀ callee ∈ g.callees, deps.lookup callee = some (stubs callee)

/-- The declarations of the stubs that make entities, and of those that they call. -/
def makers : List Declaration := Catalogue.allocation ++ Catalogue.constructors ++ Catalogue.types

/-- Every name stands for a stub that some compiler made of the declaration of that name, and in
which every name stands for the same stub. The accessors of `prototype` can be told apart. -/
structure Library (stubs : String → Stub) : Prop where
  compiled : ∀ d ∈ makers, ∃ (g : Graph) (c c' : Compiler) (deps : List (String × Stub)),
    d.template d.name d.config = .ok g ∧ c.compile g d.config deps = .ok (stubs d.name, c') ∧
      ∀ callee ∈ g.callees, deps.lookup callee = some (stubs callee)
  accessors : (stubs Catalogue.prototypeGetter).entry ≠ (stubs Catalogue.prototypeSetter).entry

/-- The body of a graph without an inline cache, whose names stand for the stubs of a library. -/
def Graph.linked (g : Graph) (stubs : String → Stub) : Body String :=
  { blocks := g.blocks, varCount := g.varCount, cache := none, link := fun name => stubs name }

theorem Op.mapCallee_self {f : σ → Except ε σ} (op : Op σ)
    (known : ∀ s, op.callee? = some s → f s = .ok s) : op.mapCallee f = .ok op := by
  cases op with
  | callStub s args =>
    rw [Op.mapCallee, known s rfl]
    rfl
  | stubRef s =>
    rw [Op.mapCallee, known s rfl]
    rfl
  | _ => rfl

theorem Inst.mapCallee_self {f : σ → Except ε σ} (i : Inst σ)
    (known : ∀ s, i.callee? = some s → f s = .ok s) : i.mapCallee f = .ok i := by
  cases i with
  | define v op =>
    rw [Inst.mapCallee, op.mapCallee_self known]
    rfl
  | perform effect => rfl

/-- The names that a graph uses. -/
def Graph.used (g : Graph) (name : String) : Except Unit String :=
  if name ∈ g.callees then .ok name else .error ()

/-- Only the names that a graph uses matter for what it does. -/
theorem Graph.linked_renamed (g : Graph) {stubs : String → Stub} {deps : List (String × Stub)}
    (linked : ∀ callee ∈ g.callees, deps.lookup callee = some (stubs callee)) :
    (g.linked stubs).Renamed g.used (g.body none deps) := by
  refine ⟨?_, rfl, rfl, ?_⟩
  · refine List.forall₂_same.mpr fun b member => ⟨rfl, ?_, rfl⟩
    refine List.forall₂_same.mpr fun i inside => i.mapCallee_self fun s callee => if_pos ?_
    refine List.mem_eraseDups.mpr (List.mem_flatMap.mpr ⟨b, member, ?_⟩)
    exact List.mem_filterMap.mpr ⟨i, inside, callee⟩
  · intro s t known
    unfold used at known
    split at known
    next inside =>
      cases known
      exact linked s inside
    next => cases known

/-- A stub runs the graph that it was compiled from. -/
theorem Declaration.CompiledTo.invoke_eq {d : Declaration} {stubs : String → Stub} {stub : Stub}
    (compiled : d.CompiledTo stubs stub) (bare : d.config.cache = none) {g : Graph}
    (built : d.template d.name d.config = .ok g) (host : Host ρ) (fuel : Nat) (self : Word)
    (args : List Word) : invoke host (fuel + 1) stub self args =
      Exec.nested ((g.linked stubs).run host (invoke host fuel) fuel self args) := by
  obtain ⟨g', c, c', deps, built', compiled, linked⟩ := compiled
  obtain rfl := Except.ok.inj (built'.symm.trans built)
  rw [Compiler.compile_invoke compiled, Graph.invoke, bare]
  exact congrArg Exec.nested
    ((g'.linked_renamed linked).run host (invoke host fuel) fuel self args)

theorem Library.invoke_eq {stubs : String → Stub} (library : Library stubs) {d : Declaration}
    (member : d ∈ makers) {g : Graph} (built : d.template d.name d.config = .ok g)
    (host : Host ρ) (fuel : Nat) (self : Word) (args : List Word) :
    invoke host (fuel + 1) (stubs d.name) self args =
      Exec.nested ((g.linked stubs).run host (invoke host fuel) fuel self args) := by
  have bare : ∀ d ∈ makers, d.config.cache = none := by decide
  have compiled : d.CompiledTo stubs (stubs d.name) := library.compiled d member
  exact compiled.invoke_eq (bare d member) built host fuel self args

/-- Compiles declarations one after the other, each with the stubs made so far as its
dependencies. -/
def assemble (c : Compiler) (made : List (String × Stub)) :
    List Declaration → Except GraphError (List (String × Stub))
  | [] => .ok made
  | d :: ds => do
    let g ← d.template d.name d.config
    let (s, c) ← c.compile g d.config made
    assemble c (made ++ [(d.name, s)]) ds

/-- The stub of every declaration stays what its name stands for. -/
theorem assemble_stubs {c : Compiler} {made all : List (String × Stub)} {ds : List Declaration}
    (done : assemble c made ds = .ok all)
    (apart : (made.map Prod.fst ++ ds.map Declaration.name).Nodup) :
    (∃ more, all = made ++ more) ∧ ∀ d ∈ ds, ∃ (g : Graph) (c c' : Compiler)
      (deps : List (String × Stub)) (s : Stub), d.template d.name d.config = .ok g ∧
      c.compile g d.config deps = .ok (s, c') ∧ all.lookup d.name = some s ∧
      ∀ callee ∈ g.callees, ∃ t, deps.lookup callee = some t ∧ all.lookup callee = some t := by
  induction ds generalizing c made with
  | nil =>
    cases done
    exact ⟨⟨[], (List.append_nil _).symm⟩, nofun⟩
  | cons d ds ih =>
    obtain ⟨g, built, rest⟩ := except_bind_ok.mp done
    obtain ⟨⟨s, c'⟩, compiled, rest⟩ := except_bind_ok.mp rest
    obtain ⟨⟨more, rfl⟩, others⟩ := ih rest (by simpa using apart)
    refine ⟨⟨(d.name, s) :: more, by simp⟩, List.forall_mem_cons.mpr ⟨?_, others⟩⟩
    have new : made.lookup d.name = none := by
      rw [List.lookup_eq_none_iff]
      intro p member
      rw [List.nodup_append] at apart
      exact bne_iff_ne.mpr (Ne.symm (apart.2.2 p.1 (List.mem_map_of_mem member) d.name (by simp)))
    refine ⟨g, c, c', made, s, built, compiled, ?_, fun callee needed => ?_⟩
    · simp [List.lookup_append, new]
    · obtain ⟨p, member, rfl⟩ := List.mem_map.mp ((Compiler.compile_ok compiled).1 callee needed)
      cases known : made.lookup p.1 with
      | none => exact absurd rfl (bne_iff_ne.mp (List.lookup_eq_none_iff.mp known p member))
      | some t => exact ⟨t, rfl, by simp [List.lookup_append, known]⟩

/-- What a name stands for among compiled stubs. -/
def named (all : List (String × Stub)) (name : String) : Stub := (all.lookup name).getD default

/-- Each stub is what its declaration is compiled to, as the names are understood in the end. -/
theorem assembled_compiled {c : Compiler} {ds : List Declaration} {all : List (String × Stub)}
    (done : assemble c [] ds = .ok all) (apart : (ds.map Declaration.name).Nodup)
    {d : Declaration} (member : d ∈ ds) : d.CompiledTo (named all) (named all d.name) := by
  obtain ⟨g, c, c', deps, s, built, compiled, found, linked⟩ :=
    (assemble_stubs done (by simpa using apart)).2 d member
  refine ⟨g, c, c', deps, built, ?_, fun callee needed => ?_⟩
  · rw [compiled, named, found]
    rfl
  · obtain ⟨t, held, same⟩ := linked callee needed
    rw [held, named, same]
    rfl

/-- The stubs that a fresh compiler makes of declarations. -/
def stubsOf (ds : List Declaration) : String → Stub :=
  match assemble { id := 0 } [] ds with
  | .ok all => named all
  | .error _ => default

theorem stubsOf_compiled {ds : List Declaration} (works : (assemble { id := 0 } [] ds).isOk = true)
    (apart : (ds.map Declaration.name).Nodup) {d : Declaration} (member : d ∈ ds) :
    d.CompiledTo (stubsOf ds) (stubsOf ds d.name) := by
  cases made : assemble { id := 0 } [] ds with
  | error e =>
    rw [made] at works
    cases works
  | ok all =>
    have same : stubsOf ds = named all := by rw [stubsOf, made]
    rw [same]
    exact assembled_compiled made apart member

theorem Library.of_assembled {c : Compiler} {ds : List Declaration} {all : List (String × Stub)}
    (done : assemble c [] ds = .ok all) (apart : (ds.map Declaration.name).Nodup)
    (whole : ∀ d ∈ makers, d ∈ ds) (accessors : (named all Catalogue.prototypeGetter).entry ≠
      (named all Catalogue.prototypeSetter).entry) : Library (named all) :=
  ⟨fun d member => assembled_compiled done apart (whole d member), accessors⟩

/-- The declarations in an order in which each comes after those that it names. -/
def makersInOrder : List Declaration :=
  [0, 1, 2, 3, 4, 5, 6, 9, 11, 7, 13, 14, 12, 8, 15, 10, 16].filterMap (makers[·]?)

/-- The stubs that a fresh compiler makes of them. -/
def freshStubs : String → Stub :=
  match assemble { id := 0 } [] makersInOrder with
  | .ok all => named all
  | .error _ => default

theorem freshStubs_library : Library freshStubs := by
  have places : ∀ i < 17, i ∈ [0, 1, 2, 3, 4, 5, 6, 9, 11, 7, 13, 14, 12, 8, 15, 10, 16] := by
    decide
  have whole : ∀ d ∈ makers, d ∈ makersInOrder := by
    intro d member
    obtain ⟨i, bound, rfl⟩ := List.mem_iff_getElem.mp member
    exact List.mem_filterMap.mpr ⟨i, places i bound, List.getElem?_eq_getElem bound⟩
  have told : (match assemble { id := 0 } [] makersInOrder with
    | .ok all => decide ((named all Catalogue.prototypeGetter).entry ≠
      (named all Catalogue.prototypeSetter).entry)
    | .error _ => false) = true := by decide +kernel
  cases made : assemble { id := 0 } [] makersInOrder with
  | error e =>
    rw [made] at told
    cases told
  | ok all =>
    rw [made] at told
    have same : freshStubs = named all := by rw [freshStubs, made]
    rw [same]
    exact .of_assembled made (by decide) whole (of_decide_eq_true told)

end FastPath
