import FastPath.Stub
import FastPath.Proofs.Traversal

/-! When a graph is refused by the compiler: some instruction wants an inline cache that was not
configured, or a callee that is not among the dependencies. Every other graph is compiled. -/

namespace FastPath

theorem Op.mapCallee_error {f : σ → Except ε τ} {op : Op σ} (h : op.mapCallee f = .error e) :
    ∃ s, op.callee? = some s ∧ f s = .error e := by
  cases op with
  | callStub s args | stubRef s =>
    obtain failed | ⟨_, _, h⟩ := except_bind_error.mp h
    · exact ⟨s, rfl, failed⟩
    · cases h
  | _ => cases h

theorem Op.mapCallee_ok {f : σ → Except ε τ} {op : Op σ} {op' : Op τ}
    (h : op.mapCallee f = .ok op') (called : op.callee? = some s) : ∃ t, f s = .ok t := by
  cases op with
  | callStub | stubRef =>
    cases called
    obtain ⟨t, placed, _⟩ := except_bind_ok.mp h
    exact ⟨t, placed⟩
  | _ => cases called

def Inst.wantsCache : Inst σ → Bool
  | .define _ .cache => true
  | _ => false

namespace Compiler

variable {stub name : String} {deps : List (String × Stub)} {cache : Option CacheId}

theorem place_ok (h : place stub deps name = .ok i) : name ∈ deps.map Prod.fst := by
  unfold place at h
  split at h
  next found =>
    obtain ⟨inside, same, _⟩ := List.findIdx?_eq_some_iff_getElem.mp found
    exact List.mem_map.mpr ⟨_, List.getElem_mem inside, eq_of_beq same⟩
  · cases h

theorem place_error (h : place stub deps name = .error e) :
    name ∉ deps.map Prod.fst ∧ e = .missingCallee stub name := by
  unfold place at h
  split at h
  · cases h
  next absent =>
    cases h
    refine ⟨?_, rfl⟩
    intro member
    obtain ⟨d, inside, same⟩ := List.mem_map.mp member
    have distinct := List.findIdx?_eq_none_iff.mp absent d inside
    simp [same] at distinct

theorem compileInst_eq (i : Inst String) : compileInst stub cache deps i =
    if i.wantsCache && cache.isNone then .error (.missingCache stub)
    else i.mapCallee (place stub deps) := by
  cases i with
  | define v op => cases op <;> rfl
  | perform effect => rfl

theorem compileInst_mapped {i : Inst String} (h : compileInst stub cache deps i = .ok i') :
    i.mapCallee (place stub deps) = .ok i' := by
  rw [compileInst_eq] at h
  split at h
  · cases h
  · exact h

theorem compileInst_ok {i : Inst String} (h : compileInst stub cache deps i = .ok i') :
    (∀ b, i.callee? = some b → b ∈ deps.map Prod.fst) ∧
      (i.wantsCache = true → cache.isSome = true) := by
  rw [compileInst_eq] at h
  split at h
  · cases h
  next allowed =>
    refine ⟨fun b called => ?_, fun wants => ?_⟩
    · cases i with
      | perform effect => cases called
      | define v op =>
        obtain ⟨_, mapped, _⟩ := except_bind_ok.mp h
        obtain ⟨_, placed⟩ := Op.mapCallee_ok mapped called
        exact place_ok placed
    · cases cache with
      | none => simp [wants] at allowed
      | some id => rfl

theorem compileInst_error {i : Inst String} (h : compileInst stub cache deps i = .error e) :
    (i.wantsCache = true ∧ cache = none ∧ e = .missingCache stub) ∨
      ∃ b, i.callee? = some b ∧ b ∉ deps.map Prod.fst ∧ e = .missingCallee stub b := by
  rw [compileInst_eq] at h
  split at h
  next refused =>
    simp only [Bool.and_eq_true, Option.isNone_iff_eq_none] at refused
    cases h
    exact .inl ⟨refused.1, refused.2, rfl⟩
  · cases i with
    | perform effect => cases h
    | define v op =>
      obtain failed | ⟨_, _, h⟩ := except_bind_error.mp h
      · obtain ⟨b, called, unplaced⟩ := Op.mapCallee_error failed
        exact .inr ⟨b, called, place_error unplaced⟩
      · cases h

variable {c c' : Compiler} {g : Graph} {config : Config} {s : Stub}

theorem mem_callees {b : String} :
    b ∈ g.callees ↔ ∃ block ∈ g.blocks, ∃ i ∈ block.insts, i.callee? = some b := by
  simp [Graph.callees, List.mem_flatMap, List.mem_filterMap]

theorem usesCache_iff :
    g.usesCache = true ↔ ∃ block ∈ g.blocks, ∃ i ∈ block.insts, i.wantsCache = true := by
  simp only [Graph.usesCache, List.any_eq_true]
  refine exists_congr fun block => and_congr_right fun _ => exists_congr fun i =>
    and_congr_right fun _ => ?_
  cases i with
  | define v op => cases op <;> rfl
  | perform effect => rfl

theorem compile_ok (h : c.compile g config deps = .ok (s, c')) :
    (∀ b ∈ g.callees, b ∈ deps.map Prod.fst) ∧
      (g.usesCache = true → config.cache.isSome = true) := by
  obtain ⟨blocks, compiled, _⟩ := except_bind_ok.mp h
  have each : ∀ block ∈ g.blocks, ∀ i ∈ block.insts,
      ∃ i', compileInst g.stub config.cache deps i = .ok i' := by
    intro block inside
    obtain ⟨_, met⟩ := except_mapM_ok compiled block inside
    obtain ⟨_, insts, _⟩ := except_bind_ok.mp met
    exact except_mapM_ok insts
  constructor
  · intro b needed
    obtain ⟨block, inside, i, member, called⟩ := mem_callees.mp needed
    obtain ⟨_, met⟩ := each block inside i member
    exact (compileInst_ok met).1 b called
  · intro uses
    obtain ⟨block, inside, i, member, wants⟩ := usesCache_iff.mp uses
    obtain ⟨_, met⟩ := each block inside i member
    exact (compileInst_ok met).2 wants

theorem compile_parts (h : c.compile g config deps = .ok (s, c')) :
    s.deps = deps.map Prod.snd ∧ s.entry = c.nextEntry ∧
      c' = { c with compiled := c.compiled + 1 } := by
  obtain ⟨_, _, done⟩ := except_bind_ok.mp h
  cases done
  exact ⟨rfl, rfl, rfl⟩

theorem compile_error (h : c.compile g config deps = .error e) :
    (g.usesCache = true ∧ config.cache = none ∧ e = .missingCache g.stub) ∨
      ∃ b ∈ g.callees, b ∉ deps.map Prod.fst ∧ e = .missingCallee g.stub b := by
  obtain failed | ⟨_, _, h⟩ := except_bind_error.mp h
  · obtain ⟨block, inside, failed⟩ := except_mapM_error failed
    obtain failed | ⟨_, _, h⟩ := except_bind_error.mp failed
    · obtain ⟨i, member, failed⟩ := except_mapM_error failed
      obtain ⟨wants, absent, same⟩ | ⟨b, called, absent, same⟩ := compileInst_error failed
      · exact .inl ⟨usesCache_iff.mpr ⟨block, inside, i, member, wants⟩, absent, same⟩
      · exact .inr ⟨b, mem_callees.mpr ⟨block, inside, i, member, called⟩, absent, same⟩
    · cases h
  · cases h

end Compiler

end FastPath
