import FastPath.Registry
import Mathlib.Logic.Relation
import Mathlib.Data.List.Chain

/-! The dependency graph of a registry. Its edges lead from a declared stub that is not compiled
yet to the names that its graph calls or refers to. A name is good when everything it can reach
can be compiled, and an error is truthful when it exhibits a reachable reason to the contrary; the
two exclude each other. -/

namespace FastPath.Registry

def Pending (r : Registry) (name : String) (d : Declaration) : Prop :=
  r.find? name = some { declaration := d }

def Compiled (r : Registry) (name : String) (s : Stub) : Prop :=
  ∃ d, r.find? name = some { declaration := d, compiled := some s }

def Needs (r : Registry) (a b : String) : Prop :=
  ∃ d g, r.Pending a d ∧ d.template d.name d.config = .ok g ∧ b ∈ g.callees

def Reaches (r : Registry) : String → String → Prop := Relation.ReflTransGen r.Needs

/-- The least set of names that holds every compiled one and every one whose graph can be built,
needs good names only and uses no inline cache unless one is configured. -/
inductive Good (r : Registry) : String → Prop where
  | compiled : r.Compiled name s → Good r name
  | built : r.Pending name d → d.template d.name d.config = .ok g →
      (∀ b ∈ g.callees, Good r b) → (g.usesCache = true → d.config.cache.isSome = true) →
      Good r name

/-- What building a declared stub, or compiling what was built, reports. -/
def Rejects (d : Declaration) (e : GraphError) : Prop :=
  d.template d.name d.config = .error e ∨
    ∃ g, d.template d.name d.config = .ok g ∧ g.usesCache = true ∧ d.config.cache = none ∧
      e = .missingCache g.stub

inductive Truthful (r : Registry) (name : String) : RegistryError → Prop where
  | notFound : r.Reaches name m → r.find? m = none → Truthful r name (.notFound m)
  | cyclic : 2 ≤ chain.length → chain.head? = chain.getLast? → chain.IsChain r.Needs →
      (∀ m ∈ chain, r.Reaches name m ∧ ∃ d, r.Pending m d) → Truthful r name (.cyclic chain)
  | rejected : r.Reaches name m → r.Pending m d → Rejects d e → Truthful r name (.rejected e)

variable {r : Registry}

theorem Pending.unique (h : r.Pending name d) (h' : r.Pending name d') : d = d' := by
  cases h.symm.trans h'
  rfl

theorem Pending.not_compiled (h : r.Pending name d) : ¬ r.Compiled name s := by
  rintro ⟨_, found⟩
  cases h.symm.trans found

theorem Good.needs (good : r.Good a) (edge : r.Needs a b) : r.Good b := by
  obtain ⟨d, g, pending, built, member⟩ := edge
  cases good with
  | compiled done => exact absurd done pending.not_compiled
  | built pending' built' callees _ =>
    obtain rfl := pending.unique pending'
    cases built.symm.trans built'
    exact callees b member

theorem Good.reaches (good : r.Good a) (path : r.Reaches a b) : r.Good b := by
  induction path with
  | refl => exact good
  | tail _ edge ih => exact ih.needs edge

theorem reaches_of_linked (linked : (a :: chain).IsChain r.Needs) (member : m ∈ a :: chain) :
    r.Reaches a m := by
  induction chain generalizing a with
  | nil =>
    obtain rfl := List.mem_singleton.mp member
    exact .refl
  | cons b chain ih =>
    obtain ⟨edge, linked⟩ := List.isChain_cons_cons.mp linked
    obtain rfl | member := List.mem_cons.mp member
    · exact .refl
    · exact .head edge (ih linked member)

/-- A path back to a good name would give the callees it passes through one as well. -/
theorem Good.not_loop (good : r.Good a) : ¬ Relation.TransGen r.Needs a a := by
  induction good with
  | compiled done =>
    intro loop
    obtain ⟨_, ⟨_, _, pending, _⟩, _⟩ := Relation.TransGen.head'_iff.mp loop
    exact pending.not_compiled done
  | built pending built callees cached ih =>
    intro loop
    obtain ⟨b, edge, path⟩ := Relation.TransGen.head'_iff.mp loop
    obtain ⟨d', g', pending', built', member⟩ := id edge
    obtain rfl := pending.unique pending'
    cases built.symm.trans built'
    exact ih b member (Relation.TransGen.tail' path edge)

theorem Truthful.not_good (truthful : Truthful r name e) : ¬ r.Good name := by
  intro good
  cases truthful with
  | notFound path absent =>
    cases good.reaches path with
    | compiled done =>
      obtain ⟨_, found⟩ := done
      simp [absent] at found
    | built pending => simp [Pending, absent] at pending
  | @cyclic chain long closed linked members =>
    obtain ⟨a, b, rest, rfl⟩ : ∃ a b rest, chain = a :: b :: rest := by
      match chain, long with
      | a :: b :: rest, _ => exact ⟨a, b, rest, rfl⟩
    obtain ⟨edge, linked⟩ := List.isChain_cons_cons.mp linked
    have last : (b :: rest).getLast (List.cons_ne_nil _ _) = a := by
      simpa [List.getLast?_eq_some_getLast] using closed.symm
    have path := List.relationReflTransGen_of_exists_isChain_cons rest linked last
    exact (good.reaches (members a List.mem_cons_self).1).not_loop (.head' edge path)
  | rejected path pending rejects =>
    cases good.reaches path with
    | compiled done => exact pending.not_compiled done
    | built pending' built _ cached =>
      obtain rfl := pending.unique pending'
      obtain failed | ⟨g, built', uses, absent, _⟩ := rejects
      · cases built.symm.trans failed
      · cases built.symm.trans built'
        simpa [absent] using cached uses

end FastPath.Registry
