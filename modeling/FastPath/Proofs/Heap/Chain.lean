import FastPath.Heap.Basic
import FastPath.Proofs.Traversal

/-! Chains of prototypes: the map of an entity, the map of the prototype of that map, and so on. A
chain ends at a map whose prototype is a small integer or has the same map again. -/

namespace FastPath.Heap

section

variable (h : Heap) (obj : Word)

/-- The map of the prototype of a map, or none where the prototype is a small integer. -/
def mapBeyond (m : Word) : Except HeapError (Option Word) := do
  let proto ← h.load m Layout.Map.proto
  if proto.isInt then return none else return some (← h.mapOf proto)

/-- The map that `k` prototypes lead to from the map of an entity, or none where one of the
prototypes is a small integer. -/
def mapAlong : Nat → Except HeapError (Option Word)
  | 0 => do return some (← h.mapOf obj)
  | k + 1 => do
    match ← mapAlong k with
    | some m => h.mapBeyond m
    | none => return none

def EndsAt (k : Nat) : Prop :=
  ∃ m, h.mapAlong obj k = .ok (some m) ∧
    (h.mapBeyond m = .ok none ∨ h.mapBeyond m = .ok (some m))

variable (m : Word)

/-- The chain comes to `m` and has not ended before. -/
def MeetsAt (k : Nat) : Prop :=
  h.mapAlong obj k = .ok (some m) ∧ ∀ i < k, ¬ h.EndsAt obj i

/-- The chain ends, and `m` is not on it. -/
def MissesAt (k : Nat) : Prop :=
  h.EndsAt obj k ∧ ∀ i ≤ k, h.mapAlong obj i ≠ .ok (some m)

/-- Before its `k`-th map the chain neither ends nor comes to `m`. -/
def OpenUntil (k : Nat) : Prop :=
  ∀ i < k, h.mapAlong obj i ≠ .ok (some m) ∧ ¬ h.EndsAt obj i

/-- All maps can be read up to the first that decides whether `m` is on the chain. -/
def Readable : Prop := ∀ k, h.OpenUntil obj m k → ∃ r, h.mapAlong obj k = .ok r

end

variable {h : Heap} {obj m : Word} {k : Nat}

theorem mapBeyond_ok {next : Option Word} : h.mapBeyond m = .ok next ↔
    ∃ proto, h.load m Layout.Map.proto = .ok proto ∧
      (proto.isInt = true ∧ next = none ∨
        proto.isInt = false ∧ ∃ m', h.mapOf proto = .ok m' ∧ next = some m') := by
  rw [mapBeyond, except_bind_ok]
  refine exists_congr fun proto => and_congr_right fun _ => ?_
  cases proto.isInt with
  | true => simp [pure, Except.pure, eq_comm]
  | false =>
    simp only [Bool.false_eq_true, if_false, except_bind_ok, false_and, false_or, true_and]
    refine exists_congr fun m' => and_congr_right fun _ => ?_
    exact ⟨fun same => (Except.ok.inj same).symm, fun same => congrArg Except.ok same.symm⟩

/-- No more can be asked of a chain than that it can be read up to its end. -/
theorem readable_of_ends (ends : h.EndsAt obj k)
    (read : ∀ j ≤ k, (h.mapAlong obj j).isOk = true) : h.Readable obj m := by
  intro j before
  have reached : j ≤ k := Nat.le_of_not_lt fun later => (before k later).2 ends
  cases along : h.mapAlong obj j with
  | ok r => exact ⟨r, rfl⟩
  | error e =>
    have readable := read j reached
    rw [along] at readable
    cases readable

theorem OpenUntil.meets (before : h.OpenUntil obj m k) (met : h.mapAlong obj k = .ok (some m)) :
    (∃ j, h.MeetsAt obj m j) ∧ ¬ ∃ j, h.MissesAt obj m j := by
  refine ⟨⟨k, met, fun i earlier => (before i earlier).2⟩, ?_⟩
  rintro ⟨j, ends, without⟩
  have later : k ≤ j := Nat.le_of_not_lt fun earlier => (before j earlier).2 ends
  exact without k later met

theorem OpenUntil.misses (before : h.OpenUntil obj m k)
    (other : h.mapAlong obj k ≠ .ok (some m)) (ends : h.EndsAt obj k) :
    (∃ j, h.MissesAt obj m j) ∧ ¬ ∃ j, h.MeetsAt obj m j := by
  have without : ∀ i ≤ k, h.mapAlong obj i ≠ .ok (some m) := by
    intro i reached
    rcases Nat.lt_or_eq_of_le reached with earlier | rfl
    · exact (before i earlier).1
    · exact other
  refine ⟨⟨k, ends, without⟩, ?_⟩
  rintro ⟨j, met, unended⟩
  rcases Nat.lt_or_ge k j with later | reached
  · exact unended k later ends
  · exact without j reached met

/-- A chain that is never decided goes on for ever. -/
theorem undecided (always : ∀ k, h.OpenUntil obj m k) :
    (¬ ∃ j, h.MeetsAt obj m j) ∧ ¬ ∃ j, h.MissesAt obj m j := by
  constructor
  · rintro ⟨j, met, _⟩
    exact (always (j + 1) j (Nat.lt_succ_self j)).1 met
  · rintro ⟨j, ends, _⟩
    exact (always (j + 1) j (Nat.lt_succ_self j)).2 ends

/-- There is a first map that decides, unless there is none. -/
theorem first_decides (h : Heap) (obj m : Word) : (∀ k, h.OpenUntil obj m k) ∨
    ∃ k, h.OpenUntil obj m k ∧ (h.mapAlong obj k = .ok (some m) ∨
      h.mapAlong obj k ≠ .ok (some m) ∧ h.EndsAt obj k) := by
  by_cases always : ∀ k, h.OpenUntil obj m k
  · exact .inl always
  right
  obtain ⟨n, closed⟩ := Classical.not_forall.mp always
  induction n with
  | zero => exact absurd (fun i impossible => absurd impossible (Nat.not_lt_zero i)) closed
  | succ n ih =>
    by_cases before : h.OpenUntil obj m n
    · refine ⟨n, before, ?_⟩
      by_cases met : h.mapAlong obj n = .ok (some m)
      · exact .inl met
      · refine .inr ⟨met, Classical.byContradiction fun goes => closed fun i earlier => ?_⟩
        rcases Nat.lt_or_eq_of_le (Nat.le_of_lt_succ earlier) with older | rfl
        · exact before i older
        · exact ⟨met, goes⟩
    · exact ih before

end FastPath.Heap
