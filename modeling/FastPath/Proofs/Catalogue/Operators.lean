import FastPath.Proofs.Catalogue.Programs

/-! Operators on small integers. What their stubs return is the result over unbounded integers, or
they stop: for an operand that is missing or no small integer, or for a result that is too large.
Nothing else happens to the machine. -/

namespace FastPath

open Catalogue

/-- A result that is known beforehand. The state stays as it is. -/
def Exec.settled (r : Except Trap α) : Exec ρ α := fun s =>
  match r with
  | .ok a => .ok a s
  | .error t => .error (.trap t) s

theorem Exec.nested_settled {act : Exec ρ α} {r : Except Trap α} {s : State ρ}
    (depth : s.machine.depth < s.machine.maxDepth)
    (inside : act s.deeper = Exec.settled r s.deeper) :
    Exec.nested act s = Exec.settled r s := by
  cases r with
  | ok a => exact Exec.nested_ok depth inside
  | error t => exact Exec.nested_error depth inside

namespace Operator

/-- The operand at a place of an argument list. -/
def operand (args : List Word) (i : Nat) : Except Trap Int :=
  match args[i]? with
  | none => .error (.fatal (.missingArgument i))
  | some w =>
    match w.int? with
    | none => .error (.unhandled (.deoptimize .notIntOperand))
    | some n => .ok n

/-- Both operands. The second is not looked at when there is something wrong with the first. -/
def operands (args : List Word) : Except Trap (Int × Int) := do
  let a ← operand args 0
  let b ← operand args 1
  return (a, b)

/-- An integer as a word, unless it is too large. -/
def exactly (n : Int) : Except Trap Word :=
  if Word.Fits n then .ok (.int n) else .error (.unhandled (.deoptimize .overflow))

/-- The arithmetic operators over unbounded integers. -/
def sums : List (BinaryOp × (Int → Int → Int)) :=
  [(.add, fun a b => a + b), (.sub, fun a b => a - b), (.mul, fun a b => a * b)]

/-- The relations that the comparisons stand for. -/
def relations : List (BinaryOp × (Int → Int → Bool)) :=
  [(.lt, fun a b => a < b), (.le, fun a b => a ≤ b), (.gt, fun a b => a > b),
    (.ge, fun a b => a ≥ b), (.eq, fun a b => a = b), (.ne, fun a b => a ≠ b)]

/-- What a comparison returns is what a relation says of the operands. -/
def verdict (holds : Int → Int → Bool) (args : List Word) : Except Trap Word := do
  let (a, b) ← operands args
  .ok (.boolean (holds a b))

/-- The stubs of the operators were compiled from their declarations. -/
structure Compiled (stubs : String → Stub) : Prop where
  unary : ∀ d ∈ unaryOperators, d.CompiledTo stubs (stubs d.name)
  binary : ∀ d ∈ binaryOperators, d.name ≠ BinaryOp.instanceOf.stubName →
    d.CompiledTo stubs (stubs d.name)

section

variable {args : List Word} {i : Nat} {w : Word} {n : Int}

theorem operand_missing (missing : args[i]? = none) :
    operand args i = .error (.fatal (.missingArgument i)) := by
  rw [operand, missing]

theorem operand_entity (given : args[i]? = some w) (entity : w.int? = none) :
    operand args i = .error (.unhandled (.deoptimize .notIntOperand)) := by
  simp only [operand, given, entity]

theorem operand_int (given : args[i]? = some w) (int : w.int? = some n) :
    operand args i = .ok n := by
  simp only [operand, given, int]

theorem exactly_of_fits (fits : Word.Fits n) : exactly n = .ok (.int n) := if_pos fits

theorem exactly_of_large (large : ¬ Word.Fits n) :
    exactly n = .error (.unhandled (.deoptimize .overflow)) := if_neg large

theorem isInt_of_int? (int : w.int? = some n) : w.isInt = true := by
  rw [Word.int?] at int
  split at int
  · assumption
  · cases int

theorem not_isInt (entity : w.int? = none) : w.isInt = false := by
  rw [Word.int?] at entity
  split at entity
  · cases entity
  · rwa [Bool.not_eq_true] at *

end

end Operator

namespace Body

open Operator

variable {b : Body σ} {host : Host ρ} {calls : Invoke ρ} {f : Frame} {s : State ρ}
  {id yes no : BlockId} {v : Var} {i : Nat} {w : Word} {n : Int}

section

variable (found : b.blocks[id]? = some
  { params := [], insts := [.define v (.stubArg i)], exit := .branch (.isInt v) yes no })

include found

/-- A block that reads an operand stops if there is none. -/
theorem operand_stops (missing : f.args[i]? = none) (fuel : Nat) :
    b.runFrom host calls (fuel + 1) id f s = .error (.trap (.fatal (.missingArgument i))) s := by
  refine runFrom_fails found (insts_fail ?_) fuel
  rw [eval, missing]
  rfl

/-- A block that reads an operand asks whether it is a small integer. -/
theorem operand_leads (given : f.args[i]? = some w) (room : v < f.registers.length) :
    b.Leads host calls 1 id f s (if w.isInt then yes else no) (f.after v w f.overflowed) s := by
  apply leads_of_goto found
  · exact insts_define (eval_stubArg given) room (insts_nil host calls)
  · exact leave_branch (Frame.test_isInt (Frame.after_same room) s)

theorem operand_accepts (given : f.args[i]? = some w) (int : w.int? = some n)
    (room : v < f.registers.length) :
    b.Leads host calls 1 id f s yes (f.after v w f.overflowed) s := by
  have leads : b.Leads host calls 1 id f s (if w.isInt then yes else no)
      (f.after v w f.overflowed) s := operand_leads found given room
  rwa [isInt_of_int? int, if_pos rfl] at leads

theorem operand_rejects (given : f.args[i]? = some w) (entity : w.int? = none)
    (room : v < f.registers.length) :
    b.Leads host calls 1 id f s no (f.after v w f.overflowed) s := by
  have leads : b.Leads host calls 1 id f s (if w.isInt then yes else no)
      (f.after v w f.overflowed) s := operand_leads found given room
  rwa [not_isInt entity, if_neg Bool.false_ne_true] at leads

end

theorem block_rejects {t : Trap}
    (found : b.blocks[id]? = some { params := [], insts := [], exit := .trap t }) (fuel : Nat) :
    b.runFrom host calls (fuel + 1) id f s = Exec.settled (.error t) s :=
  runFrom_traps found (insts_nil host calls) rfl fuel

/-- A block that does checked arithmetic, with one block for the result and one for none. -/
theorem result_settled {op : Op σ} {a : Arith} {l r : Int} {big next : BlockId}
    (found : b.blocks[id]? = some
      { params := [], insts := [.define v op], exit := .branch .overflowed big next })
    (done : b.blocks[next]? = some { params := [], insts := [], exit := .ret (some v) })
    (failed : b.blocks[big]? = some
      { params := [], insts := [], exit := .trap (.unhandled (.deoptimize .overflow)) })
    (value : b.eval host calls f op s = .ok (.int (a.checked l r).1, (a.checked l r).2) s)
    (left : Word.Fits l) (right : Word.Fits r) (result : a.result? l r = some n)
    (room : v < f.registers.length) (fuel : Nat) :
    b.runFrom host calls (fuel + 2) id f s = Exec.settled (exactly n) s := by
  have leads : b.Leads host calls 1 id f s (if (a.checked l r).2 then big else next)
      (f.after v (.int (a.checked l r).1) (a.checked l r).2) s := by
    apply leads_of_goto found
    · exact insts_define value room (insts_nil host calls)
    · exact leave_branch rfl
  rw [leads]
  by_cases fits : Word.Fits n
  · rw [Arith.checked_of_fits result fits, exactly_of_fits fits]
    apply runFrom_done done
    · exact insts_nil host calls
    · exact leave_ret (Frame.after_same room)
  · rw [Arith.checked_of_large left right result fits, exactly_of_large fits]
    exact block_rejects failed fuel

/-- A block that only returns a boolean. -/
theorem boolean_settled {yes : Bool}
    (found : b.blocks[id]? = some
      { params := [], insts := [.define v (.literal (.boolean yes))], exit := .ret (some v) })
    (room : v < f.registers.length) (fuel : Nat) :
    b.runFrom host calls (fuel + 1) id f s = Exec.settled (.ok (.boolean yes)) s := by
  apply runFrom_done found
  · exact insts_define (eval_boolean yes) room (insts_nil host calls)
  · exact leave_ret (Frame.after_same room)

/-- The blocks in which a binary operator looks at its operands. It goes on at block 3. -/
structure Checks (b : Body σ) : Prop where
  left : b.blocks[0]? = some
    { params := [], insts := [.define 0 (.stubArg 0)], exit := .branch (.isInt 0) 1 2 }
  right : b.blocks[1]? = some
    { params := [], insts := [.define 1 (.stubArg 1)], exit := .branch (.isInt 1) 3 4 }
  leftEntity : b.blocks[2]? = some { params := [], insts := [], exit := .jump 4 [] }
  rightEntity : b.blocks[4]? = some
    { params := [], insts := [], exit := .trap (.unhandled (.deoptimize .notIntOperand)) }

/-- The frame behind the checks. -/
def checked (f : Frame) (x y : Word) : Frame :=
  (f.after 0 x f.overflowed).after 1 y f.overflowed

theorem checked_left (room : 0 < f.registers.length) (x y : Word) :
    (checked f x y).registers[0]? = some x :=
  (Frame.after_other Nat.zero_ne_one).trans (Frame.after_same room)

theorem checked_right (room : 1 < f.registers.length) (x y : Word) :
    (checked f x y).registers[1]? = some y :=
  Frame.after_same (by rwa [Frame.after_length])

theorem checked_length (f : Frame) (x y : Word) :
    (checked f x y).registers.length = f.registers.length :=
  Frame.after_length.trans Frame.after_length

theorem Checks.rejects (checks : b.Checks) (fuel : Nat) :
    b.runFrom host calls (fuel + 2) 2 f s =
      Exec.settled (.error (.unhandled (.deoptimize .notIntOperand))) s := by
  have jump : b.Leads host calls 1 2 f s 4 f s := by
    apply leads_of_goto checks.leftEntity
    · exact insts_nil host calls
    · exact leave_jump checks.rightEntity rfl
  rw [jump]
  exact block_rejects checks.rightEntity fuel

variable (host calls s) in
theorem Checks.run (checks : b.Checks) (room : 1 < f.registers.length) :
    (∃ t, operands f.args = .error t ∧
      ∀ fuel, b.runFrom host calls (fuel + 3) 0 f s = Exec.settled (.error t) s) ∨
    ∃ x y m n, operands f.args = .ok (m, n) ∧ x.int? = some m ∧ y.int? = some n ∧
      b.Leads host calls 2 0 f s 3 (checked f x y) s := by
  have room₀ : 0 < f.registers.length := Nat.lt_of_succ_lt room
  cases first : f.args[0]? with
  | none =>
    refine .inl ⟨_, ?_, fun fuel => operand_stops checks.left first (fuel + 2)⟩
    rw [operands, operand_missing first]
    rfl
  | some x =>
    cases int : x.int? with
    | none =>
      refine .inl ⟨.unhandled (.deoptimize .notIntOperand), ?_, fun fuel => ?_⟩
      · rw [operands, operand_entity first int]
        rfl
      · rw [operand_rejects checks.left first int room₀]
        exact checks.rejects fuel
    | some m =>
      have leads : b.Leads host calls 1 0 f s 1 (f.after 0 x f.overflowed) s :=
        operand_accepts checks.left first int room₀
      have room₁ : 1 < (f.after 0 x f.overflowed).registers.length := by rwa [Frame.after_length]
      have same : (f.after 0 x f.overflowed).args = f.args := rfl
      cases second : f.args[1]? with
      | none =>
        refine .inl ⟨.fatal (.missingArgument 1), ?_, fun fuel => ?_⟩
        · rw [operands, operand_int first int, operand_missing second]
          rfl
        · rw [leads]
          exact operand_stops checks.right (same ▸ second) (fuel + 1)
      | some y =>
        cases int' : y.int? with
        | none =>
          refine .inl ⟨.unhandled (.deoptimize .notIntOperand), ?_, fun fuel => ?_⟩
          · rw [operands, operand_int first int, operand_entity second int']
            rfl
          · rw [leads, operand_rejects checks.right (same ▸ second) int' room₁]
            exact block_rejects checks.rightEntity fuel
        | some n =>
          refine .inr ⟨x, y, m, n, ?_, int, int', leads.trans ?_⟩
          · rw [operands, operand_int first int, operand_int second int']
            rfl
          · exact operand_accepts checks.right (same ▸ second) int' room₁

/-- Behind the checks the operands decide. -/
theorem Checks.settles (checks : b.Checks) {self : Word} {args : List Word}
    (room : 1 < (b.frame self args).registers.length) {next : Int × Int → Except Trap Word}
    {fuel : Nat} (rest : ∀ x y m n, x.int? = some m → y.int? = some n →
      b.runFrom host calls (fuel + 2) 3 (checked (b.frame self args) x y) s =
        Exec.settled (next (m, n)) s) :
    b.run host calls (fuel + 4) self args s = Exec.settled (operands args >>= next) s := by
  have given : (b.frame self args).args = args := rfl
  obtain ⟨t, refused, stops⟩ | ⟨x, y, m, n, both, int, int', leads⟩ := checks.run host calls s room
  · rw [given] at refused
    rw [Body.run, refused]
    exact stops (fuel + 1)
  · rw [given] at both
    rw [Body.run, both, leads]
    exact rest x y m n int int'

end Body

namespace Programs

open Operator

def negation : Graph :=
  { stub := UnaryOp.neg.stubName, varCount := 2
    blocks := [
      { params := [], insts := [.define 0 (.stubArg 0)], exit := .branch (.isInt 0) 1 2 },
      { params := [], insts := [.define 1 (.negate 0)], exit := .branch .overflowed 4 3 },
      { params := [], insts := [], exit := .trap (.unhandled (.deoptimize .notIntOperand)) },
      { params := [], insts := [], exit := .ret (some 1) },
      { params := [], insts := [], exit := .trap (.unhandled (.deoptimize .overflow)) }] }

def sum (op : BinaryOp) (a : Arith) : Graph :=
  { stub := op.stubName, varCount := 3
    blocks := [
      { params := [], insts := [.define 0 (.stubArg 0)], exit := .branch (.isInt 0) 1 2 },
      { params := [], insts := [.define 1 (.stubArg 1)], exit := .branch (.isInt 1) 3 4 },
      { params := [], insts := [], exit := .jump 4 [] },
      { params := [], insts := [.define 2 (.arith a 0 1)], exit := .branch .overflowed 6 5 },
      { params := [], insts := [], exit := .trap (.unhandled (.deoptimize .notIntOperand)) },
      { params := [], insts := [], exit := .ret (some 2) },
      { params := [], insts := [], exit := .trap (.unhandled (.deoptimize .overflow)) }] }

def relation (op : BinaryOp) (c : Compare) (swapped : Bool) : Graph :=
  { stub := op.stubName, varCount := 4
    blocks := [
      { params := [], insts := [.define 0 (.stubArg 0)], exit := .branch (.isInt 0) 1 2 },
      { params := [], insts := [.define 1 (.stubArg 1)], exit := .branch (.isInt 1) 3 4 },
      { params := [], insts := [], exit := .jump 4 [] },
      { params := [], insts := []
        exit := .branch (if swapped then .compareInts c 1 0 else .compareInts c 0 1) 5 6 },
      { params := [], insts := [], exit := .trap (.unhandled (.deoptimize .notIntOperand)) },
      { params := [], insts := [.define 2 (.literal (.boolean true))], exit := .ret (some 2) },
      { params := [], insts := [.define 3 (.literal (.boolean false))], exit := .ret (some 3) }] }

def operators : List Graph :=
  [sum .add .add, sum .sub .sub, sum .mul .mul, relation .lt .lt false, relation .le .le false,
    relation .gt .lt true, relation .ge .le true, relation .eq .eq true, relation .ne .ne true]

theorem negation_built : ∃ d ∈ unaryOperators, d.name = negation.stub ∧ d.config.cache = none ∧
    d.template d.name d.config = .ok negation := by
  decide +kernel

theorem operators_built : ∀ g ∈ operators, ∃ d ∈ binaryOperators, d.name = g.stub ∧
    d.name ≠ BinaryOp.instanceOf.stubName ∧ d.config.cache = none ∧
    d.template d.name d.config = .ok g := by
  decide +kernel

section

variable {stubs : String → Stub} {host : Host ρ} {calls : Invoke ρ} {self : Word}
  {args : List Word} {s : State ρ}

theorem negation_run (fuel : Nat) :
    (negation.linked stubs).run host calls (fuel + 3) self args s =
      Exec.settled (do let a ← operand args 0; exactly (-a)) s := by
  have found : (negation.linked stubs).blocks[0]? = some
      { params := [], insts := [.define 0 (.stubArg 0)], exit := .branch (.isInt 0) 1 2 } := rfl
  have room : 0 < ((negation.linked stubs).frame self args).registers.length := Nat.zero_lt_succ _
  rw [Body.run]
  cases given : args[0]? with
  | none =>
    rw [operand_missing given]
    exact Body.operand_stops found given (fuel + 2)
  | some x =>
    cases int : x.int? with
    | none =>
      rw [operand_entity given int, Body.operand_rejects found given int room]
      exact Body.block_rejects rfl (fuel + 1)
    | some n =>
      have result : Arith.sub.result? 0 n = some (-n) := congrArg some (Int.zero_sub n)
      rw [operand_int given int, Body.operand_accepts found given int room]
      apply Body.result_settled (a := .sub) (l := 0) (r := n) rfl rfl rfl
      · exact Body.eval_negate (Frame.after_same room) int rfl
      · decide
      · exact Word.int?_fits int
      · exact result
      · exact Nat.one_lt_two

variable {op : BinaryOp}

theorem sum_run {a : Arith} {f : Int → Int → Int}
    (result : ∀ m n, a.result? m n = some (f m n)) (fuel : Nat) :
    ((sum op a).linked stubs).run host calls (fuel + 4) self args s =
      Exec.settled (do let (m, n) ← operands args; exactly (f m n)) s := by
  have checks : ((sum op a).linked stubs).Checks := ⟨rfl, rfl, rfl, rfl⟩
  have three : (((sum op a).linked stubs).frame self args).registers.length = 3 :=
    List.length_replicate
  have two : 1 < (((sum op a).linked stubs).frame self args).registers.length :=
    three ▸ by decide
  apply checks.settles two
  intro x y m n int int'
  apply Body.result_settled (a := a) (l := m) (r := n) rfl rfl rfl
  · exact Body.eval_arith (Body.checked_left (Nat.lt_of_succ_lt two) x y) int
      (Body.checked_right two x y) int' rfl
  · exact Word.int?_fits int
  · exact Word.int?_fits int'
  · exact result m n
  · rw [Body.checked_length, three]
    decide

theorem relation_run {c : Compare} {swapped : Bool} {holds : Int → Int → Bool}
    (same : ∀ m n, (if swapped then c.holds n m else c.holds m n) = holds m n) (fuel : Nat) :
    ((relation op c swapped).linked stubs).run host calls (fuel + 4) self args s =
      Exec.settled (verdict holds args) s := by
  have checks : ((relation op c swapped).linked stubs).Checks := ⟨rfl, rfl, rfl, rfl⟩
  have four : (((relation op c swapped).linked stubs).frame self args).registers.length = 4 :=
    List.length_replicate
  have two : 1 < (((relation op c swapped).linked stubs).frame self args).registers.length :=
    four ▸ by decide
  apply checks.settles two
  intro x y m n int int'
  let f := Body.checked (((relation op c swapped).linked stubs).frame self args) x y
  have left : f.registers[0]? = some x := Body.checked_left (Nat.lt_of_succ_lt two) x y
  have right : f.registers[1]? = some y := Body.checked_right two x y
  have tested : f.test (if swapped then .compareInts c 1 0 else .compareInts c 0 1) s =
      .ok (holds m n) s := by
    rw [← same]
    cases swapped with
    | true => exact Frame.test_compareInts right int' left int c s
    | false => exact Frame.test_compareInts left int right int' c s
  have answer : ((relation op c swapped).linked stubs).Leads host calls 1 3 f s
      (if holds m n then 5 else 6) f s := by
    apply Body.leads_of_goto rfl
    · exact Body.insts_nil host calls
    · exact Body.leave_branch tested
  have length : f.registers.length = 4 := (Body.checked_length _ x y).trans four
  rw [answer]
  change _ = Exec.settled (.ok (Word.boolean (holds m n))) s
  cases holds m n with
  | true =>
    refine Body.boolean_settled (v := 2) rfl ?_ fuel
    exact length ▸ (by decide : 2 < 4)
  | false =>
    refine Body.boolean_settled (v := 3) rfl ?_ fuel
    exact length ▸ (by decide : 3 < 4)

end

end Programs

-- Equality is written with its operands exchanged, which makes no difference to it.

theorem Compare.eq_swapped (m n : Int) : Compare.eq.holds n m = decide (m = n) := by
  rw [Compare.holds, Bool.beq_comm]
  exact Bool.eq_iff_iff.mpr (by simp)

theorem Compare.ne_swapped (m n : Int) : Compare.ne.holds n m = decide (m ≠ n) := by
  rw [Compare.holds, bne_comm]
  exact Bool.eq_iff_iff.mpr (by simp)

namespace Operator

variable {stubs : String → Stub} {s : State ρ} {r : Except Trap Word}

/-- What its graph settles, an operator settles. -/
theorem Compiled.settled (compiled : Compiled stubs) (depth : s.machine.depth < s.machine.maxDepth)
    {g : Graph} (member : g ∈ Programs.operators) (host : Host ρ) (fuel : Nat) (self : Word)
    (args : List Word)
    (runs : (g.linked stubs).run host (invoke host fuel) fuel self args s.deeper =
      Exec.settled r s.deeper) :
    invoke host (fuel + 1) (stubs g.stub) self args s = Exec.settled r s := by
  obtain ⟨d, declared, name, other, bare, built⟩ := Programs.operators_built g member
  rw [← name, (compiled.binary d declared other).invoke_eq bare built]
  exact Exec.nested_settled depth runs

section

variable (compiled : Compiled stubs) (depth : s.machine.depth < s.machine.maxDepth) (host : Host ρ)
  (fuel : Nat) (self : Word) (args : List Word)

include compiled depth

theorem Compiled.negates :
    invoke host (fuel + 5) (stubs UnaryOp.neg.stubName) self args s =
      Exec.settled (do let a ← operand args 0; exactly (-a)) s := by
  obtain ⟨d, declared, name, bare, built⟩ := Programs.negation_built
  have named : d.name = UnaryOp.neg.stubName := name
  rw [← named, (compiled.unary d declared).invoke_eq bare built]
  exact Exec.nested_settled depth (Programs.negation_run (fuel + 1))

theorem Compiled.calculates (p : BinaryOp × (Int → Int → Int)) (member : p ∈ sums) :
    invoke host (fuel + 5) (stubs p.1.stubName) self args s =
      Exec.settled (do let (a, b) ← operands args; exactly (p.2 a b)) s := by
  simp only [sums, List.mem_cons, List.not_mem_nil, or_false] at member
  obtain rfl | rfl | rfl := member
  · exact compiled.settled depth (g := Programs.sum .add .add) (by decide) host (fuel + 4) self args
      (Programs.sum_run (fun _ _ => rfl) fuel)
  · exact compiled.settled depth (g := Programs.sum .sub .sub) (by decide) host (fuel + 4) self args
      (Programs.sum_run (fun _ _ => rfl) fuel)
  · exact compiled.settled depth (g := Programs.sum .mul .mul) (by decide) host (fuel + 4) self args
      (Programs.sum_run (fun _ _ => rfl) fuel)

theorem Compiled.compares (p : BinaryOp × (Int → Int → Bool)) (member : p ∈ relations) :
    invoke host (fuel + 5) (stubs p.1.stubName) self args s =
      Exec.settled (verdict p.2 args) s := by
  have settled {op : BinaryOp} {holds : Int → Int → Bool} (c : Compare) (swapped : Bool)
      (graph : Programs.relation op c swapped ∈ Programs.operators)
      (same : ∀ m n, (if swapped then c.holds n m else c.holds m n) = holds m n) :=
    compiled.settled depth graph host (fuel + 4) self args (Programs.relation_run same fuel)
  simp only [relations, List.mem_cons, List.not_mem_nil, or_false] at member
  obtain rfl | rfl | rfl | rfl | rfl | rfl := member
  · exact settled .lt false (by decide) fun _ _ => rfl
  · exact settled .le false (by decide) fun _ _ => rfl
  · exact settled .lt true (by decide) fun _ _ => rfl
  · exact settled .le true (by decide) fun _ _ => rfl
  · exact settled .eq true (by decide) Compare.eq_swapped
  · exact settled .ne true (by decide) Compare.ne_swapped

end

theorem settled_ok {w : Word} : Exec.settled r s = .ok w s ↔ r = .ok w := by
  cases r with
  | ok v =>
    constructor
    · rintro ⟨⟩
      rfl
    · rintro ⟨⟩
      rfl
  | error t => exact ⟨nofun, nofun⟩

theorem verdict_exchanged (holds : Int → Int → Bool) (x y : Word) :
    verdict (fun a b => holds b a) [x, y] = verdict holds [y, x] := by
  have left (u v : Word) : operand [u, v] 0 =
      match u.int? with
      | none => .error (.unhandled (.deoptimize .notIntOperand))
      | some n => .ok n := rfl
  have right (u v : Word) : operand [u, v] 1 = operand [v, u] 0 := rfl
  simp only [verdict, operands, right, left]
  cases x.int? <;> cases y.int? <;> rfl

theorem verdict_negated (holds : Int → Int → Bool) (args : List Word) (yes : Bool) :
    verdict (fun a b => !holds a b) args = .ok (.boolean (!yes)) ↔
      verdict holds args = .ok (.boolean yes) := by
  have apart : Word.boolean true ≠ Word.boolean false := by decide
  rw [verdict, verdict]
  cases operands args with
  | error t => exact ⟨nofun, nofun⟩
  | ok both =>
    change Except.ok (Word.boolean (!holds both.1 both.2)) = .ok (Word.boolean (!yes)) ↔
      Except.ok (Word.boolean (holds both.1 both.2)) = .ok (Word.boolean yes)
    cases holds both.1 both.2 <;> cases yes <;> simp [apart, apart.symm]

end Operator

open Operator

/-- Operators calculate exactly, or say why they do not. Whatever they are given, the machine and
its heap stay as they are. -/
theorem operators_exact {stubs : String → Stub} {s : State ρ} (compiled : Operator.Compiled stubs)
    (depth : s.machine.depth < s.machine.maxDepth) (host : Host ρ) (fuel : Nat) (self : Word) :
    let call (name : String) (args : List Word) := invoke host (fuel + 5) (stubs name) self args s
    (∀ args, call UnaryOp.neg.stubName args =
      Exec.settled (do let a ← operand args 0; exactly (-a)) s) ∧
    (∀ p ∈ sums, ∀ args, call p.1.stubName args =
      Exec.settled (do let (a, b) ← operands args; exactly (p.2 a b)) s) ∧
    (∀ p ∈ relations, ∀ args, call p.1.stubName args = Exec.settled (verdict p.2 args) s) ∧
    (∀ x y, call BinaryOp.gt.stubName [x, y] = call BinaryOp.lt.stubName [y, x]) ∧
    (∀ x y, call BinaryOp.ge.stubName [x, y] = call BinaryOp.le.stubName [y, x]) ∧
    (∀ args yes, call BinaryOp.ge.stubName args = .ok (.boolean (!yes)) s ↔
      call BinaryOp.lt.stubName args = .ok (.boolean yes) s) ∧
    (∀ args yes, call BinaryOp.ne.stubName args = .ok (.boolean (!yes)) s ↔
      call BinaryOp.eq.stubName args = .ok (.boolean yes) s) := by
  intro call
  have told (p : BinaryOp × (Int → Int → Bool)) (member : p ∈ relations) (args : List Word) :
      call p.1.stubName args = Exec.settled (verdict p.2 args) s :=
    compiled.compares depth host fuel self args p member
  have lt := told (.lt, fun a b => a < b) (by simp [relations])
  have le := told (.le, fun a b => a ≤ b) (by simp [relations])
  have gt := told (.gt, fun a b => a > b) (by simp [relations])
  have ge := told (.ge, fun a b => a ≥ b) (by simp [relations])
  have eq := told (.eq, fun a b => a = b) (by simp [relations])
  have ne := told (.ne, fun a b => a ≠ b) (by simp [relations])
  refine ⟨compiled.negates depth host fuel self, fun p member args => ?_, told, fun x y => ?_,
    fun x y => ?_, fun args yes => ?_, fun args yes => ?_⟩
  · exact compiled.calculates depth host fuel self args p member
  · exact (gt _).trans ((congrArg (Exec.settled · s) (verdict_exchanged _ x y)).trans (lt _).symm)
  · exact (ge _).trans ((congrArg (Exec.settled · s) (verdict_exchanged _ x y)).trans (le _).symm)
  · have negated : (fun a b : Int => decide (a ≥ b)) = fun a b => !decide (a < b) := by
      funext a b
      rw [← decide_not]
      exact decide_eq_decide.mpr Int.not_lt.symm
    rw [ge, lt, settled_ok, settled_ok, negated, verdict_negated]
  · have negated : (fun a b : Int => decide (a ≠ b)) = fun a b => !decide (a = b) := by
      funext a b
      exact decide_not
    rw [ne, eq, settled_ok, settled_ok, negated, verdict_negated]

/-- The declarations of the operators on small integers. -/
def calculators : List Declaration :=
  unaryOperators ++ binaryOperators.filter fun d => d.name != BinaryOp.instanceOf.stubName

/-- The stubs that a fresh compiler makes of them. -/
def freshCalculators : String → Stub :=
  match assemble { id := 0 } [] calculators with
  | .ok all => named all
  | .error _ => default

theorem freshCalculators_compiled : Operator.Compiled freshCalculators := by
  have works : (assemble { id := 0 } [] calculators).isOk = true := by decide +kernel
  have apart : (calculators.map Declaration.name).Nodup := by decide
  have compiled (d : Declaration) (member : d ∈ calculators) :
      d.CompiledTo freshCalculators (freshCalculators d.name) := stubsOf_compiled works apart member
  constructor
  case unary =>
    intro d member
    exact compiled d (List.mem_append_left _ member)
  case binary =>
    intro d member other
    refine compiled d (List.mem_append_right _ ?_)
    exact List.mem_filter.mpr ⟨member, bne_iff_ne.mpr other⟩

/-- A machine that allows for one call. -/
def calculator : State Unit :=
  match Heap.create 1024 with
  | .ok heap => ⟨Machine.ofHeap heap 1, ()⟩
  | .error _ => ⟨Machine.ofHeap default 1, ()⟩

/-- The largest integer is told from the one behind it, to which nothing can be added. -/
theorem calculator_overflows :
    let call (name : String) (args : List Word) :=
      invoke Host.absent 5 (freshCalculators name) .undefined args calculator
    calculator.machine.depth < calculator.machine.maxDepth ∧
      call "binary/+" [.int (Word.maxInt - 1), .int 1] = .ok (.int Word.maxInt) calculator ∧
      call "binary/+" [.int Word.maxInt, .int 1] =
        .error (.trap (.unhandled (.deoptimize .overflow))) calculator ∧
      call "binary/>=" [.int Word.maxInt, .int 1] = .ok (.boolean true) calculator ∧
      call "binary/<" [.int Word.maxInt] = .error (.trap (.fatal (.missingArgument 1))) calculator ∧
      call "unary/-" [.int Word.minInt] =
        .error (.trap (.unhandled (.deoptimize .overflow))) calculator := by
  intro call
  have depth : calculator.machine.depth < calculator.machine.maxDepth := by decide +kernel
  obtain ⟨negates, calculates, compares, _, _, negated, _⟩ :=
    operators_exact freshCalculators_compiled depth Host.absent 0 .undefined
  have add := calculates (.add, fun a b => a + b) (by simp [sums])
  have lt := compares (.lt, fun a b => a < b) (by simp [relations])
  refine ⟨depth, (add _).trans rfl, (add _).trans rfl, ?_, (lt _).trans rfl, (negates _).trans rfl⟩
  exact (negated _ false).mpr ((lt _).trans rfl)

end FastPath
