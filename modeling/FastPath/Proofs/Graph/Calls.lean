import FastPath.Proofs.Graph.Closed

/-! What a history of calls on a draft amounts to, said over the history alone: the blocks that it
made, what was written into each, and which of its calls made no sense. A history without such
calls leaves a draft that holds just what was written. -/

namespace FastPath.Draft

namespace Call

def opens : Call → Bool
  | .block | .guardOverflow _ => true
  | .param _ | .enter _ | .define _ | .perform _ | .leave _ => false

/-- Whether a call hands out a variable. -/
def defines : Call → Bool
  | .param _ | .define _ => true
  | .block | .enter _ | .perform _ | .leave _ | .guardOverflow _ => false

/-- The instruction that a call writes if the next variable is `v`. -/
def inst? (v : Var) : Call → Option (Inst String)
  | .define op => some (.define v op)
  | .perform effect => some (.perform effect)
  | .block | .param _ | .enter _ | .leave _ | .guardOverflow _ => none

/-- The exit that a call writes if the next block has the number `b`. -/
def exit? (b : BlockId) : Call → Option Exit
  | .leave exit => some exit
  | .guardOverflow target => some (.branch .overflowed target b)
  | .block | .param _ | .enter _ | .define _ | .perform _ => none

end Call

/-- A history of calls, the last of them first. -/
abbrev Past := List Call

/-- The draft that a history leads to. -/
def after (stub : String) : Past → Draft
  | [] => start stub
  | c :: past => (after stub past).call c

namespace Past

/-- The entry block, and those that were made. -/
def blockCount : Past → Nat
  | [] => 1
  | c :: past => blockCount past + if c.opens then 1 else 0

def varCount : Past → Nat
  | [] => 0
  | c :: past => varCount past + if c.defines then 1 else 0

/-- The block that is written to: the one that was last entered. -/
def current : Past → BlockId
  | [] => 0
  | .enter b :: past => if b < blockCount past then b else current past
  | .guardOverflow _ :: past => BlockId.ofPosition (blockCount past)
  | _ :: past => current past

/-- The parameters that a block was given. -/
def params (b : BlockId) : Past → List Var
  | [] => []
  | c :: past => params b past ++ if c = .param b then [varCount past] else []

/-- The instructions that were written while a block was current. -/
def insts (b : BlockId) : Past → List (Inst String)
  | [] => []
  | c :: past =>
    insts b past ++ if current past = b then (c.inst? (varCount past)).toList else []

/-- The exits that were written while a block was current. -/
def exits (b : BlockId) : Past → List Exit
  | [] => []
  | c :: past =>
    exits b past ++
      if current past = b then (c.exit? (BlockId.ofPosition (blockCount past))).toList else []

/-- What is wrong with a call. A block that a parameter is added to or that is entered must be
there, and one that is written to must not have an exit yet. -/
def refusal (stub : String) (past : Past) : Call → Option GraphError
  | .block => none
  | .param b | .enter b => if b < blockCount past then none else some (.unknownBlock stub b)
  | .define _ | .perform _ | .leave _ | .guardOverflow _ =>
    if exits (current past) past = [] then none else some (.terminated stub (current past))

/-- What is wrong with the calls of a history, in their order. -/
def refusals (stub : String) : Past → List GraphError
  | [] => []
  | c :: past => refusals stub past ++ (refusal stub past c).toList

/-- What was written into a block. -/
def written (past : Past) (b : BlockId) : OpenBlock :=
  { params := params b past, insts := insts b past, exit := (exits b past).head? }

variable {stub : String} {past : Past} {c : Call} {b : BlockId}

theorem blockCount_le (c : Call) (past : Past) : blockCount past ≤ blockCount (c :: past) :=
  Nat.le_add_right _ _

theorem current_lt (past : Past) : current past < blockCount past := by
  induction past with
  | nil => exact Nat.one_pos
  | cons c past ih =>
    cases c with
    | enter b =>
      rw [current]
      split
      · assumption
      · exact ih
    | guardOverflow target => exact Nat.lt_succ_of_le (Nat.mod_le _ _)
    | block => exact Nat.lt_succ_of_lt ih
    | param | define | perform | leave => exact ih

theorem refusals_cons (accepted : refusals stub (c :: past) = []) :
    refusals stub past = [] ∧ refusal stub past c = none := by
  obtain ⟨before, last⟩ := List.append_eq_nil_iff.mp accepted
  exact ⟨before, Option.toList_eq_nil_iff.mp last⟩

theorem current_ne (new : blockCount past ≤ b) : current past ≠ b :=
  Nat.ne_of_lt (Nat.lt_of_lt_of_le (current_lt past) new)

theorem insts_new (new : blockCount past ≤ b) : insts b past = [] := by
  induction past with
  | nil => rfl
  | cons c past ih =>
    have new : blockCount past ≤ b := Nat.le_trans (blockCount_le c past) new
    rw [insts, ih new, if_neg (current_ne new), List.append_nil]

theorem exits_new (new : blockCount past ≤ b) : exits b past = [] := by
  induction past with
  | nil => rfl
  | cons c past ih =>
    have new : blockCount past ≤ b := Nat.le_trans (blockCount_le c past) new
    rw [exits, ih new, if_neg (current_ne new), List.append_nil]

theorem known_param (accepted : refusal stub past (.param b) = none) : b < blockCount past := by
  rw [refusal] at accepted
  split at accepted
  · assumption
  · cases accepted

theorem params_new (accepted : refusals stub past = []) (new : blockCount past ≤ b) :
    params b past = [] := by
  induction past with
  | nil => rfl
  | cons c past ih =>
    obtain ⟨before, last⟩ := refusals_cons accepted
    have new : blockCount past ≤ b := Nat.le_trans (blockCount_le c past) new
    have other : c ≠ .param b := by
      rintro rfl
      exact Nat.not_lt_of_le new (known_param last)
    rw [params, ih before new, if_neg other, List.append_nil]

/-- Nothing is written into a block that is not there yet. -/
theorem written_new (accepted : refusals stub past = []) (new : blockCount past ≤ b) :
    written past b = {} := by
  rw [written, params_new accepted new, insts_new new, exits_new new]
  rfl

section Written

variable (past) (b)

theorem written_block : written (.block :: past) b = written past b := by
  simp [written, params, insts, exits, Call.inst?, Call.exit?]

theorem written_enter (k : BlockId) : written (.enter k :: past) b = written past b := by
  simp [written, params, insts, exits, Call.inst?, Call.exit?]

theorem written_param (k : BlockId) : written (.param k :: past) b =
    if k = b then { written past b with params := params b past ++ [varCount past] }
    else written past b := by
  by_cases here : k = b <;> simp [written, params, insts, exits, Call.inst?, Call.exit?, here]

theorem written_define (op : Op String) : written (.define op :: past) b =
    if current past = b then
      { written past b with insts := insts b past ++ [.define (varCount past) op] }
    else written past b := by
  by_cases here : current past = b <;>
    simp [written, params, insts, exits, Call.inst?, Call.exit?, here]

theorem written_perform (effect : Effect) : written (.perform effect :: past) b =
    if current past = b then { written past b with insts := insts b past ++ [.perform effect] }
    else written past b := by
  by_cases here : current past = b <;>
    simp [written, params, insts, exits, Call.inst?, Call.exit?, here]

theorem written_leave (exit : Exit) : written (.leave exit :: past) b =
    if current past = b then { written past b with exit := (exits b past ++ [exit]).head? }
    else written past b := by
  by_cases here : current past = b <;>
    simp [written, params, insts, exits, Call.inst?, Call.exit?, here]

end Written

end Past

section Counts

variable (d : Draft)

theorem extend_length (f : OpenBlock → OpenBlock) :
    (d.extend f).blocks.length = d.blocks.length := by
  unfold extend
  split
  · exact List.length_modify ..
  · rfl

theorem extend_current (f : OpenBlock → OpenBlock) : (d.extend f).current = d.current := by
  unfold extend
  split <;> rfl

theorem extend_stub (f : OpenBlock → OpenBlock) : (d.extend f).stub = d.stub := by
  unfold extend
  split <;> rfl

theorem enter_length (b : BlockId) : (d.enter b).blocks.length = d.blocks.length := by
  unfold enter
  split <;> rfl

theorem enter_stub (b : BlockId) : (d.enter b).stub = d.stub := by
  unfold enter
  split <;> rfl

theorem addBlock_length : d.addBlock.blocks.length = d.blocks.length + 1 := List.length_append

theorem addParam_length (b : BlockId) : (d.addParam b).blocks.length = d.blocks.length := by
  unfold addParam
  dsimp only
  split
  · exact List.length_modify ..
  · rfl

/-- The number that a new block gets is that of a block which is there then. -/
theorem ofPosition_lt (exit : Exit) :
    BlockId.ofPosition d.blocks.length < (d.addBlock.leave exit).blocks.length := by
  rw [leave, extend_length, addBlock_length]
  exact Nat.lt_succ_of_le (Nat.mod_le _ _)

theorem call_length (c : Call) :
    (d.call c).blocks.length = d.blocks.length + if c.opens then 1 else 0 := by
  cases c with
  | block => exact d.addBlock_length
  | param b => exact d.addParam_length b
  | enter b => exact d.enter_length b
  | define op => exact extend_length _ _
  | perform effect => exact extend_length _ _
  | leave exit => exact extend_length _ _
  | guardOverflow target =>
    exact (enter_length _ _).trans ((extend_length _ _).trans d.addBlock_length)

theorem call_stub (c : Call) : (d.call c).stub = d.stub := by
  cases c with
  | block => rfl
  | param b =>
    unfold call addParam
    dsimp only
    split <;> rfl
  | enter b => exact d.enter_stub b
  | define op => exact extend_stub _ _
  | perform effect => exact extend_stub _ _
  | leave exit => exact extend_stub _ _
  | guardOverflow target => exact (enter_stub _ _).trans (extend_stub _ _)

end Counts

section After

open Past

variable (stub : String) (past : Past)

theorem after_stub : (after stub past).stub = stub := by
  induction past with
  | nil => rfl
  | cons c past ih => rw [after, call_stub, ih]

theorem after_length : (after stub past).blocks.length = past.blockCount := by
  induction past with
  | nil => rfl
  | cons c past ih => rw [after, call_length, ih, Past.blockCount]

theorem after_varCount : (after stub past).varCount = past.varCount := by
  induction past with
  | nil => rfl
  | cons c past ih =>
    rw [after, call_varCount, ih, Past.varCount]
    cases c <;> rfl

theorem after_current : (after stub past).current = past.current := by
  induction past with
  | nil => rfl
  | cons c past ih =>
    have length := after_length stub past
    rw [after]
    cases c with
    | block => exact ih
    | param b =>
      refine Eq.trans ?_ ih
      unfold call addParam
      dsimp only
      split <;> rfl
    | enter b =>
      rw [Past.current, ← length, ← ih]
      unfold call enter
      dsimp only
      split <;> rfl
    | define op => exact (extend_current _ _).trans ih
    | perform effect => exact (extend_current _ _).trans ih
    | leave exit => exact (extend_current _ _).trans ih
    | guardOverflow target =>
      have room := (after stub past).ofPosition_lt (.branch .overflowed target
        (BlockId.ofPosition (after stub past).blocks.length))
      rw [Past.current, ← length, call]
      exact congrArg current (if_pos room)

end After

theorem enter_blocks (d : Draft) (b : BlockId) : (d.enter b).blocks = d.blocks := by
  unfold enter
  split <;> rfl

/-- A block without an exit can be written to. -/
theorem extend_blocks {d : Draft} {o : OpenBlock} (found : d.blocks[d.current]? = some o)
    (unfinished : o.exit = none) (f : OpenBlock → OpenBlock) :
    (d.extend f).blocks = d.blocks.modify d.current f := by
  obtain ⟨params, insts, exit⟩ := o
  cases unfinished
  rw [extend, found]

section Holds

open Past

variable {stub : String} {past : Past} {c : Call}

/-- The draft that a history leads to holds what was written. -/
def Holds (stub : String) (past : Past) : Prop :=
  ∀ b, (after stub past).blocks[b]? =
    if b < past.blockCount then some (written past b) else none

/-- A call that changes one block at most. -/
theorem Holds.modified (holds : Holds stub past) {k : BlockId} {f : OpenBlock → OpenBlock}
    (same : (after stub (c :: past)).blocks = (after stub past).blocks.modify k f)
    (count : blockCount (c :: past) = past.blockCount)
    (change : ∀ b, written (c :: past) b = if k = b then f (written past b) else written past b) :
    Holds stub (c :: past) := by
  intro b
  rw [same, List.getElem?_modify, holds b, count, change]
  by_cases there : b < past.blockCount
  · rw [if_pos there, if_pos there]
    by_cases here : k = b
    · simp [here]
    · simp [here]
  · rw [if_neg there, if_neg there]
    rfl

theorem Holds.block (holds : Holds stub past) (accepted : refusals stub past = []) :
    Holds stub (.block :: past) := by
  intro b
  have length := after_length stub past
  rw [written_block, blockCount]
  change ((after stub past).blocks ++ [({} : OpenBlock)])[b]? =
    if b < past.blockCount + 1 then some (written past b) else none
  obtain old | rfl | beyond := Nat.lt_trichotomy b past.blockCount
  · rw [List.getElem?_append_left (length ▸ old), holds, if_pos old,
      if_pos (Nat.lt_succ_of_lt old)]
  · rw [← length, List.getElem?_concat_length, length, if_pos (Nat.lt_succ_self _),
      written_new accepted (Nat.le_refl _)]
  · rw [if_neg (Nat.not_lt_of_le beyond), List.getElem?_eq_none_iff, List.length_append, length]
    exact beyond

theorem Holds.enter (holds : Holds stub past) (b : BlockId) : Holds stub (.enter b :: past) := by
  refine holds.modified (k := 0) (f := id) ?_ rfl fun b => ?_
  · rw [List.modify_id]
    exact enter_blocks _ _
  · rw [written_enter, id, ite_self]

theorem Holds.param (holds : Holds stub past) {b : BlockId} (known : b < past.blockCount) :
    Holds stub (.param b :: past) := by
  have room : b < (after stub past).blocks.length := after_length stub past ▸ known
  apply holds.modified (k := b) (f := fun o => { o with params := o.params ++ [past.varCount] })
  · rw [after, call, addParam, if_pos room, after_varCount]
  · rfl
  · exact fun k => written_param past k b

/-- What is written goes to the end of the current block. -/
theorem Holds.write (holds : Holds stub past) (unfinished : exits past.current past = [])
    {d : Draft} {f : OpenBlock → OpenBlock} (counted : d.blocks = (after stub past).blocks)
    (same : after stub (c :: past) = d.extend f) (current : d.current = past.current)
    (count : blockCount (c :: past) = past.blockCount)
    (change : ∀ b, written (c :: past) b =
      if past.current = b then f (written past b) else written past b) :
    Holds stub (c :: past) := by
  have found : d.blocks[d.current]? = some (written past past.current) := by
    rw [counted, current, holds, if_pos (current_lt past)]
  have none : (written past past.current).exit = none := by
    rw [written, unfinished]
    rfl
  refine holds.modified (k := past.current) ?_ count change
  rw [same, extend_blocks found none, counted, current]

theorem Holds.define (holds : Holds stub past) (unfinished : exits past.current past = [])
    (op : Op String) : Holds stub (.define op :: past) := by
  have counted := after_varCount stub past
  apply holds.write unfinished (d := { after stub past with varCount := past.varCount + 1 })
    (f := fun o => { o with insts := o.insts ++ [.define past.varCount op] })
  · rfl
  · rw [after, call, push, counted]
  · exact after_current stub past
  · rfl
  · exact fun b => written_define past b op

theorem Holds.perform (holds : Holds stub past) (unfinished : exits past.current past = [])
    (effect : Effect) : Holds stub (.perform effect :: past) := by
  apply holds.write unfinished (d := after stub past)
    (f := fun o => { o with insts := o.insts ++ [.perform effect] })
  · rfl
  · rfl
  · exact after_current stub past
  · rfl
  · exact fun b => written_perform past b effect

theorem Holds.leave (holds : Holds stub past) (unfinished : exits past.current past = [])
    (exit : Exit) : Holds stub (.leave exit :: past) := by
  apply holds.write unfinished (d := after stub past) (f := fun o => { o with exit := some exit })
  · rfl
  · rfl
  · exact after_current stub past
  · rfl
  · intro b
    rw [written_leave]
    by_cases here : past.current = b
    · rw [if_pos here, if_pos here, ← here, unfinished]
      rfl
    · rw [if_neg here, if_neg here]

end Holds

section Errors

variable {d : Draft} {e : GraphError}

theorem note_error (noted : d.error = some e) (e' : GraphError) : (d.note e').error = some e := by
  rw [note, noted]
  rfl

theorem enter_error (noted : d.error = some e) (b : BlockId) : (d.enter b).error = some e := by
  unfold enter
  split
  · exact noted
  · exact note_error noted _

variable (clear : d.error = none)

include clear

theorem enter_noted (b : BlockId) : (d.enter b).error =
    if b < d.blocks.length then none else some (.unknownBlock d.stub b) := by
  unfold enter
  split
  · exact clear
  · rw [note, clear]
    rfl

theorem extend_noted {o : OpenBlock} (found : d.blocks[d.current]? = some o)
    (f : OpenBlock → OpenBlock) : (d.extend f).error =
      if o.exit = none then none else some (.terminated d.stub d.current) := by
  obtain ⟨params, insts, exit⟩ := o
  rw [extend, found]
  cases exit with
  | none => exact clear
  | some exit =>
    change (d.note _).error = some _
    rw [note, clear]
    rfl

end Errors

open Past

/-- A call that makes no sense is noted. -/
theorem Holds.noted {stub : String} {past : Past} (holds : Holds stub past)
    (clear : (after stub past).error = none) (c : Call) :
    ((after stub past).call c).error = refusal stub past c := by
  have length := after_length stub past
  have named := after_stub stub past
  have current := after_current stub past
  have found : (after stub past).blocks[(after stub past).current]? =
      some (written past past.current) := by
    rw [current, holds, if_pos (current_lt past)]
  have unfinished : (written past past.current).exit = none ↔ exits past.current past = [] :=
    List.head?_eq_none_iff
  have extended {d : Draft} (clear : d.error = none)
      (found : d.blocks[d.current]? = some (written past past.current)) (named : d.stub = stub)
      (current : d.current = past.current) (f : OpenBlock → OpenBlock) : (d.extend f).error =
        if exits past.current past = [] then none else some (.terminated stub past.current) := by
    rw [extend_noted clear found, named, current]
    simp only [unfinished]
  cases c with
  | block => exact clear
  | param b =>
    rw [call, addParam, length, refusal]
    by_cases known : b < past.blockCount
    · rw [if_pos known, if_pos known]
      exact clear
    · rw [if_neg known, if_neg known, note, named]
      exact congrArg (· <|> some (.unknownBlock stub b)) clear
  | enter b =>
    rw [call, enter_noted clear, length, named]
    rfl
  | define op =>
    exact extended (d := { after stub past with varCount := (after stub past).varCount + 1 })
      clear found named current _
  | perform effect => exact extended clear found named current _
  | leave exit => exact extended clear found named current _
  | guardOverflow target =>
    have inside : (after stub past).current < (after stub past).blocks.length :=
      (List.getElem?_eq_some_iff.mp found).1
    have left := extended (d := (after stub past).addBlock) clear
      ((List.getElem?_append_left inside).trans found) named current
      fun o => { o with exit := some (.branch .overflowed target
        (BlockId.ofPosition (after stub past).blocks.length)) }
    have room := (after stub past).ofPosition_lt (.branch .overflowed target
      (BlockId.ofPosition (after stub past).blocks.length))
    rw [refusal, ← left]
    cases noted : ((after stub past).addBlock.leave (.branch .overflowed target
      (BlockId.ofPosition (after stub past).blocks.length))).error with
    | some e => exact (enter_error noted _).trans noted.symm
    | none =>
      rw [call, enter_noted noted, if_pos room]
      exact noted.symm

end FastPath.Draft
