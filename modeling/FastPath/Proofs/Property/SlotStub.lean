import FastPath.Catalogue.Property
import FastPath.Proofs.Arith
import FastPath.Proofs.Execution.Block

/-! The stubs that access a property in a known slot. On an object without accessors they address
the very word that the slot stands for, in dense and in dictionary storage alike. -/

namespace FastPath

open Catalogue

/-- The blocks of a slot stub, whose registers behind the arguments start at `r`. -/
def slotBlocks (op : PropertyOp) (r : Nat) : List (Block Nat) :=
  [{ params := []
     insts := .define 1 (.stubArg 0) :: .define 2 (.stubArg 1) :: .define 3 (.stubArg 2) ::
      ((if op = .store then [.define 4 (.stubArg 3)] else []) ++
      [.define r (.load 1 8), .define (r + 1) (.literal (.int 1))])
     exit := .branch (.overlap r (r + 1)) 1 2 },
   { params := [], insts := [], exit := .jump 9 [] },
   { params := [], insts := [], exit := .branch (.isInt 3) 3 4 },
   { params := []
     insts := [.define (r + 2) (.literal (.int 2))]
     exit := .branch (.overlap r (r + 2)) 5 6 },
   { params := [], insts := []
     exit := match op with
      | .load => .jump 9 []
      | .store => .trap (.fatal .unreachable)
      | .delete => .ret (some 3) },
   { params := []
     insts := [.define (r + 3) (.literal (.int 3)), .define (r + 4) (.arith .shl 3 (r + 3))]
     exit := .branch .overflowed 7 10 },
   { params := []
     insts := [.define (r + 7) (.literal (.int 3)), .define (r + 8) (.arith .mul 3 (r + 7))]
     exit := .branch .overflowed 7 12 },
   { params := [], insts := []
     exit := if op = .load then .jump 9 [] else .trap (.fatal .unreachable) },
   { params := [0]
     insts := .define (r + 15) (.load 1 16) :: (match op with
      | .load => [.define (r + 16) (.loadAt (r + 15) 0)]
      | .store => [.perform (.storeAt (r + 15) 4 0), .define (r + 16) (.literal .undefined)]
      | .delete => [])
     exit := if op = .delete then .trap (.fatal .unreachable) else .ret (some (r + 16)) },
   { params := []
     insts := [match op with
      | .load => .define (r + 17) (.service .getProperty [1, 2])
      | .store => .define (r + 17) (.service .setProperty [1, 2, 4])
      | .delete => .define (r + 16) (.service .deleteProperty [1, 2])]
     exit := .ret (some (if op = .delete then r + 16 else r + 17)) },
   { params := []
     insts := [.define (r + 5) (.literal (.int 16)), .define (r + 6) (.arith .add (r + 4) (r + 5))]
     exit := .branch .overflowed 7 11 },
   { params := [], insts := [], exit := .jump 8 [r + 6] },
   { params := []
     insts := [.define (r + 9) (.literal (.int 1)), .define (r + 10) (.arith .add (r + 8) (r + 9))]
     exit := .branch .overflowed 7 13 },
   { params := []
     insts := [.define (r + 11) (.literal (.int 3)),
      .define (r + 12) (.arith .shl (r + 10) (r + 11))]
     exit := .branch .overflowed 7 14 },
   { params := []
     insts := [.define (r + 13) (.literal (.int 16)),
      .define (r + 14) (.arith .add (r + 12) (r + 13))]
     exit := .branch .overflowed 7 15 },
   { params := [], insts := [], exit := .jump 8 [r + 14] }]

def firstRegister (op : PropertyOp) : Nat := if op = .store then 5 else 4

def slotRegisters (op : PropertyOp) : Nat := firstRegister op + if op = .delete then 17 else 18

theorem slot_built (op : PropertyOp) : (do
    let g ← propertySlot op op.stubName slotConfig
    return (g.stub, ← g.blocks.mapM (Compiler.compileBlock g.stub none []), g.varCount)) =
      .ok (op.stubName, slotBlocks op (firstRegister op), slotRegisters op) := by
  cases op <;> decide +kernel

structure SlotStub (op : PropertyOp) (s : Stub) : Prop where
  blocks : s.blocks = slotBlocks op (firstRegister op)
  varCount : s.varCount = slotRegisters op

/-- The stub was compiled from the declaration of the catalogue. -/
def PropertyOp.Compiled (op : PropertyOp) (stub : Stub) : Prop :=
  ∃ (g : Graph) (compiler compiler' : Compiler),
    propertySlot op op.stubName slotConfig = .ok g ∧
      compiler.compile g slotConfig [] = .ok (stub, compiler')

theorem PropertyOp.Compiled.slotStub (compiled : op.Compiled stub) : SlotStub op stub := by
  obtain ⟨g, compiler, compiler', built, compiled⟩ := compiled
  obtain ⟨blocks, placed, made⟩ := except_bind_ok.mp compiled
  obtain ⟨g', same, rest⟩ := except_bind_ok.mp (slot_built op)
  obtain rfl : g = g' := Except.ok.inj (built.symm.trans same)
  obtain ⟨blocks', placed', rest⟩ := except_bind_ok.mp rest
  obtain rfl : blocks = blocks' := Except.ok.inj (placed.symm.trans placed')
  have parts := Prod.mk.inj (Prod.mk.inj (Except.ok.inj rest)).2
  cases made
  exact ⟨parts.1, parts.2⟩

/-- What a fresh compiler makes of a slot stub. -/
def PropertyOp.stub (op : PropertyOp) : Stub :=
  { name := op.stubName, origin := 0, entry := 0x1000, blocks := slotBlocks op (firstRegister op),
    varCount := slotRegisters op, deps := [], cache := none }

theorem PropertyOp.stub_compiled (op : PropertyOp) : op.Compiled op.stub := by
  obtain ⟨g, built, rest⟩ := except_bind_ok.mp (slot_built op)
  obtain ⟨blocks, placed, parts⟩ := except_bind_ok.mp rest
  obtain ⟨name, code⟩ := Prod.mk.inj (Except.ok.inj parts)
  obtain ⟨rfl, count⟩ := Prod.mk.inj code
  refine ⟨g, { id := 0 }, { id := 0, compiled := 1 }, built, ?_⟩
  refine except_bind_ok.mpr ⟨_, placed, ?_⟩
  rw [stub, ← name, ← count]
  rfl

/-- The steps in which the offset of a slot is worked out, the last of which is the offset. -/
def offsetSteps (dense : Bool) (n : Int) : List Int :=
  if dense then [8 * n, 16 + 8 * n] else [3 * n, 3 * n + 1, 8 * (3 * n + 1), 16 + 8 * (3 * n + 1)]

/-- The offset of a slot over unbounded integers. -/
def exactOffset (dense : Bool) (n : Int) : Int :=
  if dense then 16 + 8 * n else 16 + 8 * (3 * n + 1)

theorem offsetSteps_length (dense : Bool) (n : Int) : (offsetSteps dense n).length ≤ 4 := by
  cases dense
  all_goals simp [offsetSteps]

/-- No step to the offset of a slot that a slot lookup hands out is too big. -/
theorem offsetSteps_fit (dense : Bool) {i : Nat} (small : i < 0x100000000) :
    ∀ x ∈ offsetSteps dense i, Word.Fits x := by
  cases dense <;> simp only [offsetSteps, Word.Fits, Word.minInt, Word.maxInt, if_true,
    Bool.false_eq_true, if_false, List.forall_mem_cons]
  · refine ⟨by omega, by omega, by omega, by omega, by simp⟩
  · refine ⟨by omega, by omega, by simp⟩

section

variable {op : PropertyOp} {stub : Stub} (host : Host ρ) (calls : Invoke ρ) {f : Frame}
  {t : State ρ} {o k w v x : Word} {args : List Word} {j : Nat} {n : Int}

/-- The arguments of a slot stub: the value is there if the property is written. -/
def SlotArgs (op : PropertyOp) (o k w v : Word) (args : List Word) : Prop :=
  ∃ rest, args = o :: k :: w :: rest ∧ (op = .store → rest.head? = some v)

/-- The registers of a slot stub that hold its arguments. -/
structure SlotFrame (op : PropertyOp) (o k w v : Word) (f : Frame) : Prop where
  length : f.registers.length = slotRegisters op
  obj : f.registers[1]? = some o
  key : f.registers[2]? = some k
  slot : f.registers[3]? = some w
  value : op = .store → f.registers[4]? = some v

theorem SlotFrame.of_eq {f' : Frame} (ready : SlotFrame op o k w v f)
    (length : f'.registers.length = f.registers.length)
    (same : ∀ u : Nat, 1 ≤ u → u < firstRegister op → f'.registers[u]? = f.registers[u]?) :
    SlotFrame op o k w v f' := by
  have first : 4 ≤ firstRegister op := by cases op <;> decide
  refine ⟨length.trans ready.length, ?_, ?_, ?_, fun store => ?_⟩
  · rw [same 1 (by decide) (by omega), ready.obj]
  · rw [same 2 (by decide) (by omega), ready.key]
  · rw [same 3 (by decide) (by omega), ready.slot]
  · subst store
    rw [same 4 (by decide) (by decide), ready.value rfl]

/-- The entry reads the flags of the object and looks for accessors. -/
theorem slot_entry (self : Word) (is : SlotStub op stub) (given : SlotArgs op o k w v args)
    (loaded : t.machine.heap.load o Layout.Object.flags = .ok x) (int : x.int? = some n) :
    ∃ f, stub.body.Leads host calls 1 0 (stub.body.frame self args) t
        (if Bits.overlap n Layout.Object.access then 1 else 2) f t ∧
      SlotFrame op o k w v f ∧ f.registers[firstRegister op]? = some x := by
  obtain ⟨rest, rfl, last⟩ := given
  have found : stub.body.blocks[0]? = (slotBlocks op (firstRegister op))[0]? :=
    congrArg (fun blocks => blocks[0]?) is.blocks
  have start : stub.body.frame self (o :: k :: w :: rest) =
      ⟨.replicate (slotRegisters op) .undefined, self, o :: k :: w :: rest, false⟩ :=
    congrArg (fun n => Frame.mk (.replicate n .undefined) self (o :: k :: w :: rest) false)
      is.varCount
  rw [start]
  cases op with
  | store =>
    obtain ⟨v', rest, rfl⟩ : ∃ v' rest', rest = v' :: rest' := by
      cases rest with
      | nil => cases last rfl
      | cons v' rest' => exact ⟨v', rest', rfl⟩
    obtain rfl : v' = v := Option.some.inj (last rfl)
    exact ⟨_, Body.leads_of_goto found
      (Body.insts_define (Body.eval_stubArg rfl) (by simp [slotRegisters, firstRegister])
      (Body.insts_define (Body.eval_stubArg rfl) (by simp [slotRegisters, firstRegister])
      (Body.insts_define (Body.eval_stubArg rfl) (by simp [slotRegisters, firstRegister])
      (Body.insts_define (Body.eval_stubArg rfl) (by simp [slotRegisters, firstRegister])
      (Body.insts_define (Body.eval_load rfl loaded) (by simp [slotRegisters, firstRegister])
      (Body.insts_define (Body.eval_int (by decide)) (by simp [slotRegisters, firstRegister])
      (Body.insts_nil _ _)))))))
      (Body.leave_branch (Frame.test_overlap rfl int rfl (Word.int?_int (by decide)) t)),
      ⟨rfl, rfl, rfl, rfl, fun _ => rfl⟩, rfl⟩
  | load | delete =>
    exact ⟨_, Body.leads_of_goto found
      (Body.insts_define (Body.eval_stubArg rfl) (by simp [slotRegisters, firstRegister])
      (Body.insts_define (Body.eval_stubArg rfl) (by simp [slotRegisters, firstRegister])
      (Body.insts_define (Body.eval_stubArg rfl) (by simp [slotRegisters, firstRegister])
      (Body.insts_define (Body.eval_load rfl loaded) (by simp [slotRegisters, firstRegister])
      (Body.insts_define (Body.eval_int (by decide)) (by simp [slotRegisters, firstRegister])
      (Body.insts_nil _ _))))))
      (Body.leave_branch (Frame.test_overlap rfl int rfl (Word.int?_int (by decide)) t)),
      ⟨rfl, rfl, rfl, rfl, nofun⟩, rfl⟩

theorem shl_shift (n : Int) : Arith.shl.result? n 3 = some (8 * n) := by
  have power : Int.pow 2 (Int.toNat 3) = 8 := by decide
  simp only [Arith.result?, power, Int.mul_comm n 8]
  rfl

theorem SlotStub.found (is : SlotStub op stub) (b : BlockId) :
    stub.body.blocks[b]? = (slotBlocks op (firstRegister op))[b]? :=
  congrArg (fun blocks => blocks[b]?) is.blocks

theorem slot_registers (op : PropertyOp) :
    firstRegister op + 16 < slotRegisters op ∧ 4 ≤ firstRegister op := by
  cases op <;> decide

variable (is : SlotStub op stub) (ready : SlotFrame op o k w v f)

include is ready

/-- A slot that is a small integer is looked for where the flags say. -/
theorem slot_found (slot : w.int? = some l) (held : f.registers[firstRegister op]? = some x)
    (int : x.int? = some n) :
    ∃ f', stub.body.Leads host calls 2 2 f t
        (if Bits.overlap n Layout.Object.dense then 5 else 6) f' t ∧ SlotFrame op o k w v f' := by
  have count := slot_registers op
  have isInt : w.isInt = true := by
    by_contra pointer
    rw [Word.int?, if_neg pointer] at slot
    cases slot
  have first : stub.body.Leads host calls 1 2 f t 3 f t := by
    have branch : stub.body.leave f (.branch (.isInt 3) 3 4) t =
        .ok (.goto (if w.isInt then 3 else 4) f) t :=
      Body.leave_branch (Frame.test_isInt ready.slot t)
    rw [isInt] at branch
    exact Body.leads_of_goto (is.found 2) (Body.insts_nil host calls) branch
  have room : firstRegister op + 2 < f.registers.length := by
    rw [ready.length]
    omega
  have mask : Word.Fits Layout.Object.dense := by decide
  have insts := Body.insts_define (b := stub.body) (s := t)
    (Body.eval_int mask) room (Body.insts_nil host calls)
  have flags : (f.after (firstRegister op + 2) (.int Layout.Object.dense)
      f.overflowed).registers[firstRegister op]? = some x := by
    rw [Frame.after_other (by omega), held]
  have branch := Frame.test_overlap flags int (Frame.after_same room) (Word.int?_int mask) t
  refine ⟨_, first.trans (Body.leads_of_goto (is.found 3) insts (Body.leave_branch branch)),
    ready.of_eq Frame.after_length fun u _ few => Frame.after_other (by omega)⟩

/-- The last jump of a path that works out an offset hands it over in register zero. -/
theorem slot_place {b : BlockId} {v₀ : Nat} (here : stub.body.blocks[b]? =
      some { params := [], insts := [], exit := .jump 8 [v₀] })
    (place : f.registers[v₀]? = some x) :
    ∃ f', stub.body.Leads host calls 1 b f t 8 f' t ∧ SlotFrame op o k w v f' ∧
      f'.registers[0]? = some x := by
  have count := slot_registers op
  have room : 0 < f.registers.length := by
    rw [ready.length]
    omega
  have jump := Body.leave_jump_one (b := stub.body) (s := t) (is.found 8) rfl place room
  exact ⟨_, Body.leads_of_goto here (Body.insts_nil host calls) jump, ready.of_eq Frame.after_length
    fun u some _ => Frame.after_other (by omega), Frame.after_same room⟩

/-- From the block on the stub works out the offset `e` and comes to the access in place, or, if one
of the steps on the way is too big, to the block for slots beyond all offsets. -/
def Places (stub : Stub) (op : PropertyOp) (o k w v : Word) (t : State ρ) (steps : List Int)
    (e : Int) (b : BlockId) (f : Frame) : Prop :=
  ∃ n f', n ≤ steps.length + 1 ∧ SlotFrame op o k w v f' ∧
    ((∀ x ∈ steps, Word.Fits x) →
      stub.body.Leads host calls n b f t 8 f' t ∧ f'.registers[0]? = some (.int e)) ∧
    ((¬ ∀ x ∈ steps, Word.Fits x) → stub.body.Leads host calls n b f t 7 f' t)

theorem places_done {b : BlockId} {v₀ : Nat} (here : stub.body.blocks[b]? =
      some { params := [], insts := [], exit := .jump 8 [v₀] })
    (place : f.registers[v₀]? = some (.int e)) : Places host calls stub op o k w v t [] e b f := by
  obtain ⟨f', path, ready', held⟩ := slot_place host calls is ready here place
  refine ⟨1, f', Nat.le_refl 1, ready', fun _ => ⟨path, held⟩, fun big => absurd ?_ big⟩
  simp

omit is in
/-- One step, behind which the rest of the way matters only if the step fits. -/
theorem places_step {b : BlockId} {arith : Arith} {v₀ a c : Nat} {l r n e : Int} {steps : List Int}
    (here : stub.body.blocks[b]? = some
      { params := [], insts := [.define a (.literal (.int r)), .define c (.arith arith v₀ a)],
        exit := .branch .overflowed 7 next })
    (held : f.registers[v₀]? = some x) (int : x.int? = some l) (fits : Word.Fits r)
    (result : arith.result? l r = some n) (registers : firstRegister op ≤ a ∧ a < slotRegisters op)
    (registers' : firstRegister op ≤ c ∧ c < slotRegisters op) (apart : v₀ ≠ a)
    (rest : Word.Fits n → ∀ f', SlotFrame op o k w v f' → f'.registers[c]? = some (.int n) →
      Places host calls stub op o k w v t steps e next f') :
    Places host calls stub op o k w v t (n :: steps) e b f := by
  have length := ready.length
  by_cases small : Word.Fits n
  · obtain ⟨f₁, path, length₁, value, same⟩ := Body.leads_of_guarded host calls (s := t) here held
      int fits (Arith.checked_of_fits result small) (by omega) (by omega) apart
    obtain ⟨m, f', few, ready', fit, big⟩ := rest small f₁
      (ready.of_eq length₁ fun u _ before => same u (by omega) (by omega)) value
    refine ⟨m + 1, f', by simpa using few, ready', fun all => ?_, fun some_ => ?_⟩
    · obtain ⟨path', place⟩ := fit fun x member => all x (List.mem_cons_of_mem n member)
      exact ⟨Nat.add_comm 1 m ▸ path.trans path', place⟩
    · refine Nat.add_comm 1 m ▸ path.trans (big fun all => some_ ?_)
      exact List.forall_mem_cons.mpr ⟨small, all⟩
  · have checked := Arith.checked_of_large (Word.int?_fits int) fits result small
    obtain ⟨f₁, path, length₁, _, same⟩ := Body.leads_of_guarded host calls (s := t) here held
      int fits checked (by omega) (by omega) apart
    refine ⟨1, f₁, by simp, ready.of_eq length₁ fun u _ before => same u (by omega) (by omega),
      fun all => absurd (all n List.mem_cons_self) small, fun _ => path⟩

/-- Every small integer is a slot, whose offset is worked out for the kind of storage. -/
theorem slot_places (slot : w.int? = some l) (dense : Bool) :
    Places host calls stub op o k w v t (offsetSteps dense l) (exactOffset dense l)
      (if dense then 5 else 6) f := by
  have count := slot_registers op
  have add (m r n : Int) (same : m + r = n) : Arith.add.result? m r = some n := congrArg some same
  cases dense with
  | true =>
    refine places_step host calls ready (is.found 5) ready.slot slot (by decide) (shl_shift l)
      (by omega) (by omega) (by omega) fun fits₁ f₁ ready₁ bytes => ?_
    refine places_step host calls ready₁ (is.found 10) bytes (Word.int?_int fits₁) (by decide)
      (add _ _ _ (Int.add_comm _ _)) (by omega) (by omega) (by omega) fun _ f₂ ready₂ place => ?_
    exact places_done host calls is ready₂ (is.found 11) place
  | false =>
    refine places_step host calls ready (is.found 6) ready.slot slot (by decide)
      (congrArg some (Int.mul_comm l 3)) (by omega) (by omega) (by omega)
      fun fits₁ f₁ ready₁ words => ?_
    refine places_step host calls ready₁ (is.found 12) words (Word.int?_int fits₁) (by decide)
      (add _ _ _ rfl) (by omega) (by omega) (by omega) fun fits₂ f₂ ready₂ index => ?_
    refine places_step host calls ready₂ (is.found 13) index (Word.int?_int fits₂) (by decide)
      (shl_shift _) (by omega) (by omega) (by omega) fun fits₃ f₃ ready₃ bytes => ?_
    refine places_step host calls ready₃ (is.found 14) bytes (Word.int?_int fits₃) (by decide)
      (add _ _ _ (Int.add_comm _ _)) (by omega) (by omega) (by omega) fun _ f₄ ready₄ place => ?_
    exact places_done host calls is ready₄ (is.found 15) place

end

section

variable {stub : Stub} {host : Host ρ} {calls : Invoke ρ} {f : Frame} {s : State ρ}
  {o k w v st : Word} {off : Int} {fuel : Nat}
  (storage : s.machine.heap.load o Layout.Object.storage = .ok st)

include storage

/-- No property is deleted in place. -/
theorem delete_in_place (is : SlotStub .delete stub) (ready : SlotFrame .delete o k w v f) :
    stub.body.runFrom host calls (fuel + 1) 8 f s = .error (.trap (.fatal .unreachable)) s := by
  have room := ready.length
  exact Body.runFrom_traps (is.found 8) (Body.insts_define (Body.eval_load ready.obj storage)
    (by rw [room]; decide) (Body.insts_nil _ _)) rfl fuel

variable (place : f.registers[0]? = some (.int off)) (fits : Word.Fits off)

include place fits

/-- A load in place reads as many bytes into the storage as the offset says, if it can. -/
theorem load_in_place (is : SlotStub .load stub) (ready : SlotFrame .load o k w v f) :
    (∀ d : Nat, off = d → stub.body.runFrom host calls (fuel + 1) 8 f s =
      Exec.query (fun h => h.load st d) s) ∧
    (off < 0 → stub.body.runFrom host calls (fuel + 1) 8 f s =
      .error (.trap (.fatal (.heapAccess (.outOfBounds 0)))) s) := by
  have room := ready.length
  have loaded : stub.body.insts host calls _ f s =
      stub.body.insts host calls [.define 20 (.loadAt 19 0)] (f.after 19 st f.overflowed) s :=
    Body.insts_after (Body.eval_load ready.obj storage) (by rw [room]; decide)
  have base := Frame.after_same (f := f) (v := 19) (w := st) (o := f.overflowed)
    (by rw [room]; decide)
  have offset := (Frame.after_other (f := f) (u := 0) (v := 19) (w := st) (o := f.overflowed)
    (by decide)).trans place
  have number := Word.int?_int fits
  constructor
  · rintro d rfl
    cases value : s.machine.heap.load st d with
    | ok x =>
      rw [Exec.query_ok value]
      refine Body.runFrom_done (is.found 8) (loaded.trans (Body.insts_define
        (Body.eval_loadAt base offset number value) (by rw [Frame.after_length, room]; decide)
        (Body.insts_nil _ _))) (Body.leave_ret ?_)
      exact Frame.after_same (by rw [Frame.after_length, room]; decide)
    | error e =>
      rw [Exec.query_error value]
      exact Body.runFrom_fails (is.found 8) (loaded.trans (Body.insts_fail
        (Body.eval_loadAt_error base offset number value))) fuel
  · intro negative
    exact Body.runFrom_fails (is.found 8) (loaded.trans (Body.insts_fail
      (Body.eval_loadAt_negative offset number negative))) fuel

/-- A store in place writes as many bytes into the storage as the offset says, if it can. -/
theorem store_in_place (is : SlotStub .store stub) (ready : SlotFrame .store o k w v f) :
    (∀ d : Nat, off = d → stub.body.runFrom host calls (fuel + 1) 8 f s =
      (do Exec.onHeap (Heap.store st d v); return .undefined : Exec ρ Word) s) ∧
    (off < 0 → stub.body.runFrom host calls (fuel + 1) 8 f s =
      .error (.trap (.fatal (.heapAccess (.outOfBounds 0)))) s) := by
  have room := ready.length
  have loaded : stub.body.insts host calls _ f s =
      stub.body.insts host calls [.perform (.storeAt 20 4 0), .define 21 (.literal .undefined)]
        (f.after 20 st f.overflowed) s :=
    Body.insts_after (Body.eval_load ready.obj storage) (by rw [room]; decide)
  have base := Frame.after_same (f := f) (v := 20) (w := st) (o := f.overflowed)
    (by rw [room]; decide)
  have kept (u : Nat) (other : u ≠ 20) := Frame.after_other (f := f) (v := 20) (w := st)
    (o := f.overflowed) other
  have offset := (kept 0 (by decide)).trans place
  have value := (kept 4 (by decide)).trans (ready.value rfl)
  have number := Word.int?_int fits
  constructor
  · rintro d rfl
    cases done : Heap.store st d v s.machine.heap with
    | ok u h =>
      rw [estate_bind_of_ok (Exec.onHeap_ok done)]
      refine Body.runFrom_done (is.found 8) (loaded.trans (Body.insts_perform
        (Body.perform_storeAt base offset number value done)
        (Body.insts_define Body.eval_undefined (by rw [Frame.after_length, room]; decide)
          (Body.insts_nil _ _)))) (Body.leave_ret ?_)
      exact Frame.after_same (by rw [Frame.after_length, room]; decide)
    | error e h =>
      rw [estate_bind_of_error (Exec.onHeap_error done)]
      exact Body.runFrom_fails (is.found 8) (loaded.trans (Body.insts_perform_fail
        (Body.perform_storeAt_error base offset number value done))) fuel
  · intro negative
    exact Body.runFrom_fails (is.found 8) (loaded.trans (Body.insts_perform_fail
      (Body.perform_storeAt_negative offset number negative))) fuel

end

section

open Heap

variable {op : PropertyOp} {stub : Stub} (host : Host ρ) (calls : Invoke ρ) (self : Word)
  {t : State ρ}
  {h : Heap} {o k w v x : Word} {args : List Word} {sl : Slot} {t' : State ρ} {fuel : Nat}

/-- A slot of the kind that the storage of the object has. -/
def Slot.Suits (sl : Slot) (h : Heap) (o : Word) : Prop :=
  h.flagged o Layout.Object.dense = match sl with
    | .dense _ => true
    | .item _ => false

theorem own_suits (found : h.own o k = some sl) : sl.Suits h o := by
  unfold own at found
  unfold Slot.Suits
  split at found
  next dense =>
    split at found
    · split at found
      · cases found
        exact dense
      · cases found
    · cases found
  next keyed =>
    obtain ⟨i, _, rfl⟩ := Option.map_eq_some_iff.mp found
    simpa using keyed

theorem Slot.Suits.offset (suits : sl.Suits h o) :
    exactOffset (h.flagged o Layout.Object.dense) sl.index = slotOffset sl.position := by
  rw [suits, slotOffset_eq]
  cases sl <;> simp only [exactOffset, Slot.index, Slot.position, Layout.Item.words,
    Layout.Item.value, if_true, Bool.false_eq_true, if_false]
  all_goals omega

/-- On an object without accessors a small integer leads the stub to the word it stands for, or to
the block for slots beyond all offsets. -/
theorem slot_way (is : SlotStub op stub) (given : SlotArgs op o k w v args)
    (loaded : t.machine.heap.load o Layout.Object.flags = .ok x) (int : x.int? = some n)
    (data : Bits.overlap n Layout.Object.access = false) (slot : w.int? = some l) :
    ∃ m f, m ≤ 8 ∧ SlotFrame op o k w v f ∧
      ((∀ x ∈ offsetSteps (Bits.overlap n Layout.Object.dense) l, Word.Fits x) →
        stub.body.Leads host calls m 0 (stub.body.frame self args) t 8 f t ∧
          f.registers[0]? = some (.int (exactOffset (Bits.overlap n Layout.Object.dense) l))) ∧
      ((¬ ∀ x ∈ offsetSteps (Bits.overlap n Layout.Object.dense) l, Word.Fits x) →
        stub.body.Leads host calls m 0 (stub.body.frame self args) t 7 f t) := by
  obtain ⟨f₁, entry, ready₁, held⟩ := slot_entry host calls self is given loaded int
  rw [data] at entry
  obtain ⟨f₂, found, ready₂⟩ := slot_found host calls (t := t) is ready₁ slot held int
  obtain ⟨m, f₃, few, ready₃, fit, big⟩ := slot_places host calls (t := t) is ready₂ slot
    (Bits.overlap n Layout.Object.dense)
  have steps := offsetSteps_length (Bits.overlap n Layout.Object.dense) l
  refine ⟨_, f₃, ?_, ready₃, fun all => ?_, fun some_ => entry.trans (found.trans (big some_))⟩
  · omega
  · obtain ⟨place, offset⟩ := fit all
    exact ⟨entry.trans (found.trans place), offset⟩

variable (is : SlotStub op stub) (given : SlotArgs op o k w v args) (heap : t.machine.heap = h)
  (sound : h.Sound) (backed : h.Backed o)

include is given heap sound backed

/-- On an object without accessors the stub arrives at the word that the slot stands for. -/
theorem slot_path (data : h.flagged o Layout.Object.access = false) (suits : sl.Suits h o)
    (slot : w.int? = some (sl.index : Int)) (small : sl.index < 0x100000000) :
    ∃ n f', n ≤ 8 ∧ stub.body.Leads host calls n 0 (stub.body.frame self args) t 8 f' t ∧
      SlotFrame op o k w v f' ∧ f'.registers[0]? = some (.int (slotOffset sl.position)) := by
  obtain ⟨n, flags⟩ := backed.flags
  have loaded := backed.object.load (d := Layout.Object.flags) sound rfl (by decide)
  have overlap : ∀ mask, h.flagged o mask = Bits.overlap n mask := by
    intro mask
    rw [flagged, flags]
    rfl
  subst heap
  rw [overlap] at data
  obtain ⟨m, f, few, ready, fit, _⟩ := slot_way host calls self is given loaded flags data slot
  obtain ⟨path, offset⟩ := fit (offsetSteps_fit _ small)
  rw [← overlap, suits.offset] at offset
  exact ⟨m, f, few, path, ready, offset⟩

/-- The stub ends as its last block does there. -/
theorem slot_stub_run (data : h.flagged o Layout.Object.access = false) (suits : sl.Suits h o)
    (slot : w.int? = some (sl.index : Int)) (small : sl.index < 0x100000000) (enough : 9 ≤ fuel)
    (last : ∀ n f, SlotFrame op o k w v f → f.registers[0]? = some (.int (slotOffset sl.position)) →
      stub.body.runFrom host calls (n + 1) 8 f t = .ok x t') :
    stub.body.run host calls fuel self args t = .ok x t' := by
  obtain ⟨n, f, few, path, ready, offset⟩ := slot_path host calls self
    is given heap sound backed data suits slot small
  obtain ⟨extra, rfl⟩ : ∃ extra, fuel = extra + 1 + n := ⟨fuel - 1 - n, by omega⟩
  rw [Body.run, path]
  exact last extra f ready offset

end

section

open Heap

variable {stub : Stub} {host : Host ρ} {t : State ρ} {o k w v self : Word} {args : List Word}
  {sl : Slot} {fuel : Nat} (sound : t.machine.heap.Sound) (backed : t.machine.heap.Backed o)
  (data : t.machine.heap.flagged o Layout.Object.access = false)
  (suits : sl.Suits t.machine.heap o) (inside : sl.position < t.machine.heap.slots o)
  (slot : w.int? = some (sl.index : Int)) (small : sl.index < 0x100000000)
  (depth : t.machine.depth < t.machine.maxDepth) (enough : 9 ≤ fuel)

theorem slot_offset_fits (small : sl.index < 0x100000000) : Word.Fits (slotOffset sl.position) := by
  rw [slotOffset_eq]
  cases sl <;>
    simp only [Slot.index, Slot.position, Layout.Item.words, Layout.Item.value] at small ⊢
  all_goals constructor <;> simp only [Word.minInt, Word.maxInt] <;> omega

include sound backed data suits inside slot small depth enough

/-- A load reads the word in the slot, asks the host for nothing and changes nothing. -/
theorem loadSlot_ok (is : SlotStub .load stub) (given : SlotArgs .load o k w v args) :
    FastPath.invoke host (fuel + 1) stub self args t =
      .ok (t.machine.heap.slotWord o sl.position) t := by
  refine Exec.nested_ok (s := t) (t := t.deeper) depth ?_
  refine slot_stub_run host _ self is given rfl sound backed data suits slot small enough
    fun n f ready place => ?_
  have storage : t.deeper.machine.heap.load o Layout.Object.storage = .ok _ :=
    backed.load_storage sound
  have loaded : t.deeper.machine.heap.load _ (slotOffset sl.position) = .ok _ :=
    backed.load_slot sound inside
  rw [(load_in_place storage place (slot_offset_fits small) is ready).1 _ rfl]
  exact Exec.query_ok loaded

/-- A store overwrites the word in the slot and does nothing else. -/
theorem storeSlot_ok (is : SlotStub .store stub) (given : SlotArgs .store o k w v args) :
    FastPath.invoke host (fuel + 1) stub self args t =
      .ok .undefined
        (t.withHeap (t.machine.heap.put (t.machine.heap.slotAddress o sl.position) v)) := by
  refine Exec.nested_ok (s := t) (t := t.deeper.withHeap _) depth ?_
  refine slot_stub_run host _ self is given rfl sound backed data suits slot small enough
    fun n f ready place => ?_
  have storage : t.deeper.machine.heap.load o Layout.Object.storage = .ok _ :=
    backed.load_storage sound
  have written : Heap.store _ (slotOffset sl.position) v t.deeper.machine.heap = .ok () _ :=
    backed.store_slot sound inside
  rw [(store_in_place storage place (slot_offset_fits small) is ready).1 _ rfl,
    estate_bind_of_ok (Exec.onHeap_ok written)]
  rfl

end

end FastPath
