import FastPath.Execution
import FastPath.Proofs.Outcome
import FastPath.Proofs.Property.Operations

/-! Execution of a body block by block: what one instruction makes of a frame, and how the ends of
blocks chain into a path. -/

namespace FastPath

/-- The state of a call that was just entered. -/
def State.deeper (s : State ρ) : State ρ :=
  { s with machine := { s.machine with depth := s.machine.depth + 1 } }

def State.shallower (s : State ρ) : State ρ :=
  { s with machine := { s.machine with depth := s.machine.depth - 1 } }

@[simp] theorem State.deeper_heap (s : State ρ) : s.deeper.machine.heap = s.machine.heap := rfl

@[simp] theorem State.shallower_deeper (s : State ρ) (h : Heap) :
    (s.deeper.withHeap h).shallower = s.withHeap h := rfl

theorem Exec.nested_eq (act : Exec ρ α) (s : State ρ) : Exec.nested act s =
    if s.machine.depth < s.machine.maxDepth then
      match act s.deeper with
      | .ok a t => .ok a t.shallower
      | .error e t => .error e t.shallower
    else .error (.trap (.fatal .callDepth)) s := rfl

theorem Exec.nested_ok {act : Exec ρ α} {s t : State ρ} {a : α}
    (depth : s.machine.depth < s.machine.maxDepth) (done : act s.deeper = .ok a t) :
    Exec.nested act s = .ok a t.shallower := by
  rw [nested_eq, if_pos depth, done]

theorem Exec.nested_error {act : Exec ρ α} {s t : State ρ} {e : Halt}
    (depth : s.machine.depth < s.machine.maxDepth) (failed : act s.deeper = .error e t) :
    Exec.nested act s = .error e t.shallower := by
  rw [nested_eq, if_pos depth, failed]

theorem Yields.nested {act : Exec ρ α} {s : State ρ} {Q : α → State ρ → Prop}
    {E : Halt → State ρ → Prop}
    (inside : Yields act s.deeper (fun a t => Q a t.shallower) fun e t => E e t.shallower)
    (deep : ¬ s.machine.depth < s.machine.maxDepth → E (.trap (.fatal .callDepth)) s) :
    Yields (Exec.nested act) s Q E := by
  rw [Yields, Exec.nested_eq]
  by_cases room : s.machine.depth < s.machine.maxDepth
  · rw [if_pos room]
    unfold Yields at inside
    cases done : act s.deeper with
    | ok a t =>
      rw [done] at inside
      exact inside
    | error e t =>
      rw [done] at inside
      exact inside
  · rw [if_neg room]
    exact deep room

theorem Yields.onHeap {act : HeapM α} {s : State ρ} {Q : α → State ρ → Prop}
    {E : Halt → State ρ → Prop}
    (done : Yields act s.machine.heap (fun a h => Q a (s.withHeap h))
      fun e h => E (.trap (.ofHeapError e)) (s.withHeap h)) :
    Yields (Exec.onHeap act) s Q E := by
  cases ran : act s.machine.heap with
  | ok a h => exact .of_ok (Exec.onHeap_ok ran) (done.ok ran)
  | error e h => exact .of_error (Exec.onHeap_error ran) (done.error ran)

theorem Yields.onMachine {act : EStateM HeapError Machine α} {s : State ρ}
    {Q : α → State ρ → Prop} {E : Halt → State ρ → Prop}
    (done : Yields act s.machine (fun a m => Q a { s with machine := m })
      fun e m => E (.trap (.ofHeapError e)) { s with machine := m }) :
    Yields (Exec.onMachine act) s Q E := by
  obtain ⟨m, host⟩ := s
  cases ran : act m with
  | ok a m' =>
    refine .of_ok (a := a) (t := ⟨m', host⟩) ?_ (done.ok ran)
    simp only [Exec.onMachine, ran]
  | error e m' =>
    refine .of_error (e := .trap (.ofHeapError e)) (t := ⟨m', host⟩) ?_ (done.error ran)
    simp only [Exec.onMachine, ran]

theorem invoke_succ (host : Host ρ) (fuel : Nat) (stub : Stub) (self : Word) (args : List Word) :
    invoke host (fuel + 1) stub self args =
      Exec.nested (stub.body.run host (invoke host fuel) fuel self args) := rfl

/-- The frame after an instruction that defines `v`. -/
def Frame.after (f : Frame) (v : Var) (w : Word) (overflowed : Bool) : Frame :=
  { f with registers := f.registers.set v w, overflowed }

namespace Frame

variable {f : Frame} {u v : Nat} {w x : Word} {o : Bool} {s : State ρ}

@[simp] theorem after_length : (f.after v w o).registers.length = f.registers.length :=
  List.length_set

theorem after_same (room : v < f.registers.length) : (f.after v w o).registers[v]? = some w :=
  List.getElem?_set_self room

theorem after_other (apart : u ≠ v) : (f.after v w o).registers[u]? = f.registers[u]? :=
  List.getElem?_set_ne (Ne.symm apart)

theorem get_ok (held : f.registers[v]? = some w) (s : State ρ) : f.get v s = .ok w s := by
  rw [get, held]
  rfl

theorem int_ok (held : f.registers[v]? = some w) (int : w.int? = some n) (s : State ρ) :
    f.int v s = .ok n s := by
  rw [Frame.int, estate_bind_of_ok (get_ok held s), int]
  rfl

theorem count_ok (held : f.registers[v]? = some w) (int : w.int? = some (n : Nat))
    (s : State ρ) : f.count v s = .ok n s := by
  rw [Frame.count, estate_bind_of_ok (int_ok held int s)]
  rfl

/-- A negative number of bytes is no offset. -/
theorem count_negative (held : f.registers[v]? = some w) (int : w.int? = some n) (negative : n < 0)
    (s : State ρ) : f.count v s = .error (.trap (.fatal (.heapAccess (.outOfBounds 0)))) s := by
  obtain ⟨m, rfl⟩ := Int.eq_negSucc_of_lt_zero negative
  rw [Frame.count, estate_bind_of_ok (int_ok held int s)]
  rfl

theorem set_ok (room : v < f.registers.length) (s : State ρ) :
    f.set v w s = .ok { f with registers := f.registers.set v w } s := by
  rw [Frame.set, if_pos room]
  rfl

theorem test_overlap (left : f.registers[u]? = some w) (int : w.int? = some l)
    (right : f.registers[v]? = some x) (int' : x.int? = some r) (s : State ρ) :
    f.test (.overlap u v) s = .ok (Bits.overlap l r) s := by
  rw [test, estate_bind_of_ok (int_ok left int s), estate_bind_of_ok (int_ok right int' s)]
  rfl

theorem test_isInt (held : f.registers[v]? = some w) (s : State ρ) :
    f.test (.isInt v) s = .ok w.isInt s := by
  rw [test, estate_bind_of_ok (get_ok held s)]
  rfl

theorem test_compareWords (left : f.registers[u]? = some w) (right : f.registers[v]? = some x)
    (c : Compare) (s : State ρ) :
    f.test (.compareWords c u v) s = .ok (c.holds w.toNat x.toNat) s := by
  rw [test, estate_bind_of_ok (get_ok left s), estate_bind_of_ok (get_ok right s)]
  rfl

theorem test_compareInts (left : f.registers[u]? = some w) (int : w.int? = some l)
    (right : f.registers[v]? = some x) (int' : x.int? = some r) (c : Compare) (s : State ρ) :
    f.test (.compareInts c u v) s = .ok (c.holds l r) s := by
  rw [test, estate_bind_of_ok (int_ok left int s), estate_bind_of_ok (int_ok right int' s)]
  rfl

theorem getAll_ok {vs : List Var} {ws : List Word}
    (held : List.Forall₂ (fun v w => f.registers[v]? = some w) vs ws) (s : State ρ) :
    f.getAll vs s = .ok ws s := by
  induction held with
  | nil => rfl
  | cons first _ ih =>
    rw [getAll, List.mapM_cons, estate_bind_of_ok (get_ok first s)]
    exact estate_bind_of_ok ih

end Frame

namespace Body

variable {b : Body σ} {host : Host ρ} {invoke : Invoke ρ} {f f' f'' : Frame} {s t u : State ρ}
  {id id' id'' : BlockId} {v v' base : Nat} {w x y : Word} {o : Bool} {op : Op σ}
  {rest : List (Inst σ)}

section

variable (b host invoke)

/-- The run of a block's instructions. -/
def insts (is : List (Inst σ)) (f : Frame) : Exec ρ Frame := is.foldlM (b.step host invoke) f

/-- After `n` blocks the run is where a run from the other block would start. -/
def Leads (n : Nat) (id : BlockId) (f : Frame) (s : State ρ) (id' : BlockId) (f' : Frame)
    (s' : State ρ) : Prop :=
  ∀ fuel, b.runFrom host invoke (fuel + n) id f s = b.runFrom host invoke fuel id' f' s'

end

theorem block_ok {block : Block σ} (found : b.blocks[id]? = some block) (s : State ρ) :
    b.block id s = .ok block s := by
  rw [Body.block, found]
  rfl

theorem Leads.trans (first : b.Leads host invoke m id f s id' f' t)
    (second : b.Leads host invoke n id' f' t id'' f'' u) :
    b.Leads host invoke (n + m) id f s id'' f'' u := by
  intro fuel
  rw [← Nat.add_assoc, first, second]

theorem insts_nil (host : Host ρ) (invoke : Invoke ρ) : b.insts host invoke [] f s = .ok f s := rfl

theorem insts_after (value : b.eval host invoke f op s = .ok (w, o) t)
    (room : v < f.registers.length) : b.insts host invoke (.define v op :: rest) f s =
      b.insts host invoke rest (f.after v w o) t := by
  have step : b.step host invoke f (.define v op) s = .ok (f.after v w o) t := by
    rw [Body.step, estate_bind_of_ok value]
    exact Frame.set_ok (f := { f with overflowed := o }) room t
  rw [insts, List.foldlM_cons, estate_bind_of_ok step]
  rfl

theorem insts_define (value : b.eval host invoke f op s = .ok (w, o) t)
    (room : v < f.registers.length)
    (next : b.insts host invoke rest (f.after v w o) t = .ok f' u) :
    b.insts host invoke (.define v op :: rest) f s = .ok f' u :=
  (insts_after value room).trans next

theorem insts_fail {e : Halt} (failed : b.eval host invoke f op s = .error e t) :
    b.insts host invoke (.define v op :: rest) f s = .error e t := by
  have step : b.step host invoke f (.define v op) s = .error e t := estate_bind_of_error failed
  rw [insts, List.foldlM_cons]
  exact estate_bind_of_error step

theorem insts_perform {effect : Effect} (done : effect.perform f s = .ok () t)
    (next : b.insts host invoke rest f t = .ok f' u) :
    b.insts host invoke (.perform effect :: rest) f s = .ok f' u := by
  have step : b.step host invoke f (.perform effect) s = .ok f t := estate_bind_of_ok done
  rw [insts, List.foldlM_cons, estate_bind_of_ok step]
  exact next

theorem insts_perform_fail {effect : Effect} {e : Halt} (failed : effect.perform f s = .error e t) :
    b.insts host invoke (.perform effect :: rest) f s = .error e t := by
  have step : b.step host invoke f (.perform effect) s = .error e t := estate_bind_of_error failed
  rw [insts, List.foldlM_cons]
  exact estate_bind_of_error step

theorem runFrom_eq {block : Block σ} (found : b.blocks[id]? = some block)
    (body : b.insts host invoke block.insts f s = .ok f' t) :
    b.runFrom host invoke (fuel + 1) id f s = (do
      match ← b.leave f' block.exit with
      | .done w => return w
      | .goto id f => b.runFrom host invoke fuel id f : Exec ρ Word) t := by
  rw [Body.runFrom, estate_bind_of_ok (block_ok found s)]
  exact estate_bind_of_ok body

theorem leads_of_goto {block : Block σ} (found : b.blocks[id]? = some block)
    (body : b.insts host invoke block.insts f s = .ok f' t)
    (exit : b.leave f' block.exit t = .ok (.goto id' f'') u) :
    b.Leads host invoke 1 id f s id' f'' u := by
  intro fuel
  rw [runFrom_eq found body, estate_bind_of_ok exit]

theorem runFrom_done {block : Block σ} (found : b.blocks[id]? = some block)
    (body : b.insts host invoke block.insts f s = .ok f' t)
    (exit : b.leave f' block.exit t = .ok (.done w) u) :
    b.runFrom host invoke (fuel + 1) id f s = .ok w u := by
  rw [runFrom_eq found body, estate_bind_of_ok exit]
  rfl

theorem leave_ret (held : f.registers[v]? = some w) :
    b.leave f (.ret (some v)) s = .ok (.done w) s :=
  estate_bind_of_ok (Frame.get_ok held s)

theorem leave_branch {condition : Condition} (tested : f.test condition s = .ok o s) :
    b.leave f (.branch condition yes no) s = .ok (.goto (if o then yes else no) f) s :=
  estate_bind_of_ok tested

theorem leave_jump {block : Block σ} (found : b.blocks[id]? = some block)
    (bare : block.params = []) : b.leave f (.jump id []) s = .ok (.goto id f) s := by
  rw [leave, estate_bind_of_ok (Frame.getAll_ok .nil s), estate_bind_of_ok (block_ok found s), bare]
  rfl

theorem leave_jump_one {block : Block σ} (found : b.blocks[id]? = some block)
    (param : block.params = [v']) (held : f.registers[v]? = some w)
    (room : v' < f.registers.length) :
    b.leave f (.jump id [v]) s = .ok (.goto id (f.after v' w f.overflowed)) s := by
  rw [leave, estate_bind_of_ok (Frame.getAll_ok (.cons held .nil) s),
    estate_bind_of_ok (block_ok found s), param, Body.bind]
  exact estate_bind_of_ok (estate_bind_of_ok (Frame.set_ok room s))

theorem eval_stubArg (given : f.args[i]? = some w) :
    b.eval host invoke f (.stubArg i) s = .ok (w, f.overflowed) s := by
  rw [eval, given]
  rfl

theorem eval_int {n : Int} (fits : Word.Fits n) :
    b.eval host invoke f (.literal (.int n)) s = .ok (.int n, f.overflowed) s := by
  have value : (Literal.int n).value s = .ok (.int n) s := by
    rw [Literal.value, Word.ofInt?, if_pos fits]
    rfl
  rw [eval, estate_bind_of_ok value]
  rfl

theorem eval_undefined :
    b.eval host invoke f (.literal .undefined) s = .ok (.undefined, f.overflowed) s := rfl

theorem eval_boolean (yes : Bool) :
    b.eval host invoke f (.literal (.boolean yes)) s = .ok (.boolean yes, f.overflowed) s := rfl

/-- Calling another stub is a matter of the call. -/
theorem eval_callStub {callee : σ} {stub : Stub} {vs : List Var} {ws : List Word}
    (linked : b.link callee = some stub)
    (held : List.Forall₂ (fun v w => f.registers[v]? = some w) vs ws) :
    b.eval host invoke f (.callStub callee (.list vs)) s =
      (do return (← invoke stub .undefined ws, f.overflowed) : Exec ρ (Word × Bool)) s := by
  have found : b.callee callee s = .ok stub s := by
    rw [Body.callee, linked]
    rfl
  have given : f.pass (.list vs) s = .ok ws s := Frame.getAll_ok held s
  rw [eval, estate_bind_of_ok given]
  exact estate_bind_of_ok found

theorem eval_load (held : f.registers[base]? = some w)
    (loaded : s.machine.heap.load w offset = .ok x) :
    b.eval host invoke f (.load base offset) s = .ok (x, f.overflowed) s := by
  rw [eval, estate_bind_of_ok (Frame.get_ok held s)]
  exact estate_bind_of_ok (Exec.query_ok loaded)

theorem eval_loadAt {offset : Nat} (held : f.registers[base]? = some w)
    (given : f.registers[v]? = some y) (int : y.int? = some (offset : Int))
    (loaded : s.machine.heap.load w offset = .ok x) :
    b.eval host invoke f (.loadAt base v) s = .ok (x, f.overflowed) s := by
  rw [eval, estate_bind_of_ok (Frame.count_ok given int s),
    estate_bind_of_ok (Frame.get_ok held s)]
  exact estate_bind_of_ok (Exec.query_ok loaded)

theorem eval_loadAt_error {offset : Nat} {e : HeapError} (held : f.registers[base]? = some w)
    (given : f.registers[v]? = some y) (int : y.int? = some (offset : Int))
    (failed : s.machine.heap.load w offset = .error e) :
    b.eval host invoke f (.loadAt base v) s = .error (.trap (.ofHeapError e)) s := by
  rw [eval, estate_bind_of_ok (Frame.count_ok given int s),
    estate_bind_of_ok (Frame.get_ok held s)]
  exact estate_bind_of_error (Exec.query_error failed)

theorem eval_loadAt_negative {offset : Int} (given : f.registers[v]? = some y)
    (int : y.int? = some offset) (negative : offset < 0) :
    b.eval host invoke f (.loadAt base v) s =
      .error (.trap (.fatal (.heapAccess (.outOfBounds 0)))) s := by
  rw [eval]
  exact estate_bind_of_error (Frame.count_negative given int negative s)

theorem perform_storeAt {offset : Nat} {h : Heap} (held : f.registers[base]? = some w)
    (given : f.registers[v]? = some y) (int : y.int? = some (offset : Int))
    (value : f.registers[v']? = some x)
    (stored : Heap.store w offset x s.machine.heap = .ok () h) :
    (Effect.storeAt base v' v).perform f s = .ok () (s.withHeap h) := by
  rw [Effect.perform, estate_bind_of_ok (Frame.count_ok given int s),
    estate_bind_of_ok (Frame.get_ok held s), estate_bind_of_ok (Frame.get_ok value s)]
  exact Exec.onHeap_ok stored

theorem perform_storeAt_error {offset : Nat} {e : HeapError} {h : Heap}
    (held : f.registers[base]? = some w) (given : f.registers[v]? = some y)
    (int : y.int? = some (offset : Int)) (value : f.registers[v']? = some x)
    (failed : Heap.store w offset x s.machine.heap = .error e h) :
    (Effect.storeAt base v' v).perform f s = .error (.trap (.ofHeapError e)) (s.withHeap h) := by
  rw [Effect.perform, estate_bind_of_ok (Frame.count_ok given int s),
    estate_bind_of_ok (Frame.get_ok held s), estate_bind_of_ok (Frame.get_ok value s)]
  exact Exec.onHeap_error failed

theorem perform_storeAt_negative {offset : Int} (given : f.registers[v]? = some y)
    (int : y.int? = some offset) (negative : offset < 0) :
    (Effect.storeAt base v' v).perform f s =
      .error (.trap (.fatal (.heapAccess (.outOfBounds 0)))) s := by
  rw [Effect.perform]
  exact estate_bind_of_error (Frame.count_negative given int negative s)

theorem eval_arith {op : Arith} {l r n : Int} (left : f.registers[v]? = some x)
    (int : x.int? = some l) (right : f.registers[v']? = some y) (int' : y.int? = some r)
    (checked : op.checked l r = (n, o)) :
    b.eval host invoke f (.arith op v v') s = .ok (.int n, o) s := by
  rw [eval, estate_bind_of_ok (Frame.int_ok left int s),
    estate_bind_of_ok (Frame.int_ok right int' s), checked]
  rfl

theorem eval_negate {n m : Int} (held : f.registers[v]? = some x) (int : x.int? = some n)
    (checked : Arith.sub.checked 0 n = (m, o)) :
    b.eval host invoke f (.negate v) s = .ok (.int m, o) s := by
  rw [eval, estate_bind_of_ok (Frame.int_ok held int s), checked]
  rfl

/-- A block that passes a request on to the host and returns what the host answers. -/
theorem runFrom_service {service : Service} {vs : List Var} {ws : List Word}
    (found : b.blocks[id]? = some
      { params := [], insts := [.define v (.service service vs)], exit := .ret (some v) })
    (held : List.Forall₂ (fun v w => f.registers[v]? = some w) vs ws)
    (room : v < f.registers.length) (fuel : Nat) :
    b.runFrom host invoke (fuel + 1) id f s = host invoke service ws s := by
  have given := Frame.getAll_ok held s
  cases answer : host invoke service ws s with
  | ok w t =>
    have value : b.eval host invoke f (.service service vs) s = .ok (w, f.overflowed) t := by
      rw [Body.eval, estate_bind_of_ok given, estate_bind_of_ok answer]
      rfl
    exact runFrom_done found (insts_define value room (insts_nil _ _))
      (leave_ret (Frame.after_same room))
  | error e t =>
    have value : b.eval host invoke f (.service service vs) s = .error e t := by
      rw [Body.eval, estate_bind_of_ok given, estate_bind_of_error answer]
    have failed : b.step host invoke f (.define v (.service service vs)) s = .error e t :=
      estate_bind_of_error value
    rw [runFrom, estate_bind_of_ok (block_ok found s), List.foldlM_cons]
    exact estate_bind_of_error (estate_bind_of_error failed)

/-- A block that does arithmetic with a constant and goes on if the result is small enough. -/
theorem leads_of_guarded (host : Host ρ) (invoke : Invoke ρ) {op : Arith} {l r n : Int} {a c : Nat}
    (found : b.blocks[id]? = some
      { params := [], insts := [.define a (.literal (.int r)), .define c (.arith op v a)],
        exit := .branch .overflowed big next })
    (held : f.registers[v]? = some x) (int : x.int? = some l) (fits : Word.Fits r)
    (checked : op.checked l r = (n, o)) (room : a < f.registers.length)
    (room' : c < f.registers.length) (apart : v ≠ a) :
    ∃ f', b.Leads host invoke 1 id f s (if o then big else next) f' s ∧
      f'.registers.length = f.registers.length ∧ f'.registers[c]? = some (.int n) ∧
      ∀ u : Nat, u ≠ a → u ≠ c → f'.registers[u]? = f.registers[u]? := by
  refine ⟨_, leads_of_goto found (insts_define (eval_int fits) room
    (insts_define (eval_arith ?_ int ?_ (Word.int?_int fits) checked) ?_ (insts_nil _ _)))
    (leave_branch rfl), ?_, ?_, fun u other other' => ?_⟩
  · rw [Frame.after_other apart]
    exact held
  · exact Frame.after_same room
  · simpa using room'
  · simp
  · exact Frame.after_same (by simpa using room')
  · rw [Frame.after_other other', Frame.after_other other]

/-- A block that fails in one of its instructions. -/
theorem runFrom_fails {block : Block σ} {e : Halt} (found : b.blocks[id]? = some block)
    (failed : b.insts host invoke block.insts f s = .error e t) (fuel : Nat) :
    b.runFrom host invoke (fuel + 1) id f s = .error e t := by
  rw [runFrom, estate_bind_of_ok (block_ok found s)]
  exact estate_bind_of_error failed

theorem runFrom_traps {block : Block σ} {trap : Trap} (found : b.blocks[id]? = some block)
    (body : b.insts host invoke block.insts f s = .ok f' t) (exit : block.exit = .trap trap)
    (fuel : Nat) : b.runFrom host invoke (fuel + 1) id f s = .error (.trap trap) t := by
  rw [runFrom_eq found body, exit]
  rfl

end Body

end FastPath
