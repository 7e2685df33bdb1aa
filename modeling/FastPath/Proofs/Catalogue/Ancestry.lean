import FastPath.Catalogue.Operator
import FastPath.Proofs.Catalogue.Initialisation
import FastPath.Proofs.Execution.Loops
import FastPath.Proofs.Heap.Chain
import FastPath.Proofs.Heap.Lineage

/-! The stub that tells whether a function has made an object or one of its prototypes. It goes
through the maps along the chain of prototypes in a loop that counts nothing, and ends because
chains come down to the maps that every heap starts with. -/

namespace FastPath

open Catalogue Heap

theorem Compare.words_eq (a b : Word) : Compare.eq.holds a.toNat b.toNat = true ↔ a = b := by
  simp only [holds, beq_iff_eq, Int.natCast_inj]
  exact ⟨Word.ext_toNat, congrArg Word.toNat⟩

theorem Compare.words_ne (a b : Word) : Compare.ne.holds a.toNat b.toNat = true ↔ a ≠ b := by
  simp only [holds, bne_iff_ne, ne_eq, Int.natCast_inj]
  exact not_congr ⟨Word.ext_toNat, congrArg Word.toNat⟩

/-- A stub goes through the blocks that the graph it was compiled from goes through. -/
theorem Declaration.CompiledTo.ends {d : Declaration} {stubs : String → Stub} {stub : Stub}
    {g : Graph} {host : Host ρ} {fuel : Nat} {self : Word} {args : List Word} {s : State ρ}
    {ids : List BlockId} {r : EStateM.Result Halt (State ρ) Word}
    (compiled : d.CompiledTo stubs stub) (built : d.template d.name d.config = .ok g)
    (bare : d.config.cache = none) (depth : s.machine.depth < s.machine.maxDepth)
    (ends : (g.linked stubs).Ends host (invoke host fuel) ids 0
      ((g.linked stubs).frame self args) s.deeper r) (enough : ids.length ≤ fuel) :
    stub.body.run host (invoke host fuel) fuel self args s.deeper = r ∧
      stub.entered host (fuel + 1) self args s = ids := by
  obtain ⟨g', c, c', deps, built', compiled, linked⟩ := compiled
  cases built.symm.trans built'
  have same := Compiler.compile_renamed compiled
  rw [bare] at same
  have linked := g.linked_renamed linked
  have frame : stub.body.frame self args = (g.linked stubs).frame self args := by
    rw [Body.frame, Body.frame, same.varCount, linked.varCount]
  obtain ⟨run, path⟩ := ends (fuel - ids.length)
  rw [Nat.sub_add_cancel enough] at run path
  constructor
  · rw [same.run, linked.run]
    exact run
  · rw [Stub.entered, if_pos depth, frame, same.entered, linked.entered]
    exact path

namespace Programs

def descentConfig : Config :=
  { constants := [("mapOffset", Layout.map), ("mapProto", Layout.Map.proto),
      ("instanceMap", Layout.Function.instanceMap)] }

/-- The loop goes around at block 3, with the map in register 0 and the function in register 3. -/
def descent : Graph :=
  { stub := BinaryOp.instanceOf.stubName, varCount := 11
    blocks := [
      { params := []
        insts := [.define 2 (.stubArg 0), .define 3 (.stubArg 1),
          .define 4 (.callStub checkFunction (.list [3]))]
        exit := .branch (.isInt 2) 1 2 },
      { params := [], insts := [], exit := .jump 8 [] },
      { params := [], insts := [.define 5 (.load 2 0)], exit := .jump 3 [5] },
      { params := [0], insts := [.define 6 (.load 3 32)]
        exit := .branch (.compareWords .eq 0 6) 7 4 },
      { params := [], insts := [.define 7 (.load 0 16)], exit := .branch (.isInt 7) 8 5 },
      { params := [], insts := [.define 8 (.load 7 0)]
        exit := .branch (.compareWords .ne 8 0) 6 8 },
      { params := [], insts := [], exit := .jump 3 [8] },
      { params := [], insts := [], exit := .jump 10 [] },
      { params := [], insts := [], exit := .jump 9 [] },
      { params := [], insts := [.define 9 (.literal (.boolean false))], exit := .jump 11 [9] },
      { params := [], insts := [.define 10 (.literal (.boolean true))], exit := .jump 11 [10] },
      { params := [1], insts := [], exit := .ret (some 1) }] }

theorem descent_built : ∀ d ∈ binaryOperators, d.name = BinaryOp.instanceOf.stubName →
    d.template d.name d.config = .ok descent ∧ d.config.cache = none := by
  decide +kernel

/-- The head of the loop. -/
def visit : BlockId := 3

section

variable {stubs : String → Stub} {host : Host ρ} {calls : Invoke ρ} {f : Frame} {s : State ρ}

/-- A frame at the head of the loop. -/
structure Visiting (f : Frame) (m fn : Word) : Prop where
  length : f.registers.length = 11
  map : f.registers[0]? = some m
  fn : f.registers[3]? = some fn

/-- Two jumps with the answer between them end the call. -/
theorem answers {yes : Bool} {a b : BlockId} {v : Var}
    (leave : descent.blocks[a]? = some { params := [], insts := [], exit := .jump b [] })
    (answer : descent.blocks[b]? = some
      { params := [], insts := [.define v (.literal (.boolean yes))], exit := .jump 11 [v] })
    (small : v < 11) (length : f.registers.length = 11) :
    (descent.linked stubs).Ends host calls [a, b, 11] a f s (.ok (.boolean yes) s) := by
  have room : v < f.registers.length := length ▸ small
  let f₁ := f.after v (.boolean yes) f.overflowed
  have room₁ : 1 < f₁.registers.length := by
    rw [Frame.after_length, length]
    decide
  have first : (descent.linked stubs).Passes host calls [a] a f s b f s := by
    apply Body.passes_block leave
    · exact Body.insts_nil host calls
    · exact Body.leave_jump answer rfl
  have second : (descent.linked stubs).Passes host calls [b] b f s 11
      (f₁.after 1 (.boolean yes) f₁.overflowed) s := by
    apply Body.passes_block answer
    · exact Body.insts_define (Body.eval_boolean yes) room (Body.insts_nil host calls)
    · exact Body.leave_jump_one rfl rfl (Frame.after_same room) room₁
  have third : (descent.linked stubs).Ends host calls [11] 11
      (f₁.after 1 (.boolean yes) f₁.overflowed) s (.ok (.boolean yes) s) := by
    apply Body.ends_block rfl
    · exact Body.insts_nil host calls
    · exact Body.leave_ret (Frame.after_same room₁)
  exact first.ends (second.ends third)

theorem denies (length : f.registers.length = 11) :
    (descent.linked stubs).Ends host calls [8, 9, 11] 8 f s (.ok (.boolean false) s) :=
  answers rfl rfl (by decide) length

theorem affirms (length : f.registers.length = 11) :
    (descent.linked stubs).Ends host calls [7, 10, 11] 7 f s (.ok (.boolean true) s) :=
  answers rfl rfl (by decide) length

variable {strict shared : Bool} {Γ : Inventory shared} {m fn w x : Word} {o : Bool}

namespace Visiting

theorem room (visiting : Visiting f m fn) {v : Var} (small : v < 11) :
    v < f.registers.length := visiting.length ▸ small

/-- Other registers may change. -/
theorem after (visiting : Visiting f m fn) {v : Var} (other : 0 ≠ v) (other' : 3 ≠ v) :
    Visiting (f.after v w o) m fn :=
  ⟨Frame.after_length.trans visiting.length, (Frame.after_other other).trans visiting.map,
    (Frame.after_other other').trans visiting.fn⟩

/-- A block that reads a word and makes the way depend on it. -/
theorem decides (visiting : Visiting f m fn) {id yes no : BlockId} {vs : List Var} {v base : Var}
    {offset : Nat} {condition : Condition}
    (found : descent.blocks[id]? = some
      { params := vs, insts := [.define v (.load base offset)], exit := .branch condition yes no })
    (held : f.registers[base]? = some x) (loaded : s.machine.heap.load x offset = .ok w)
    (small : v < 11) (tested : (f.after v w f.overflowed).test condition s = .ok o s) :
    (descent.linked stubs).Passes host calls [id] id f s (if o then yes else no)
      (f.after v w f.overflowed) s := by
  apply Body.passes_block found
  · exact Body.insts_define (Body.eval_load held loaded) (visiting.room small)
      (Body.insts_nil host calls)
  · exact Body.leave_branch tested

end Visiting

variable (stubs host calls) in
/-- The map of the prototype is compared with the one that was visited. -/
theorem steps {m' proto : Word} (visiting : Visiting f m fn)
    (held : f.registers[7]? = some proto) (mapped : s.machine.heap.mapOf proto = .ok m') :
    ∃ f₁, Visiting f₁ m fn ∧ f₁.registers[8]? = some m' ∧
      (descent.linked stubs).Passes host calls [5] 5 f s (if m' = m then 8 else 6) f₁ s := by
  let f₁ := f.after 8 m' f.overflowed
  have visiting₁ : Visiting f₁ m fn := visiting.after (by decide) (by decide)
  have next : f₁.registers[8]? = some m' := Frame.after_same (visiting.room (by decide))
  have compared : (descent.linked stubs).Passes host calls [5] 5 f s _ f₁ s :=
    visiting.decides rfl held mapped (by decide) (Frame.test_compareWords next visiting₁.map .ne s)
  refine ⟨f₁, visiting₁, next, ?_⟩
  by_cases same : m' = m
  · rw [if_neg (mt (Compare.words_ne m' m).mp (not_not_intro same))] at compared
    rwa [if_pos same]
  · rw [if_pos ((Compare.words_ne m' m).mpr same)] at compared
    rwa [if_neg same]

section

variable {i m' : Word} (visiting : Visiting f m fn)
  (instances : s.machine.heap.load fn Layout.Function.instanceMap = .ok i)

include visiting instances

variable (stubs host calls) in
/-- The map is compared with that of the function's instances first. -/
theorem compares : ∃ f₁, Visiting f₁ m fn ∧ (descent.linked stubs).Passes host calls [visit] visit
    f s (if m = i then 7 else 4) f₁ s := by
  let f₁ := f.after 6 i f.overflowed
  have visiting₁ : Visiting f₁ m fn := visiting.after (by decide) (by decide)
  have held : f₁.registers[6]? = some i := Frame.after_same (visiting.room (by decide : 6 < 11))
  have passes : (descent.linked stubs).Passes host calls [visit] visit f s _ f₁ s :=
    visiting.decides rfl visiting.fn instances (by decide)
      (Frame.test_compareWords visiting₁.map held .eq s)
  refine ⟨f₁, visiting₁, ?_⟩
  by_cases met : m = i
  · rw [if_pos ((Compare.words_eq m i).mpr met)] at passes
    rwa [if_pos met]
  · rw [if_neg (mt (Compare.words_eq m i).mp met)] at passes
    rwa [if_neg met]

theorem meets (met : m = i) :
    (descent.linked stubs).Ends host calls [visit, 7, 10, 11] visit f s
      (.ok (.boolean true) s) := by
  obtain ⟨f₁, visiting₁, passes⟩ := compares stubs host calls visiting instances
  rw [if_pos met] at passes
  exact passes.ends (affirms visiting₁.length)

variable (unmet : m ≠ i)

include unmet

variable (stubs host calls) in
/-- If they differ, the prototype is next, which ends the chain if it is a small integer. -/
theorem looks {proto : Word} (read : s.machine.heap.load m Layout.Map.proto = .ok proto) :
    ∃ f₂, Visiting f₂ m fn ∧ f₂.registers[7]? = some proto ∧
      (descent.linked stubs).Passes host calls [visit, 4] visit f s
        (if proto.isInt then 8 else 5) f₂ s := by
  obtain ⟨f₁, visiting₁, passes⟩ := compares stubs host calls visiting instances
  rw [if_neg unmet] at passes
  let f₂ := f₁.after 7 proto f₁.overflowed
  have held : f₂.registers[7]? = some proto := Frame.after_same (visiting₁.room (by decide))
  have looked : (descent.linked stubs).Passes host calls [4] 4 f₁ s _ f₂ s :=
    visiting₁.decides rfl visiting₁.map read (by decide) (Frame.test_isInt held s)
  exact ⟨f₂, visiting₁.after (by decide) (by decide), held, passes.trans looked⟩

/-- A chain ends at a map whose prototype is a small integer, or has that map itself. -/
theorem misses (last : s.machine.heap.mapBeyond m = .ok none ∨
      s.machine.heap.mapBeyond m = .ok (some m)) :
    ∃ ids, (descent.linked stubs).Ends host calls ids visit f s (.ok (.boolean false) s) ∧
      ids.count visit = 1 ∧ ids.length ≤ 6 := by
  obtain ⟨next, beyond, last⟩ : ∃ next, s.machine.heap.mapBeyond m = .ok next ∧
      (next = none ∨ next = some m) := by
    rcases last with beyond | beyond
    · exact ⟨none, beyond, .inl rfl⟩
    · exact ⟨some m, beyond, .inr rfl⟩
  obtain ⟨proto, read, next⟩ := mapBeyond_ok.mp beyond
  obtain ⟨f₂, visiting₂, held, passes⟩ := looks stubs host calls visiting
    instances unmet read
  rcases next with ⟨int, _⟩ | ⟨entity, m', mapped, rfl⟩
  · rw [if_pos int] at passes
    exact ⟨_, passes.ends (denies visiting₂.length), rfl, by decide⟩
  · obtain rfl : m' = m := Option.some.inj (last.resolve_left nofun)
    rw [if_neg (by rw [entity]; exact Bool.false_ne_true)] at passes
    obtain ⟨f₃, visiting₃, _, compared⟩ := steps stubs host calls visiting₂
      held mapped
    rw [if_pos rfl] at compared
    exact ⟨_, (passes.trans compared).ends (denies visiting₃.length), rfl, by decide⟩

variable (stubs host calls) in
theorem moves (beyond : s.machine.heap.mapBeyond m = .ok (some m')) (apart : m' ≠ m) :
    ∃ f', (descent.linked stubs).Passes host calls [visit, 4, 5, 6] visit f s visit f' s ∧
      Visiting f' m' fn := by
  obtain ⟨proto, read, ⟨_, none⟩ | ⟨entity, next, mapped, same⟩⟩ := mapBeyond_ok.mp beyond
  · cases none
  obtain rfl := Option.some.inj same
  obtain ⟨f₂, visiting₂, held, passes⟩ := looks stubs host calls visiting
    instances unmet read
  rw [if_neg (by rw [entity]; exact Bool.false_ne_true)] at passes
  obtain ⟨f₃, visiting₃, held', compared⟩ := steps stubs host calls visiting₂
    held mapped
  rw [if_neg apart] at compared
  let f₄ := f₃.after 0 m' f₃.overflowed
  have back : (descent.linked stubs).Passes host calls [6] 6 f₃ s visit f₄ s := by
    apply Body.passes_block rfl
    · exact Body.insts_nil host calls
    · exact Body.leave_jump_one rfl rfl held' (visiting₃.room (by decide))
  refine ⟨f₄, (passes.trans compared).trans back, ?_, ?_, ?_⟩
  · exact Frame.after_length.trans visiting₃.length
  · exact Frame.after_same (visiting₃.room (by decide))
  · exact (Frame.after_other (by decide)).trans visiting₃.fn

end

/-- One visit of a map ends the loop, or leads to a map closer to the end of the chain. -/
theorem visits (typed : Typed strict Γ s.machine.heap) {slots : Nat}
    (function : Γ fn.toNat = some (.function slots)) (map : Γ.Map m) (visiting : Visiting f m fn) :
    (∃ ids yes, (descent.linked stubs).Ends host calls ids visit f s (.ok (.boolean yes) s) ∧
      ids.count visit = 1 ∧ ids.length ≤ 6) ∨
    ∃ f' m', (descent.linked stubs).Passes host calls [visit, 4, 5, 6] visit f s visit f' s ∧
      Visiting f' m' fn ∧ Γ.Map m' ∧ m'.rank < m.rank := by
  have instances := (typed.instanceMap function).1
  by_cases met : m = s.machine.heap.word (fn.toNat + 8 * 4)
  · exact .inl ⟨_, true, meets visiting instances met, rfl, by decide⟩
  obtain ⟨p, proto, next⟩ := typed.onward map
  rcases next with int | ⟨entity, m', mapped, map', near⟩
  · have last : s.machine.heap.mapBeyond m = .ok none :=
      mapBeyond_ok.mpr ⟨p, proto, .inl ⟨int, rfl⟩⟩
    obtain ⟨ids, ends, once, short⟩ := misses visiting instances met (.inl last)
    exact .inl ⟨ids, false, ends, once, short⟩
  have beyond : s.machine.heap.mapBeyond m = .ok (some m') :=
    mapBeyond_ok.mpr ⟨p, proto, .inr ⟨entity, m', mapped, rfl⟩⟩
  by_cases apart : m' = m
  · obtain ⟨ids, ends, once, short⟩ := misses visiting instances met (.inr (apart ▸ beyond))
    exact .inl ⟨ids, false, ends, once, short⟩
  · obtain ⟨f', passes, visiting'⟩ := moves stubs host calls visiting instances met beyond
      apart
    exact .inr ⟨f', m', passes, visiting', map', near.resolve_left apart⟩

/-- The loop visits different maps, and gives an answer at the end. -/
theorem descends (typed : Typed strict Γ s.machine.heap) {slots : Nat}
    (function : Γ fn.toNat = some (.function slots)) (map : Γ.Map m) (visiting : Visiting f m fn) :
    ∃ (ids : List BlockId) (ms : List Word) (yes : Bool),
      (descent.linked stubs).Ends host calls ids visit f s (.ok (.boolean yes) s) ∧
      ids.count visit = ms.length ∧ ids.length ≤ 4 * ms.length + 2 ∧ ms.Nodup ∧
      ∀ m' ∈ ms, Γ.Map m' ∧ m'.rank ≤ m.rank := by
  induction rank : m.rank using Nat.strongRecOn generalizing m f with
  | ind n ih =>
    subst rank
    rcases visits typed function map visiting with
      ⟨ids, yes, ends, once, short⟩ | ⟨f', m', passes, visiting', map', closer⟩
    · refine ⟨ids, [m], yes, ends, once, short, List.nodup_singleton m, fun m' member => ?_⟩
      obtain rfl := List.mem_singleton.mp member
      exact ⟨map, Nat.le_refl _⟩
    · obtain ⟨ids, ms, yes, ends, visited, short, apart, below⟩ := ih _ closer map' visiting' rfl
      refine ⟨_, m :: ms, yes, passes.ends ends, ?_, ?_, ?_, ?_⟩
      · rw [List.count_append, visited, List.length_cons, Nat.add_comm]
        rfl
      · rw [List.length_append]
        change 4 + ids.length ≤ 4 * (ms.length + 1) + 2
        omega
      · refine List.nodup_cons.mpr ⟨fun member => ?_, apart⟩
        have lower := (below m member).2
        omega
      · refine List.forall_mem_cons.mpr ⟨⟨map, Nat.le_refl _⟩, fun v member => ?_⟩
        exact ⟨(below v member).1, Nat.le_of_lt (Nat.lt_of_le_of_lt (below v member).2 closer)⟩

section

variable (self x y : Word)

/-- The frame with both arguments in their registers. -/
def given : Frame :=
  { registers := .undefined :: .undefined :: x :: y :: .replicate 7 .undefined, self,
    args := [x, y], overflowed := false }

/-- The first block takes the arguments and asks for the check of the function. -/
theorem opening (rest : List (Inst String)) : (descent.linked stubs).insts host calls
    (.define 2 (.stubArg 0) :: .define 3 (.stubArg 1) :: rest)
    ((descent.linked stubs).frame self [x, y]) s =
      (descent.linked stubs).insts host calls rest (given self x y) s :=
  (Body.insts_after (Body.eval_stubArg rfl) (by decide : 2 < 11)).trans
    (Body.insts_after (Body.eval_stubArg rfl) (by decide : 3 < 11))

theorem check_called : (descent.linked stubs).eval host calls (given self x y)
    (.callStub checkFunction (.list [3])) s =
      (do return (← calls (stubs checkFunction) .undefined [y], false) :
        Exec ρ (Word × Bool)) s :=
  Body.eval_callStub rfl (.cons rfl .nil)

theorem refuses {e : Halt} (refused : calls (stubs checkFunction) .undefined [y] s = .error e s) :
    (descent.linked stubs).Ends host calls [0] 0 ((descent.linked stubs).frame self [x, y]) s
      (.error e s) := by
  have checked : (descent.linked stubs).eval host calls (given self x y)
      (.callStub checkFunction (.list [3])) s = .error e s :=
    (check_called self x y).trans (estate_bind_of_error refused)
  have body : (descent.linked stubs).insts host calls
      [.define 2 (.stubArg 0), .define 3 (.stubArg 1),
        .define 4 (.callStub checkFunction (.list [3]))]
      ((descent.linked stubs).frame self [x, y]) s = .error e s :=
    (opening self x y _).trans (Body.insts_fail checked)
  exact Body.ends_failing rfl body

section

variable {v : Word} (passed : calls (stubs checkFunction) .undefined [y] s = .ok v s)

include passed

variable (host) in
/-- A function passes the check, and what it may have made is looked at. -/
theorem begins : (descent.linked stubs).Passes host calls [0] 0
    ((descent.linked stubs).frame self [x, y]) s (if x.isInt then 1 else 2)
    ((given self x y).after 4 v false) s := by
  have checked : (descent.linked stubs).eval host calls (given self x y)
      (.callStub checkFunction (.list [3])) s = .ok (v, false) s :=
    (check_called self x y).trans (estate_bind_of_ok passed)
  have body := (opening self x y _).trans (Body.insts_define checked (by decide : 4 < 11)
    (Body.insts_nil host calls))
  apply Body.passes_block rfl body
  exact Body.leave_branch (Frame.test_isInt rfl s)

theorem denies_int (int : x.isInt = true) : (descent.linked stubs).Ends host calls [0, 1, 8, 9, 11]
    0 ((descent.linked stubs).frame self [x, y]) s (.ok (.boolean false) s) := by
  have first := begins host self x y passed
  rw [if_pos int] at first
  have second : (descent.linked stubs).Passes host calls [1] 1 ((given self x y).after 4 v false)
      s 8 ((given self x y).after 4 v false) s := by
    apply Body.passes_block rfl
    · exact Body.insts_nil host calls
    · exact Body.leave_jump rfl rfl
  exact first.ends (second.ends (denies rfl))

variable (host) in
/-- The loop starts with the map of an entity. -/
theorem enters (entity : x.isInt = false) (mapped : s.machine.heap.mapOf x = .ok m) :
    ∃ f, (descent.linked stubs).Passes host calls [0, 2] 0
      ((descent.linked stubs).frame self [x, y]) s visit f s ∧ Visiting f m y := by
  have first := begins host self x y passed
  rw [if_neg (by rw [entity]; exact Bool.false_ne_true)] at first
  let f₁ := (given self x y).after 4 v false
  let f₂ := (f₁.after 5 m false).after 0 m false
  have second : (descent.linked stubs).Passes host calls [2] 2 f₁ s visit f₂ s := by
    apply Body.passes_block rfl
    · exact Body.insts_define (Body.eval_load rfl mapped) (by decide : 5 < 11)
        (Body.insts_nil host calls)
    · exact Body.leave_jump_one rfl rfl rfl (by decide : 0 < 11)
  exact ⟨f₂, first.trans second, rfl, rfl, rfl⟩

/-- A call on a function gives an answer, and visits each map once at most. -/
theorem responds (typed : Typed strict Γ s.machine.heap) {slots : Nat}
    (function : Γ y.toNat = some (.function slots)) (value : Γ.Value x) :
    ∃ (ids : List BlockId) (ms : List Word) (yes : Bool), (descent.linked stubs).Ends host calls ids
        0 ((descent.linked stubs).frame self [x, y]) s (.ok (.boolean yes) s) ∧
      ids.count visit = ms.length ∧ ids.length ≤ 4 * ms.length + 6 ∧ ms.Nodup ∧
      ∀ m ∈ ms, Γ.Map m := by
  rcases typed.mapped value with int | ⟨entity, m, mapped, map, _⟩
  · exact ⟨_, [], false, denies_int self x y passed int, rfl, by decide, .nil, nofun⟩
  · obtain ⟨f, entered, visiting⟩ := enters host self x y passed entity mapped
    obtain ⟨ids, ms, yes, ends, visited, short, apart, maps⟩ :=
      descends typed function map visiting
    refine ⟨_, ms, yes, entered.ends ends, ?_, ?_, apart, fun m member => (maps m member).1⟩
    · rw [List.count_append, visited]
      exact Nat.zero_add _
    · simp only [List.length_append, List.length_cons, List.length_nil]
      omega

end

end

end

end Programs

variable {stubs : String → Stub}

/-- Whatever a client with a free hand has done, and whether or not it succeeded, to ask of two
values whether the second has made the first gives an answer, or the error that the second is no
function. The loop goes around no more often than there are maps in the heap. -/
theorem instanceOf_terminates (library : Library stubs) {d : Declaration}
    (declared : d ∈ binaryOperators) (named : d.name = BinaryOp.instanceOf.stubName) {tester : Stub}
    (compiled : d.CompiledTo stubs tester) {total : Bool} {fuel : Nat} {c : Client}
    (attains : c.Attains stubs total (fuel + 8)) {x y : Word} (held : c.Knows x)
    (held' : c.Knows y)
    (depth : c.state.machine.depth + 1 < c.state.machine.maxDepth) :
    ∃ es, c.state.machine.heap.Tiles 8 es ∧ ∀ n, 4 * (mapCount es + 2) ≤ n → ∀ self : Word,
      (c.state.machine.heap.kind? y = some .function → ∃ yes,
        invoke PropertyHost.serve n tester self [x, y] c.state = .ok (.boolean yes) c.state) ∧
      (c.state.machine.heap.kind? y ≠ some .function →
        invoke PropertyHost.serve n tester self [x, y] c.state =
          .error (.trap (.fatal .notFunction)) c.state) ∧
      (tester.entered PropertyHost.serve n self [x, y] c.state).count Programs.visit ≤
        mapCount es + 1 := by
  obtain ⟨built, bare⟩ := Programs.descent_built d declared named
  obtain ⟨Γ, furnished, _, known⟩ := attains.furnished library
  have first := (held.known known).1
  have second := (held'.known known).1
  obtain ⟨es, tiles, members⟩ := furnished.typed.tiles
  refine ⟨es, tiles, fun n enough self => ?_⟩
  obtain ⟨k, rfl⟩ : ∃ k, n = k + 5 := ⟨n - 5, by omega⟩
  have shallow : c.state.machine.depth < c.state.machine.maxDepth := by omega
  rcases library.checkFunction_tells (s := c.state.deeper) (furnished.at_depth _)
      PropertyHost.serve k .undefined second depth with
    ⟨⟨slots, function⟩, kind, passed⟩ | ⟨other, refused⟩
  · obtain ⟨ids, ms, yes, ends, visited, short, apart, maps⟩ := Programs.responds self x y
      (s := c.state.deeper) passed furnished.typed function first
    have few := furnished.typed.few_maps members maps apart
    obtain ⟨ran, path⟩ := compiled.ends built bare shallow ends (by omega)
    refine ⟨fun _ => ⟨yes, Exec.nested_ok shallow ran⟩, fun other => absurd kind other, ?_⟩
    rw [path, visited]
    omega
  · have ends : (Programs.descent.linked stubs).Ends PropertyHost.serve
        (invoke PropertyHost.serve (k + 4)) [0] 0
        ((Programs.descent.linked stubs).frame self [x, y]) c.state.deeper
        (.error (.trap (.fatal .notFunction)) c.state.deeper) :=
      Programs.refuses self x y refused
    obtain ⟨ran, path⟩ := compiled.ends built bare shallow ends (by simp)
    refine ⟨fun kind => absurd kind other, fun _ => ?_, ?_⟩
    · rw [invoke_succ, Exec.nested_eq, if_pos shallow, ran]
      rfl
    · rw [path]
      exact Nat.zero_le _

/-- What a fresh compiler makes of the declaration after those of the library. -/
def freshTester : Stub :=
  match Compiler.compile { id := 0, compiled := 17 } Programs.descent Programs.descentConfig
    [(checkFunction, freshStubs checkFunction)] with
  | .ok (stub, _) => stub
  | .error _ => default

theorem freshTester_compiled : ∃ d ∈ binaryOperators, d.name = BinaryOp.instanceOf.stubName ∧
    d.CompiledTo freshStubs freshTester := by
  have member : BinaryOp.instanceOf ∈ BinaryOp.all := by decide
  have declared : _ ∈ binaryOperators := List.mem_map_of_mem member
  obtain ⟨stub, c', compiled⟩ : ∃ stub c', Compiler.compile { id := 0, compiled := 17 }
      Programs.descent Programs.descentConfig [(checkFunction, freshStubs checkFunction)] =
        .ok (stub, c') := Compiler.compile_succeeds.mpr ⟨by decide, by decide⟩
  have same : freshTester = stub := by rw [freshTester, compiled]
  have callees : Programs.descent.callees = [checkFunction] := by decide
  refine ⟨_, declared, rfl, Programs.descent, { id := 0, compiled := 17 }, c', _,
    (Programs.descent_built _ declared rfl).1, same ▸ compiled, ?_⟩
  rw [callees]
  exact List.forall_mem_singleton.mpr rfl

/-- A function gets another prototype between two constructions. -/
def reassigning : List Demand :=
  [.request (.codeRef idler), .request (.function (.pointer 448) .undefined 0),
    .request (.construct (.int 0) (.pointer 464) []), .request (.atom "prototype"),
    .request (.set (.pointer 464) (.pointer 792) (.pointer 1080)),
    .request (.construct (.int 0) (.pointer 464) [])]

/-- The first object is no instance any more, which takes three rounds to find out. -/
theorem reassigning_terminates : ∃ c es, Client.fresh.gets freshStubs 8 reassigning = c ∧
    (∃ s, invoke PropertyHost.serve 20 freshTester .undefined [.pointer 1080, .pointer 464]
      c.state = .ok (.boolean false) s) ∧
    freshTester.entered PropertyHost.serve 20 .undefined [.pointer 1080, .pointer 464] c.state =
      [0, 2, 3, 4, 5, 6, 3, 4, 5, 6, 3, 4, 5, 8, 9, 11] ∧
    c.state.machine.heap.Tiles 8 es ∧ ∀ n, 4 * (mapCount es + 2) ≤ n → ∃ yes,
      invoke PropertyHost.serve n freshTester .undefined [.pointer 1080, .pointer 464] c.state =
        .ok (.boolean yes) c.state := by
  have facts : Client.fresh.Entitled freshStubs false 8 reassigning ∧
      (let c := Client.fresh.gets freshStubs 8 reassigning
      (c.Knows (.pointer 1080) ∧ c.Knows (.pointer 464)) ∧
      c.state.machine.depth + 1 < c.state.machine.maxDepth ∧
      c.state.machine.heap.kind? (.pointer 464) = some .function ∧
      freshTester.entered PropertyHost.serve 20 .undefined [.pointer 1080, .pointer 464] c.state =
        [0, 2, 3, 4, 5, 6, 3, 4, 5, 6, 3, 4, 5, 8, 9, 11]) := by decide +kernel
  obtain ⟨entitled, ⟨first, second⟩, depth, kind, path⟩ := facts
  obtain ⟨_, s, ran, rfl⟩ : ∃ w s, invoke PropertyHost.serve 20 freshTester .undefined
      [.pointer 1080, .pointer 464] (Client.fresh.gets freshStubs 8 reassigning).state = .ok w s ∧
      w = .boolean false := Yields.returns (by decide +kernel)
  have attains := (Client.fresh_attains freshStubs false 8).gets entitled
  obtain ⟨d, declared, named, compiled⟩ := freshTester_compiled
  obtain ⟨es, tiles, ends⟩ :=
    instanceOf_terminates freshStubs_library declared named compiled attains first second depth
  exact ⟨_, es, rfl, ⟨s, ran⟩, path, tiles, fun n enough => (ends n enough .undefined).1 kind⟩

/-- An object of a function that was made with the impostor in the machine. -/
def estranging : List Demand :=
  [.request (.codeRef impostor), .request (.function (.pointer 448) .undefined 0),
    .request (.construct (.int 0) (.pointer 464) [])]

/-- The object has no map to start from, and is not even found to be no function. -/
theorem impostor_breaks_loop : ∃ c s,
    (Compiler.compileAll { id := 1 } (List.replicate 12
      ⟨{ stub := "idle", varCount := 0, blocks := [⟨[], [], .ret none⟩] }, {}, []⟩)).1[11]? =
        some impostor ∧ impostor.Idle ∧ Client.fresh.gets freshStubs 8 estranging = c ∧
    c.Knows (.pointer 1024) ∧ c.state.machine.depth + 1 < c.state.machine.maxDepth ∧
    c.state.machine.heap.kind? (.pointer 1024) ≠ some .function ∧
    invoke PropertyHost.serve 20 freshTester .undefined [.pointer 1024, .pointer 1024] c.state =
      .error (.trap (.ofHeapError (.outOfBounds 0))) s := by
  have facts : (let c := Client.fresh.gets freshStubs 8 estranging
      c.Knows (.pointer 1024) ∧ c.state.machine.depth + 1 < c.state.machine.maxDepth ∧
      c.state.machine.heap.kind? (.pointer 1024) ≠ some .function) := by decide +kernel
  obtain ⟨known, depth, other⟩ := facts
  obtain ⟨_, s, ran, rfl⟩ : ∃ e s, invoke PropertyHost.serve 20 freshTester .undefined
      [.pointer 1024, .pointer 1024] (Client.fresh.gets freshStubs 8 estranging).state =
        .error e s ∧ e = .trap (.ofHeapError (.outOfBounds 0)) := Yields.fails (by decide +kernel)
  exact ⟨_, s, impostor_compiled.1, impostor_compiled.2, rfl, known, depth, other, ran⟩

end FastPath
