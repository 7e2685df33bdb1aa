import FastPath.Proofs.Catalogue.Library
import FastPath.Proofs.Property.SlotStub

/-! The stubs of a library as programs: the graph of each, and what a run of its body comes to in
terms of the calls that it makes. -/

namespace FastPath

open Catalogue

namespace Exec

/-- The address in a word. -/
def address (w : Word) : Exec ρ Nat :=
  match w.address? with
  | some a => return a
  | none => trap (.ofHeapError (.notPointer w))

/-- The small integer in a word. -/
def int (w : Word) : Exec ρ Int :=
  match w.int? with
  | some n => return n
  | none => fatal .notInt

/-- The address `offset` bytes from another. -/
def advance (base : Word) (offset : Int) : Exec ρ Word := do
  let base ← address base
  return .pointer (← query fun _ => displace base offset)

/-- Fills the words between two addresses. -/
def fill (start stop w : Word) : Exec ρ Unit := do
  let start ← address start
  let stop ← address stop
  onHeap (Heap.fill start stop w)

end Exec

namespace Programs

def field : Graph :=
  { stub := allocField, varCount := 10
    blocks := [{ params := []
                 insts := [.define 0 (.literal (.int 16)), .define 1 (.stubArg 0),
                  .define 2 (.literal (.int 3)), .define 3 (.arith .shl 1 2),
                  .define 4 (.arith .add 0 3),
                  .define 5 (.callStub (allocTagged .field) (.list [4])),
                  .perform (.store 5 1 8), .define 6 (.literal (.int 16)), .define 7 (.advance 5 6),
                  .define 8 (.advance 5 4), .define 9 (.literal .hole), .perform (.fill 7 8 9)]
                 exit := .ret (some 5) }] }

def plainObject : Graph :=
  { stub := allocObject, varCount := 3
    blocks := [{ params := []
                 insts := [.define 0 (.literal (.int 24)),
                  .define 1 (.callStub (allocTagged .object) (.list [0])),
                  .define 2 (.callStub object (.list [1]))]
                 exit := .ret (some 1) }] }

def functionObject : Graph :=
  { stub := allocFn, varCount := 10
    blocks := [{ params := []
                 insts := [.define 0 (.stubArg 2), .define 1 (.literal (.int 3)),
                  .define 2 (.arith .shl 0 1), .define 3 (.literal (.int 56)),
                  .define 4 (.arith .add 3 2),
                  .define 5 (.callStub (allocTagged .function) (.list [4])),
                  .define 6 (.callStub object (.list [5])), .define 7 (.stubArg 0),
                  .define 8 (.stubArg 1), .define 9 (.callStub function (.list [5, 7, 8, 0]))]
                 exit := .ret (some 5) }] }

def accessPair : Graph :=
  { stub := allocAccessPair, varCount := 4
    blocks := [{ params := []
                 insts := [.define 0 (.literal (.int 32)),
                  .define 1 (.callStub (allocTagged .accessPair) (.list [0])),
                  .define 2 (.literal .hole), .perform (.store 1 2 8), .perform (.store 1 2 16),
                  .define 3 (.literal (.int 6)), .perform (.store 1 3 24)]
                 exit := .ret (some 1) }] }

def construction : Graph :=
  { stub := new, varCount := 6
    blocks := [{ params := []
                 insts := [.define 0 (.stubArg 0), .define 1 (.stubArg 1),
                  .define 2 (.callStub checkFunction (.list [1])),
                  .define 3 (.callStub allocObject (.list [])), .define 4 (.load 1 32),
                  .perform (.store 3 4 0), .define 5 (.call 1 3 (.forward 2 0))]
                 exit := .ret (some 3) }] }

def objectConstructor : Graph :=
  { stub := object, varCount := 6
    blocks := [{ params := []
                 insts := [.define 0 (.stubArg 0), .define 1 (.literal (.int 8)),
                  .define 2 (.literal (.int 3)), .define 3 (.arith .mul 1 2),
                  .define 4 (.callStub allocField (.list [3])), .perform (.store 0 4 16),
                  .define 5 (.literal (.int 0)), .perform (.store 0 5 8)]
                 exit := .ret (some 0) }] }

def functionConstructor : Graph :=
  { stub := function, varCount := 21
    blocks := [{ params := []
                 insts := [.define 0 (.stubArg 0), .define 1 (.stubArg 1), .perform (.store 0 1 24),
                  .define 2 (.literal (.int 0)), .perform (.store 0 2 48),
                  .define 3 (.callStub allocAccessPair (.list [])),
                  .define 4 (.stubRef prototypeGetter), .perform (.store 3 4 8),
                  .define 5 (.stubRef prototypeSetter), .perform (.store 3 5 16),
                  .define 6 (.literal (.atom "prototype")),
                  .define 7 (.service .setProperty [0, 6, 3]), .define 8 (.load 0 8),
                  .define 9 (.literal (.int 1)), .define 10 (.arith .or 8 9),
                  .perform (.store 0 10 8), .define 11 (.callStub allocObject (.list [])),
                  .define 12 (.call 5 0 (.list [11])), .define 13 (.stubArg 2),
                  .perform (.store 0 13 40), .define 14 (.stubArg 3),
                  .define 15 (.literal (.int 3)), .define 16 (.arith .shl 14 15),
                  .define 17 (.literal (.int 56)), .define 18 (.advance 0 17),
                  .define 19 (.advance 18 16), .define 20 (.literal .undefined),
                  .perform (.fill 18 19 20)]
                 exit := .ret (some 0) }] }

def readPrototype : Graph :=
  { stub := prototypeGetter, varCount := 3
    blocks := [{ params := []
                 insts := [.define 0 .receiver, .define 1 (.load 0 32), .define 2 (.load 1 16)]
                 exit := .ret (some 2) }] }

def writePrototype : Graph :=
  { stub := prototypeSetter, varCount := 6
    blocks := [{ params := []
                 insts := [.define 0 (.arg 0), .define 1 .receiver, .define 2 (.literal (.int 40)),
                  .define 3 (.callStub (allocTagged .map) (.list [2])), .define 4 (.literal .hole),
                  .perform (.store 3 4 24), .perform (.store 3 4 32),
                  .define 5 (.literal (.int 0)), .perform (.store 3 5 8),
                  .perform (.store 3 0 16), .perform (.store 1 3 32)]
                 exit := .ret (some 1) }] }

def tagged (k : Kind) : Graph :=
  { stub := allocTagged k, varCount := 6
    blocks := [
      { params := []
        insts := [.define 0 (.stubArg 0), .define 1 (.roundUp 0), .define 2 .cursor,
          .define 3 .limit, .define 4 (.advance 2 1)]
        exit := .branch (.compareWords .le 4 3) 1 2 },
      { params := []
        insts := [.perform (.moveCursor 4), .define 5 (.canonicalMap k), .perform (.store 2 5 0)]
        exit := .ret (some 2) },
      { params := [], insts := [], exit := .trap (.unhandled .collection) }] }

def functionCheck : Graph :=
  { stub := checkFunction, varCount := 4
    blocks := [
      { params := [], insts := [.define 0 (.stubArg 0)], exit := .branch (.isInt 0) 1 2 },
      { params := [], insts := [], exit := .jump 4 [] },
      { params := []
        insts := [.define 1 (.load 0 0), .define 2 (.load 1 8), .define 3 (.literal (.int 1))]
        exit := .branch (.overlap 2 3) 3 4 },
      { params := [], insts := [], exit := .ret none },
      { params := [], insts := [], exit := .trap (.fatal .notFunction) }] }

def graphs : List Graph :=
  [field, plainObject, functionObject, accessPair, construction, objectConstructor,
    functionConstructor, readPrototype, writePrototype, functionCheck] ++ taggedKinds.map tagged

/-- The graphs are those that the templates of the declarations build. -/
theorem built : ∀ g ∈ graphs, ∃ d ∈ makers,
    d.name = g.stub ∧ d.template d.name d.config = .ok g := by
  decide +kernel

section

variable (stubs : String → Stub) (host : Host ρ) (calls : Invoke ρ) (fuel : Nat) (self : Word)

theorem single_run {g : Graph} {insts : List (Inst String)} {v : Var}
    (single : g.blocks = [{ params := [], insts, exit := .ret (some v) }]) (args : List Word) :
    (g.linked stubs).run host calls (fuel + 1) self args = (do
      let f ← insts.foldlM ((g.linked stubs).step host calls) ((g.linked stubs).frame self args)
      f.get v) := by
  have found : ((g.linked stubs).block 0 : Exec ρ _) =
      pure { params := [], insts, exit := .ret (some v) } := by
    rw [Body.block, Graph.linked, single]
    rfl
  rw [Body.run, Body.runFrom, found]
  simp [Body.leave]

theorem block_run {g : Graph} {b : BlockId} {params : List Var} {insts : List (Inst String)}
    {exit : Exit} (found : g.blocks[b]? = some { params, insts, exit }) (f : Frame) :
    (g.linked stubs).runFrom host calls (fuel + 1) b f = (do
      let f ← insts.foldlM ((g.linked stubs).step host calls) f
      match ← (g.linked stubs).leave f exit with
      | .done w => return w
      | .goto b f => (g.linked stubs).runFrom host calls fuel b f) := by
  have block : ((g.linked stubs).block b : Exec ρ _) = pure { params, insts, exit } := by
    rw [Body.block, Graph.linked, found]
  rw [Body.runFrom, block]
  rfl

/-- The constants that the stubs use. -/
theorem constants : Word.ofInt? 0 = some (.int 0) ∧ Word.ofInt? 1 = some (.int 1) ∧
    Word.ofInt? 3 = some (.int 3) ∧ Word.ofInt? 6 = some (.int 6) ∧
    Word.ofInt? 8 = some (.int 8) ∧ Word.ofInt? 16 = some (.int 16) ∧
    Word.ofInt? 24 = some (.int 24) ∧ Word.ofInt? 32 = some (.int 32) ∧
    Word.ofInt? 40 = some (.int 40) ∧ Word.ofInt? 56 = some (.int 56) ∧
    (Word.int 1).int? = some 1 ∧ (Word.int 3).int? = some 3 ∧ (Word.int 8).int? = some 8 ∧
    (Word.int 16).int? = some 16 ∧ (Word.int 56).int? = some 56 := by
  decide

theorem tagged_run (k : Kind) {n : Nat} (fits : Word.Fits (n : Int))
    (rounded : Word.Fits (roundUp n : Nat)) :
    ((tagged k).linked stubs).run host calls (fuel + 2) self [.int n] = (do
      let start := Word.pointer (← Exec.heap).region.cursor
      let limit := Word.pointer (← Exec.heap).region.limit
      let stop ← Exec.advance start (roundUp n)
      if stop.toNat ≤ limit.toNat then
        Exec.onHeap (Heap.moveCursor (← Exec.address stop))
        Exec.onHeap (Heap.store start Layout.map k.canonicalMap)
        return start
      else Exec.trap (.unhandled .collection)) := by
  have size : (Word.int n).int? = some (.ofNat n) := Word.int?_int fits
  have bytes : (Word.int (roundUp n : Nat)).int? = some ((roundUp n : Nat) : Int) :=
    Word.int?_int rounded
  have carried : Word.ofInt? (roundUp n : Nat) = some (.int (roundUp n : Nat)) := if_pos rounded
  have frame : ((tagged k).linked stubs).frame self [.int n] =
      ⟨List.replicate 6 .undefined, self, [.int n], false⟩ := rfl
  rw [Body.run, block_run _ _ _ _ rfl, frame]
  simp only [Exec.advance, Exec.address]
  simp [List.replicate, Body.step, Body.eval, Frame.get, Frame.set, Frame.int, Frame.count,
    Frame.address, size, bytes, carried, Body.leave, Frame.test, Compare.holds]
  refine bind_congr fun h => bind_congr fun h' => bind_congr fun start => bind_congr fun stop => ?_
  by_cases room : (Word.pointer stop).toNat ≤ (Word.pointer h'.region.limit).toNat
  · rw [if_pos room, if_pos room, block_run _ _ _ _ rfl]
    simp [Body.step, Body.eval, Frame.get, Frame.set, Frame.address, Body.leave, Effect.perform]
    rfl
  · rw [if_neg room, if_neg room, block_run _ _ _ _ rfl]
    rfl

/-- A negative number of bytes is not rounded up. -/
theorem tagged_negative (k : Kind) {w : Word} {m : Nat} (negative : w.int? = some (.negSucc m)) :
    ((tagged k).linked stubs).run host calls (fuel + 1) self [w] =
      Exec.trap (.ofHeapError (.outOfBounds 0)) := by
  have frame : ((tagged k).linked stubs).frame self [w] =
      ⟨List.replicate 6 .undefined, self, [w], false⟩ := rfl
  rw [Body.run, block_run _ _ _ _ rfl, frame]
  simp [List.replicate, Body.step, Body.eval, Frame.get, Frame.set, Frame.int, Frame.count,
    negative]
  rfl

/-- What cannot be rounded up as a number of bytes is refused. -/
theorem tagged_refuses (k : Kind) {w : Word}
    (unsized : ∀ n : Nat, w.int? = some (n : Int) → ¬ Word.Fits (roundUp n : Nat)) :
    ∃ t : Trap, ((tagged k).linked stubs).run host calls (fuel + 1) self [w] = Exec.trap t := by
  have frame : ((tagged k).linked stubs).frame self [w] =
      ⟨List.replicate 6 .undefined, self, [w], false⟩ := rfl
  cases size : w.int? with
  | none =>
    refine ⟨.fatal .notInt, ?_⟩
    rw [Body.run, block_run _ _ _ _ rfl, frame]
    simp [List.replicate, Body.step, Body.eval, Frame.get, Frame.set, Frame.int, Frame.count, size]
    rfl
  | some n =>
    cases n with
    | negSucc n => exact ⟨_, tagged_negative stubs host calls fuel self k size⟩
    | ofNat n =>
      have carried : Word.ofInt? (roundUp n : Nat) = none := if_neg (unsized n size)
      refine ⟨.fatal .notInt, ?_⟩
      rw [Body.run, block_run _ _ _ _ rfl, frame]
      simp [List.replicate, Body.step, Body.eval, Frame.get, Frame.set, Frame.int, Frame.count,
        size, carried]
      rfl

/-- Small integers are refused, and so are entities whose map does not say that they can be
called. -/
theorem functionCheck_run (w : Word) :
    (functionCheck.linked stubs).run host calls (fuel + 3) self [w] =
      if w.isInt then Exec.fatal .notFunction else (do
        let map ← Exec.query fun h => h.load w Layout.map
        let flags ← Exec.query fun h => h.load map Layout.Map.flags
        if Bits.overlap (← Exec.int flags) Layout.Map.callable then return .undefined
        else Exec.fatal .notFunction) := by
  have frame : (functionCheck.linked stubs).frame self [w] =
      ⟨List.replicate 4 .undefined, self, [w], false⟩ := rfl
  rw [Body.run, block_run _ _ _ _ rfl, frame]
  simp [List.replicate, Body.step, Body.eval, Frame.get, Frame.set, Body.leave, Frame.test]
  by_cases int : w.isInt = true
  · rw [if_pos int, if_pos int, block_run _ _ _ _ rfl]
    simp only [List.foldlM_nil, Body.leave, Frame.getAll, List.mapM_nil, pure_bind]
    rw [show ((functionCheck.linked stubs).block 4 : Exec ρ _) = pure _ from rfl]
    simp only [pure_bind, Body.bind]
    rw [block_run _ _ _ _ rfl]
    rfl
  · rw [if_neg int, if_neg int, block_run _ _ _ _ rfl]
    simp [Body.step, Body.eval, Frame.get, Frame.set, Body.leave, Frame.test, Frame.int, Exec.int,
      Literal.value, constants]
    refine bind_congr fun map => bind_congr fun flags => bind_congr fun n => ?_
    change (functionCheck.linked stubs).runFrom host calls (fuel + 1)
      (if Bits.overlap n Layout.Map.callable = true then 3 else 4) _ = _
    split
    · rw [block_run _ _ _ _ rfl]
      rfl
    · rw [block_run _ _ _ _ rfl]
      rfl

theorem readPrototype_run (args : List Word) :
    (readPrototype.linked stubs).run host calls (fuel + 1) self args = (do
      let map ← Exec.query fun h => h.load self Layout.Function.instanceMap
      Exec.query fun h => h.load map Layout.Map.proto) := by
  rw [single_run _ _ _ _ _ rfl]
  simp [Graph.linked, readPrototype, Body.frame, List.replicate, Body.step, Body.eval, Frame.get,
    Frame.set]
  rfl

theorem writePrototype_run (args : List Word) :
    (writePrototype.linked stubs).run host calls (fuel + 1) self args = (do
      let map ← calls (stubs (allocTagged .map)) .undefined [.int Layout.Map.size]
      Exec.onHeap (Heap.store map Layout.Map.edges .hole)
      Exec.onHeap (Heap.store map Layout.Map.transitions .hole)
      Exec.onHeap (Heap.store map Layout.Map.flags (.int Layout.Map.plain))
      Exec.onHeap (Heap.store map Layout.Map.proto (args.getD 0 .undefined))
      Exec.onHeap (Heap.store self Layout.Function.instanceMap map)
      return self) := by
  rw [single_run _ _ _ _ _ rfl]
  simp [Graph.linked, writePrototype, Body.frame, List.replicate, Body.step, Body.eval, Frame.get,
    Frame.set, Frame.pass, Frame.getAll, Body.callee, Literal.value, Effect.perform, constants]
  rfl

theorem accessPair_run (args : List Word) :
    (accessPair.linked stubs).run host calls (fuel + 1) self args = (do
      let pair ← calls (stubs (allocTagged .accessPair)) .undefined [.int Layout.Pair.size]
      Exec.onHeap (Heap.store pair Layout.Pair.getter .hole)
      Exec.onHeap (Heap.store pair Layout.Pair.setter .hole)
      Exec.onHeap (Heap.store pair Layout.Pair.attributes (.int Layout.Pair.fresh))
      return pair) := by
  rw [single_run _ _ _ _ _ rfl]
  simp [Graph.linked, accessPair, Body.frame, List.replicate, Body.step, Body.eval, Frame.get,
    Frame.set, Frame.pass, Frame.getAll, Body.callee, Literal.value, Effect.perform, constants]
  rfl

theorem plainObject_run (args : List Word) :
    (plainObject.linked stubs).run host calls (fuel + 1) self args = (do
      let obj ← calls (stubs (allocTagged .object)) .undefined [.int Layout.Object.size]
      let _ ← calls (stubs object) .undefined [obj]
      return obj) := by
  rw [single_run _ _ _ _ _ rfl]
  simp [Graph.linked, plainObject, Body.frame, List.replicate, Body.step, Body.eval, Frame.get,
    Frame.set, Frame.pass, Frame.getAll, Body.callee, Literal.value, constants]
  rfl

theorem objectConstructor_run (obj : Word) :
    (objectConstructor.linked stubs).run host calls (fuel + 1) self [obj] = (do
      let storage ← calls (stubs allocField) .undefined
        [.int (Layout.Object.items * Layout.Item.words : Nat)]
      Exec.onHeap (Heap.store obj Layout.Object.storage storage)
      Exec.onHeap (Heap.store obj Layout.Object.flags (.int Layout.Object.plain))
      return obj) := by
  have slots : Arith.mul.checked 8 3 = (24, false) := by decide
  rw [single_run _ _ _ _ _ rfl]
  simp [Graph.linked, objectConstructor, Body.frame, List.replicate, Body.step, Body.eval,
    Frame.get, Frame.set, Frame.pass, Frame.getAll, Body.callee, Literal.value, Effect.perform,
    Frame.int, constants, slots]
  rfl

theorem construction_run (argc fn : Word) (rest : List Word) :
    (construction.linked stubs).run host calls (fuel + 1) self (argc :: fn :: rest) = (do
      let _ ← calls (stubs checkFunction) .undefined [fn]
      let obj ← calls (stubs allocObject) .undefined []
      let map ← Exec.query fun h => h.load fn Layout.Function.instanceMap
      Exec.onHeap (Heap.store obj Layout.map map)
      match argc.int? with
      | some (.ofNat n) =>
        let _ ← callValue calls fn obj ((List.range n).map fun i => rest.getD i .undefined)
        return obj
      | some (.negSucc _) => Exec.trap (.ofHeapError (.outOfBounds 0))
      | none => Exec.fatal .notInt) := by
  have surplus (i : Nat) : (argc :: fn :: rest)[2 + i]? = rest[i]? := by
    rw [Nat.add_comm]
    rfl
  rw [single_run _ _ _ _ _ rfl]
  simp [Graph.linked, construction, Body.frame, List.replicate, Body.step, Body.eval, Frame.get,
    Frame.set, Frame.pass, Frame.getAll, Body.callee, Effect.perform, Frame.int, Frame.count,
    surplus]
  cases given : argc.int? with
  | none => rfl
  | some n =>
    cases n with
    | ofNat n =>
      have few : 2 + n ≤ 0x10000000000000000 := by
        obtain ⟨_, top⟩ := Word.int?_fits given
        simp only [Word.maxInt, Int.ofNat_eq_natCast] at top
        omega
      simp only [pure_bind, few, if_true]
      rfl
    | negSucc n => rfl

/-- The size of a field is what small integers make of sixteen bytes and eight for each slot. -/
theorem field_run {n : Int} (fits : Word.Fits n) :
    (field.linked stubs).run host calls (fuel + 1) self [.int n] = (do
      let field ← calls (stubs (allocTagged .field)) .undefined [.int (16 + 8 * n)]
      Exec.onHeap (Heap.store field Layout.Field.length (.int n))
      let start ← Exec.advance field Layout.Field.data
      let stop ← Exec.advance field (Word.carried (16 + 8 * n))
      Exec.fill start stop .hole
      return field) := by
  have count : (Word.int n).int? = some n := Word.int?_int fits
  have shifted := Word.int_checked (shl_shift n)
  have bytes := Word.int?_carried (8 * n)
  have added : Word.int (Arith.add.checked 16 (Word.carried (8 * n))).1 = .int (16 + 8 * n) := by
    rw [Word.int_checked rfl, ← Word.int_carried, ← Word.int_carried (16 + 8 * n), Word.carried,
      Word.carried, Word.carried, Int.add_bmod_bmod]
  have size := Word.int?_carried (16 + 8 * n)
  rw [single_run _ _ _ _ _ rfl]
  simp [Graph.linked, field, Body.frame, List.replicate, Body.step, Body.eval, Frame.get,
    Frame.set, Frame.pass, Frame.getAll, Body.callee, Literal.value, Effect.perform, Frame.int,
    Frame.address, constants, count, shifted, bytes, added, size, Exec.advance, Exec.fill,
    Exec.address]
  rfl

/-- The number of slots must be a small integer. -/
theorem field_refuses {w : Word} (odd : w.int? = none) :
    (field.linked stubs).run host calls (fuel + 1) self [w] = Exec.fatal .notInt := by
  rw [single_run _ _ _ _ _ rfl]
  simp [Graph.linked, field, Body.frame, List.replicate, Body.step, Body.eval, Frame.get,
    Frame.set, Literal.value, Frame.int, constants, odd]
  rfl

section

variable {n : Nat} (few : n < 0x4000000000000)

include few

theorem count_fits (extra : Nat) (small : extra < 0x100) :
    Word.Fits (n : Int) ∧ Word.Fits (8 * (n : Int)) ∧ Word.Fits ((extra : Int) + 8 * n) := by
  refine ⟨⟨?_, ?_⟩, ⟨?_, ?_⟩, ⟨?_, ?_⟩⟩
  all_goals
    simp only [Word.minInt, Word.maxInt]
    omega

theorem functionObject_run (code outer : Word) :
    (functionObject.linked stubs).run host calls (fuel + 1) self [code, outer, .int n] = (do
      let fn ← calls (stubs (allocTagged .function)) .undefined [.int (56 + 8 * (n : Int))]
      let _ ← calls (stubs object) .undefined [fn]
      let _ ← calls (stubs function) .undefined [fn, code, outer, .int n]
      return fn) := by
  obtain ⟨fits, shifted, added⟩ := count_fits few 56 (by decide)
  have shift : Arith.shl.checked n 3 = (8 * (n : Int), false) :=
    Arith.checked_of_fits (shl_shift n) shifted
  have add : Arith.add.checked 56 (8 * (n : Int)) = (56 + 8 * (n : Int), false) :=
    Arith.checked_of_fits rfl added
  have count : (Word.int n).int? = some (n : Int) := Word.int?_int fits
  have bytes : (Word.int (8 * (n : Int))).int? = some (8 * (n : Int)) := Word.int?_int shifted
  rw [single_run _ _ _ _ _ rfl]
  simp [Graph.linked, functionObject, Body.frame, List.replicate, Body.step, Body.eval, Frame.get,
    Frame.set, Frame.pass, Frame.getAll, Body.callee, Literal.value, Frame.int, constants, shift,
    add, count, bytes]

/-- A pair with the accessors of `prototype`, and the setter. -/
def prototypePair : Exec ρ (Word × Word) := do
  let pair ← calls (stubs allocAccessPair) .undefined []
  let getter ← Exec.onMachine (Machine.codeEntity (stubs prototypeGetter))
  Exec.onHeap (Heap.store pair Layout.Pair.getter getter)
  let setter ← Exec.onMachine (Machine.codeEntity (stubs prototypeSetter))
  Exec.onHeap (Heap.store pair Layout.Pair.setter setter)
  return (pair, setter)

/-- The pair becomes the property `prototype` of a function, whose flags are to tell that it has
accessors. The result is the setter. -/
def prototypeProperty (fn : Word) : Exec ρ Word := do
  let (pair, setter) ← prototypePair stubs calls
  let key ← Exec.onHeap (Heap.atom "prototype")
  let _ ← host calls .setProperty [fn, key, pair]
  let flags ← Exec.query fun h => h.load fn Layout.Object.flags
  let flags ← Exec.int flags
  Exec.onHeap (Heap.store fn Layout.Object.flags
    (.int (Arith.or.checked flags Layout.Object.access).1))
  return setter

/-- The setter makes the map of a function's instances, for a new object as their prototype. -/
def instanceMap (fn setter : Word) : Exec ρ Word := do
  let proto ← calls (stubs allocObject) .undefined []
  callValue calls setter fn [proto]

/-- The slots of a function's context are filled. -/
def blankContext (fn : Word) (n : Nat) : Exec ρ Unit := do
  let start ← Exec.advance fn Layout.Function.context
  let stop ← Exec.advance start (8 * (n : Int))
  Exec.fill start stop .undefined

theorem functionConstructor_run (fn code outer : Word) :
    (functionConstructor.linked stubs).run host calls (fuel + 1) self [fn, code, outer, .int n] =
    (do
      Exec.onHeap (Heap.store fn Layout.Function.code code)
      Exec.onHeap (Heap.store fn Layout.Function.contextSize (.int 0))
      let setter ← prototypeProperty stubs host calls fn
      let _ ← instanceMap stubs calls fn setter
      Exec.onHeap (Heap.store fn Layout.Function.outer outer)
      blankContext fn n
      return fn) := by
  obtain ⟨fits, shifted, _⟩ := count_fits few 56 (by decide)
  have shift : Arith.shl.checked n 3 = (8 * (n : Int), false) :=
    Arith.checked_of_fits (shl_shift n) shifted
  have count : (Word.int n).int? = some (n : Int) := Word.int?_int fits
  have bytes : (Word.int (8 * (n : Int))).int? = some (8 * (n : Int)) := Word.int?_int shifted
  rw [single_run _ _ _ _ _ rfl]
  simp [Graph.linked, functionConstructor, Body.frame, List.replicate, Body.step, Body.eval,
    Frame.get, Frame.set, Frame.pass, Frame.getAll, Body.callee, Literal.value, Effect.perform,
    Frame.int, Frame.address, constants, shift, count, bytes, Exec.advance, Exec.fill, Exec.address,
    Exec.int, prototypePair, prototypeProperty, instanceMap, blankContext]
  rfl

end

end

end Programs

end FastPath
