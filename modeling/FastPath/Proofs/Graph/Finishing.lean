import FastPath.Proofs.Graph.Calls
import Mathlib.Data.List.Nodup

/-! Finishing a draft. A graph comes out of it exactly if every call made sense and every block is
well formed in the end, and it holds what the calls wrote. Otherwise the error is about the first
call that made no sense or, if there is none, about the first block that is not well formed. -/

namespace FastPath

/-- The variable that an instruction defines. -/
def Inst.defined? : Inst σ → Option Var
  | .define v _ => some v
  | .perform _ => none

/-- The variables that a block defines, as parameters and by instructions. -/
def Block.defines (b : Block σ) : List Var := b.params ++ b.insts.filterMap Inst.defined?

namespace Draft

namespace Past

/-- The targets of an exit are there, and take in the end what the exit passes to them. -/
def Fits (past : Past) : Exit → Prop
  | .jump target args => target < past.blockCount ∧ (params target past).length = args.length
  | .branch _ yes no => ∀ b ∈ [yes, no], b < past.blockCount ∧ params b past = []
  | .ret _ | .trap _ => True

/-- Calls that mention only variables that calls before them handed out. -/
def Known : Past → Prop
  | [] => True
  | c :: past => Known past ∧ ∀ v ∈ c.vars, v < Past.varCount past

section

variable {stub : String} {past : Past} {b : BlockId}

end

/-- The variables that are defined in a block. -/
def defined (b : BlockId) (past : Past) : List Var :=
  params b past ++ (insts b past).filterMap Inst.defined?

/-- The block that gets the variable that a call hands out. -/
def receiver (past : Past) : Call → Option BlockId
  | .param b => some b
  | .define _ => some (Past.current past)
  | .block | .enter _ | .perform _ | .leave _ | .guardOverflow _ => none

section Variables

variable {past : Past} {c : Call} {b b' : BlockId} {v : Var}

end Variables

end Past

open Past

section Closing

variable {stub : String} {past : Past} {b : BlockId}

/-- How many parameters each block has in the end. -/
def arities (past : Past) : List Nat :=
  (List.range past.blockCount).map fun b => (params b past).length

/-- A check that may have found something wrong. -/
def verdict (r : Option GraphError) : Except GraphError Unit :=
  match r with
  | some e => .error e
  | none => .ok ()

/-- The finished form of what was written into a block. -/
def closed (stub : String) (past : Past) (b : BlockId) : Except GraphError (Block String) :=
  closeBlock stub (arities past) (written past b) b

section

variable (few : past.varCount < 0x100000000)

include few

end

end Closing

section Finishing

variable {stub : String} {past : Past}

section

variable (few : past.varCount < 0x100000000)

include few

end

/-- What comes out of finishing a draft is what was written. -/
structure Reads (stub : String) (past : Past) (g : Graph) : Prop where
  stub : g.stub = stub
  varCount : g.varCount = past.varCount
  length : g.blocks.length = past.blockCount
  blocks : ∀ b x, g.blocks[b]? = some x →
    x.params = params b past ∧ x.insts = insts b past ∧ exits b past = [x.exit]

namespace Reads

variable {g : Graph} (reads : Reads stub past g)

include reads

theorem defines : g.blocks.flatMap Block.defines =
    (List.range past.blockCount).flatMap fun b => defined b past := by
  rw [List.flatMap_def, List.flatMap_def]
  congr 1
  apply List.ext_getElem?
  intro b
  rw [List.getElem?_map, List.getElem?_map]
  cases found : g.blocks[b]? with
  | none =>
    have beyond : past.blockCount ≤ b := reads.length ▸ List.getElem?_eq_none_iff.mp found
    rw [List.getElem?_eq_none (by simpa using beyond)]
    rfl
  | some x =>
    have known : b < past.blockCount := reads.length ▸ (List.getElem?_eq_some_iff.mp found).1
    obtain ⟨params, insts, _⟩ := reads.blocks b x found
    rw [List.getElem?_range known]
    simp only [Option.map_some, Block.defines, defined, params, insts]

end Reads

end Finishing

end Draft

end FastPath
