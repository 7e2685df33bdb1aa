import FastPath.Catalogue.Declaration
import FastPath.Layout

/-!
Stubs that access a property in a slot known from an inline cache. A slot that is a small integer
is read or written in place, provided the object has no accessors; everything else is left to the
host. The offset of the slot is worked out with overflow checks, and a slot beyond all offsets is a
miss for a read and a fatal error for a write.
-/

namespace FastPath

inductive PropertyOp where
  | load
  | store
  | delete
  deriving DecidableEq, Inhabited

namespace PropertyOp

def all : List PropertyOp := [load, store, delete]

def stubName : PropertyOp → String
  | load => "loadPropertySlot"
  | store => "storePropertySlot"
  | delete => "deletePropertySlot"

/-- What the host does where the slot is of no use. -/
def service : PropertyOp → Service
  | load => .getProperty
  | store => .setProperty
  | delete => .deleteProperty

end PropertyOp

namespace Catalogue

open Build

/-- `(obj, key, update)` asks the host for the slot of a property on behalf of a cache. -/
def miss : Template := Build.template do
  let cache ← cache
  let obj ← stubArg 0
  let key ← stubArg 1
  let update ← stubArg 2
  let slot ← service .getPropertySlot [cache, obj, key, update]
  ret slot

/-- Adds to or multiplies `v` by a constant, and leaves for `overflow` if the result is too big. -/
def checkedStep (op : Arith) (v : Var) (name : String) (overflow : BlockId) : Build Var := do
  let operand ← int (← constant name)
  let result ← arith op v operand
  guardOverflow overflow
  return result

/-- `(obj, key, slot)`, and a value where the property is written. -/
def propertySlot (op : PropertyOp) : Template := Build.template do
  let access ← block
  let plain ← block
  let found ← block
  let notFound ← block
  let dense ← block
  let keyed ← block
  let tooBig ← block
  let inPlace ← block
  let place ← param inPlace
  let host ← block
  let obj ← stubArg 0
  let key ← stubArg 1
  let slot ← stubArg 2
  let value ← match op with
    | .store => some <$> stubArg 3
    | _ => pure none
  let flags ← load obj (← offset "objectFlags")
  let accessFlag ← int (← constant "accessFlag")
  branch (.overlap flags accessFlag) access plain
  enter plain
  branch (.isInt slot) found notFound
  enter access
  jump host []
  enter found
  let denseFlag ← int (← constant "denseFlag")
  branch (.overlap flags denseFlag) dense keyed
  enter dense
  let bytes ← checkedStep .shl slot "ptrShift" tooBig
  let denseOffset ← checkedStep .add bytes "fieldData" tooBig
  jump inPlace [denseOffset]
  enter keyed
  let words ← checkedStep .mul slot "itemSize" tooBig
  let valueWord ← checkedStep .add words "itemValue" tooBig
  let bytes ← checkedStep .shl valueWord "ptrShift" tooBig
  let keyedOffset ← checkedStep .add bytes "fieldData" tooBig
  jump inPlace [keyedOffset]
  enter tooBig
  match op with
  | .load => jump host []
  | _ => fatal .unreachable
  enter inPlace
  let storage ← load obj (← offset "objectField")
  match op, value with
  | .load, _ =>
    let w ← loadAt storage place
    ret w
  | .store, some value =>
    storeAt storage value place
    let undefined ← undefined
    ret undefined
  | _, _ => fatal .unreachable
  enter notFound
  match op with
  | .load => jump host []
  | .store => fatal .unreachable
  | .delete => ret slot
  enter host
  let w ← service op.service ([obj, key] ++ value.toList)
  ret w

/-- A stub that looks slots up for the given cache. -/
def missDeclaration (name : String) (cache : CacheId) : Declaration :=
  { name, template := miss, config := { cache := some cache } }

def slotConfig : Config :=
  { constants :=
    [("objectFlags", Layout.Object.flags), ("objectField", Layout.Object.storage),
     ("accessFlag", Layout.Object.access), ("denseFlag", Layout.Object.dense),
     ("ptrShift", Layout.shift), ("fieldData", Layout.Field.data),
     ("itemSize", Layout.Item.words), ("itemValue", Layout.Item.value)] }

def properties : List Declaration :=
  missDeclaration cacheMiss 0 ::
    PropertyOp.all.map fun op =>
      { name := op.stubName, template := propertySlot op, config := slotConfig }

end Catalogue

end FastPath
