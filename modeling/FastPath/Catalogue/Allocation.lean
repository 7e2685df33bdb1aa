import FastPath.Catalogue.Declaration
import FastPath.Layout

/-!
Allocation stubs. Only `allocTagged/<kind>` moves the cursor of the region; the others work out the
size of their entity and call it.
-/

namespace FastPath.Catalogue

open Build

/-- The kinds with a stub `allocTagged/<kind>`. -/
def taggedKinds : List Kind := [.map, .boolean, .field, .object, .function, .accessPair]

/-- `(size)` gives an entity with the canonical map of its kind. -/
def tagged (k : Kind) : Template := Build.template do
  let hasSpace ← block
  let isFull ← block
  let requested ← stubArg 0
  let size ← rounded requested
  let start ← cursor
  let limit ← limit
  let stop ← advance start size
  branch (.compareWords .le stop limit) hasSpace isFull
  enter hasSpace
  moveCursor stop
  let map ← canonicalMap k
  store start map (← offset "mapOffset")
  ret start
  enter isFull
  trap (.unhandled .collection)

/-- `(slots)` gives a field whose slots all hold the hole. -/
def field : Template := Build.template do
  let header ← int (← constant "fieldBase")
  let slots ← stubArg 0
  let shift ← int (← constant "fieldShift")
  let bytes ← arith .shl slots shift
  let size ← arith .add header bytes
  let field ← callStub (allocTagged .field) [size]
  store field slots (← offset "fieldLength")
  let data ← int (← constant "fieldData")
  let start ← advance field data
  let stop ← advance field size
  let hole ← hole
  fill start stop hole
  ret field

/-- `()` gives an object with dictionary storage. -/
def plainObject : Template := Build.template do
  let size ← int (← constant "objectSize")
  let obj ← callStub (allocTagged .object) [size]
  let _ ← callStub object [obj]
  ret obj

/-- `(code, outer, slots)` gives a function. -/
def functionObject : Template := Build.template do
  let slots ← stubArg 2
  let shift ← int (← constant "ptrShift")
  let context ← arith .shl slots shift
  let header ← int (← constant "fnBaseSize")
  let size ← arith .add header context
  let fn ← callStub (allocTagged .function) [size]
  let _ ← callStub object [fn]
  let code ← stubArg 0
  let outer ← stubArg 1
  let _ ← callStub function [fn, code, outer, slots]
  ret fn

/-- `()` gives a pair with neither accessor. -/
def accessPair : Template := Build.template do
  let size ← int (← constant "pairSize")
  let pair ← callStub (allocTagged .accessPair) [size]
  let hole ← hole
  store pair hole (← offset "getter")
  store pair hole (← offset "setter")
  let attributes ← int (← constant "defaultAttributes")
  store pair attributes (← offset "attributes")
  ret pair

/-- `(argc, fn, ...args)` gives the object that `fn` is run on; what `fn` returns is dropped. -/
def construction : Template := Build.template do
  let argc ← stubArg 0
  let fn ← stubArg 1
  let _ ← callStub checkFunction [fn]
  let obj ← callStub allocObject []
  let map ← load fn (← offset "instanceMap")
  store obj map (← offset "mapOffset")
  let _ ← call fn obj (.forward 2 argc)
  ret obj

def allocation : List Declaration :=
  taggedKinds.map (fun k =>
    { name := allocTagged k, template := tagged k,
      config := { constants := [("mapOffset", Layout.map)] } }) ++
  [{ name := allocField, template := field,
     config := { constants :=
      [("fieldBase", Layout.Field.size 0), ("fieldShift", Layout.shift),
       ("fieldLength", Layout.Field.length), ("fieldData", Layout.Field.data)] } },
   { name := allocObject, template := plainObject,
     config := { constants := [("objectSize", Layout.Object.size)] } },
   { name := allocFn, template := functionObject,
     config := { constants :=
      [("fnBaseSize", Layout.Function.size 0), ("ptrShift", Layout.shift)] } },
   { name := allocAccessPair, template := accessPair,
     config := { constants :=
      [("pairSize", Layout.Pair.size), ("getter", Layout.Pair.getter),
       ("setter", Layout.Pair.setter), ("attributes", Layout.Pair.attributes),
       ("defaultAttributes", Layout.Pair.fresh)] } },
   { name := new, template := construction,
     config := { constants :=
      [("mapOffset", Layout.map), ("instanceMap", Layout.Function.instanceMap)] } }]

end FastPath.Catalogue
