import FastPath.Catalogue.Declaration
import FastPath.Layout

/-!
Constructors of objects and functions, and the accessors of `prototype`. A function keeps no
prototype of its own: `prototype` reads and replaces the map that its instances will get.
-/

namespace FastPath.Catalogue

open Build

/-- `(self)` gives `self` an empty dictionary. -/
def objectConstructor : Template := Build.template do
  let self ← stubArg 0
  let items ← int (← constant "minSize")
  let words ← int (← constant "itemSize")
  let slots ← arith .mul items words
  let storage ← callStub allocField [slots]
  store self storage (← offset "objectField")
  let flags ← int (← constant "defaultFlags")
  store self flags (← offset "objectFlags")
  ret self

/-- `(fn, code, outer, slots)` fills in a function. The pair for `prototype` makes every property
access go to the host, and its setter is run once so that the function has an instance map. -/
def functionConstructor : Template := Build.template do
  let fn ← stubArg 0
  let code ← stubArg 1
  store fn code (← offset "code")
  let unused ← int 0
  store fn unused (← offset "contextSize")
  let pair ← callStub allocAccessPair []
  let getter ← stubRef prototypeGetter
  store pair getter (← offset "getter")
  let setter ← stubRef prototypeSetter
  store pair setter (← offset "setter")
  let key ← literal (.atom "prototype")
  let _ ← service .setProperty [fn, key, pair]
  let old ← load fn (← offset "objectFlags")
  let access ← int (← constant "accessFlag")
  let flags ← arith .or old access
  store fn flags (← offset "objectFlags")
  let proto ← callStub allocObject []
  let _ ← call setter fn (.list [proto])
  let outer ← stubArg 2
  store fn outer (← offset "outer")
  let slots ← stubArg 3
  let shift ← int (← constant "ptrShift")
  let bytes ← arith .shl slots shift
  let context ← int (← constant "context")
  let start ← advance fn context
  let stop ← advance start bytes
  let undefined ← undefined
  fill start stop undefined
  ret fn

/-- The prototype of the receiver's instances. -/
def readPrototype : Template := Build.template do
  let self ← receiver
  let map ← load self (← offset "instanceMap")
  let proto ← load map (← offset "mapProto")
  ret proto

/-- `(proto)` gives the receiver a fresh instance map. Instance maps have no transitions. -/
def writePrototype : Template := Build.template do
  let proto ← arg 0
  let self ← receiver
  let size ← int (← constant "mapSize")
  let map ← callStub (allocTagged .map) [size]
  let hole ← hole
  store map hole (← offset "mapEdges")
  store map hole (← offset "mapTransitions")
  let flags ← int (← constant "defaultMapFlags")
  store map flags (← offset "mapFlags")
  store map proto (← offset "mapProto")
  store self map (← offset "instanceMap")
  ret self

def constructors : List Declaration :=
  [{ name := object, template := objectConstructor,
     config := { constants :=
      [("minSize", Layout.Object.items), ("itemSize", Layout.Item.words),
       ("objectField", Layout.Object.storage), ("objectFlags", Layout.Object.flags),
       ("defaultFlags", Layout.Object.plain)] } },
   { name := function, template := functionConstructor,
     config := { constants :=
      [("code", Layout.Function.code), ("contextSize", Layout.Function.contextSize),
       ("context", Layout.Function.context), ("outer", Layout.Function.outer),
       ("getter", Layout.Pair.getter), ("setter", Layout.Pair.setter),
       ("objectFlags", Layout.Object.flags), ("accessFlag", Layout.Object.access),
       ("ptrShift", Layout.shift)] } },
   { name := prototypeGetter, template := readPrototype,
     config := { constants :=
      [("instanceMap", Layout.Function.instanceMap), ("mapProto", Layout.Map.proto)] } },
   { name := prototypeSetter, template := writePrototype,
     config := { constants :=
      [("mapSize", Layout.Map.size), ("mapFlags", Layout.Map.flags),
       ("mapProto", Layout.Map.proto), ("mapEdges", Layout.Map.edges),
       ("mapTransitions", Layout.Map.transitions), ("defaultMapFlags", Layout.Map.plain),
       ("instanceMap", Layout.Function.instanceMap)] } }]

end FastPath.Catalogue
