import FastPath.Catalogue.Declaration
import FastPath.Layout

/-!
Type checks and coercions.
-/

namespace FastPath.Catalogue

open Build

/-- The kinds with a stub `coerce/<kind>`. -/
def coercedKinds : List Kind := [.boolean]

/-- `(value)` gives `undefined` for a function and is fatal otherwise. -/
def functionCheck : Template := Build.template do
  let isInt ← block
  let isEntity ← block
  let pass ← block
  let refuse ← block
  let value ← stubArg 0
  branch (.isInt value) isInt isEntity
  enter isEntity
  let map ← load value (← offset "mapOffset")
  let flags ← load map (← offset "mapFlags")
  let mask ← int (← constant "fnFlag")
  branch (.overlap flags mask) pass refuse
  enter pass
  retUndefined
  enter isInt
  jump refuse []
  enter refuse
  fatal .notFunction

/-- `(value)` gives a value of the kind. Small integers turn into their truth, values of the kind
stay, and the host is asked about all others. -/
def coercion (k : Kind) : Template := Build.template do
  let isInt ← block
  let isEntity ← block
  let truthy ← block
  let falsy ← block
  let same ← block
  let other ← block
  let value ← stubArg 0
  branch (.isInt value) isInt isEntity
  enter isInt
  let nothing ← int 0
  branch (.compareInts .ne value nothing) truthy falsy
  enter truthy
  let yes ← literal (.boolean true)
  ret yes
  enter falsy
  let no ← literal (.boolean false)
  ret no
  enter isEntity
  let actual ← load value (← offset "mapOffset")
  let expected ← canonicalMap k
  branch (.compareWords .eq expected actual) same other
  enter same
  ret value
  enter other
  let w ← service (.coerce k) [value]
  ret w

def types : List Declaration :=
  { name := checkFunction, template := functionCheck,
    config := { constants :=
      [("mapOffset", Layout.map), ("mapFlags", Layout.Map.flags),
       ("fnFlag", Layout.Map.callable)] } } ::
  coercedKinds.map fun k =>
    { name := coerce k, template := coercion k,
      config := { constants := [("mapOffset", Layout.map)] } }

end FastPath.Catalogue
