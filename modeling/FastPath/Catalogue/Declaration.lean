import FastPath.Graph.Template

/-!
Declarations of stubs, and the names under which the catalogue's stubs know each other.
-/

namespace FastPath

/-- A stub that is yet to be compiled. -/
structure Declaration where
  name : String
  template : Template
  config : Config := {}

namespace Catalogue

def allocTagged (k : Kind) : String := "allocTagged/" ++ k.name
def allocField : String := "allocField"
def allocObject : String := "allocObject"
def allocFn : String := "allocFn"
def allocAccessPair : String := "allocAccessPair"
def new : String := "new"

def object : String := "Object"
def function : String := "Function"
def prototypeGetter : String := "FunctionProtoGetter"
def prototypeSetter : String := "FunctionProtoSetter"

def checkFunction : String := "checkFunction"
def coerce (k : Kind) : String := "coerce/" ++ k.name

def cacheMiss : String := "getPropertySlot_Miss"

end Catalogue

end FastPath
