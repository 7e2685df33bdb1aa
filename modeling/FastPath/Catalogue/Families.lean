import FastPath.Catalogue.Allocation
import FastPath.Catalogue.Construction
import FastPath.Catalogue.Operator
import FastPath.Catalogue.Property
import FastPath.Catalogue.Types

/-!
The families that make up the catalogue.
-/

namespace FastPath.Catalogue

inductive Family where
  | property
  | allocation
  | construction
  | types
  | unary
  | binary
  deriving DecidableEq, Inhabited

namespace Family

def all : List Family := [property, allocation, construction, types, unary, binary]

def name : Family → String
  | property => "property"
  | allocation => "alloc"
  | construction => "construct"
  | types => "types"
  | unary => "unary"
  | binary => "binary"

def declarations : Family → List Declaration
  | property => properties
  | allocation => Catalogue.allocation
  | construction => constructors
  | types => Catalogue.types
  | unary => unaryOperators
  | binary => binaryOperators

end Family

/-- Names of the catalogue's stubs, family by family. -/
def names : List String := Family.all.flatMap fun f => f.declarations.map Declaration.name

end FastPath.Catalogue
