/-!
Byte offsets and sizes of heap entities. Every field is one word, and the first word of an entity
points to its map.

```text
map       | map | flags | prototype | edges | transitions |
object    | map | flags | storage |
field     | map | length | slot 0 | slot 1 | ...
function  | map | flags | storage | code | instance map | outer | context size | context 0 | ...
pair      | map | getter | setter | attributes |
```
-/

namespace FastPath.Layout

def word : Nat := 8

/-- The shift that turns a count of words into a count of bytes. -/
def shift : Nat := 3

/-- Where any entity keeps its map. -/
def map : Nat := 0

namespace Map

def flags : Nat := 8
def proto : Nat := 16
def edges : Nat := 24
def transitions : Nat := 32
def size : Nat := 40

/-- Instances have no special powers. -/
def plain : Int := 0

/-- Instances can be called. -/
def callable : Int := 1

end Map

namespace Object

def flags : Nat := 8
def storage : Nat := 16
def size : Nat := 24

/-- How many dictionary items a fresh object has room for. -/
def items : Nat := 8

/-- Dictionary storage without accessors. -/
def plain : Int := 0

/-- Some property is an accessor pair, so that every access goes to the host. -/
def access : Int := 1

/-- A slot number indexes the storage directly. -/
def dense : Int := 2

end Object

namespace Field

def length : Nat := 8
def data : Nat := 16

/-- The exact size. One that 64 bits do not hold is refused where it is asked for. -/
def size (slots : Nat) : Nat := data + slots * word

end Field

namespace Item

/-- A dictionary item is three words of a field. -/
def words : Nat := 3
def key : Nat := 0
def value : Nat := 1
def attributes : Nat := 2

end Item

namespace Function

def code : Nat := 24
def instanceMap : Nat := 32
def outer : Nat := 40
def contextSize : Nat := 48
def context : Nat := 56

def size (slots : Nat) : Nat := context + slots * word

end Function

namespace Pair

def getter : Nat := 8
def setter : Nat := 16
def attributes : Nat := 24
def size : Nat := 32

/-- Attributes of a fresh pair: seen by enumeration and open to redefinition. -/
def fresh : Int := 6

/-- Attributes of a plain data property, which may also change its value. -/
def data : Int := 7

end Pair

namespace Code

def index : Nat := 8
def size : Nat := 16

end Code

namespace Boolean

def value : Nat := 8
def size : Nat := 16

end Boolean

namespace Oddball

def kind : Nat := 8
def size : Nat := 16

def undefined : Int := 0
def null : Int := 1
def hole : Int := 2

end Oddball

namespace Atom

def id : Nat := 8
def size : Nat := 16

end Atom

end FastPath.Layout
