/-!
Pins. While any guard is held, nothing in the heap may move.
-/

namespace FastPath

/-- How many guards are held. -/
structure Pin where
  depth : Nat := 0
  deriving DecidableEq, Inhabited

namespace Pin

def enter (p : Pin) : Pin := ⟨p.depth + 1⟩

/-- Drops a guard, if one is held. -/
def leave (p : Pin) : Pin := ⟨p.depth - 1⟩

def isPinned (p : Pin) : Bool := 0 < p.depth

@[simp] theorem leave_enter (p : Pin) : p.enter.leave = p := rfl

end Pin

end FastPath
