import FastPath.Layout

/-!
The region that entities are carved from. A cursor moves forward through it and never back, and
requests are rounded up to whole words, so that what one request was given is never given again.
-/

namespace FastPath

/-- The least multiple of the word size that is at least `n`. It is exact: that a size can be
rounded up within 64 bits is checked where the heap is asked for it. -/
def roundUp (n : Nat) : Nat := (n + 7) / 8 * 8

structure Region where
  cursor : Nat
  /-- One past the last byte. -/
  limit : Nat
  deriving DecidableEq, Inhabited

namespace Region

def ofBounds (start limit : Nat) : Region := ⟨roundUp start, limit⟩

def available (r : Region) : Nat := r.limit - r.cursor

/-- The start of `n` fresh bytes, and the region without them. -/
def reserve? (r : Region) (n : Nat) : Option (Nat × Region) :=
  let after := r.cursor + roundUp n
  if r.limit < after then none else some (r.cursor, { r with cursor := after })

/-- Moves the cursor to a word boundary that is neither behind it nor beyond the limit. -/
def moveTo? (r : Region) (cursor : Nat) : Option Region :=
  if cursor % 8 = 0 ∧ r.cursor ≤ cursor ∧ cursor ≤ r.limit then
    some { r with cursor := cursor }
  else none

end Region

theorem le_roundUp (n : Nat) : n ≤ roundUp n := by
  unfold roundUp; omega

theorem roundUp_lt (n : Nat) : roundUp n < n + 8 := by
  unfold roundUp; omega

theorem roundUp_mod (n : Nat) : roundUp n % 8 = 0 := by
  unfold roundUp; omega

theorem roundUp_of_mod {n : Nat} (h : n % 8 = 0) : roundUp n = n := by
  unfold roundUp; omega

end FastPath
