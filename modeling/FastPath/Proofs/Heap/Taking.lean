import FastPath.Proofs.Heap.Onward
import FastPath.Proofs.Heap.Reservation

/-! What an allocation takes off the region: the bytes at the cursor, whatever it writes to them
before it returns their address. -/

namespace FastPath.Heap

/-- `w` points to `bytes` bytes that were handed out in between. -/
structure Taken (h : Heap) (bytes : Nat) (w : Word) (h' : Heap) : Prop where
  address : w = .pointer h.region.cursor
  start : 8 ≤ h.region.cursor
  cursor : h.region.cursor + roundUp bytes ≤ h'.region.cursor

/-- With the cursor at a word boundary, the action takes the bytes or fails. -/
def Takes (bytes : Nat) (act : HeapM Word) : Prop :=
  ∀ h w h', h.region.cursor % 8 = 0 → act h = .ok w h' → h.Taken bytes w h'

/-- Actions that return `w` or fail. -/
def Returns (w : Word) (act : HeapM Word) : Prop :=
  ∀ h, Yields act h (fun w' h' => w' = w ∧ h.Onward h') fun _ _ => True

variable {h h' : Heap} {w : Word} {bytes : Nat}

namespace Returns

theorem pure (w : Word) : Returns w (pure w) := fun h => .pure ⟨rfl, .refl h⟩

theorem throw (e : HeapError) : Returns w (throw e) := fun _ => .throw trivial

theorem after {act : HeapM α} {next : α → HeapM Word} (first : Advances act)
    (rest : ∀ a, Returns w (next a)) : Returns w (act >>= next) := by
  intro h
  apply Yields.bind
  apply (first h).mono
  · intro a h' onward
    apply (rest a h').mono
    · rintro _ _ ⟨same, further⟩
      exact ⟨same, onward.trans further⟩
    · exact fun _ _ _ => trivial
  · exact fun _ _ _ => trivial

end Returns

theorem Takes.bind {act : HeapM Word} {next : Word → HeapM Word} (first : Takes bytes act)
    (rest : ∀ w, Returns w (next w)) : Takes bytes (act >>= next) := by
  intro h w h' aligned done
  obtain ⟨w', h₁, made, finished⟩ := estate_bind_ok.mp done
  have taken := first h w' h₁ aligned made
  obtain ⟨rfl, onward⟩ := (rest w' h₁).ok finished
  exact { taken with cursor := Nat.le_trans taken.cursor onward.cursor }

theorem Takes.yields {act : HeapM Word} (takes : Takes bytes act) (advances : Advances act)
    (aligned : h.region.cursor % 8 = 0) :
    Yields act h (fun w h' => h.Onward h' ∧ h.Taken bytes w h') fun _ h' => h.Onward h' := by
  have onward := advances h
  cases ran : act h with
  | ok w h' => exact .of_ok ran ⟨onward.ok ran, takes h w h' aligned ran⟩
  | error e h' => exact .of_error ran (onward.error ran)

theorem allocatePair_advances : Advances allocatePair :=
  (allocate_advances _ _).bind fun w => (store_advances _ _ _).bind fun _ =>
    (store_advances _ _ _).bind fun _ => (store_advances _ _ _).bind fun _ => .pure w

end FastPath.Heap
