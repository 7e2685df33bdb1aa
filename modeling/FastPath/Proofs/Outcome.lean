import FastPath.Proofs.Traversal

/-! What actions lead to. `Yields act s Q E` says of one run of an action, started in `s`, that it
ends with a result and a state as `Q` says or fails as `E` says. Chains of actions are taken apart
by `Yields.bind`, one action at a time. -/

namespace FastPath

def Yields (act : EStateM ε σ α) (s : σ) (Q : α → σ → Prop) (E : ε → σ → Prop) : Prop :=
  match act s with
  | .ok a t => Q a t
  | .error e t => E e t

namespace Yields

variable {act : EStateM ε σ α} {next : α → EStateM ε σ β} {s t : σ} {a : α} {e : ε}
  {Q Q' : α → σ → Prop} {R : β → σ → Prop} {E E' : ε → σ → Prop}

theorem of_ok (done : act s = .ok a t) (met : Q a t) : Yields act s Q E := by
  rw [Yields, done]
  exact met

theorem of_error (failed : act s = .error e t) (met : E e t) : Yields act s Q E := by
  rw [Yields, failed]
  exact met

theorem ok (yields : Yields act s Q E) (done : act s = .ok a t) : Q a t := by
  rw [Yields, done] at yields
  exact yields

theorem error (yields : Yields act s Q E) (failed : act s = .error e t) : E e t := by
  rw [Yields, failed] at yields
  exact yields

/-- A single run can be looked at. -/
instance [∀ a t, Decidable (Q a t)] [∀ e t, Decidable (E e t)] : Decidable (Yields act s Q E) :=
  match ran : act s with
  | .ok a t => decidable_of_iff (Q a t) ⟨of_ok ran, fun yields => yields.ok ran⟩
  | .error e t => decidable_of_iff (E e t) ⟨of_error ran, fun yields => yields.error ran⟩

/-- The action does not fail. -/
theorem returns (yields : Yields act s Q fun _ _ => False) : ∃ a t, act s = .ok a t ∧ Q a t := by
  cases ran : act s with
  | ok a t => exact ⟨a, t, rfl, yields.ok ran⟩
  | error e t => exact (yields.error ran).elim

/-- The action fails. -/
theorem fails (yields : Yields act s (fun _ _ => False) E) : ∃ e t, act s = .error e t ∧ E e t := by
  cases ran : act s with
  | ok a t => exact (yields.ok ran).elim
  | error e t => exact ⟨e, t, rfl, yields.error ran⟩

theorem pure (met : Q a s) : Yields (pure a) s Q E := met

theorem throw (met : E e s) : Yields (throw e) s Q E := met

theorem bind (first : Yields act s (fun a t => Yields (next a) t R E) E) :
    Yields (act >>= next) s R E := by
  change Yields (EStateM.bind act next) s R E
  unfold Yields EStateM.bind at *
  cases done : act s with
  | ok a t =>
    rw [done] at first
    exact first
  | error e t =>
    rw [done] at first
    exact first

/-- The first action of a chain is known to succeed. -/
theorem step (done : act s = .ok a t) (rest : Yields (next a) t R E) :
    Yields (act >>= next) s R E :=
  bind (of_ok done rest)

theorem congr {act' : EStateM ε σ α} (same : act s = act' s) (yields : Yields act' s Q E) :
    Yields act s Q E := by
  rw [Yields, same]
  exact yields

theorem mono (yields : Yields act s Q E) (results : ∀ a t, Q a t → Q' a t)
    (failures : ∀ e t, E e t → E' e t) : Yields act s Q' E' := by
  unfold Yields at *
  split at yields
  · exact results _ _ yields
  · exact failures _ _ yields

/-- Two things that are known of one run. -/
theorem and (first : Yields act s Q E) (second : Yields act s Q' E') :
    Yields act s (fun a t => Q a t ∧ Q' a t) fun e t => E e t ∧ E' e t := by
  cases ran : act s with
  | ok a t => exact .of_ok ran ⟨first.ok ran, second.ok ran⟩
  | error e t => exact .of_error ran ⟨first.error ran, second.error ran⟩

/-- The last action of a chain may say more than is needed. -/
theorem bind_mono (first : Yields act s Q E)
    (rest : ∀ a t, Q a t → Yields (next a) t R E) : Yields (act >>= next) s R E :=
  bind (first.mono rest fun _ _ met => met)

end Yields

end FastPath
