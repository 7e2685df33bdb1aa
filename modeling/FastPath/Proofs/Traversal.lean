import Mathlib.Data.List.Induction

/-! Traversals of a list by actions that may fail. A successful traversal is pointwise; a failed
one stops at some element, after a successful traversal of those before it. -/

namespace FastPath

theorem except_bind_ok {act : Except ε α} {next : α → Except ε β} {b : β} :
    (act >>= next) = .ok b ↔ ∃ a, act = .ok a ∧ next a = .ok b := by
  cases act <;> simp [bind, Except.bind]

theorem except_bind_error {act : Except ε α} {next : α → Except ε β} {e : ε} :
    (act >>= next) = .error e ↔ act = .error e ∨ ∃ a, act = .ok a ∧ next a = .error e := by
  cases act <;> simp [bind, Except.bind]

theorem except_toOption_some {act : Except ε α} : act.toOption = some a ↔ act = .ok a := by
  cases act <;> simp [Except.toOption]

theorem except_mapM_ok {f : α → Except ε β} {xs : List α} {ys : List β} (h : xs.mapM f = .ok ys) :
    ∀ x ∈ xs, ∃ y, f x = .ok y := by
  induction xs generalizing ys with
  | nil => exact fun _ absent => absurd absent List.not_mem_nil
  | cons x xs ih =>
    rw [List.mapM_cons] at h
    obtain ⟨y, met, h⟩ := except_bind_ok.mp h
    obtain ⟨rest, tail, _⟩ := except_bind_ok.mp h
    exact List.forall_mem_cons.mpr ⟨⟨y, met⟩, ih tail⟩

theorem except_mapM_forall₂ {f : α → Except ε β} {xs : List α} {ys : List β}
    (h : xs.mapM f = .ok ys) : List.Forall₂ (fun x y => f x = .ok y) xs ys := by
  induction xs generalizing ys with
  | nil =>
    cases h
    exact .nil
  | cons x xs ih =>
    rw [List.mapM_cons] at h
    obtain ⟨y, met, h⟩ := except_bind_ok.mp h
    obtain ⟨rest, tail, h⟩ := except_bind_ok.mp h
    cases h
    exact .cons met (ih tail)

/-- Related lists hold related elements at the same places and end together. -/
theorem forall₂_getElem? {R : α → β → Prop} {xs : List α} {ys : List β}
    (related : List.Forall₂ R xs ys) (i : Nat) :
    (∃ x y, xs[i]? = some x ∧ ys[i]? = some y ∧ R x y) ∨ (xs[i]? = none ∧ ys[i]? = none) := by
  induction related generalizing i with
  | nil => exact .inr ⟨rfl, rfl⟩
  | cons head _ ih =>
    cases i with
    | zero => exact .inl ⟨_, _, rfl, rfl, head⟩
    | succ i => exact ih i

theorem forall₂_mem {R : α → β → Prop} {xs : List α} {ys : List β}
    (related : List.Forall₂ R xs ys) (member : y ∈ ys) : ∃ x ∈ xs, R x y := by
  induction related with
  | nil => cases member
  | cons head _ ih =>
    obtain rfl | later := List.mem_cons.mp member
    · exact ⟨_, List.mem_cons_self, head⟩
    · obtain ⟨x, inside, same⟩ := ih later
      exact ⟨x, List.mem_cons_of_mem _ inside, same⟩

theorem mem_modify {f : α → α} {xs : List α} (h : x ∈ xs.modify i f) :
    x ∈ xs ∨ ∃ y ∈ xs, x = f y := by
  obtain ⟨j, found⟩ := List.mem_iff_getElem?.mp h
  rw [List.getElem?_modify] at found
  obtain ⟨y, held, rfl⟩ := Option.map_eq_some_iff.mp found
  have member := List.mem_of_getElem? held
  split
  · exact .inr ⟨y, member, rfl⟩
  · exact .inl member

/-- A failed traversal stops at the first element that fails. -/
theorem except_mapM_error_split {f : α → Except ε β} {xs : List α} {e : ε}
    (h : xs.mapM f = .error e) :
    ∃ before x after, xs = before ++ x :: after ∧ (∀ y ∈ before, ∃ z, f y = .ok z) ∧
      f x = .error e := by
  induction xs with
  | nil => cases h
  | cons x xs ih =>
    rw [List.mapM_cons] at h
    obtain failed | ⟨y, met, h⟩ := except_bind_error.mp h
    · exact ⟨[], x, xs, rfl, nofun, failed⟩
    · obtain failed | ⟨_, _, h⟩ := except_bind_error.mp h
      · obtain ⟨before, z, after, rfl, fine, failed⟩ := ih failed
        exact ⟨x :: before, z, after, rfl, List.forall_mem_cons.mpr ⟨⟨y, met⟩, fine⟩, failed⟩
      · cases h

theorem except_mapM_error {f : α → Except ε β} {xs : List α} {e : ε} (h : xs.mapM f = .error e) :
    ∃ x ∈ xs, f x = .error e := by
  obtain ⟨before, x, after, rfl, _, failed⟩ := except_mapM_error_split h
  exact ⟨x, List.mem_append_right _ List.mem_cons_self, failed⟩

theorem estate_bind_ok {act : EStateM ε σ α} {next : α → EStateM ε σ β} {s s' : σ} {b : β} :
    (act >>= next) s = .ok b s' ↔ ∃ a t, act s = .ok a t ∧ next a t = .ok b s' := by
  change EStateM.bind act next s = _ ↔ _
  unfold EStateM.bind
  cases act s <;> simp

theorem estate_bind_error {act : EStateM ε σ α} {next : α → EStateM ε σ β} {s s' : σ} {e : ε} :
    (act >>= next) s = .error e s' ↔
      act s = .error e s' ∨ ∃ a t, act s = .ok a t ∧ next a t = .error e s' := by
  change EStateM.bind act next s = _ ↔ _
  unfold EStateM.bind
  cases act s <;> simp

theorem estate_pure (a : α) (s : σ) : (pure a : EStateM ε σ α) s = .ok a s := rfl

theorem estate_bind_of_ok {act : EStateM ε σ α} {next : α → EStateM ε σ β} {s t : σ} {a : α}
    (first : act s = .ok a t) : (act >>= next) s = next a t := by
  change EStateM.bind act next s = _
  rw [EStateM.bind, first]

theorem estate_bind_of_error {act : EStateM ε σ α} {next : α → EStateM ε σ β} {s t : σ} {e : ε}
    (first : act s = .error e t) : (act >>= next) s = .error e t := by
  change EStateM.bind act next s = _
  rw [EStateM.bind, first]

theorem estate_bind_congr {act act' : EStateM ε σ α} {next : α → EStateM ε σ β} {s : σ}
    (same : act s = act' s) : (act >>= next) s = (act' >>= next) s := by
  change EStateM.bind act next s = EStateM.bind act' next s
  rw [EStateM.bind, EStateM.bind, same]

/-- What each element preserves of the elements met so far and their results holds after all of
them. -/
theorem estate_mapM_results {f : α → EStateM ε σ β} {xs : List α} {s : σ}
    {I : List α → List β → σ → Prop} (start : I [] [] s)
    (next : ∀ before x after done t y u, xs = before ++ x :: after →
      before.mapM f s = .ok done t → I before done t → f x t = .ok y u →
      I (before ++ [x]) (done ++ [y]) u)
    {ys : List β} {s' : σ} (h : xs.mapM f s = .ok ys s') : I xs ys s' := by
  induction xs using List.reverseRecOn generalizing ys s' with
  | nil =>
    cases h
    exact start
  | append_singleton before x ih =>
    rw [List.mapM_append] at h
    obtain ⟨done, t, first, h⟩ := estate_bind_ok.mp h
    obtain ⟨rest, u, last, h⟩ := estate_bind_ok.mp h
    rw [List.mapM_cons] at last
    obtain ⟨y, v, met, last⟩ := estate_bind_ok.mp last
    cases last
    cases h
    refine next before x [] done t y _ rfl first (ih ?_ first) met
    intro before' x' after' done' t' y' u' split
    exact next before' x' (after' ++ [x]) done' t' y' u' (by simp [split])

theorem estate_mapM_ok {f : α → EStateM ε σ β} {xs : List α} {s : σ} {I : List α → σ → Prop}
    (start : I [] s)
    (next : ∀ before x after done t y u, xs = before ++ x :: after →
      before.mapM f s = .ok done t → I before t → f x t = .ok y u → I (before ++ [x]) u)
    {ys : List β} {s' : σ} (h : xs.mapM f s = .ok ys s') : I xs s' :=
  estate_mapM_results (I := fun met _ => I met) start next h

theorem estate_mapM_error_split {f : α → EStateM ε σ β} {xs : List α} {s s' : σ}
    (h : xs.mapM f s = .error e s') :
    ∃ before x after done t, xs = before ++ x :: after ∧ before.mapM f s = .ok done t ∧
      f x t = .error e s' := by
  induction xs generalizing s with
  | nil => cases h
  | cons x xs ih =>
    rw [List.mapM_cons] at h
    obtain failed | ⟨y, t, met, h⟩ := estate_bind_error.mp h
    · exact ⟨[], x, xs, [], s, rfl, rfl, failed⟩
    · obtain failed | ⟨_, _, _, done⟩ := estate_bind_error.mp h
      · obtain ⟨before, z, after, done, u, rfl, first, last⟩ := ih failed
        refine ⟨x :: before, z, after, y :: done, u, rfl, ?_, last⟩
        rw [List.mapM_cons]
        exact estate_bind_ok.mpr ⟨y, t, met, estate_bind_ok.mpr ⟨done, u, first, rfl⟩⟩
      · cases done

/-- Only the calls that are made matter. -/
theorem estate_mapM_congr {f g : α → EStateM ε σ β} {xs : List α} {s : σ}
    (same : ∀ before x after done t, xs = before ++ x :: after → before.mapM f s = .ok done t →
      f x t = g x t) : xs.mapM f s = xs.mapM g s := by
  induction xs generalizing s with
  | nil => rfl
  | cons x xs ih =>
    have head : f x s = g x s := same [] x xs [] s rfl rfl
    rw [List.mapM_cons, List.mapM_cons]
    change EStateM.bind _ _ _ = EStateM.bind _ _ _
    simp only [EStateM.bind, ← head]
    cases first : f x s with
    | error e t => rfl
    | ok y t =>
      have tail : xs.mapM f t = xs.mapM g t := by
        refine ih fun before z after done u split met => ?_
        refine same (x :: before) z after (y :: done) u (by rw [split, List.cons_append]) ?_
        rw [List.mapM_cons]
        exact estate_bind_ok.mpr ⟨y, t, first, estate_bind_ok.mpr ⟨done, u, met, rfl⟩⟩
      change EStateM.bind _ _ _ = EStateM.bind _ _ _
      simp only [EStateM.bind, tail]

end FastPath
