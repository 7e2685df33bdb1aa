import FastPath.Proofs.Heap.Chain
import FastPath.Proofs.Heap.Lineage

/-! Chains of prototypes over time. The map of an entity and the prototypes of all maps stay, so the
chain of an entity that is there goes on as it does now, and never comes to a map that is made
later. -/

namespace FastPath

/-- The chain of the entity ends, and has nothing but maps of the inventory on it. -/
def Inventory.Chained (Γ : Inventory shared) (h : Heap) (w : Word) : Prop :=
  ∃ k, h.EndsAt w k ∧ ∀ j ≤ k, ∃ m, h.mapAlong w j = .ok (some m) ∧ Γ.Map m

namespace Heap

variable {strict shared : Bool} {Γ Γ' : Inventory shared} {h h' : Heap} {m w : Word} {i k : Nat}
  {x : Shape} {New : Nat → Shape → Prop}

theorem readable_of_chained (chained : Γ.Chained h w) : h.Readable w m := by
  obtain ⟨k, ended, before⟩ := chained
  refine readable_of_ends ended fun j reached => ?_
  obtain ⟨m', along, _⟩ := before j reached
  rw [along]
  rfl

/-- A chain that has nothing but maps of the inventory on it misses all others. -/
theorem open_misses (chained : Γ.Chained h w) (other : ¬ Γ.Map m) :
    ∃ k, h.OpenUntil w m k ∧ h.mapAlong w k ≠ .ok (some m) ∧ h.EndsAt w k := by
  obtain ⟨k, ended, before⟩ := chained
  rcases first_decides h w m with always | ⟨i, open_, met | ⟨unmet, ended'⟩⟩
  · exact absurd ended (always (k + 1) k (Nat.lt_succ_self k)).2
  · -- a chain that is open until the map is no longer than to its end
    have reached : i ≤ k := Nat.le_of_not_lt fun later => (open_ k later).2 ended
    obtain ⟨m', along, map⟩ := before i reached
    cases along.symm.trans met
    exact absurd map other
  · exact ⟨i, open_, unmet, ended'⟩

section

variable (typed : Typed strict Γ h)

include typed

/-- Maps name values as prototypes. -/
theorem Typed.proto_data (map : Γ.Map m) : ∃ p, h.load m Layout.Map.proto = .ok p ∧ Γ.Data p := by
  rcases map with ⟨k, rfl⟩ | found
  · exact ⟨.null, typed.load_canonical_proto k, .inr ⟨.oddball, typed.rooted.null, rfl, nofun⟩⟩
  · exact ⟨_, typed.load found (i := 2) (by decide),
      (typed.holds found 2 (by decide : 2 < 5)).1⟩

theorem Typed.chained (found : Γ w.toNat = some x) (finished : x.finished = true) :
    Γ.Chained h w := by
  -- on from the `k`-th map, which is the closer to the end the smaller its rank
  have onward (m : Word) (map : Γ.Map m) (k : Nat) (along : h.mapAlong w k = .ok (some m))
      (before : ∀ j ≤ k, ∃ m, h.mapAlong w j = .ok (some m) ∧ Γ.Map m) : Γ.Chained h w := by
    induction rank : m.rank using Nat.strongRecOn generalizing m k with
    | ind n ih =>
      subst rank
      obtain ⟨p, loaded, next⟩ := typed.onward map
      rcases next with int | ⟨entity, m', mapped, map', near⟩
      · exact ⟨k, ⟨m, along, .inl (mapBeyond_ok.mpr ⟨p, loaded, .inl ⟨int, rfl⟩⟩)⟩, before⟩
      have beyond : h.mapBeyond m = .ok (some m') :=
        mapBeyond_ok.mpr ⟨p, loaded, .inr ⟨entity, m', mapped, rfl⟩⟩
      rcases near with rfl | closer
      · exact ⟨k, ⟨m', along, .inr beyond⟩, before⟩
      · have along' : h.mapAlong w (k + 1) = .ok (some m') := by
          rw [mapAlong, along]
          exact beyond
        refine ih _ closer m' map' (k + 1) along' (fun j reached => ?_) rfl
        rcases Nat.lt_or_eq_of_le reached with earlier | rfl
        · exact before j (Nat.le_of_lt_succ earlier)
        · exact ⟨m', along', map'⟩
  obtain ⟨m, mapped, _, map⟩ := typed.mapOf found finished
  have map : Γ.Map m := map.imp (fun canonical => ⟨_, canonical⟩) fun instance_ => instance_.2.1
  have along : h.mapAlong w 0 = .ok (some m) := by
    rw [mapAlong, mapped]
    rfl
  refine onward m map 0 along fun j reached => ?_
  obtain rfl := Nat.le_zero.mp reached
  exact ⟨m, along, map⟩

end

section

variable (evolves : Evolves New Γ h Γ' h') (typed : Typed strict Γ h) (typed' : Typed strict Γ' h')

include evolves typed typed'

theorem Evolves.load (found : Γ w.toNat = some x) (inside : i < x.words)
    (still : x.frozen i = true) : h'.load w (8 * i) = h.load w (8 * i) := by
  rw [typed'.load (evolves.stays _ _ found) inside, typed.load found inside,
    evolves.frozen found i inside still]

theorem Evolves.mapOf (found : Γ w.toNat = some x) (finished : x.finished = true) :
    h'.mapOf w = h.mapOf w := by
  refine evolves.load typed typed' (i := 0) found (typed.inside found).2.2.1 ?_
  cases x with
  | draft => cases finished
  | _ => rfl

/-- From a map that is there the chain goes on as it did. -/
theorem Evolves.mapBeyond (map : Γ.Map m) : h'.mapBeyond m = h.mapBeyond m := by
  have proto : h'.load m Layout.Map.proto = h.load m Layout.Map.proto := by
    rcases map with ⟨k, rfl⟩ | found
    · exact evolves.load typed typed' (i := 2) (typed.rooted.map k) (by decide : 2 < 5) rfl
    · exact evolves.load typed typed' (i := 2) found (by decide) rfl
  obtain ⟨p, loaded, data⟩ := typed.proto_data map
  rw [Heap.mapBeyond, Heap.mapBeyond, proto, loaded]
  rcases data with int | ⟨x, found, handled, _⟩
  · simp only [bind, Except.bind, int, if_true]
  · have mapped := evolves.mapOf typed typed' found (Shape.finished_of_handled handled)
    simp only [bind, Except.bind, mapped]

/-- The chain of an entity that was there ends as it did, and no map on it is new. -/
theorem Evolves.chained (found : Γ w.toNat = some x) (finished : x.finished = true) :
    Γ.Chained h' w := by
  obtain ⟨k, ⟨m, along, ended⟩, before⟩ := typed.chained found finished
  have same (j : Nat) (reached : j ≤ k) : h'.mapAlong w j = h.mapAlong w j := by
    induction j with
    | zero => rw [Heap.mapAlong, Heap.mapAlong, evolves.mapOf typed typed' found finished]
    | succ j ih =>
      obtain ⟨m, along, map⟩ := before j (Nat.le_of_succ_le reached)
      rw [Heap.mapAlong, ih (Nat.le_of_succ_le reached), Heap.mapAlong, along]
      exact evolves.mapBeyond typed typed' map
  obtain ⟨m', along', map⟩ := before k (Nat.le_refl k)
  obtain rfl : m = m' := Option.some.inj (Except.ok.inj (along.symm.trans along'))
  refine ⟨k, ⟨m, (same k (Nat.le_refl k)).trans along, ?_⟩, fun j reached => ?_⟩
  · rwa [evolves.mapBeyond typed typed' map]
  · rw [same j reached]
    exact before j reached

end

end Heap

end FastPath
