import FastPath.Proofs.Heap.Tiling
import Mathlib.Data.List.Nodup
import Mathlib.Data.List.Perm.Subperm

/-! Chains of prototypes. Whatever has a map leads to the map of its prototype, and from there on.
Instance maps are younger than the prototypes that they name, and these than their own maps, so a
chain comes down to the maps that every heap starts with, and meets each map once at most. -/

namespace FastPath

/-- How far a map is from the end of every chain. The canonical maps lead to that of the oddballs,
which leads to itself; instance maps are ordered by age. -/
def Word.rank (w : Word) : Nat :=
  if w = Kind.oddball.canonicalMap then 0
  else if w ∈ Kind.all.map Kind.canonicalMap then 1
  else w.toNat + 2

/-- The word is the map of entities of some kind, or the instance map of a function. -/
def Inventory.Map (Γ : Inventory shared) (w : Word) : Prop :=
  (∃ k : Kind, w = k.canonicalMap) ∨ Γ w.toNat = some .instanceMap

namespace Heap

variable {strict shared : Bool} {Γ : Inventory shared} {h : Heap} {m w : Word}

theorem rank_canonical (k : Kind) : k.canonicalMap.rank ≤ 1 := by
  cases k <;> decide

theorem Rooted.rank_instance (rooted : Rooted Γ) (found : Γ w.toNat = some .instanceMap) :
    w.rank = w.toNat + 2 := by
  have other := rooted.not_canonical found
  have others : w ∉ Kind.all.map Kind.canonicalMap := by
    intro member
    obtain ⟨k, _, same⟩ := List.mem_map.mp member
    exact other k same.symm
  rw [Word.rank, if_neg (other .oddball), if_neg others]

/-- All values but small integers have maps. -/
theorem Typed.mapped (typed : Typed strict Γ h) (value : Γ.Value w) :
    w.isInt = true ∨ w.isInt = false ∧ ∃ m, h.load w Layout.map = .ok m ∧ Γ.Map m ∧
      (m.rank ≤ 1 ∨ m.rank < w.toNat + 2) := by
  rcases value with int | ⟨x, found, handled⟩
  · exact .inl int
  obtain ⟨m, mapped, _, map⟩ := typed.mapOf found (Shape.finished_of_handled handled)
  refine .inr ⟨Word.isInt_aligned (typed.inside found).2.1, m, mapped, ?_⟩
  rcases map with rfl | ⟨_, instance_, older⟩
  · exact ⟨.inl ⟨_, rfl⟩, .inl (rank_canonical _)⟩
  · refine ⟨.inr instance_, .inr ?_⟩
    rw [typed.rooted.rank_instance instance_]
    omega

/-- From one map to the next: the prototype is a small integer, or its map is closer to the end of
the chain or this map again. -/
theorem Typed.onward (typed : Typed strict Γ h) (map : Γ.Map m) :
    ∃ p, h.load m Layout.Map.proto = .ok p ∧ (p.isInt = true ∨ p.isInt = false ∧
      ∃ m', h.load p Layout.map = .ok m' ∧ Γ.Map m' ∧ (m' = m ∨ m'.rank < m.rank)) := by
  rcases map with ⟨k, rfl⟩ | found
  · -- every canonical map has the prototype null, which is an oddball
    obtain ⟨m', mapped, _, same⟩ := typed.mapOf typed.rooted.null rfl
    obtain rfl : m' = Kind.oddball.canonicalMap := same.resolve_right nofun
    refine ⟨.null, typed.load_canonical_proto k, .inr ⟨rfl, _, mapped, .inl ⟨_, rfl⟩, ?_⟩⟩
    by_cases last : k = .oddball
    · exact .inl (last ▸ rfl)
    · right
      revert last
      cases k <;> decide
  · have accepts := typed.holds found 2 (by decide : 2 < 5)
    have loaded := typed.load found (i := 2) (by decide : 2 < 5)
    obtain ⟨data, older⟩ : Content.proto.Accepts Γ m.toNat (h.word (m.toNat + 8 * 2)) := accepts
    refine ⟨_, loaded, (typed.mapped data.value).imp id ?_⟩
    rintro ⟨entity, m', mapped, map, near⟩
    refine ⟨entity, m', mapped, map, .inr ?_⟩
    have older := older.resolve_left (by rw [entity]; exact Bool.false_ne_true)
    rw [typed.rooted.rank_instance found]
    omega

/-- Different maps are different entities among those that make up the region. -/
theorem Typed.few_maps (typed : Typed strict Γ h) {es : List Extent}
    (members : ∀ e, e ∈ es ↔ ∃ a x, Γ a = some x ∧ e = x.extent a) {ms : List Word}
    (maps : ∀ m ∈ ms, Γ.Map m) (apart : ms.Nodup) : ms.length ≤ mapCount es := by
  let extent (m : Word) : Extent := { start := m.toNat, words := 5, kind := some .map }
  have inside : ∀ m ∈ ms, extent m ∈ es.filter fun e => e.kind = some .map := by
    intro m member
    refine List.mem_filter.mpr ⟨(members _).mpr ?_, decide_eq_true rfl⟩
    rcases maps m member with ⟨k, rfl⟩ | found
    · exact ⟨_, _, typed.rooted.map k, rfl⟩
    · exact ⟨_, _, found, rfl⟩
  have injective : Function.Injective extent := fun v w same =>
    Word.ext_toNat (congrArg Extent.start same)
  have subset : ms.map extent ⊆ es.filter fun e => e.kind = some .map := by
    intro e member
    obtain ⟨m, held, rfl⟩ := List.mem_map.mp member
    exact inside m held
  have fewer := (List.subperm_of_subset (List.Nodup.map injective apart) subset).length_le
  rw [List.length_map] at fewer
  rwa [mapCount, List.countP_eq_length_filter]

end Heap

end FastPath
