import FastPath.Proofs.InlineCache
import Mathlib.Data.List.Induction
import Mathlib.Data.List.Nodup

/-! An inline cache sums up its history. Whatever was recorded in it, it holds the maps in the order
in which they were first seen, each with the slot that was recorded last, until there are more of
them than it has room for. -/

namespace FastPath.InlineCache

/-- What was recorded, the oldest first: under which map, and in which slot. -/
abbrev Sightings := List (Word × Nat)

namespace Sightings

/-- The different maps, in the order in which they were first seen. -/
def maps (rs : Sightings) : List Word := (rs.map Prod.fst).eraseDups

/-- The slot that was recorded last under a map. -/
def latest (rs : Sightings) (m : Word) : Option Nat := rs.reverse.lookup m

/-- The entries are those of the maps, in order, each with its latest slot. -/
structure Sums (rs : Sightings) (es : List Entry) : Prop where
  order : es.map Entry.map = rs.maps
  slots : ∀ e ∈ es, rs.latest e.map = some e.slot

variable {rs : Sightings} {es : List Entry} {m n : Word} {x i : Nat}

theorem maps_snoc (rs : Sightings) (m : Word) (x : Nat) :
    maps (rs ++ [(m, x)]) = if m ∈ maps rs then maps rs else maps rs ++ [m] := by
  rw [maps, List.map_append, List.eraseDups_append]
  change maps rs ++ ([m].removeAll (rs.map Prod.fst)).eraseDups = _
  by_cases seen : m ∈ maps rs
  · have known : m ∈ rs.map Prod.fst := List.mem_eraseDups.mp seen
    rw [if_pos seen, List.removeAll, List.filter_cons_of_neg (by simpa using known)]
    exact List.append_nil _
  · have unknown : m ∉ rs.map Prod.fst := mt List.mem_eraseDups.mpr seen
    rw [if_neg seen, List.removeAll, List.filter_cons_of_pos (by simpa using unknown)]
    rfl

theorem latest_snoc (rs : Sightings) (m n : Word) (x : Nat) :
    latest (rs ++ [(m, x)]) n = if n = m then some x else latest rs n := by
  rw [latest, List.reverse_append, List.reverse_singleton, List.singleton_append, List.lookup_cons]
  by_cases same : n = m
  · rw [beq_iff_eq.mpr same, if_pos same]
  · rw [beq_eq_false_iff_ne.mpr same, if_neg same]
    rfl

/-- A map was seen if and only if there is a latest slot for it. -/
theorem mem_maps : m ∈ maps rs ↔ ∃ x, latest rs m = some x := by
  induction rs using List.reverseRecOn with
  | nil => simp [maps, latest]
  | append_singleton rs r ih =>
    obtain ⟨n, y⟩ := r
    rw [maps_snoc, latest_snoc]
    by_cases same : m = n
    · subst same
      by_cases seen : m ∈ maps rs <;> simp [seen]
    · rw [if_neg same, ← ih]
      by_cases seen : n ∈ maps rs <;> simp [seen, same]

theorem latest_unseen (unseen : m ∉ maps rs) : latest rs m = none :=
  Option.eq_none_iff_forall_ne_some.mpr fun x known => unseen (mem_maps.mpr ⟨x, known⟩)

theorem maps_nodup (rs : Sightings) : (maps rs).Nodup := by
  induction rs using List.reverseRecOn with
  | nil => exact List.nodup_nil
  | append_singleton rs r ih =>
    rw [maps_snoc]
    split
    · exact ih
    · next unseen => exact List.concat_eq_append ▸ ih.concat unseen

/-- More maps are seen as time goes by. -/
theorem maps_grow (rs more : Sightings) : (maps rs).length ≤ (maps (rs ++ more)).length := by
  induction more using List.reverseRecOn with
  | nil => exact Nat.le_of_eq (by rw [List.append_nil])
  | append_singleton more r ih =>
    rw [← List.append_assoc, maps_snoc]
    split
    · exact ih
    · rw [List.length_append]
      exact Nat.le_add_right_of_le ih

namespace Sums

theorem length (sums : Sums rs es) : es.length = rs.maps.length := by
  rw [← sums.order, List.length_map]

theorem seen_iff (sums : Sums rs es) : m ∈ rs.maps ↔ ∃ e ∈ es, e.map = m := by
  rw [← sums.order, List.mem_map]

/-- The slot of a map that is seen again is overwritten in its place. -/
theorem again (sums : Sums rs es) (here : es.findIdx? (fun e => e.map == m) = some i) :
    Sums (rs ++ [(m, x)]) (es.set i ⟨m, x⟩) := by
  obtain ⟨inside, same, _⟩ := List.findIdx?_eq_some_iff_getElem.mp here
  have same : es[i].map = m := beq_iff_eq.mp same
  have seen : m ∈ rs.maps := sums.seen_iff.mpr ⟨es[i], List.getElem_mem inside, same⟩
  have inside : i < (es.map Entry.map).length := by rwa [List.length_map]
  have kept : (es.map Entry.map)[i] = m := by rwa [List.getElem_map]
  constructor
  · rw [maps_snoc, if_pos seen, ← sums.order, List.map_set, ← kept]
    exact List.set_getElem_self _
  · intro e member
    obtain ⟨j, bound, rfl⟩ := List.getElem_of_mem member
    rw [List.length_set] at bound
    rw [latest_snoc, List.getElem_set]
    by_cases there : i = j
    · simp only [if_pos there, if_true]
    · -- the maps are different, so no other entry is concerned
      have other : es[j].map ≠ m := by
        intro equal
        have nodup : (es.map Entry.map).Nodup := sums.order ▸ maps_nodup rs
        have second : j < (es.map Entry.map).length := by rwa [List.length_map]
        have both : (es.map Entry.map)[i] = (es.map Entry.map)[j] := by
          rw [kept, List.getElem_map, equal]
        exact there (nodup.getElem_inj_iff.mp both)
      rw [if_neg there, if_neg other]
      exact sums.slots _ (List.getElem_mem bound)

/-- A new map comes behind the others. -/
theorem anew (sums : Sums rs es) (unseen : m ∉ rs.maps) :
    Sums (rs ++ [(m, x)]) (es ++ [⟨m, x⟩]) := by
  constructor
  · rw [maps_snoc, if_neg unseen, List.map_append, sums.order]
    rfl
  · intro e member
    rw [latest_snoc]
    obtain old | new := List.mem_append.mp member
    · have other : e.map ≠ m := by
        rintro rfl
        exact unseen (sums.seen_iff.mpr ⟨e, old, rfl⟩)
      rw [if_neg other]
      exact sums.slots e old
    · cases List.mem_singleton.mp new
      rw [if_pos rfl]

/-- What is found under a map is its latest slot. -/
theorem slotOf_eq (sums : Sums rs es) (m : Word) : slotOf es m = rs.latest m := by
  rw [slotOf]
  cases found : es.find? fun e => e.map == m with
  | some e =>
    obtain rfl : e.map = m := by simpa using List.find?_some found
    exact (sums.slots e (List.mem_of_find?_eq_some found)).symm
  | none =>
    refine (latest_unseen fun seen => ?_).symm
    obtain ⟨e, member, here⟩ := sums.seen_iff.mp seen
    exact List.find?_eq_none.mp found e member (beq_iff_eq.mpr here)

end Sums

end Sightings

namespace Cells

/-- The cells that are not in use are blank. -/
def Clean (c : Cells) : Prop :=
  c.entries.toList.drop c.length = List.replicate (capacity - c.length) blank

variable {c : Cells} {e : Entry} {i : Nat}

theorem Clean.eq (clean : c.Clean) :
    State.padded c = c.used ++ List.replicate (capacity - c.length) blank := by
  rw [← clean]
  exact (List.take_append_drop _ _).symm

theorem clean_pair (e f : Entry) : (pair e f).Clean := rfl

theorem Clean.overwrite (clean : c.Clean) (inside : i < c.length) : (c.overwrite i e).Clean := by
  rw [Clean, Cells.overwrite, Vector.toList_setIfInBounds, List.drop_set_of_lt inside]
  exact clean

theorem Clean.push (clean : c.Clean) (room : c.length < capacity) : (c.push e room).Clean := by
  have rest : (c.entries.toList.drop c.length).drop 1 =
      (List.replicate (capacity - c.length) blank).drop 1 := congrArg _ clean
  rw [List.drop_drop, List.drop_replicate, Nat.sub_sub] at rest
  rw [Clean, Cells.push, Vector.toList_set, List.drop_set_of_lt (Nat.lt_succ_self _)]
  exact rest

end Cells

open Sightings

namespace State

/-- A fresh cache after everything was recorded. -/
def after (rs : Sightings) : State := rs.foldl (fun s r => s.record r.1 r.2) .uninitialized

/-- What a state says about the history behind it. -/
def Summary (rs : Sightings) : State → Prop
  | uninitialized => Sums rs []
  | monomorphic e => Sums rs [e]
  | polymorphic c => Sums rs c.used ∧ c.Clean ∧ 2 ≤ c.length
  | megamorphic => capacity < (maps rs).length

variable {rs : Sightings} {s : State}

theorem Summary.record (summary : s.Summary rs) (m : Word) (x : Nat) :
    (s.record m x).Summary (rs ++ [(m, x)]) := by
  cases s with
  | uninitialized =>
    have sums : Sums rs [] := summary
    exact sums.anew fun seen => nomatch sums.seen_iff.mp seen
  | monomorphic e =>
    have sums : Sums rs [e] := summary
    rw [State.record]
    by_cases here : e.map = m
    · rw [if_pos here]
      refine sums.again (i := 0) ?_
      rw [List.findIdx?_cons, beq_iff_eq.mpr here, if_pos rfl]
    · have unseen : m ∉ maps rs := by simpa [← sums.order] using Ne.symm here
      rw [if_neg here]
      exact ⟨sums.anew unseen, Cells.clean_pair _ _, Nat.le_refl _⟩
  | polymorphic c =>
    obtain ⟨sums, clean, several⟩ := summary
    rw [State.record]
    cases found : c.used.findIdx? fun e => e.map == m with
    | some i =>
      obtain ⟨inside, _⟩ := List.findIdx?_eq_some_iff_getElem.mp found
      rw [Cells.length_used] at inside
      refine ⟨?_, clean.overwrite inside, several⟩
      rw [Cells.used_overwrite]
      exact sums.again found
    | none =>
      have unseen : m ∉ maps rs := by simpa [sums.seen_iff] using found
      by_cases room : c.length < capacity
      · simp only [dif_pos room]
        refine ⟨?_, clean.push room, Nat.le_succ_of_le several⟩
        rw [Cells.used_push]
        exact sums.anew unseen
      · simp only [dif_neg room]
        rw [Summary, maps_snoc, if_neg unseen, List.length_append, ← sums.length,
          Cells.length_used]
        exact Nat.lt_succ_of_le (Nat.le_of_not_lt room)
  | megamorphic =>
    have more : capacity < (maps rs).length := summary
    exact Nat.lt_of_lt_of_le more (maps_grow rs _)

theorem after_summary (rs : Sightings) : (after rs).Summary rs := by
  induction rs using List.reverseRecOn with
  | nil => exact ⟨rfl, nofun⟩
  | append_singleton rs r ih =>
    rw [after, List.foldl_append]
    exact ih.record r.1 r.2

/-- A state that shows what was recorded. -/
structure Shows (rs : Sightings) (s : State) : Prop where
  nothing : maps rs = [] → s = uninitialized
  one : ∀ m, maps rs = [m] → ∃ x, latest rs m = some x ∧ s = monomorphic ⟨m, x⟩
  several : 2 ≤ (maps rs).length → (maps rs).length ≤ capacity →
    ∃ c, s = polymorphic c ∧ c.length = (maps rs).length ∧ Sums rs c.used ∧
      padded c = c.used ++ List.replicate (capacity - c.length) Cells.blank
  many : capacity < (maps rs).length → s = megamorphic
  found : ∀ m, s.lookup m =
    if (maps rs).length ≤ capacity ∧ m ∈ maps rs then latest rs m else none

theorem lookup_latest (sums : Sums rs s.entries) (room : (maps rs).length ≤ capacity) (m : Word) :
    s.lookup m = if (maps rs).length ≤ capacity ∧ m ∈ maps rs then latest rs m else none := by
  rw [lookup_eq, sums.slotOf_eq]
  by_cases seen : m ∈ maps rs
  · rw [if_pos ⟨room, seen⟩]
  · rw [if_neg fun both => seen both.2, latest_unseen seen]

theorem Summary.shows (summary : s.Summary rs) : Shows rs s := by
  cases s with
  | uninitialized =>
    have sums : Sums rs [] := summary
    have count : (maps rs).length = 0 := sums.length.symm
    constructor
    case nothing => exact fun _ => rfl
    case one => exact fun m single => nomatch single ▸ count
    case several => exact fun several _ => absurd several (count ▸ by decide)
    case many => exact fun many => absurd many (count ▸ by decide)
    case found => exact lookup_latest sums (count ▸ Nat.zero_le _)
  | monomorphic e =>
    have sums : Sums rs [e] := summary
    have count : (maps rs).length = 1 := sums.length.symm
    constructor
    case nothing => exact fun none => nomatch none ▸ count
    case one =>
      intro m single
      obtain rfl : e.map = m := List.singleton_inj.mp (sums.order.trans single)
      exact ⟨e.slot, sums.slots e (List.mem_singleton_self e), rfl⟩
    case several => exact fun several _ => absurd several (count ▸ by decide)
    case many => exact fun many => absurd many (count ▸ by decide)
    case found => exact lookup_latest sums (count ▸ by decide)
  | polymorphic c =>
    obtain ⟨sums, clean, several⟩ := summary
    have count : c.length = (maps rs).length := c.length_used ▸ sums.length
    have room : (maps rs).length ≤ capacity := count ▸ c.fits
    constructor
    case nothing =>
      intro none
      rw [count, none] at several
      cases several
    case one =>
      intro m single
      rw [count, single] at several
      exact absurd several (by decide : ¬ 2 ≤ 1)
    case several => exact fun _ _ => ⟨c, rfl, count, sums, clean.eq⟩
    case many => exact fun many => absurd room (Nat.not_le_of_lt many)
    case found => exact lookup_latest sums room
  | megamorphic =>
    have many : capacity < (maps rs).length := summary
    constructor
    case nothing =>
      intro none
      rw [none] at many
      cases many
    case one =>
      intro m single
      rw [single] at many
      exact absurd many (by decide : ¬ capacity < 1)
    case several => exact fun _ room => absurd room (Nat.not_le_of_lt many)
    case many => exact fun _ => rfl
    case found => exact fun m => (if_neg fun both => Nat.not_le_of_lt many both.1).symm

end State

namespace Table

variable {t : Table} {i j k : CacheId} {m n : Word} {x y : Nat}

/-- A table after everything was recorded, each time under some number. -/
def recordAll (t : Table) (ws : List (CacheId × Word × Nat)) : Table :=
  ws.foldl (fun t w => t.record w.1 w.2.1 w.2.2) t

/-- What was recorded under a number. -/
def under (i : CacheId) (ws : List (CacheId × Word × Nat)) : Sightings :=
  (ws.filter fun w => w.1 == i).map Prod.snd

theorem under_cons (i : CacheId) (w : CacheId × Word × Nat) (ws : List (CacheId × Word × Nat)) :
    under i (w :: ws) = if i = w.1 then w.2 :: under i ws else under i ws := by
  rw [under, List.filter_cons]
  by_cases same : i = w.1
  · rw [if_pos same, if_pos (beq_iff_eq.mpr same.symm)]
    rfl
  · rw [if_neg same, if_neg (mt beq_iff_eq.mp (Ne.symm same))]
    rfl

theorem recordAll_state (t : Table) (ws : List (CacheId × Word × Nat)) (i : CacheId) :
    (t.recordAll ws).state i = (under i ws).foldl (fun s r => s.record r.1 r.2) (t.state i) := by
  induction ws generalizing t with
  | nil => rfl
  | cons w ws ih =>
    rw [recordAll, List.foldl_cons, ← recordAll, ih, state_record, under_cons]
    by_cases same : i = w.1
    · rw [if_pos same, if_pos same, List.foldl_cons, same]
    · rw [if_neg same, if_neg same]

/-- The order of two recordings under different numbers does not matter. -/
theorem record_comm (different : i ≠ j) :
    ((t.record i m x).record j n y).state k = ((t.record j n y).record i m x).state k := by
  simp only [state_record, if_neg different, if_neg (Ne.symm different)]
  by_cases first : k = i
  · rw [if_neg (first ▸ different), if_pos first, if_pos first]
  · rw [if_neg first, if_neg first]

end Table

/-- Caches sum up their histories. One that saw no map is uninitialized, one that saw one map is
monomorphic, one that saw two to four is polymorphic, with those maps and blanks behind them, and
one that saw more is megamorphic for good. In a table no cache is touched by what is recorded under
another number. -/
theorem histories_summed (rs more : Sightings) (ws : List (CacheId × Word × Nat)) (t : Table)
    (i j k : CacheId) (m n : Word) (x y : Nat) (different : i ≠ j) :
    State.Shows rs (State.after rs) ∧
      (capacity < (maps rs).length → State.after (rs ++ more) = .megamorphic) ∧
      (t.recordAll ws).state k =
        (Table.under k ws).foldl (fun s r => s.record r.1 r.2) (t.state k) ∧
      (Table.recordAll {} ws).state k = State.after (Table.under k ws) ∧
      ((t.record i m x).record j n y).state k = ((t.record j n y).record i m x).state k := by
  refine ⟨(State.after_summary rs).shows, fun many => ?_, t.recordAll_state ws k,
    Table.recordAll_state {} ws k, Table.record_comm different⟩
  exact (State.after_summary (rs ++ more)).shows.many (Nat.lt_of_lt_of_le many (maps_grow rs more))

/-- A fifth map turns a cache off for all of them, the one at zero included. -/
theorem histories_summed_five :
    let five : Sightings :=
      [(.ofNat 0, 7), (.ofNat 8, 1), (.ofNat 16, 2), (.ofNat 24, 0), (.ofNat 32, 5)]
    (1 : CacheId) ≠ 2 ∧ capacity < (maps five).length ∧
      State.after (five ++ [(.ofNat 0, 3)]) = .megamorphic ∧
      (State.after five).lookup (.ofNat 0) = none ∧
      (((({} : Table).record 1 (.ofNat 0) 7).record 2 (.ofNat 8) 4).state 2 =
        ((({} : Table).record 2 (.ofNat 8) 4).record 1 (.ofNat 0) 7).state 2) := by
  intro five
  have different : (1 : CacheId) ≠ 2 := by decide
  have many : capacity < (maps five).length := by decide
  obtain ⟨shows, forever, _, _, commute⟩ := histories_summed five [(.ofNat 0, 3)] [] {} 1 2 2
    (.ofNat 0) (.ofNat 8) 7 4 different
  exact ⟨different, many, forever many,
    (shows.found _).trans (if_neg fun both => Nat.not_le_of_lt many both.1), commute⟩

end FastPath.InlineCache
