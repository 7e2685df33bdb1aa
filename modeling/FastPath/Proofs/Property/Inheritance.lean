import FastPath.Proofs.Outcome
import FastPath.Proofs.Property.Ledger
import FastPath.Proofs.Property.Write

/-! Inheritance. A property of an object hides the ones behind it on its chain of prototypes, and
they come into sight again when it is deleted. What is written to one object is not seen through the
holders behind it, nor through another object under the same map. -/

namespace FastPath

namespace Heap

/-- What an object holds under a key of its own. -/
def held (h : Heap) (k p : Word) : Option Word :=
  if h.isObjectLike p then (h.own p k).map fun sl => h.slotWord p sl.position else none

/-- What a lookup makes of the first holder that has the key. -/
def inherited (h : Heap) (k : Word) (holders : List Word) : Word :=
  match holders.findSome? (h.held k) with
  | some v => if v = .hole then .undefined else v
  | none => .undefined

/-- The prototype of the map. -/
def protoOf (h : Heap) (w : Word) : Except HeapError Word := do
  h.load (← h.mapOf w) Layout.Map.proto

/-- The holders from an entity on, up to a small integer or a singleton. -/
inductive Holders (h : Heap) : Word → List Word → Prop
  | stop : (w.isInt || w.isNullish) = true → Holders h w []
  | hop : (w.isInt || w.isNullish) = false → h.protoOf w = .ok p → Holders h p ws →
      Holders h w (w :: ws)

/-- The entity can be asked for the key, and has no pair under it. -/
def Clear (h : Heap) (k p : Word) : Prop :=
  h.isObjectLike p = true → h.Backed p ∧ ∀ v, h.held k p = some v → h.isPair v = false

/-- A small integer, or an entity of the ledger that is no pair. -/
def Datum (h : Heap) (ledger : Ledger) (w : Word) : Prop :=
  w.isInt = true ∨ h.Whole ledger w ∧ h.isPair w = false

instance (h : Heap) (ledger : Ledger) (w : Word) : Decidable (h.Datum ledger w) :=
  inferInstanceAs (Decidable (_ ∨ _ ∧ _))

/-- Entities of the ledger with maps of the ledger, of which every object has a storage of the
ledger to itself and holds no pairs. -/
structure Kindred (h : Heap) (ledger : Ledger) (kin : List Word) : Prop
    extends Booked h ledger where
  whole : ∀ p ∈ kin, h.Whole ledger p
  maps : ∀ p ∈ kin, h.Whole ledger (h.word p.toNat) ∧ h.kind? (h.word p.toNat) = some .map
  flags : ∀ p ∈ kin, h.isObjectLike p = true →
    ∃ n, (h.word (p.toNat + Layout.Object.flags)).int? = some n
  storages : ∀ p ∈ kin, h.isObjectLike p = true →
    h.kind? (h.storageOf p) = some .field ∧ h.Filed ledger (h.storageOf p)
  separate : ∀ p ∈ kin, ∀ q ∈ kin, h.isObjectLike p = true → h.isObjectLike q = true → p ≠ q →
    h.storageOf p ≠ h.storageOf q
  data : ∀ p ∈ kin, ∀ k v, h.held k p = some v → h.Datum ledger v

variable {h h' : Heap} {ledger : Ledger} {kin ws ws' later siblings : List Word}
  {o p q k v w : Word} {a i n : Nat}

theorem held_own (object : h.isObjectLike p = true) :
    h.held k p = (h.own p k).map fun sl => h.slotWord p sl.position := if_pos object

/-- What an object holds stands in one of its slots. -/
theorem held_slot (held : h.held k p = some v) : ∃ j < h.slots p, h.slotWord p j = v := by
  unfold Heap.held at held
  split at held
  · obtain ⟨sl, own, same⟩ := Option.map_eq_some_iff.mp held
    exact ⟨sl.position, own_position own, same⟩
  · cases held

theorem inherited_cons_none (none : h.held k p = none) :
    h.inherited k (p :: ws) = h.inherited k ws := by
  rw [inherited, List.findSome?_cons_of_isNone (by rw [none]; rfl), inherited]

theorem inherited_cons_some (some : h.held k p = some v) :
    h.inherited k (p :: ws) = if v = .hole then .undefined else v := by
  rw [inherited, List.findSome?_cons, some]

theorem inherited_congr (same : ∀ p ∈ ws, h'.held k p = h.held k p) :
    h'.inherited k ws = h.inherited k ws := by
  induction ws with
  | nil => rfl
  | cons p ws ih =>
    obtain ⟨first, rest⟩ := List.forall_mem_cons.mp same
    cases held : h.held k p with
    | none => rw [inherited_cons_none held, inherited_cons_none (first.trans held), ih rest]
    | some v => rw [inherited_cons_some held, inherited_cons_some (first.trans held)]

namespace Holders

/-- An entity has one chain of holders. -/
theorem unique (chain : h.Holders w ws) (chain' : h.Holders w ws') : ws = ws' := by
  induction chain generalizing ws' with
  | stop ended =>
    cases chain' with
    | stop => rfl
    | hop going => cases ended.symm.trans going
  | hop going proto _ ih =>
    cases chain' with
    | stop ended => cases ended.symm.trans going
    | hop _ proto' rest' =>
      cases proto.symm.trans proto'
      rw [ih rest']

/-- The chain of a holder is what comes from it on. -/
theorem from_member (chain : h.Holders w ws) (member : p ∈ ws) :
    ∃ ws', h.Holders p ws' ∧ ws' <:+ ws := by
  induction chain with
  | stop => cases member
  | @hop w _ ws going proto rest ih =>
    obtain rfl | later := List.mem_cons.mp member
    · exact ⟨_, .hop going proto rest, List.suffix_rfl⟩
    · obtain ⟨ws', chain', behind⟩ := ih later
      exact ⟨ws', chain', behind.trans (List.suffix_cons _ _)⟩

/-- No chain comes to the same entity twice. -/
theorem not_again (chain : h.Holders w (w :: ws)) : w ∉ ws := by
  intro again
  cases chain with
  | hop going proto rest =>
    obtain ⟨ws', chain', behind⟩ := rest.from_member again
    have same := chain'.unique (.hop going proto rest)
    have shorter := behind.length_le
    rw [same, List.length_cons] at shorter
    omega

theorem congr (chain : h.Holders w ws) (same : ∀ p ∈ ws, h'.protoOf p = h.protoOf p) :
    h'.Holders w ws := by
  induction chain with
  | stop ended => exact .stop ended
  | hop going proto _ ih =>
    obtain ⟨first, rest⟩ := List.forall_mem_cons.mp same
    exact .hop going (first.trans proto) (ih rest)

/-- From the holders behind an entity, and from those beside it under the same map, no chain comes
to it. -/
theorem misses (chain : h.Holders o (o :: later)) (beside : ∀ q ∈ siblings,
      h.mapOf q = h.mapOf o ∧ ∀ ws, h.Holders q ws → o ∉ ws) (inside : q ∈ later ++ siblings) :
    ∃ ws, h.Holders q ws ∧ ws.length ≤ (o :: later).length ∧ ws ⊆ o :: later ++ siblings ∧
      o ∉ ws := by
  have missed := chain.not_again
  cases chain with
  | hop _ proto rest =>
    obtain behind | sibling := List.mem_append.mp inside
    · obtain ⟨ws, chain, suffix⟩ := rest.from_member behind
      refine ⟨ws, chain, Nat.le_succ_of_le suffix.length_le, fun p on => ?_,
        fun on => missed (suffix.subset on)⟩
      exact List.mem_append_left _ (List.mem_cons_of_mem _ (suffix.subset on))
    · obtain ⟨map, missed⟩ := beside q sibling
      cases going : q.isInt || q.isNullish with
      | true => exact ⟨[], .stop going, Nat.zero_le _, List.nil_subset _, List.not_mem_nil⟩
      | false =>
        have proto' : h.protoOf q = h.protoOf o := by rw [protoOf, protoOf, map]
        have chain : h.Holders q (q :: later) := .hop going (proto'.trans proto) rest
        refine ⟨_, chain, Nat.le_refl _, List.cons_subset.mpr ⟨?_, fun p on => ?_⟩, missed _ chain⟩
        · exact List.mem_append_right _ sibling
        · exact List.mem_append_left _ (List.mem_cons_of_mem _ on)

/-- A lookup comes to what the first holder with the key has. -/
theorem findFrom (sound : h.Sound) (chain : h.Holders w ws) (clear : ∀ p ∈ ws, h.Clear k p)
    (enough : ws.length ≤ n) : h.findFrom k n w = .ok (.value (h.inherited k ws)) := by
  induction chain generalizing n with
  | stop ended =>
    cases n with
    | zero => rfl
    | succ n =>
      rw [Heap.findFrom, ended]
      rfl
  | @hop w p ws going proto rest ih =>
    obtain ⟨n, rfl⟩ : ∃ m, n = m + 1 := Nat.exists_eq_succ_of_ne_zero (by
      rw [List.length_cons] at enough
      omega)
    obtain ⟨clear, behind⟩ := List.forall_mem_cons.mp clear
    have rest := ih behind (Nat.le_of_succ_le_succ enough)
    obtain ⟨m, map, proto⟩ := except_bind_ok.mp proto
    have passes (own : h.ownSlot w k = .ok none) :
        h.findFrom k (n + 1) w = h.findFrom k n p := by
      rw [Heap.findFrom, going, own, map]
      simp only [bind, Except.bind, proto]
      rfl
    by_cases object : h.isObjectLike w = true
    · obtain ⟨backed, data⟩ := clear object
      have own := backed.ownSlot (k := k) sound
      cases found : h.own w k with
      | none =>
        have none : h.held k w = none := by rw [held_own object, found]; rfl
        rw [found] at own
        rw [passes own, rest, inherited_cons_none none]
      | some sl =>
        have some : h.held k w = some (h.slotWord w sl.position) := by
          rw [held_own object, found]; rfl
        have loaded := backed.loadSlot sound (own_position found)
        rw [found] at own
        rw [Heap.findFrom, going, own, inherited_cons_some some]
        simp only [bind, Except.bind, loaded, data _ some]
        rfl
    · have none : h.held k w = none := if_neg object
      have own : h.ownSlot w k = .ok .none := by
        rw [ownSlot, storage?, if_neg object]
        rfl
      rw [passes own, rest, inherited_cons_none none]

end Holders

namespace Kindred

variable (kindred : h.Kindred ledger kin)

include kindred

theorem backed (member : p ∈ kin) (object : h.isObjectLike p = true) :
    h.Backed p ∧ ((h.storageOf p).toNat, h.slots p + 2) ∈ ledger :=
  kindred.toBooked.backed (kindred.whole p member) object (kindred.flags p member object)
    (kindred.storages p member object).1 (kindred.storages p member object).2

theorem clear (member : p ∈ kin) (k : Word) : h.Clear k p := by
  intro object
  refine ⟨(kindred.backed member object).1, fun v held => ?_⟩
  obtain int | ⟨_, plain⟩ := kindred.data p member k v held
  · exact isPair_int int
  · exact plain

variable (member : o ∈ kin) (object : h.isObjectLike o = true) (kept : Kept [o] h h')

include member object kept

/-- Of all entities only the object and its storage may have other words. -/
theorem word_kept (listed : (a, n) ∈ ledger) (inside : i < n) (header : a = o.toNat → i ≠ 2)
    (data : a = (h.storageOf o).toNat → i < 2) : h'.word (a + 8 * i) = h.word (a + 8 * i) := by
  obtain ⟨m, listed', room⟩ := (kindred.whole o member).object object
  have stored := (kindred.backed member object).2
  obtain ⟨start, aligned, fits⟩ := kindred.inside _ listed
  have object := kindred.beside listed listed'
  have storage := kindred.beside listed stored
  have aligned' := (kindred.inside _ listed').2.1
  refine kept.words _ (by omega) (by omega) fun p only => ?_
  rw [List.mem_singleton.mp only]
  simp only [Writable, Layout.Object.storage, Layout.Field.data]
  omega

theorem kind_kept (whole : h.Whole ledger w) : h'.kind? w = h.kind? w := by
  obtain ⟨k, n, _, listed, size⟩ := whole
  have least := k.size_pos
  exact kind?_congr kept.capacity (kindred.word_kept member object kept listed (i := 0) (by omega)
    (fun _ => by decide) fun _ => by decide)

theorem plain_kept (datum : h.Datum ledger v) : h'.isPair v = false := by
  obtain int | ⟨whole, plain⟩ := datum
  · exact isPair_int int
  · rw [isPair, kindred.kind_kept member object kept whole]
    exact plain

theorem protoOf_kept (inside : p ∈ kin) : h'.protoOf p = h.protoOf p := by
  obtain ⟨k, n, _, listed, size⟩ := kindred.whole p inside
  obtain ⟨⟨_, n', kind, listed', size'⟩, map⟩ := kindred.maps p inside
  cases map.symm.trans kind
  have least := k.size_pos
  have room : 5 ≤ n' := by
    simp only [Kind.size, Layout.Map.size] at size'
    omega
  have spans : h.Spans p 1 := (kindred.spans listed).mono (by omega)
  have spans' : h.Spans (h.word p.toNat) 5 := (kindred.spans listed').mono room
  have first : h'.word p.toNat = h.word p.toNat := kindred.word_kept member object kept listed
    (i := 0) (by omega) (fun _ => by decide) fun _ => by decide
  -- a map is neither an object nor a field
  have proto : h'.word ((h.word p.toNat).toNat + Layout.Map.proto) =
      h.word ((h.word p.toNat).toNat + Layout.Map.proto) := by
    refine kindred.word_kept member object kept listed' (i := 2) (by omega) (fun same => ?_)
      fun same => ?_
    · exact absurd same.symm (ne_of_objectLike object map rfl)
    · have field := (kindred.storages o member object).1
      rw [← Word.ext_toNat same, map] at field
      cases field
  have before : h.protoOf p = .ok (h.word ((h.word p.toNat).toNat + Layout.Map.proto)) :=
    except_bind_ok.mpr ⟨_, spans.load kindred.sound rfl (by decide),
      spans'.load kindred.sound rfl (by decide)⟩
  have after : h'.protoOf p = .ok (h'.word ((h'.word p.toNat).toNat + Layout.Map.proto)) := by
    refine except_bind_ok.mpr ⟨_, (spans.later kept.cursor).load kept.sound rfl (by decide), ?_⟩
    exact ((first ▸ spans').later kept.cursor).load kept.sound rfl (by decide)
  rw [before, after, first, proto]

theorem objectLike_kept (inside : p ∈ kin) : h'.isObjectLike p = h.isObjectLike p := by
  rw [isObjectLike, kindred.kind_kept member object kept (kindred.whole p inside), isObjectLike]

/-- The other objects keep their storages, and all that is in them. -/
theorem backed_kept (inside : p ∈ kin) (like : h.isObjectLike p = true) (other : p ≠ o) :
    h'.Backed p ∧ h'.slots p = h.slots p ∧ (∀ mask, h'.flagged p mask = h.flagged p mask) ∧
      ∀ j < h.slots p, h'.slotWord p j = h.slotWord p j := by
  obtain ⟨n, listed, room⟩ := (kindred.whole p inside).object like
  obtain ⟨backed, stored⟩ := kindred.backed inside like
  have owner := (kindred.backed member object).1
  have separate := kindred.separate p inside o member like object other
  have header : ∀ i < 3, h'.word (p.toNat + 8 * i) = h.word (p.toNat + 8 * i) := by
    intro i few
    refine kindred.word_kept member object kept listed (by omega) (fun same => ?_) fun same => ?_
    · exact absurd (Word.ext_toNat same) other
    · exact absurd same (ne_of_objectLike like owner.field rfl)
  have storage : ∀ i < h.slots p + 2, h'.word ((h.storageOf p).toNat + 8 * i) =
      h.word ((h.storageOf p).toNat + 8 * i) := by
    intro i few
    refine kindred.word_kept member object kept stored few (fun same => ?_) fun same => ?_
    · exact absurd same.symm (ne_of_objectLike object backed.field rfl)
    · exact absurd (Word.ext_toNat same) separate
  obtain ⟨backed', place, slots, flagged⟩ := backed.congr kept.capacity kept.cursor header
    fun i few => storage i (by omega)
  exact ⟨backed', slots, flagged, fun j bound => slotWord_kept place storage bound⟩

/-- The other entities hold what they held. -/
theorem held_kept (inside : p ∈ kin) (other : p ≠ o) (k : Word) : h'.held k p = h.held k p := by
  have same := kindred.objectLike_kept member object kept inside
  by_cases like : h.isObjectLike p = true
  · obtain ⟨_, slots, flagged, words⟩ := kindred.backed_kept member object kept inside like other
    rw [held_own like, held_own (same.trans like), own_congr slots (flagged _) words]
    exact Option.map_congr fun sl found => words _ (own_position found)
  · rw [held, held, same, if_neg like, if_neg like]

theorem clear_kept (inside : p ∈ kin) (other : p ≠ o) (k : Word) : h'.Clear k p := by
  intro like
  rw [kindred.objectLike_kept member object kept inside] at like
  refine ⟨(kindred.backed_kept member object kept inside like other).1, fun v found => ?_⟩
  rw [kindred.held_kept member object kept inside other] at found
  exact kindred.plain_kept member object kept (kindred.data p inside k v found)

end Kindred

end Heap

namespace Property

open Heap

variable {s : State ρ} {h' : Heap} {ledger : Ledger} {kin ws later siblings : List Word}
  {o q k v w : Word}

/-- Lookups along short chains without pairs return. -/
theorem get_inherited (sound : s.machine.heap.Sound) (chain : s.machine.heap.Holders w ws)
    (short : ws.length < 1024) (clear : ∀ p ∈ ws, s.machine.heap.Clear k p) (calls : Invoke ρ) :
    Property.get calls w k s = .ok (s.machine.heap.inherited k ws) s := by
  have found := chain.findFrom sound clear (n := hopLimit) (Nat.le_of_lt short)
  exact (estate_bind_of_ok (Exec.query_ok found)).trans rfl

section

variable (kindred : s.machine.heap.Kindred ledger kin) (member : o ∈ kin)
  (object : s.machine.heap.isObjectLike o = true) (kept : Kept [o] s.machine.heap h')

include kindred member object kept

/-- A lookup that does not come to the object is not changed by what is written to it. -/
theorem get_kept (chain : s.machine.heap.Holders q ws) (short : ws.length < 1024)
    (inside : ws ⊆ kin) (missed : o ∉ ws) (k : Word) (calls : Invoke ρ) :
    ∃ x, Property.get calls q k s = .ok x s ∧
      Property.get calls q k (s.withHeap h') = .ok x (s.withHeap h') := by
  have other (p : Word) (on : p ∈ ws) : p ≠ o := fun same => missed (same ▸ on)
  have chain' : h'.Holders q ws := chain.congr fun p on =>
    kindred.protoOf_kept member object kept (inside on)
  have before := get_inherited kindred.sound chain short
    (fun p on => kindred.clear (inside on) k) calls
  have after := get_inherited (s := s.withHeap h') kept.sound chain' short
    (fun p on => kindred.clear_kept member object kept (inside on) (other p on) k) calls
  have same : h'.inherited k ws = s.machine.heap.inherited k ws := inherited_congr fun p on =>
    kindred.held_kept member object kept (inside on) (other p on) k
  rw [State.withHeap_heap, same] at after
  exact ⟨_, before, after⟩

/-- Without the key of its own an object has what its prototype has. -/
theorem get_passes (chain : s.machine.heap.Holders o (o :: later))
    (short : (o :: later).length < 1024) (inside : later ⊆ kin) (clear : h'.Clear k o)
    (none : h'.held k o = none) (calls : Invoke ρ) :
    ∃ p x, s.machine.heap.protoOf o = .ok p ∧ h'.protoOf o = .ok p ∧
      Property.get calls p k s = .ok x s ∧
      Property.get calls p k (s.withHeap h') = .ok x (s.withHeap h') ∧
      Property.get calls o k (s.withHeap h') = .ok x (s.withHeap h') := by
  have missed := chain.not_again
  have shorter : later.length < 1024 := Nat.lt_of_succ_lt short
  cases chain with
  | @hop _ p _ going proto rest =>
    obtain ⟨x, before, after⟩ := get_kept kindred member object kept rest shorter inside missed k
      calls
    have proto' := (kindred.protoOf_kept member object kept member).trans proto
    have rest' : h'.Holders p later := rest.congr fun q on =>
      kindred.protoOf_kept member object kept (inside on)
    have clear' : ∀ q ∈ later, h'.Clear k q := fun q on =>
      kindred.clear_kept member object kept (inside on) (fun same => missed (same ▸ on)) k
    have behind := get_inherited (s := s.withHeap h') kept.sound rest' shorter clear' calls
    have whole := get_inherited (s := s.withHeap h') kept.sound (.hop going proto' rest') short
      (List.forall_mem_cons.mpr ⟨clear, clear'⟩) calls
    rw [State.withHeap_heap, inherited_cons_none none] at whole
    exact ⟨p, x, proto, proto', before, after, whole.trans (behind.symm.trans after)⟩

end

section

variable (kindred : s.machine.heap.Kindred ledger (o :: later ++ siblings))
  (chain : s.machine.heap.Holders o (o :: later)) (short : (o :: later).length < 1024)
  (object : s.machine.heap.isObjectLike o = true)
  (dictionary : s.machine.heap.flagged o Layout.Object.dense = false)

include kindred chain short object dictionary

/-- What was written is read again from the object, and neither behind it nor beside it. -/
theorem set_shadows (beside : ∀ q ∈ siblings, s.machine.heap.mapOf q = s.machine.heap.mapOf o ∧
      ∀ ws, s.machine.heap.Holders q ws → o ∉ ws)
    (datum : s.machine.heap.Datum ledger v) (calls : Invoke ρ)
    (done : Property.set calls o k v s = .ok w t) :
    Property.get calls o k t = .ok (if v = .hole then .undefined else v) t ∧
      ∀ q ∈ later ++ siblings, ∀ l, ∃ x, Property.get calls q l s = .ok x s ∧
        Property.get calls q l t = .ok x t := by
  have member : o ∈ o :: later ++ siblings := List.mem_cons_self
  have backed := (kindred.backed member object).1
  have free : ∀ i, s.machine.heap.own o k = some (.item i) → s.machine.heap.isPair v = true ∨
      s.machine.heap.isPair (s.machine.heap.value o i) = false := by
    intro i own
    refine .inr ((kindred.clear member k object).2 _ ?_)
    rw [held_own object, own]
    rfl
  obtain ⟨e, failed⟩ | ⟨h', written, set⟩ :=
    backed.set_cases dictionary rfl kindred.sound calls free
  · cases failed.symm.trans done
  cases set.symm.trans done
  have kept := written.keeps
  refine ⟨?_, fun q inside l => ?_⟩
  · obtain ⟨i, own, value, backed'⟩ := written.own dictionary
    have value : h'.slotWord o (Slot.item i).position = v := value
    have real : o.isNullish = false := by
      cases chain with
      | hop going => exact (Bool.or_eq_false_iff.mp going).2
    have plain := kindred.plain_kept member object kept datum
    rw [← value] at plain
    have read := get_own (s := s.withHeap h') rfl kept.sound backed' calls own real plain
    rw [State.withHeap_heap, value] at read
    exact read
  · obtain ⟨ws, chain', fewer, known, missed⟩ := chain.misses beside inside
    exact get_kept kindred member object kept chain' (Nat.lt_of_le_of_lt fewer short) known missed l
      calls

/-- After a deletion the object has what its prototype has, which had it before. -/
theorem delete_unshadows (real : k ≠ .hole) (once : ∀ i < s.machine.heap.items o,
      ∀ j < s.machine.heap.items o, s.machine.heap.key o i = k → s.machine.heap.key o j = k → i = j)
    (calls : Invoke ρ) :
    ∃ t p x, Property.delete o k s = .ok (.boolean true) t ∧
      s.machine.heap.protoOf o = .ok p ∧ t.machine.heap.protoOf o = .ok p ∧
      Property.get calls p k s = .ok x s ∧ Property.get calls p k t = .ok x t ∧
      Property.get calls o k t = .ok x t := by
  have member : o ∈ o :: later ++ siblings := List.mem_cons_self
  have backed := (kindred.backed member object).1
  have inside : later ⊆ o :: later ++ siblings := fun p on =>
    List.mem_append_left _ (List.mem_cons_of_mem _ on)
  obtain ⟨absent, done⟩ | ⟨i, h', own, cleared, done⟩ :=
    backed.delete_cases (k := k) dictionary rfl kindred.sound
  · have none : s.machine.heap.held k o = none := by
      rw [held_own object, absent]
      rfl
    obtain ⟨p, x, found⟩ := get_passes kindred member object (.refl kindred.sound) chain short
      inside (kindred.clear member k) none calls
    exact ⟨_, p, x, done, found⟩
  · have kept := cleared.keeps
    have absent : h'.own o k = none := by
      rw [own_eq ((cleared.flagged _).trans dictionary), Option.map_eq_none_iff, itemOf_none]
      intro j bound same
      obtain ⟨bound', key⟩ := item_of_own own
      rw [items, cleared.slots] at bound
      rw [cleared.key] at same
      by_cases here : j = i
      · rw [if_pos here] at same
        exact real same.symm
      · rw [if_neg here] at same
        exact here (once j bound i bound' same key)
    have none : h'.held k o = none := by
      rw [held, absent]
      split <;> rfl
    have clear : h'.Clear k o := fun _ =>
      ⟨cleared.backed, fun v found => by cases none.symm.trans found⟩
    obtain ⟨p, x, found⟩ := get_passes kindred member object kept chain short inside clear none
      calls
    exact ⟨_, p, x, done, found⟩

end

end Property

/-- A property of an object hides those behind it on the chain of prototypes, until it is deleted,
and is seen through no other object. -/
theorem properties_shadow {s : State ρ} {ledger : Ledger} {o k : Word} {later siblings : List Word}
    (kindred : s.machine.heap.Kindred ledger (o :: later ++ siblings))
    (chain : s.machine.heap.Holders o (o :: later)) (short : (o :: later).length < 1024)
    (object : s.machine.heap.isObjectLike o = true)
    (dictionary : s.machine.heap.flagged o Layout.Object.dense = false) (real : k ≠ .hole)
    (once : ∀ i < s.machine.heap.items o, ∀ j < s.machine.heap.items o,
      s.machine.heap.key o i = k → s.machine.heap.key o j = k → i = j)
    (beside : ∀ q ∈ siblings, s.machine.heap.mapOf q = s.machine.heap.mapOf o ∧
      ∀ ws, s.machine.heap.Holders q ws → o ∉ ws) (calls : Invoke ρ) :
    Property.get calls o k s = .ok (s.machine.heap.inherited k (o :: later)) s ∧
    (∀ v w t, s.machine.heap.Datum ledger v → Property.set calls o k v s = .ok w t →
      Property.get calls o k t = .ok (if v = .hole then .undefined else v) t ∧
      ∀ q ∈ later ++ siblings, ∀ l, ∃ x, Property.get calls q l s = .ok x s ∧
        Property.get calls q l t = .ok x t) ∧
    ∃ t p x, Property.delete o k s = .ok (.boolean true) t ∧
      s.machine.heap.protoOf o = .ok p ∧ t.machine.heap.protoOf o = .ok p ∧
      Property.get calls p k s = .ok x s ∧ Property.get calls p k t = .ok x t ∧
      Property.get calls o k t = .ok x t := by
  refine ⟨?_, fun v w t datum done => ?_, ?_⟩
  · refine Property.get_inherited kindred.sound chain short (fun p on => ?_) calls
    exact kindred.clear (List.mem_append_left _ on) k
  · exact Property.set_shadows kindred chain short object dictionary beside datum calls done
  · exact Property.delete_unshadows kindred chain short object dictionary real once calls

/-- A dictionary with one property, beside one with none under the same map, and behind both of
them their prototype, which is dense. -/
def familyShelves : State PropertyHost :=
  { machine := .ofHeap ([(8, Kind.map.canonicalMap), (128, Kind.map.canonicalMap), (144, .null),
      (400, Kind.oddball.canonicalMap),
      (448, Kind.map.canonicalMap), (456, .int 0), (464, .pointer 552),
      (488, .pointer 448), (496, .int 0), (504, .pointer 512),
      (512, Kind.field.canonicalMap), (520, .int 3), (528, .int 1), (536, .int 20), (544, .int 7),
      (552, Kind.object.canonicalMap), (560, .int Layout.Object.dense), (568, .pointer 576),
      (576, Kind.field.canonicalMap), (584, .int 3), (600, .int 10),
      (616, .pointer 448), (624, .int 0), (632, .pointer 640),
      (640, Kind.field.canonicalMap), (648, .int 3)].foldl (fun h p => h.put p.1 p.2)
        { words := .replicate 128 .hole, region := ⟨680, 1024⟩, atoms := [] }) 8
    host := {} }

def familyLedger : Ledger :=
  [(8, 5), (128, 5), (400, 2), (448, 5), (488, 3), (512, 5), (552, 3), (576, 5), (616, 3), (640, 5)]

def familyMembers : List Word := [.pointer 488, .pointer 552, .pointer 616]

theorem familyShelves_kindred : familyShelves.machine.heap.Kindred familyLedger familyMembers := by
  refine ⟨⟨⟨?_, ?_, ?_, ?_, ?_⟩, ?_, ?_⟩, ?_, ?_, fun p member _ => ?_, fun p member _ => ?_,
    fun p hp q hq _ _ => ?_, fun p member k v held => ?_⟩
  rotate_right 4
  · have flags : ∀ p ∈ familyMembers, ((familyShelves.machine.heap.word
        (p.toNat + Layout.Object.flags)).int?).isSome = true := by decide +kernel
    exact Option.isSome_iff_exists.mp (flags p member)
  · revert p
    decide +kernel
  · revert p q
    decide +kernel
  · have slots : ∀ p ∈ familyMembers, ∀ j < familyShelves.machine.heap.slots p,
        familyShelves.machine.heap.Datum familyLedger
          (familyShelves.machine.heap.slotWord p j) := by decide +kernel
    obtain ⟨j, bound, same⟩ := Heap.held_slot held
    exact same ▸ slots p member j bound
  all_goals decide +kernel

theorem familyShelves_shadow :
    Property.get (fun _ _ _ => throw .fault) (.pointer 488) (.int 1) familyShelves =
      .ok (.int 20) familyShelves ∧
    (∃ t, Property.set (fun _ _ _ => throw .fault) (.pointer 488) (.int 1) (.int 5) familyShelves =
        .ok .undefined t ∧
      Property.get (fun _ _ _ => throw .fault) (.pointer 488) (.int 1) t = .ok (.int 5) t ∧
      ∀ q ∈ [Word.pointer 552, .pointer 616],
        Property.get (fun _ _ _ => throw .fault) q (.int 1) t = .ok (.int 10) t) ∧
    ∃ t, Property.delete (.pointer 488) (.int 1) familyShelves = .ok (.boolean true) t ∧
      Property.get (fun _ _ _ => throw .fault) (.pointer 488) (.int 1) t = .ok (.int 10) t := by
  have steps : ∀ w ∈ [Word.pointer 488, .pointer 616], (w.isInt || w.isNullish) = false ∧
      (familyShelves.machine.heap.protoOf w).toOption = some (.pointer 552) := by decide +kernel
  have ends : ∀ w ∈ [Word.pointer 488, .pointer 616], familyShelves.machine.heap.Holders w
      [w, .pointer 552] := by
    have last : (familyShelves.machine.heap.protoOf (.pointer 552)).toOption = some .null := by
      decide +kernel
    intro w member
    obtain ⟨going, proto⟩ := steps w member
    exact .hop going (except_toOption_some.mp proto) (.hop (by decide +kernel)
      (except_toOption_some.mp last) (.stop (by decide +kernel)))
  have shared : ∀ q ∈ [Word.pointer 616], familyShelves.machine.heap.mapOf q =
        familyShelves.machine.heap.mapOf (.pointer 488) ∧
      ∀ ws, familyShelves.machine.heap.Holders q ws → Word.pointer 488 ∉ ws := by
    intro q member
    obtain rfl := List.mem_singleton.mp member
    have maps : ∀ w ∈ [Word.pointer 488, .pointer 616],
        (familyShelves.machine.heap.mapOf w).toOption = some (.pointer 448) := by decide +kernel
    refine ⟨?_, fun ws chain => ?_⟩
    · exact (except_toOption_some.mp (maps _ (by decide))).trans
        (except_toOption_some.mp (maps _ (by decide))).symm
    · rw [chain.unique (ends _ (by decide))]
      decide +kernel
  obtain ⟨own, shadows, unshadows⟩ := properties_shadow familyShelves_kindred
    (ends _ (by decide)) (by decide) (by decide +kernel) (by decide +kernel)
    (k := .int 1) (by decide +kernel) (by decide +kernel) shared (fun _ _ _ => throw .fault)
  have reads : familyShelves.machine.heap.inherited (.int 1) [.pointer 488, .pointer 552] =
      .int 20 := by decide +kernel
  have behind : ∀ q ∈ [Word.pointer 552, .pointer 616],
      Yields (Property.get (fun _ _ _ => throw .fault) q (.int 1)) familyShelves
        (fun w _ => w = .int 10) (fun _ _ => False) := by decide +kernel
  obtain ⟨w, t, set, rfl⟩ : ∃ w t, Property.set (fun _ _ _ => throw .fault) (.pointer 488) (.int 1)
      (.int 5) familyShelves = .ok w t ∧ w = .undefined := Yields.returns (by decide +kernel)
  obtain ⟨written, others⟩ := shadows (.int 5) _ t (.inl (by decide +kernel)) set
  refine ⟨reads ▸ own, ⟨t, set, written, fun q member => ?_⟩, ?_⟩
  · obtain ⟨x, before, after⟩ := others q member (.int 1)
    rw [after, (behind q member).ok before]
  · obtain ⟨t, p, x, deleted, proto, _, before, _, after⟩ := unshadows
    cases proto.symm.trans (except_toOption_some.mp (steps _ (by decide)).2)
    refine ⟨t, deleted, ?_⟩
    rw [after, (behind _ (by decide)).ok before]

end FastPath
