import FastPath.Proofs.Property.Housing
import FastPath.Proofs.Property.Operations

/-! Property accesses in typed heaps. Every access either leaves the heap typed or hands over to
the setter or getter of some function. -/

namespace FastPath

open Heap

theorem Property.data_plain {h : Heap} {v : Word} (typed : Typed strict Γ h) (data : Γ.Data v) :
    Γ v.toNat ≠ some .pair := by
  intro pair
  rcases data with int | ⟨x, found, _, single⟩
  · rw [Word.isInt_aligned (typed.inside pair).2.1] at int
    cases int
  · cases pair.symm.trans found
    exact absurd rfl single

theorem Heap.Typed.own_item {h : Heap} {o k : Word} (typed : Typed strict Γ h)
    (housed : Γ.Housed o guarded) (found : h.own o k = some sl) :
    ∃ i < h.items o, sl = .item i ∧ h.key o i = k := by
  rw [own_eq (typed.no_dense housed)] at found
  obtain ⟨i, place, rfl⟩ := Option.map_eq_some_iff.mp found
  obtain ⟨bound, key, _⟩ := itemOf_some.mp place
  exact ⟨i, bound, rfl, key⟩

/-- What stands in an item is a value, and none but functions have accessors. -/
theorem Heap.Typed.value {h : Heap} {o : Word} (typed : Typed strict Γ h)
    (housed : Γ.Housed o guarded) (bound : i < h.items o) : Γ.Value (h.value o i) := by
  have whole : (i + 1) * Layout.Item.words ≤ h.slots o := by
    simp only [items, Layout.Item.words] at bound ⊢
    omega
  exact typed.item_value (typed.storage housed) whole

theorem Heap.Typed.pair_guarded {h : Heap} {o : Word} (typed : Typed strict Γ h)
    (housed : Γ.Housed o guarded) (bound : i < h.items o)
    (pair : Γ (h.value o i).toNat = some .pair) : guarded = true := by
  have field := typed.storage housed
  cases guarded with
  | true => rfl
  | false =>
    have inside : i * 3 + 1 + 2 < h.slots o + 2 := by
      simp only [items, Layout.Item.words] at bound
      omega
    have accepts := typed.holds field (i * 3 + 1 + 2) inside
    have content : Shape.content (.field (h.slots o) false) (i * 3 + 1 + 2) = .data := by
      simp [Shape.content, Shape.slotContent, Layout.Item.words, Layout.Item.value]
    rw [content] at accepts
    have same : h.value o i = h.word ((h.storageOf o).toNat + 8 * (i * 3 + 1 + 2)) := by
      rw [Heap.value, slotWord, slotAddress, slotOffset_eq]
      rfl
    rw [← same] at accepts
    exact absurd pair (Property.data_plain typed accepts)

/-- Where nothing is shared, pairs are those that functions may have. -/
theorem Heap.Typed.pair_of_isPair {Γ : Inventory false} {h : Heap} {w : Word}
    (typed : Typed strict Γ h) (value : Γ.Value w) (pair : h.isPair w = true) :
    Γ w.toNat = some .pair := by
  rcases (typed.isPair value).mp pair with own | blank
  · exact own
  · rcases value with int | ⟨x, found, handled⟩
    · cases (isPair_int int).symm.trans pair
    · cases found.symm.trans blank
      cases handled

theorem Heap.Typed.data_unpaired {Γ : Inventory false} {h : Heap} {w : Word}
    (typed : Typed strict Γ h) (data : Γ.Data w) : h.isPair w = false := by
  refine Bool.eq_false_iff.mpr fun pair => ?_
  exact Property.data_plain typed data (typed.pair_of_isPair data.value pair)

/-- A plain object has no pair in its items. -/
theorem Heap.Typed.item_unpaired {Γ : Inventory false} {h : Heap} {o : Word} {i : Nat}
    (typed : Typed strict Γ h) (housed : Γ.Housed o false) (bound : i < h.items o) :
    h.isPair (h.value o i) = false := by
  refine Bool.eq_false_iff.mpr fun pair => ?_
  cases typed.pair_guarded housed bound (typed.pair_of_isPair (typed.value housed bound) pair)

/-- Where a lookup goes on after an entity. -/
theorem Heap.Typed.prototype {h : Heap} {w : Word} (typed : Typed strict Γ h)
    (found : Γ w.toNat = some x) (finished : x.finished = true) : ∃ m p, h.mapOf w = .ok m ∧
      h.load m Layout.Map.proto = .ok p ∧ Γ.Data p ∧ (x ≠ .object → p = .null) := by
  obtain ⟨m, mapped, _, map⟩ := typed.mapOf found finished
  have null : Γ.Data .null := .inr ⟨.oddball, typed.rooted.null, rfl, nofun⟩
  rcases map with rfl | ⟨rfl, instance_, _⟩
  · exact ⟨_, .null, mapped, typed.load_canonical_proto _, null, fun _ => rfl⟩
  · exact ⟨m, _, mapped, typed.load instance_ (i := 2) (by decide),
      (typed.holds instance_ 2 (by decide)).1, fun other => absurd rfl other⟩

/-- What stands in the way of a plain value is the getter of some function. -/
def Heap.Found.Fits (strict : Bool) (Γ : Inventory shared) (h : Heap) (key : Word) : Found → Prop
  | .value w => Γ.Data w
  | .getter callee => (∃ index, Γ callee.toNat = some (.code .getter index)) ∧
      (strict = true → h.atoms.lookup "prototype" = some key)

theorem Heap.Typed.data_of {h : Heap} {w : Word} (typed : Typed strict Γ h) (value : Γ.Value w)
    (plain : h.isPair w = false) : Γ.Data w := by
  rcases value with int | ⟨x, found, handled⟩
  · exact .inl int
  · refine .inr ⟨x, found, handled, ?_⟩
    rintro rfl
    rw [(typed.isPair (.inr ⟨_, found, handled⟩)).mpr (.inl found)] at plain
    cases plain

/-- An accessor of a pair that an object holds is missing, or it is the code of an accessor that
some function came with. Strict clients find the latter under `prototype` only. -/
theorem Heap.Typed.accessor {h : Heap} {o : Word} {r : Role} {d : Nat} (typed : Typed strict Γ h)
    (housed : Γ.Housed o guarded) (bound : i < h.items o)
    (paired : h.isPair (h.value o i) = true)
    (part : d = 1 ∧ r = .getter ∨ d = 2 ∧ r = .setter) :
    let w := h.word ((h.value o i).toNat + 8 * d)
    h.load (h.value o i) (8 * d) = .ok w ∧
      (w = .hole ∨ w ≠ .hole ∧ guarded = true ∧ (∃ index, Γ w.toNat = some (.code r index)) ∧
        (strict = true → h.atoms.lookup "prototype" = some (h.key o i))) := by
  intro w
  have inside : d < 4 := by omega
  rcases (typed.isPair (typed.value housed bound)).mp paired with pair | blank
  · have accepts : (Content.accessor r).Accepts Γ (h.value o i).toNat w := by
      rcases part with ⟨rfl, rfl⟩ | ⟨rfl, rfl⟩
      · exact typed.holds pair 1 inside
      · exact typed.holds pair 2 inside
    refine ⟨typed.load pair inside, ?_⟩
    rcases accepts with hole | ⟨index, code⟩
    · exact .inl hole
    cases typed.pair_guarded housed bound pair
    have whole : (i + 1) * Layout.Item.words ≤ h.slots o := by
      simp only [items, Layout.Item.words] at bound ⊢
      omega
    refine .inr ⟨?_, rfl, ⟨index, code⟩, fun strict => ?_⟩
    · intro hole
      rw [hole, typed.rooted.hole] at code
      cases code
    · exact typed.named strict _ _ (typed.storage housed) i whole pair
  · have hole : w = .hole := by
      rcases part with ⟨rfl, rfl⟩ | ⟨rfl, rfl⟩
      · exact typed.holds blank 1 inside
      · exact typed.holds blank 2 inside
    exact ⟨typed.load blank inside, .inl hole⟩

/-- A lookup ends at the first holder that has the key. -/
theorem Heap.Typed.findFrom_item {h : Heap} {holder key : Word} {hops : Nat}
    (typed : Typed strict Γ h) (housed : Γ.Housed holder guarded)
    (going : ¬ (holder.isInt || holder.isNullish) = true)
    (found : h.own holder key = some (.item i)) :
    ∃ r, h.findFrom key (hops + 1) holder = .ok r ∧ r.Fits strict Γ h key := by
  have undefined : Γ.Data .undefined := .inr ⟨.oddball, typed.rooted.undefined, rfl, nofun⟩
  obtain ⟨j, bound, same, keyed⟩ := typed.own_item housed found
  cases same
  have backed := typed.backed housed
  have own := backed.ownSlot (k := key) typed.sound
  have slot : h.loadSlot holder (.item i) = .ok (h.value holder i) :=
    backed.loadSlot typed.sound (item_position bound).1
  rw [found] at own
  rw [Heap.findFrom, if_neg going, own]
  simp only [bind, Except.bind, slot]
  by_cases paired : h.isPair (h.value holder i) = true
  · obtain ⟨loaded, hole | ⟨real, _, code, named⟩⟩ :=
      typed.accessor housed bound paired (.inl ⟨rfl, rfl⟩)
    · refine ⟨.value .undefined, ?_, undefined⟩
      rw [if_pos paired, show h.load _ Layout.Pair.getter = _ from loaded, hole]
      rfl
    · refine ⟨.getter _, ?_, code, keyed ▸ named⟩
      rw [if_pos paired, show h.load _ Layout.Pair.getter = _ from loaded]
      exact congrArg Except.ok (if_neg real)
  · have data := typed.data_of (typed.value housed bound) (Bool.eq_false_iff.mpr paired)
    have plain : Γ.Data (if h.value holder i = .hole then .undefined else h.value holder i) := by
      split
      · exact undefined
      · exact data
    rw [if_neg paired]
    exact ⟨.value _, rfl, plain⟩

/-- Lookups never get stuck. -/
theorem Heap.Typed.findFrom {h : Heap} {holder : Word} (typed : Typed strict Γ h) (key : Word)
    (hops : Nat) (value : Γ.Value holder) :
    ∃ r, h.findFrom key hops holder = .ok r ∧ r.Fits strict Γ h key := by
  have undefined : Γ.Data .undefined := .inr ⟨.oddball, typed.rooted.undefined, rfl, nofun⟩
  induction hops generalizing holder with
  | zero => exact ⟨_, rfl, undefined⟩
  | succ hops ih =>
    by_cases stop : (holder.isInt || holder.isNullish) = true
    · refine ⟨.value .undefined, ?_, undefined⟩
      rw [Heap.findFrom, if_pos stop]
      rfl
    rcases value with int | ⟨x, found, handled⟩
    · simp [int] at stop
    have finished := Shape.finished_of_handled handled
    obtain ⟨m, p, mapped, proto, data, _⟩ := typed.prototype found finished
    obtain ⟨r, rest, fits⟩ := ih data.value
    have onward : h.ownSlot holder key = .ok none → h.findFrom key (hops + 1) holder = .ok r := by
      intro absent
      rw [Heap.findFrom, if_neg stop, absent]
      simp only [bind, Except.bind, mapped, proto, rest]
    by_cases object : h.isObjectLike holder = true
    · obtain ⟨guarded, housed⟩ := typed.objectLike (.inr ⟨x, found, handled⟩) object
      have own := (typed.backed housed).ownSlot (k := key) typed.sound
      cases held : h.own holder key with
      | none => exact ⟨r, onward (held ▸ own), fits⟩
      | some sl =>
        obtain ⟨i, _, rfl, _⟩ := typed.own_item housed held
        exact typed.findFrom_item housed stop held
    · refine ⟨r, onward ?_, fits⟩
      rw [Heap.ownSlot, Heap.storage?, if_neg object]
      rfl

namespace Property

variable {strict shared : Bool} {Γ : Inventory shared} {s : State ρ} {o k v : Word}
  (typed : Typed strict Γ s.machine.heap)

include typed

/-- A plain value does not get past a pair: the setter gets it, if the pair has one. -/
theorem set_diverts (housed : Γ.Housed o guarded) {i : Nat}
    (found : s.machine.heap.own o k = some (.item i)) (plain : s.machine.heap.isPair v = false)
    (paired : s.machine.heap.isPair (s.machine.heap.value o i) = true) (calls : Invoke ρ) :
    let setter := s.machine.heap.word ((s.machine.heap.value o i).toNat + 8 * 2)
    setter = .hole ∧ Property.set calls o k v s = .ok .undefined s ∨
      ∃ index, Γ setter.toNat = some (.code .setter index) ∧ guarded = true ∧
        (strict = true → s.machine.heap.atoms.lookup "prototype" = some k) ∧
        Property.set calls o k v s = (do
          let _ ← callValue calls setter o [v]
          return .undefined : Exec ρ Word) s := by
  intro setter
  obtain ⟨j, bound, same, key⟩ := typed.own_item housed found
  cases same
  have diverted := set_paired rfl typed.sound (typed.backed housed) calls found plain paired
  obtain ⟨loaded, missing⟩ := typed.accessor housed bound paired (.inr ⟨rfl, rfl⟩)
  rw [estate_bind_of_ok (Exec.query_ok loaded)] at diverted
  rcases missing with hole | ⟨real, guards, ⟨index, code⟩, named⟩
  · rw [hole] at diverted
    exact .inl ⟨hole, diverted⟩
  · exact .inr ⟨index, code, guards, key ▸ named, diverted.trans (by rw [if_pos real])⟩

/-- A property that an object lacks gets an item, unless there is no room for it. -/
theorem claim_typed (housed : Γ.Housed o guarded) (key : Γ.Value k) (value : Γ.Value v)
    (loose : guarded = false → Γ.Data v) (plain : strict = true → Γ.Data v) (result : Slot → α) :
    let adds : Exec ρ α := do
      let sl ← claim o k none
      Exec.onHeap (storeSlot o sl v)
      return result sl
    (∃ e, adds s = .error e s) ∨
    ∃ i h Γ', adds s = .ok (result (.item i)) (s.withHeap h) ∧ Typed strict Γ' h ∧
      Evolves Complete Γ s.machine.heap Γ' h ∧ i < h.items o ∧ h.key o i = k := by
  intro adds
  rcases typed.claimItem? housed key with
    ⟨e, failed⟩ | ⟨i, h, Γ', claimed, bound, keyed, typed', ev⟩
  · exact .inl ⟨_, estate_bind_of_error (estate_bind_of_error (Exec.onHeap_error failed))⟩
  have settles := ev.stays.settles
  have housed' := housed.mono ev.stays
  have backed := typed'.backed housed'
  have opened : Property.claim o k none s = .ok (.item i) (s.withHeap h) :=
    estate_bind_of_ok (Exec.onHeap_ok claimed)
  have stored := backed.storeSlot (s := .item i) (v := v) typed'.sound (item_position bound).1
  obtain ⟨typed'', moved⟩ := typed'.put_value (typed'.stored housed') bound (value.mono settles)
    (fun same => (loose same).mono settles)
    fun strict pair => absurd pair (data_plain typed' ((plain strict).mono settles))
  have written := Rewritten.overwrite typed'.sound backed bound v
  have ran : adds s = .ok (result (.item i)) (s.withHeap _) :=
    (estate_bind_of_ok opened).trans (estate_bind_of_ok (Exec.onHeap_ok stored))
  refine .inr ⟨i, _, Γ', ran, typed'', ev.trans (moved _), ?_, ?_⟩
  · rwa [items, written.slots]
  · rw [written.key, if_pos rfl, keyed]

/-- What a write comes to. -/
theorem set_typed (calls : Invoke ρ) (obj : Γ.Value o) (key : Γ.Value k) (value : Γ.Value v)
    (loose : Γ.Housed o false → Γ.Data v) (plain : strict = true → Γ.Data v) :
    (∃ e, Property.set calls o k v s = .error e s) ∨
    (∃ h Γ', Property.set calls o k v s = .ok .undefined (s.withHeap h) ∧ Typed strict Γ' h ∧
      Evolves Complete Γ s.machine.heap Γ' h) ∨
    ∃ setter index, Γ setter.toNat = some (.code .setter index) ∧ Γ.Housed o true ∧ Γ.Data v ∧
      Property.set calls o k v s = (do
        let _ ← callValue calls setter o [v]
        return .undefined : Exec ρ Word) s := by
  by_cases object : s.machine.heap.isObjectLike o = true
  · obtain ⟨guarded, housed⟩ := typed.objectLike obj object
    have backed := typed.backed housed
    have data (same : guarded = false) : Γ.Data v := loose (same ▸ housed)
    have own := backed.ownSlot (k := k) typed.sound
    cases found : s.machine.heap.own o k with
    | none =>
      rw [found] at own
      rw [set_adds calls v object own]
      rcases claim_typed typed housed key value data plain (fun _ => Word.undefined) with
        failed | ⟨_, h, Γ', ran, typed', ev, _⟩
      · exact .inl failed
      · exact .inr (.inl ⟨h, Γ', ran, typed', ev⟩)
    | some sl =>
      obtain ⟨i, bound, rfl, _⟩ := typed.own_item housed found
      by_cases free : s.machine.heap.isPair v = true ∨
          s.machine.heap.isPair (s.machine.heap.value o i) = false
      · have written : Property.set calls o k v s = _ :=
          set_own rfl typed.sound backed found free
        obtain ⟨typed', moved⟩ := typed.put_value (typed.stored housed) bound value data
          fun strict pair => absurd pair (data_plain typed (plain strict))
        exact .inr (.inl ⟨_, Γ, written, typed', moved _⟩)
      · rw [not_or, Bool.not_eq_true, Bool.not_eq_false] at free
        rcases set_diverts typed housed found free.1 free.2 calls with
          ⟨_, ran⟩ | ⟨index, code, rfl, _, ran⟩
        · exact .inr (.inl ⟨_, Γ, ran, typed, .refl _ Γ _⟩)
        · exact .inr (.inr ⟨_, index, code, housed, typed.data_of value free.1, ran⟩)
  · refine .inr (.inl ⟨s.machine.heap, Γ, ?_, typed, .refl _ Γ _⟩)
    rw [Property.set, estate_bind_of_ok (Exec.heap_ok s), if_neg object]
    rfl

/-- The first property of an object goes to its first item. -/
theorem set_blank (calls : Invoke ρ) (stored : Stored Γ s.machine.heap o guarded)
    (dictionary : s.machine.heap.flagged o Layout.Object.dense = false)
    (some_ : 0 < s.machine.heap.items o)
    (blank : ∀ j < s.machine.heap.slots o, s.machine.heap.slotWord o j = .hole)
    (key : Γ.Value k) (real : k ≠ .hole) (value : Γ.Value v) (data : guarded = false → Γ.Data v)
    (named : s.machine.heap.atoms.lookup "prototype" = some k) :
    ∃ h, Property.set calls o k v s = .ok .undefined (s.withHeap h) ∧ Typed strict Γ h ∧
      (∀ New, Evolves New Γ s.machine.heap Γ h) ∧ Rewritten s.machine.heap o 0 k v h := by
  have sound := typed.sound
  have backed := stored.backed
  have free (i : Nat) (bound : i < s.machine.heap.items o) : s.machine.heap.key o i = .hole :=
    blank _ (item_position bound).2.1
  have absent : s.machine.heap.own o k = none := by
    rw [own_eq dictionary, Option.map_eq_none_iff, itemOf_none]
    intro i bound
    rw [free i bound]
    exact real.symm
  have first : s.machine.heap.itemOf o .hole = some 0 :=
    itemOf_some.mpr ⟨some_, free 0 some_, fun j before => absurd before (Nat.not_lt_zero j)⟩
  have claimed := claimItem?_eq (k := k) sound backed dictionary
  rw [first] at claimed
  obtain ⟨h, stamped, typed', moved⟩ := typed.stampItem stored some_ key (free 0 some_)
  obtain ⟨_, stamped', keyed⟩ := stampItem_ok (k := k) sound backed some_
  obtain ⟨_, rfl⟩ := EStateM.Result.ok.inj (stamped.symm.trans stamped')
  have bound : 0 < h.items o := by rwa [items, keyed.slots]
  have written := keyed.backed.storeSlot (s := .item 0) (v := v) keyed.sound (item_position bound).1
  have name : h.atoms.lookup "prototype" = some (h.key o 0) := by
    rw [keyed.key, if_pos rfl, (moved Complete).atoms named]
  obtain ⟨typed'', moved'⟩ := typed'.put_value (stored.rewritten keyed) bound value data
    fun _ _ => name
  have own := backed.ownSlot (k := k) sound
  rw [absent] at own
  refine ⟨_, ?_, typed'', fun New => (moved New).trans (moved' New),
    keyed.put (w := v) (p := Layout.Item.value) some_ (by decide)⟩
  rw [set_adds calls v backed.kind own]
  have opened : Property.claim o k none s = .ok (.item 0) (s.withHeap h) :=
    estate_bind_of_ok (Exec.onHeap_ok (claimed.trans stamped))
  exact (estate_bind_of_ok opened).trans (estate_bind_of_ok (Exec.onHeap_ok written))

theorem delete_typed (obj : Γ.Value o) (k : Word) :
    ∃ h, Property.delete o k s = .ok (.boolean true) (s.withHeap h) ∧ Typed strict Γ h ∧
      ∀ New, Evolves New Γ s.machine.heap Γ h := by
  have unchanged : Typed strict Γ s.machine.heap ∧
      ∀ New, Evolves New Γ s.machine.heap Γ s.machine.heap := ⟨typed, fun New => .refl New Γ _⟩
  by_cases object : s.machine.heap.isObjectLike o = true
  · obtain ⟨guarded, housed⟩ := typed.objectLike obj object
    have backed := typed.backed housed
    cases found : s.machine.heap.own o k with
    | none => exact ⟨_, delete_absent rfl typed.sound backed found, unchanged⟩
    | some sl =>
      have own := backed.ownSlot (k := k) typed.sound
      obtain ⟨i, bound, rfl, _⟩ := typed.own_item housed found
      obtain ⟨h, cleared, typed', moved⟩ := typed.clearItem (typed.stored housed) bound
      rw [found] at own
      refine ⟨h, ?_, typed', moved⟩
      rw [Property.delete, estate_bind_of_ok (Exec.heap_ok s), if_pos object,
        estate_bind_of_ok (Exec.query_ok own)]
      exact estate_bind_of_ok (Exec.onHeap_ok cleared)
  · refine ⟨s.machine.heap, ?_, unchanged⟩
    rw [Property.delete, estate_bind_of_ok (Exec.heap_ok s), if_neg object]
    rfl

/-- A slot that a lookup hands out is an item of an open storage. -/
theorem slot?_typed (obj : Γ.Value o) (key : Γ.Value k) (update : Bool) :
    (∃ e, Property.slot? o k update s = .error e s) ∨
    ∃ r h Γ', Property.slot? o k update s = .ok r (s.withHeap h) ∧ Typed strict Γ' h ∧
      Evolves Complete Γ s.machine.heap Γ' h ∧
      ∀ sl, r = some sl → Γ.Housed o false ∧ ∃ i < h.items o, sl = .item i ∧ h.key o i = k := by
  by_cases object : s.machine.heap.isObjectLike o = true
  · obtain ⟨guarded, housed⟩ := typed.objectLike obj object
    have backed := typed.backed housed
    have access := backed.loadFlag typed.sound Layout.Object.access
    rw [typed.access housed] at access
    cases guarded with
    | true =>
      refine .inr ⟨none, s.machine.heap, Γ, ?_, typed, .refl _ Γ _,
        fun _ same => by cases same⟩
      rw [Property.slot?, estate_bind_of_ok (Exec.heap_ok s), if_pos object,
        estate_bind_of_ok (Exec.query_ok access)]
      rfl
    | false =>
      have data := typed.access housed
      cases found : s.machine.heap.own o k with
      | some sl =>
        obtain ⟨i, bound, rfl, keyed⟩ := typed.own_item housed found
        refine .inr ⟨_, _, Γ, slot?_own rfl typed.sound backed data found update, typed,
          .refl _ Γ _, ?_⟩
        intro sl same
        cases same
        exact ⟨housed, i, bound, rfl, keyed⟩
      | none =>
        cases update with
        | false =>
          exact .inr ⟨_, _, Γ, slot?_missing rfl typed.sound backed data found, typed,
            .refl _ Γ _, fun _ same => by cases same⟩
        | true =>
          have undefined : Γ.Data .undefined :=
            .inr ⟨.oddball, typed.rooted.undefined, rfl, fun same => by cases same⟩
          rw [slot?_claim rfl typed.sound backed data found]
          rcases claim_typed typed housed key undefined.value (fun _ => undefined)
            (fun _ => undefined) Option.some with failed | ⟨i, h, Γ', ran, typed', ev, bound, keyed⟩
          · exact .inl failed
          · refine .inr ⟨_, h, Γ', ran, typed', ev, ?_⟩
            intro sl same
            cases same
            exact ⟨housed, i, bound, rfl, keyed⟩
  · refine .inr ⟨none, s.machine.heap, Γ, ?_, typed, .refl _ Γ _,
      fun _ same => by cases same⟩
    rw [Property.slot?, estate_bind_of_ok (Exec.heap_ok s), if_neg object]
    rfl

end Property

end FastPath
