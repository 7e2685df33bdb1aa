import FastPath.Proofs.Property.Write

/-! Where dictionaries keep their properties. A property stays in its item until it is deleted, and
an object that moves to a bigger storage takes its items along in their places. -/

namespace FastPath

namespace Heap

/-- The objects are dictionaries under the maps they had, and have their properties where they had
them, but for those that are gone. -/
structure Stays (objs : List Word) (gone : Word → Word → Prop) (h h' : Heap) : Prop where
  family : h'.Separate objs
  maps : ∀ o ∈ objs, h'.word o.toNat = h.word o.toNat
  places : ∀ o ∈ objs, ∀ k, k ≠ .hole → ¬ gone o k → ∀ sl, h.own o k = some sl →
    h'.own o k = some sl

variable {h h' h'' h₁ : Heap} {objs : List Word} {gone gone' : Word → Word → Prop}
  {o k v : Word} {i : Nat} {sl : Slot}

theorem Dictionary.own_iff (d : h.Dictionary o) (real : k ≠ .hole) :
    h.own o k = some sl ↔ ∃ i < h.items o, h.key o i = k ∧ .item i = sl := by
  rw [d.own_eq, Option.map_eq_some_iff]
  constructor
  · rintro ⟨i, place, same⟩
    obtain ⟨bound, key, _⟩ := itemOf_some.mp place
    exact ⟨i, bound, key, same⟩
  · rintro ⟨i, bound, key, same⟩
    refine ⟨i, itemOf_some.mpr ⟨bound, key, fun j before twice => ?_⟩, same⟩
    have one := d.distinct j (by omega) i bound (twice.trans key.symm) (twice ▸ real)
    omega

namespace Stays

theorem refl (family : h.Separate objs) : Stays objs gone h h :=
  ⟨family, fun _ _ => rfl, fun _ _ _ _ _ _ own => own⟩

theorem trans (stays : Stays objs gone h h') (stays' : Stays objs gone h' h'') :
    Stays objs gone h h'' :=
  ⟨stays'.family, fun o member => (stays'.maps o member).trans (stays.maps o member),
    fun o member k real kept sl own =>
      stays'.places o member k real kept sl (stays.places o member k real kept sl own)⟩

theorem mono (stays : Stays objs gone h h') (fewer : ∀ o k, k ≠ .hole → gone o k → gone' o k) :
    Stays objs gone' h h' :=
  ⟨stays.family, stays.maps, fun o member k real kept =>
    stays.places o member k real (mt (fewer o k real) kept)⟩

end Stays

variable (family : h.Separate objs) (member : o ∈ objs)

include family member

theorem Separate.stays (kept : Kept [o] h h') (d : h'.Dictionary o)
    (items : ∀ i < h.items o, h.key o i ≠ .hole → ¬ gone o (h.key o i) →
      i < h'.items o ∧ h'.key o i = h.key o i) : Stays objs gone h h' := by
  refine ⟨family.changed member kept d, fun p inside => ?_, fun p inside k real still sl own => ?_⟩
  · have crossed := family.crossed p inside o member
    have place := (family.each p inside).object
    obtain ⟨_, aligned, fits⟩ := place
    refine kept.words _ aligned (by omega) fun q only => ?_
    rw [List.mem_singleton.mp only]
    simp only [Writable, Layout.Object.storage, Layout.Field.data]
    by_cases same : p = o
    · subst same
      omega
    · have objects := family.objects p inside o member same
      omega
  · obtain ⟨i, bound, key, rfl⟩ := ((family.each p inside).own_iff real).mp own
    by_cases same : p = o
    · subst same
      obtain ⟨bound', key'⟩ := items i bound (key ▸ real) (key ▸ still)
      exact (d.own_iff real).mpr ⟨i, bound', key'.trans key, rfl⟩
    · obtain ⟨d', _, slots, keys, _⟩ := family.other member kept inside same
      refine (d'.own_iff real).mpr ⟨i, ?_, (keys i bound).trans key, rfl⟩
      rwa [Heap.items, slots]

theorem Separate.stays_rewritten (written : Rewritten h o i k v h') (bound : i < h.items o)
    (fresh : k ≠ .hole → ∀ j < h.items o, h.key o j = k → j = i) :
    Stays objs (fun p m => p = o ∧ m = h.key o i ∧ m ≠ k) h h' := by
  have d := family.each o member
  refine family.stays member written.keeps (written.dictionary d bound fresh).1
    fun j inside _ kept => ⟨by rwa [items, written.slots], ?_⟩
  rw [written.key]
  by_cases here : j = i
  · subst here
    rw [if_pos rfl]
    by_contra other
    exact kept ⟨rfl, rfl, Ne.symm other⟩
  · rw [if_neg here]

theorem Separate.stays_opened (gone : Word → Word → Prop) (opened : Opened h o i h₁) :
    Stays objs gone h h₁ := by
  obtain ⟨_, rfl⟩ | ⟨_, _, enlarged⟩ := opened
  · exact .refl family
  · have more := enlarged.more
    refine family.stays member enlarged.keeps (enlarged.dictionary (family.each o member)).1
      fun j inside _ _ => ⟨by omega, ?_⟩
    rw [enlarged.key (by rw [← enlarged.items]; omega), if_pos inside]

/-- Writing a property moves none. -/
theorem Separate.stays_written (written : h.Written o k v h') : Stays objs gone h h' := by
  have d := family.each o member
  cases written with
  | old own rewritten =>
    obtain ⟨bound, key⟩ := item_of_own own
    refine (family.stays_rewritten member rewritten bound fun real j inside twice =>
      d.distinct j inside _ bound (twice.trans key.symm) (twice ▸ real)).mono ?_
    rintro p m _ ⟨_, erased, other⟩
    exact absurd (erased.trans key) other
  | @new i h₁ absent opened rewritten =>
    have before := family.stays_opened member gone opened
    have free := (itemOf_some.mp opened.itemOf_hole).2.1
    refine before.trans ((before.family.stays_rewritten member rewritten opened.bound ?_).mono ?_)
    · intro real j bound key
      have missing : h₁.lookup o k = none := by
        obtain ⟨_, rfl⟩ | ⟨_, _, enlarged⟩ := opened
        · exact d.own_none.mp absent
        · rw [(enlarged.dictionary d).2 k real, d.own_none.mp absent]
      exact absurd key (lookup_none.mp missing j bound)
    · rintro p m real ⟨_, erased, _⟩
      exact absurd (erased.trans free) real

end Heap

end FastPath
