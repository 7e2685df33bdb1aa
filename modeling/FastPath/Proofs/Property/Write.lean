import FastPath.Proofs.Property.Dictionary

/-! Writing to a dictionary: an own property is overwritten in its item, and a new one takes the
first free item, for which the dictionary may grow. -/

namespace FastPath

namespace Heap

/-- The property holds the value, in the item that it had or in one that was free. -/
inductive Written (h : Heap) (o k v : Word) (h' : Heap) : Prop
  | old (own : h.own o k = some (.item i)) (rewritten : Rewritten h o i k v h')
  | new (absent : h.own o k = none) (opened : Opened h o i h₁) (rewritten : Rewritten h₁ o i k v h')

variable {s : State ρ} {h h' h₁ : Heap} {o k v : Word} {i : Nat}

theorem Written.keeps (written : h.Written o k v h') : Kept [o] h h' := by
  cases written with
  | old _ rewritten => exact rewritten.keeps
  | new _ opened rewritten =>
    obtain ⟨_, rfl⟩ | ⟨_, _, enlarged⟩ := opened
    · exact rewritten.keeps
    · exact enlarged.keeps.trans rewritten.keeps

section

variable (dictionary : h.flagged o Layout.Object.dense = false)

include dictionary

/-- A new property is found in the item that was opened for it. -/
theorem Opened.own_new (absent : h.own o k = none) (opened : Opened h o i h₁)
    (rewritten : Rewritten h₁ o i k v h') : h'.own o k = some (.item i) := by
  rw [own_eq dictionary, Option.map_eq_none_iff, itemOf_none] at absent
  refine own_item.mpr ⟨?_, itemOf_some.mpr ⟨?_, ?_, fun j before => ?_⟩⟩
  · rw [rewritten.flagged, opened.flagged, dictionary]
  · rw [items, rewritten.slots]
    exact opened.bound
  · rw [rewritten.key, if_pos rfl]
  · obtain ⟨bound, same⟩ := opened.key_before before
    rw [rewritten.key, if_neg (Nat.ne_of_lt before), same]
    exact absent j bound

/-- A property that was written is found in an item with its value. -/
theorem Written.own (written : h.Written o k v h') :
    ∃ i, h'.own o k = some (.item i) ∧ h'.value o i = v ∧ h'.Backed o := by
  cases written with
  | @old i own rewritten =>
    obtain ⟨bound, _, before⟩ := itemOf_some.mp (own_item.mp own).2
    refine ⟨i, own_item.mpr ⟨?_, itemOf_some.mpr ⟨?_, ?_, fun j earlier => ?_⟩⟩, ?_,
      rewritten.backed⟩
    · rw [rewritten.flagged, dictionary]
    · rwa [items, rewritten.slots]
    · rw [rewritten.key, if_pos rfl]
    · rw [rewritten.key, if_neg (Nat.ne_of_lt earlier)]
      exact before j earlier
    · rw [rewritten.value, if_pos rfl]
  | @new i h₁ absent opened rewritten =>
    refine ⟨i, opened.own_new dictionary absent rewritten, ?_, rewritten.backed⟩
    rw [rewritten.value, if_pos rfl]

theorem own_cases (k : Word) : h.own o k = none ∨ ∃ i, h.own o k = some (.item i) := by
  rw [own_eq dictionary]
  cases h.itemOf o k with
  | none => exact .inl rfl
  | some i => exact .inr ⟨i, rfl⟩

variable (heap : s.machine.heap = h) (sound : h.Sound) (backed : h.Backed o)

include heap sound backed

/-- What a write comes to where no pair stands in its way. -/
theorem Backed.set_cases (invoke : Invoke ρ) (free : ∀ i, h.own o k = some (.item i) →
      h.isPair v = true ∨ h.isPair (h.value o i) = false) :
    (∃ e, Property.set invoke o k v s = .error e s) ∨
    ∃ h', h.Written o k v h' ∧
      Property.set invoke o k v s = .ok .undefined (s.withHeap h') := by
  obtain found | ⟨i, found⟩ := own_cases dictionary k
  · obtain failed | ⟨i, h₁, h', opened, written, set⟩ :=
      Property.set_absent heap sound backed invoke v found dictionary
    · exact .inl failed
    · exact .inr ⟨h', .new found opened written, set⟩
  · obtain ⟨bound, key⟩ := item_of_own found
    have written := Rewritten.overwrite sound backed bound v
    rw [key] at written
    exact .inr ⟨_, .old found written, Property.set_own heap sound backed found (free i found)⟩

/-- What a deletion comes to. -/
theorem Backed.delete_cases :
    h.own o k = none ∧ Property.delete o k s = .ok (.boolean true) s ∨
    ∃ i h', h.own o k = some (.item i) ∧ Rewritten h o i .hole .hole h' ∧
      Property.delete o k s = .ok (.boolean true) (s.withHeap h') := by
  obtain found | ⟨i, found⟩ := own_cases dictionary k
  · exact .inl ⟨found, Property.delete_absent heap sound backed found⟩
  · have bound := (item_of_own found).1
    obtain ⟨h', cleared, done⟩ := Property.delete_item heap sound backed found bound
    exact .inr ⟨i, h', found, cleared, done⟩

end

/-- What a slot lookup comes to. -/
theorem Dictionary.slot?_cases (d : h.Dictionary o) (heap : s.machine.heap = h) (sound : h.Sound)
    (update : Bool) :
    (∃ e, Property.slot? o k update s = .error e s) ∨
    (h.own o k = none → update = false) ∧ Property.slot? o k update s = .ok (h.own o k) s ∨
    ∃ i h', update = true ∧ h.own o k = none ∧ h.Written o k .undefined h' ∧
      Property.slot? o k update s = .ok (some (.item i)) (s.withHeap h') := by
  cases found : h.own o k with
  | some sl =>
    exact .inr (.inl ⟨nofun, Property.slot?_own heap sound d.toBacked d.data found update⟩)
  | none =>
    cases update with
    | false =>
      exact .inr (.inl ⟨fun _ => rfl, Property.slot?_missing heap sound d.toBacked d.data found⟩)
    | true =>
      obtain failed | ⟨i, h₁, h', opened, written, done⟩ :=
        Property.slot?_absent heap sound d.toBacked d.data found d.dictionary
      · exact .inl failed
      · exact .inr (.inr ⟨i, h', rfl, rfl, .new found opened written, done⟩)

end Heap

end FastPath
