import FastPath.Proofs.Property.Claim
import FastPath.Property.Host

/-! What the property operations do to an object with a storage of its own: which words of the
heap they change, and what they return. -/

namespace FastPath

/-- The state with another heap. -/
def State.withHeap (s : State ρ) (h : Heap) : State ρ :=
  { s with machine := { s.machine with heap := h } }

@[simp] theorem State.withHeap_heap (s : State ρ) (h : Heap) :
    (s.withHeap h).machine.heap = h := rfl

@[simp] theorem State.withHeap_withHeap (s : State ρ) (h h' : Heap) :
    (s.withHeap h).withHeap h' = s.withHeap h' := rfl

namespace Exec

variable {s : State ρ}

theorem heap_ok (s : State ρ) : Exec.heap s = .ok s.machine.heap s := rfl

theorem query_ok {f : Heap → Except HeapError α} {x : α} (read : f s.machine.heap = .ok x) :
    Exec.query f s = .ok x s := by
  rw [Exec.query, read]

theorem query_error {f : Heap → Except HeapError α} (read : f s.machine.heap = .error e) :
    Exec.query f s = .error (.trap (.ofHeapError e)) s := by
  rw [Exec.query, read]

theorem onHeap_ok {act : HeapM α} {x : α} {h : Heap} (done : act s.machine.heap = .ok x h) :
    Exec.onHeap act s = .ok x (s.withHeap h) := by
  obtain ⟨⟨heap, code, entities, depth, maxDepth⟩, host⟩ := s
  have done : act heap = .ok x h := done
  simp only [Exec.onHeap, Exec.onMachine, Machine.onHeap, done]
  rfl

theorem onHeap_error {act : HeapM α} {e : HeapError} {h : Heap}
    (failed : act s.machine.heap = .error e h) :
    Exec.onHeap act s = .error (.trap (.ofHeapError e)) (s.withHeap h) := by
  obtain ⟨⟨heap, code, entities, depth, maxDepth⟩, host⟩ := s
  have failed : act heap = .error e h := failed
  simp only [Exec.onHeap, Exec.onMachine, Machine.onHeap, failed]
  rfl

end Exec

theorem callValue_eq (invoke : Invoke ρ) (callee self : Word) (args : List Word) (s : State ρ) :
    callValue invoke callee self args s =
      match s.machine.target callee with
      | .ok stub => invoke stub self args s
      | .error t => .error (.trap t) s := by
  change (match s.machine.target callee with
    | .ok stub => invoke stub self args
    | .error t => Exec.trap t) s = _
  cases s.machine.target callee <;> rfl

theorem Heap.pairIn?_none {h : Heap} {o v : Word} {sl : Slot} (sound : h.Sound)
    (backed : h.Backed o) (bound : sl.position < h.slots o)
    (free : h.isPair v = true ∨ h.isPair (h.slotWord o sl.position) = false) :
    h.pairIn? o sl v = .ok none := by
  have current := backed.loadSlot (s := sl) sound bound
  rw [pairIn?, current]
  obtain pair | data := free
  · rw [if_pos pair]
    rfl
  · simp only [bind, Except.bind, data]
    split <;> rfl

namespace Property

open Heap

variable {s : State ρ} {h h' : Heap} {o k v : Word} {i : Nat} {sl : Slot} {invoke : Invoke ρ}
  (heap : s.machine.heap = h) (sound : h.Sound) (backed : h.Backed o)

/-- A property that the object lacks is added to it. -/
theorem set_adds (invoke : Invoke ρ) (v : Word) (object : s.machine.heap.isObjectLike o = true)
    (absent : s.machine.heap.ownSlot o k = .ok none) : Property.set invoke o k v s = (do
      let sl ← claim o k none
      Exec.onHeap (storeSlot o sl v)
      return .undefined : Exec ρ Word) s := by
  rw [Property.set, estate_bind_of_ok (Exec.heap_ok s), if_pos object,
    estate_bind_of_ok (Exec.query_ok absent)]
  dsimp only
  rw [estate_bind_of_ok (estate_pure _ _)]

include heap sound backed

/-- A property that no pair stands in the way of is overwritten in its slot. -/
theorem set_own (found : h.own o k = some sl)
    (free : h.isPair v = true ∨ h.isPair (h.slotWord o sl.position) = false) :
    Property.set invoke o k v s =
      .ok .undefined (s.withHeap (h.put (h.slotAddress o sl.position) v)) := by
  subst heap
  have bound := own_position found
  have own := backed.ownSlot (k := k) sound
  rw [found] at own
  have pair := pairIn?_none sound backed bound free
  have stored := backed.storeSlot (v := v) sound bound
  rw [Property.set, estate_bind_of_ok (Exec.heap_ok s), if_pos backed.kind,
    estate_bind_of_ok (Exec.query_ok own)]
  dsimp only
  rw [estate_bind_of_ok (Exec.query_ok pair)]
  dsimp only
  rw [claim, estate_bind_of_ok (estate_pure _ _), estate_bind_of_ok (Exec.onHeap_ok stored)]
  rfl

/-- A pair stands in the way of a value that is no pair itself, and its setter runs instead. -/
theorem set_paired (invoke : Invoke ρ) (found : h.own o k = some sl) (plain : h.isPair v = false)
    (pair : h.isPair (h.slotWord o sl.position) = true) :
    Property.set invoke o k v s = (do
      let setter ← Exec.query fun h' => h'.load (h.slotWord o sl.position) Layout.Pair.setter
      if setter ≠ .hole then
        let _ ← callValue invoke setter o [v]
        return .undefined
      else return .undefined : Exec ρ Word) s := by
  subst heap
  have own := backed.ownSlot (k := k) sound
  rw [found] at own
  have current := backed.loadSlot (s := sl) sound (own_position found)
  have read : s.machine.heap.pairIn? o sl v =
      .ok (some (s.machine.heap.slotWord o sl.position)) := by
    rw [pairIn?, plain, current]
    simp only [bind, Except.bind, pair]
    rfl
  rw [Property.set, estate_bind_of_ok (Exec.heap_ok s), if_pos backed.kind,
    estate_bind_of_ok (Exec.query_ok own)]
  dsimp only
  rw [estate_bind_of_ok (Exec.query_ok read)]

/-- A new property takes the first free item, unless no room can be made for it. -/
theorem claim_cases (v : Word) (dictionary : h.flagged o Layout.Object.dense = false) :
    (∃ e, claim o k none s = .error e s) ∨
    ∃ i h₁ h₂ h', Opened h o i h₁ ∧ Rewritten h₁ o i k v h' ∧
      claim o k none s = .ok (.item i) (s.withHeap h₂) ∧
      Exec.onHeap (storeSlot o (.item i) v) (s.withHeap h₂) = .ok () (s.withHeap h') := by
  subst heap
  obtain ⟨e, failed⟩ | ⟨i, h₁, h₂, opened, claimed, stamped⟩ :=
    claimItem?_cases (k := k) sound backed dictionary
  · exact .inl ⟨_, estate_bind_of_error (Exec.onHeap_error failed)⟩
  · right
    have bound : i < h₂.items o := by
      have bound := opened.bound
      rwa [items, ← stamped.slots] at bound
    have inside := stamped.backed.storeSlot (v := v) stamped.sound (item_position bound).1
    have written := stamped.put (w := v) (p := Layout.Item.value) opened.bound (by decide)
    exact ⟨i, h₁, h₂, _, opened, written, estate_bind_of_ok (Exec.onHeap_ok claimed),
      Exec.onHeap_ok inside⟩

theorem set_absent (invoke : Invoke ρ) (v : Word) (absent : h.own o k = none)
    (dictionary : h.flagged o Layout.Object.dense = false) :
    (∃ e, Property.set invoke o k v s = .error e s) ∨
    ∃ i h₁ h', Opened h o i h₁ ∧ Rewritten h₁ o i k v h' ∧
      Property.set invoke o k v s = .ok .undefined (s.withHeap h') := by
  have own := backed.ownSlot (k := k) sound
  rw [absent] at own
  have cases := claim_cases (k := k) heap sound backed v dictionary
  subst heap
  rw [set_adds invoke v backed.kind own]
  obtain ⟨e, failed⟩ | ⟨i, h₁, h₂, h', opened, written, claimed, stored⟩ := cases
  · exact .inl ⟨e, estate_bind_of_error failed⟩
  · refine .inr ⟨i, h₁, h', opened, written, ?_⟩
    exact (estate_bind_of_ok claimed).trans (estate_bind_of_ok stored)

theorem delete_absent (absent : h.own o k = none) :
    Property.delete o k s = .ok (.boolean true) s := by
  have own := backed.ownSlot (k := k) sound
  rw [absent] at own
  subst heap
  rw [Property.delete, estate_bind_of_ok (Exec.heap_ok s), if_pos backed.kind,
    estate_bind_of_ok (Exec.query_ok own)]
  rfl

theorem delete_item (found : h.own o k = some (.item i)) (bound : i < h.items o) :
    ∃ h', Rewritten h o i .hole .hole h' ∧
      Property.delete o k s = .ok (.boolean true) (s.withHeap h') := by
  have own := backed.ownSlot (k := k) sound
  rw [found] at own
  obtain ⟨h', cleared, rewritten⟩ := clearSlot_item sound backed bound
  subst heap
  refine ⟨h', rewritten, ?_⟩
  rw [Property.delete, estate_bind_of_ok (Exec.heap_ok s), if_pos backed.kind,
    estate_bind_of_ok (Exec.query_ok own)]
  exact estate_bind_of_ok (Exec.onHeap_ok cleared)

/-- An own property that is no pair is read from its slot. -/
theorem get_own (invoke : Invoke ρ) (found : h.own o k = some sl) (real : o.isNullish = false)
    (data : h.isPair (h.slotWord o sl.position) = false) :
    Property.get invoke o k s =
      .ok (if h.slotWord o sl.position = .hole then .undefined
        else h.slotWord o sl.position) s := by
  have own := backed.ownSlot (k := k) sound
  rw [found] at own
  have loaded := backed.loadSlot sound (own_position found)
  have entity : (o.isInt || o.isNullish) = false := by
    rw [Word.isInt_aligned backed.object.aligned, real]
    rfl
  have read : h.find o k = .ok (.value (if h.slotWord o sl.position = .hole then .undefined
      else h.slotWord o sl.position)) := by
    rw [Heap.find, hopLimit, Heap.findFrom]
    simp only [bind, Except.bind, entity, own, loaded, data]
    rfl
  subst heap
  exact (estate_bind_of_ok (Exec.query_ok read)).trans rfl

section

variable (data : h.flagged o Layout.Object.access = false)

include data

/-- Without accessors a slot is the own one, or one that is claimed for it. -/
theorem slot?_eq (update : Bool) : slot? o k update s = (match h.own o k with
    | some sl => return some sl
    | none =>
      if update then do
        let sl ← claim o k none
        Exec.onHeap (storeSlot o sl .undefined)
        return some sl
      else return none : Exec ρ (Option Slot)) s := by
  have own := backed.ownSlot (k := k) sound
  have access := backed.loadFlag sound Layout.Object.access
  rw [data] at access
  subst heap
  rw [slot?, estate_bind_of_ok (Exec.heap_ok s), if_pos backed.kind,
    estate_bind_of_ok (Exec.query_ok access), if_neg Bool.false_ne_true]
  exact estate_bind_of_ok (Exec.query_ok own)

theorem slot?_own (found : h.own o k = some sl) (update : Bool) :
    slot? o k update s = .ok (some sl) s := by
  rw [slot?_eq heap sound backed data, found]
  rfl

theorem slot?_missing (absent : h.own o k = none) : slot? o k false s = .ok none s := by
  rw [slot?_eq heap sound backed data, absent]
  rfl

theorem slot?_claim (absent : h.own o k = none) : slot? o k true s = (do
    let sl ← claim o k none
    Exec.onHeap (storeSlot o sl .undefined)
    return some sl : Exec ρ (Option Slot)) s := by
  rw [slot?_eq heap sound backed data, absent]
  rfl

theorem slot?_absent (absent : h.own o k = none)
    (dictionary : h.flagged o Layout.Object.dense = false) :
    (∃ e, slot? o k true s = .error e s) ∨
    ∃ i h₁ h', Opened h o i h₁ ∧ Rewritten h₁ o i k .undefined h' ∧
      slot? o k true s = .ok (some (.item i)) (s.withHeap h') := by
  rw [slot?_claim heap sound backed data absent]
  obtain ⟨e, failed⟩ | ⟨i, h₁, h₂, h', opened, written, claimed, stored⟩ :=
    claim_cases (k := k) heap sound backed .undefined dictionary
  · exact .inl ⟨e, estate_bind_of_error failed⟩
  · refine .inr ⟨i, h₁, h', opened, written, ?_⟩
    exact (estate_bind_of_ok claimed).trans (estate_bind_of_ok stored)

end

end Property

namespace PropertyHost

/-- The state in which a cache has noted a slot under a map. -/
def noted (s : State PropertyHost) (id : CacheId) (map : Word) (slot : Nat) : State PropertyHost :=
  { s with host := { s.host with caches := s.host.caches.record id map slot } }

variable {s t : State PropertyHost} {id : CacheId} {o k : Word} {update : Bool}

theorem slot_error (failed : Property.slot? o k update s = .error e t) :
    slot id o k update s = .error e t :=
  estate_bind_of_error failed

theorem slot_none (absent : Property.slot? o k update s = .ok none t) :
    slot id o k update s = .ok .undefined t :=
  estate_bind_of_ok absent

/-- A slot is noted and returned if it is small enough for a cache. -/
theorem slot_some (found : Property.slot? o k update s = .ok (some sl) t)
    (sound : t.machine.heap.Sound) (object : t.machine.heap.Spans o 3) :
    slot id o k update s =
      if sl.index < 0x100000000 then
        .ok (.int sl.index) (noted t id (t.machine.heap.word o.toNat) sl.index)
      else .ok .undefined t := by
  have map : t.machine.heap.mapOf o = .ok (t.machine.heap.word o.toNat) :=
    object.load sound rfl (by decide)
  rw [slot, estate_bind_of_ok found]
  dsimp only
  by_cases small : sl.index < 0x100000000
  · have fits : Word.ofInt? sl.index = some (.int sl.index) := if_pos (Word.fits_natCast (by omega))
    rw [fits, if_pos small]
    dsimp only
    rw [if_pos small, estate_bind_of_ok (Exec.query_ok map)]
    rfl
  · rw [if_neg small]
    cases Word.ofInt? sl.index with
    | none => rfl
    | some w =>
      dsimp only
      rw [if_neg small]
      rfl

end PropertyHost

end FastPath
