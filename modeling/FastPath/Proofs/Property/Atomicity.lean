import FastPath.Proofs.Outcome
import FastPath.Proofs.Property.Ledger
import FastPath.Proofs.Property.Operations

/-! Property writes that fail. Room for a property is made before anything of the object is changed,
and once there is room nothing can fail any more, so a write that fails has changed nothing. -/

namespace FastPath

namespace Heap

/-- An object with flags that has either a storage to itself or none. -/
structure Furnished (h : Heap) (o : Word) : Prop extends Bare h o where
  storage : h.Backed o ∨ h.storage? o = .ok none

variable {h : Heap} {o k v : Word} {sl : Slot}

theorem loadFlag_error {d : Nat} (bad : h.loadInt o d = .error e) (mask : Int) :
    h.loadFlag o d mask = .error e := by
  rw [loadFlag, bad]
  rfl

theorem Furnished.ownSlot (furnished : h.Furnished o) (sound : h.Sound) :
    ∃ found, h.ownSlot o k = .ok found := by
  obtain backed | none := furnished.storage
  · exact ⟨_, backed.ownSlot sound⟩
  · exact ⟨_, ownSlot_none none⟩

/-- An object without a storage is given its first one, all of whose items are free. -/
theorem enlarge_first (sound : h.Sound) (bare : h.Bare o) :
    (∃ e, enlarge o none 0 h = .error e h) ∨
    ∃ h', enlarge o none 0 h = .ok (h'.storageOf o) h' ∧ h'.Sound ∧ h'.Backed o ∧
      h'.itemOf o .hole = some 0 := by
  obtain ⟨full, failed⟩ | ⟨h₁, made, fresh⟩ :=
    allocateField_cases (Layout.Object.items * Layout.Item.words) sound
  · exact .inl ⟨_, estate_bind_of_error failed⟩
  right
  have cursor := fresh.grown.cursor
  have object : h₁.Spans o 3 := bare.object.later (by omega)
  have stored := object.store (d := Layout.Object.storage) (v := .pointer h.region.cursor)
    fresh.grown.sound rfl (by decide)
  obtain ⟨backed, storage, slots, _, kept⟩ :=
    fresh.grown.rehouse sound bare fresh.map fresh.length rfl
  refine ⟨_, ?_, fresh.grown.sound.put, backed, itemOf_some.mpr ⟨?_, ?_, fun j before => ?_⟩⟩
  · rw [storage, enlarge]
    exact (estate_bind_of_ok made).trans ((estate_bind_of_ok stored).trans rfl)
  · rw [items, slots]
    decide
  · have offset := slotOffset_eq 0
    have aligned := sound.aligned
    have below := bare.object.fits
    have other : h.region.cursor + slotOffset 0 ≠ o.toNat + Layout.Object.storage := by
      simp only [Layout.Object.storage]
      omega
    have free := fresh.holes 0 (by decide)
    rw [key, slotWord, slotAddress, storage, sound.toNat_cursor]
    exact (kept _ (by omega) other).trans free
  · exact absurd before (Nat.not_lt_zero j)

/-- A key that is new to the object is given an item, unless there is no room for one. -/
theorem claimItem?_settles (sound : h.Sound) (furnished : h.Furnished o) :
    (∃ e, claimItem? o k h = .error e h) ∨ claimItem? o k h = .ok none h ∨
    ∃ i h', claimItem? o k h = .ok (some (.item i)) h' ∧ h'.Sound ∧ h'.Backed o ∧
      i < h'.items o := by
  cases dense : h.flagged o Layout.Object.dense with
  | true =>
    have read : h.isDense o = .ok true := dense ▸ furnished.loadFlag sound _
    right; left
    rw [claimItem?, estate_bind_of_ok (query_ok read)]
    rfl
  | false =>
    have settled {h₁ h' : Heap} {i : Nat} (rewritten : Rewritten h₁ o i k (h₁.value o i) h')
        (bound : i < h₁.items o) : h'.Sound ∧ h'.Backed o ∧ i < h'.items o := by
      refine ⟨rewritten.sound, rewritten.backed, ?_⟩
      rwa [items, rewritten.slots]
    obtain backed | absent := furnished.storage
    · obtain failed | ⟨i, h₁, h', opened, claimed, rewritten⟩ :=
        claimItem?_cases (k := k) sound backed dense
      · exact .inl failed
      · exact .inr (.inr ⟨i, h', claimed, settled rewritten opened.bound⟩)
    · have read : h.isDense o = .ok false := dense ▸ furnished.loadFlag sound _
      obtain ⟨e, failed⟩ | ⟨h₁, made, sound₁, backed₁, free⟩ :=
        enlarge_first sound furnished.toBare
      · left
        refine ⟨e, ?_⟩
        rw [claimItem?, estate_bind_of_ok (query_ok read), if_neg Bool.false_ne_true,
          estate_bind_of_ok (query_ok absent)]
        exact estate_bind_of_error failed
      · have bound := (itemOf_some.mp free).1
        obtain ⟨h', stamped, rewritten⟩ := stampItem_ok (k := k) sound₁ backed₁ bound
        have length := backed₁.fieldLength sound₁
        have found : h₁.findItem (h₁.storageOf o) .hole (h₁.slots o / Layout.Item.words) 0 =
            .ok (some 0) := by
          rw [← free, itemOf, List.range_eq_range']
          exact backed₁.findItem sound₁ _ 0 (Nat.le_of_eq (Nat.zero_add _))
        refine .inr (.inr ⟨0, h', ?_, settled rewritten bound⟩)
        rw [claimItem?, estate_bind_of_ok (query_ok read), if_neg Bool.false_ne_true,
          estate_bind_of_ok (query_ok absent)]
        dsimp only
        rw [estate_bind_of_ok made, estate_bind_of_ok (query_ok length),
          estate_bind_of_ok (query_ok found)]
        exact stamped

/-- Every own property can be cleared. -/
theorem clearSlot_ok (sound : h.Sound) (backed : h.Backed o) (found : h.own o k = some sl) :
    ∃ h', clearSlot o sl h = .ok () h' := by
  cases sl with
  | dense i =>
    have storage := backed.load_storage sound
    have cleared := backed.store_slot (v := .hole) sound (own_position found)
    exact ⟨_, (estate_bind_of_ok (query_ok storage)).trans cleared⟩
  | item i =>
    have bound := (item_of_own found).1
    obtain ⟨h', cleared, _⟩ := clearSlot_item sound backed bound
    exact ⟨h', cleared⟩

end Heap

namespace Property

open Heap

section

variable {s : State ρ} {o k v : Word} {e : HeapError}

/-- A property that is new to the object is added to it, or nothing is changed. -/
theorem add_settles (sound : s.machine.heap.Sound) (furnished : s.machine.heap.Furnished o)
    (k v : Word) (f : Slot → α) :
    (∃ e, (do
      let sl ← claim o k none
      Exec.onHeap (storeSlot o sl v)
      return f sl : Exec ρ α) s = .error e s) ∨
    ∃ sl h, (do
      let sl ← claim o k none
      Exec.onHeap (storeSlot o sl v)
      return f sl : Exec ρ α) s = .ok (f sl) (s.withHeap h) ∧ h.Sound ∧ h.Spans o 3 := by
  obtain ⟨e, failed⟩ | refused | ⟨i, h, claimed, sound', backed', bound⟩ :=
    claimItem?_settles (k := k) sound furnished
  · exact .inl ⟨_, estate_bind_of_error (estate_bind_of_error (Exec.onHeap_error failed))⟩
  · exact .inl ⟨_, estate_bind_of_error (estate_bind_of_ok (Exec.onHeap_ok refused))⟩
  · have claimed : claim o k none s = .ok (.item i) (s.withHeap h) :=
      estate_bind_of_ok (Exec.onHeap_ok claimed)
    have stored := backed'.storeSlot (v := v) sound' (item_position bound).1
    refine .inr ⟨.item i, _, (estate_bind_of_ok claimed).trans
      (estate_bind_of_ok (Exec.onHeap_ok (s := s.withHeap h) stored)), sound'.put, ?_⟩
    exact backed'.object.put

/-- The write comes down to the call of a setter. -/
def RunsSetter (s : State ρ) (o k v : Word) (stub : Stub) : Prop :=
  ∀ calls : Invoke ρ, Property.set calls o k v s = (do
    let _ ← calls stub o [v]
    return .undefined : Exec ρ Word) s

/-- A write runs a setter, or it succeeds, or it fails and changes nothing, whoever makes calls. -/
inductive Settles (s : State ρ) (o k v : Word) : Prop
  | runs (setter : RunsSetter s o k v stub)
  | succeeds (done : ∀ calls, Property.set calls o k v s = .ok .undefined t)
  | fails {x : Halt} (failed : ∀ calls, Property.set calls o k v s = .error x s)

/-- A pair in the way of a write has a setter that can be called, or none, or it is refused. -/
theorem set_paired_settles {sl : Slot} (sound : s.machine.heap.Sound)
    (backed : s.machine.heap.Backed o) (found : s.machine.heap.own o k = some sl)
    (plain : s.machine.heap.isPair v = false)
    (pair : s.machine.heap.isPair (s.machine.heap.slotWord o sl.position) = true) :
    Settles s o k v := by
  have paired (calls : Invoke ρ) := set_paired rfl sound backed calls found plain pair
  cases read : s.machine.heap.load (s.machine.heap.slotWord o sl.position) Layout.Pair.setter with
  | error e =>
    refine .fails (x := .trap (.ofHeapError e)) fun calls => ?_
    rw [paired, estate_bind_of_error (Exec.query_error read)]
  | ok setter =>
    by_cases missing : setter = .hole
    · refine .succeeds (t := s) fun calls => ?_
      rw [paired, estate_bind_of_ok (Exec.query_ok read), if_neg (not_not.mpr missing)]
      rfl
    · cases callee : s.machine.target setter with
      | error trap =>
        refine .fails (x := .trap trap) fun calls => ?_
        rw [paired, estate_bind_of_ok (Exec.query_ok read), if_pos missing]
        apply estate_bind_of_error
        rw [callValue_eq, callee]
      | ok stub =>
        have runs : RunsSetter s o k v stub := by
          intro calls
          rw [paired, estate_bind_of_ok (Exec.query_ok read), if_pos missing]
          apply estate_bind_congr
          rw [callValue_eq, callee]
        exact .runs runs

theorem set_furnished (sound : s.machine.heap.Sound) (furnished : s.machine.heap.Furnished o)
    (k v : Word) : Settles s o k v := by
  have absent (own : s.machine.heap.ownSlot o k = .ok none) : Settles s o k v := by
    obtain ⟨e, failed⟩ | ⟨_, h, done, _⟩ :=
      add_settles sound furnished k v fun _ => Word.undefined
    · exact .fails fun calls => (set_adds calls v furnished.kind own).trans failed
    · exact .succeeds fun calls => (set_adds calls v furnished.kind own).trans done
  obtain backed | none := furnished.storage
  · have own := backed.ownSlot (k := k) sound
    cases found : s.machine.heap.own o k with
    | none => exact absent (found ▸ own)
    | some sl =>
      by_cases free : s.machine.heap.isPair v = true ∨
          s.machine.heap.isPair (s.machine.heap.slotWord o sl.position) = false
      · exact .succeeds fun calls => set_own rfl sound backed found free
      · simp only [not_or, Bool.not_eq_true, Bool.not_eq_false] at free
        exact set_paired_settles sound backed found free.1 free.2
  · exact absent (ownSlot_none none)

/-- An object whose flags are no small integer can neither be written nor given a slot. -/
theorem set_unflagged (object : s.machine.heap.isObjectLike o = true)
    (bad : s.machine.heap.loadInt o Layout.Object.flags = .error e) (k v : Word) :
    Settles s o k v := by
  have bad : s.machine.heap.isDense o = .error e := loadFlag_error bad _
  cases own : s.machine.heap.ownSlot o k with
  | error e' =>
    refine .fails (x := .trap (.ofHeapError e')) fun calls => ?_
    rw [Property.set, estate_bind_of_ok (Exec.heap_ok s), if_pos object]
    exact estate_bind_of_error (Exec.query_error own)
  | ok found =>
    have absent : s.machine.heap.ownSlot o k = .ok none := by
      obtain ⟨storage, _, rest⟩ := except_bind_ok.mp own
      cases storage with
      | none => rw [own, ← rest]; rfl
      | some storage =>
        obtain ⟨slots, _, rest⟩ := except_bind_ok.mp rest
        obtain ⟨dense, read, _⟩ := except_bind_ok.mp rest
        cases bad.symm.trans read
    have claimed : Heap.claimItem? o k s.machine.heap = .error e s.machine.heap := by
      have read : Heap.query (fun h => h.isDense o) s.machine.heap = .error e s.machine.heap := by
        rw [Heap.query, bad]
      exact estate_bind_of_error read
    refine .fails (x := .trap (.ofHeapError e)) fun calls =>
      (set_adds calls v object absent).trans ?_
    exact estate_bind_of_error (estate_bind_of_error (Exec.onHeap_error claimed))

theorem slot?_unflagged (object : s.machine.heap.isObjectLike o = true)
    (bad : s.machine.heap.loadInt o Layout.Object.flags = .error e) (k : Word) (update : Bool) :
    slot? o k update s = .error (.trap (.ofHeapError e)) s := by
  rw [slot?, estate_bind_of_ok (Exec.heap_ok s), if_pos object]
  exact estate_bind_of_error (Exec.query_error (loadFlag_error bad _))

theorem slot?_furnished (sound : s.machine.heap.Sound) (furnished : s.machine.heap.Furnished o)
    (k : Word) (update : Bool) : (∃ e, slot? o k update s = .error e s) ∨
      ∃ found t, slot? o k update s = .ok found t ∧ t.machine.heap.Sound ∧
        t.machine.heap.Spans o 3 := by
  have access := furnished.loadFlag sound Layout.Object.access
  obtain ⟨found, own⟩ := furnished.ownSlot (k := k) sound
  rw [slot?, estate_bind_of_ok (Exec.heap_ok s), if_pos furnished.kind,
    estate_bind_of_ok (Exec.query_ok access)]
  split
  · exact .inr ⟨none, s, rfl, sound, furnished.object⟩
  rw [estate_bind_of_ok (Exec.query_ok own)]
  cases found with
  | some sl => exact .inr ⟨some sl, s, rfl, sound, furnished.object⟩
  | none =>
    cases update with
    | false => exact .inr ⟨none, s, rfl, sound, furnished.object⟩
    | true =>
      obtain failed | ⟨sl, h, done, sound', spans⟩ :=
        add_settles sound furnished k .undefined some
      · exact .inl failed
      · exact .inr ⟨_, _, done, sound', spans⟩

theorem delete_furnished (sound : s.machine.heap.Sound) (furnished : s.machine.heap.Furnished o)
    (k : Word) : ∃ t, Property.delete o k s = .ok (.boolean true) t := by
  rw [Property.delete, estate_bind_of_ok (Exec.heap_ok s), if_pos furnished.kind]
  obtain backed | none := furnished.storage
  · rw [estate_bind_of_ok (Exec.query_ok (backed.ownSlot sound))]
    cases found : s.machine.heap.own o k with
    | none => exact ⟨_, rfl⟩
    | some sl =>
      obtain ⟨h, cleared⟩ := clearSlot_ok sound backed found
      exact ⟨_, estate_bind_of_ok (Exec.onHeap_ok cleared)⟩
  · rw [estate_bind_of_ok (Exec.query_ok (ownSlot_none none))]
    exact ⟨_, rfl⟩

end

end Property

namespace Heap

variable {h : Heap} {ledger : Ledger} {o : Word}

theorem storage?_none (spans : h.Spans o 3) (sound : h.Sound) (object : h.isObjectLike o = true)
    (other : h.kind? (h.storageOf o) ≠ some .field) : h.storage? o = .ok none := by
  have loaded : h.load o Layout.Object.storage = .ok (h.storageOf o) :=
    spans.load sound rfl (by decide)
  rw [storage?, object, loaded]
  simp only [if_true, bind, Except.bind]
  rw [if_neg (by simpa using other)]
  rfl

/-- What a write can be aimed at: no object at all, an object with flags that are no small integer,
or one that has a storage to itself or none. -/
theorem Stocked.cases (stocked : h.Stocked ledger)
    (target : o.isInt = true ∨ h.Whole ledger o) : h.isObjectLike o = false ∨
    (h.isObjectLike o = true ∧ ∃ e, h.loadInt o Layout.Object.flags = .error e) ∨
    h.Furnished o := by
  cases object : h.isObjectLike o with
  | false => exact .inl rfl
  | true =>
    have whole : h.Whole ledger o := by
      refine target.resolve_left fun int => ?_
      rw [isObjectLike, kind?_int int] at object
      cases object
    have spans := whole.spans stocked.toBooked object
    have sound := stocked.sound
    have loaded : h.load o Layout.Object.flags = .ok _ := spans.load sound rfl (by decide)
    right
    cases flags : (h.word (o.toNat + Layout.Object.flags)).int? with
    | none =>
      refine .inl ⟨rfl, .notInt (h.word (o.toNat + Layout.Object.flags)), ?_⟩
      rw [loadInt, loaded]
      simp only [bind, Except.bind, flags]
    | some n =>
      have bare : h.Bare o := ⟨spans, object, n, flags⟩
      refine .inr ⟨bare, ?_⟩
      by_cases field : h.kind? (h.storageOf o) = some .field
      · have filed := stocked.fields o whole object field
        exact .inl (stocked.backed whole object bare.flags field filed).1
      · exact .inr (storage?_none spans sound object field)

end Heap

section

variable {s t : State PropertyHost} {ledger : Ledger} {o : Word}
  (stocked : s.machine.heap.Stocked ledger)
  (target : o.isInt = true ∨ s.machine.heap.Whole ledger o) (k : Word)

include stocked target

theorem Property.set_unchanged {calls : Invoke PropertyHost} {v : Word} {e : Halt}
    (idle : ¬ ∃ stub, Property.RunsSetter s o k v stub)
    (failed : Property.set calls o k v s = .error e t) : t = s := by
  have settles : s.machine.heap.isObjectLike o = false ∨ Property.Settles s o k v := by
    obtain plain | ⟨object, _, bad⟩ | furnished := stocked.cases target
    · exact .inl plain
    · exact .inr (Property.set_unflagged object bad k v)
    · exact .inr (Property.set_furnished stocked.sound furnished k v)
  obtain plain | setter | always | always := settles
  · rw [Property.set, estate_bind_of_ok (Exec.heap_ok s), if_neg (by simp [plain])] at failed
    cases failed
  · exact absurd ⟨_, setter⟩ idle
  · rw [always] at failed
    cases failed
  · rw [always] at failed
    cases failed
    rfl

theorem PropertyHost.slot_unchanged {ic : CacheId} {update : Bool} {e : Halt}
    (failed : PropertyHost.slot ic o k update s = .error e t) : t = s := by
  obtain plain | ⟨object, _, bad⟩ | furnished := stocked.cases target
  · have skipped : Property.slot? o k update s = .ok none s := by
      rw [Property.slot?, estate_bind_of_ok (Exec.heap_ok s), if_neg (by simp [plain])]
      rfl
    rw [slot_none skipped] at failed
    cases failed
  · rw [slot_error (Property.slot?_unflagged object bad k update)] at failed
    cases failed
    rfl
  · obtain ⟨_, refused⟩ | ⟨found, _, looked, sound, spans⟩ :=
      Property.slot?_furnished stocked.sound furnished k update
    · rw [slot_error refused] at failed
      cases failed
      rfl
    · cases found with
      | none =>
        rw [slot_none looked] at failed
        cases failed
      | some sl =>
        rw [slot_some looked sound spans] at failed
        split at failed
        · cases failed
        · cases failed

theorem Property.delete_returns (flags : s.machine.heap.isObjectLike o = true →
      ∃ n, s.machine.heap.loadInt o Layout.Object.flags = .ok n) :
    ∃ t, Property.delete o k s = .ok (.boolean true) t := by
  obtain plain | ⟨object, _, bad⟩ | furnished := stocked.cases target
  · refine ⟨s, ?_⟩
    rw [Property.delete, estate_bind_of_ok (Exec.heap_ok s), if_neg (by simp [plain])]
    rfl
  · obtain ⟨n, read⟩ := flags object
    cases bad.symm.trans read
  · exact Property.delete_furnished stocked.sound furnished k

end

/-- Property writes that fail leave everything as it was, and deletions do not fail. -/
theorem failed_writes_change_nothing {s : State PropertyHost} {ledger : Ledger} {o : Word}
    (stocked : s.machine.heap.Stocked ledger)
    (target : o.isInt = true ∨ s.machine.heap.Whole ledger o) (k : Word) :
    (∀ calls v e t, (¬ ∃ stub, Property.RunsSetter s o k v stub) →
      Property.set calls o k v s = .error e t → t = s) ∧
    (∀ ic update e t, PropertyHost.slot ic o k update s = .error e t → t = s) ∧
    ((s.machine.heap.isObjectLike o = true →
        ∃ n, s.machine.heap.loadInt o Layout.Object.flags = .ok n) →
      ∃ t, Property.delete o k s = .ok (.boolean true) t) := by
  refine ⟨fun calls v e t idle failed => ?_, fun ic update e t failed => ?_, fun flags => ?_⟩
  · exact Property.set_unchanged stocked target k idle failed
  · exact PropertyHost.slot_unchanged stocked target k failed
  · exact Property.delete_returns stocked target k flags

/-- A full region in which an object has no free item, one has no storage, one is dense and one has
flags that are no small integer. -/
def crampedShelves : State PropertyHost :=
  { machine := .ofHeap ([(448, Kind.object.canonicalMap), (456, .int 0), (464, .pointer 472),
      (472, Kind.field.canonicalMap), (480, .int 3), (488, .int 1), (496, .int 10), (504, .int 7),
      (512, Kind.object.canonicalMap), (520, .int 0), (528, .undefined),
      (536, Kind.object.canonicalMap), (544, .int Layout.Object.dense), (552, .pointer 560),
      (560, Kind.field.canonicalMap), (568, .int 0),
      (576, Kind.object.canonicalMap), (584, .hole), (592, .pointer 560)].foldl
        (fun h p => h.put p.1 p.2)
        { words := .replicate 128 .hole, region := ⟨600, 600⟩, atoms := [] }) 8
    host := {} }

def crampedLedger : Ledger := [(448, 3), (472, 5), (512, 3), (536, 3), (560, 2), (576, 3)]

theorem crampedShelves_stocked : crampedShelves.machine.heap.Stocked crampedLedger := by
  refine ⟨⟨⟨?_, ?_, ?_, ?_, ?_⟩, ?_, ?_⟩, fun o whole _ field => ?_⟩
  · decide +kernel
  · decide +kernel
  · decide +kernel
  · decide +kernel
  · decide +kernel
  · decide +kernel
  · decide +kernel
  · obtain ⟨k, n, _, listed, _⟩ := whole
    have each : ∀ e ∈ crampedLedger,
        crampedShelves.machine.heap.kind? (crampedShelves.machine.heap.storageOf (.pointer e.1)) =
          some .field →
        crampedShelves.machine.heap.Filed crampedLedger
          (crampedShelves.machine.heap.storageOf (.pointer e.1)) := by decide +kernel
    have same : Word.pointer o.toNat = o := Word.ofNat_toNat o
    have found := each _ listed
    rw [same] at found
    exact found field

theorem crampedShelves_unchanged :
    (∀ o ∈ [Word.pointer 448, .pointer 512, .pointer 536, .pointer 576], ∃ e e',
      Property.set (invoke .absent 9) o (.int 2) (.int 5) crampedShelves =
        .error e crampedShelves ∧
      PropertyHost.slot 0 o (.int 2) true crampedShelves = .error e' crampedShelves) ∧
    ∃ t, Property.delete (.pointer 448) (.int 1) crampedShelves = .ok (.boolean true) t := by
  have whole : ∀ o ∈ [Word.pointer 448, .pointer 512, .pointer 536, .pointer 576],
      crampedShelves.machine.heap.kind? o = some .object ∧ (o.toNat, 3) ∈ crampedLedger := by
    decide +kernel
  have settled (o : Word) (member : o ∈ [Word.pointer 448, .pointer 512, .pointer 536,
      .pointer 576]) (k : Word) := failed_writes_change_nothing crampedShelves_stocked
    (.inr ⟨.object, 3, (whole o member).1, (whole o member).2, by decide⟩) k
  have fails : ∀ o ∈ [Word.pointer 448, .pointer 512, .pointer 536, .pointer 576],
      Yields (Property.set (fun _ _ _ => pure .hole) o (.int 2) (.int 5)) crampedShelves
        (fun _ _ => False) (fun _ _ => True) ∧
      Yields (Property.set (invoke .absent 9) o (.int 2) (.int 5)) crampedShelves
        (fun _ _ => False) (fun _ _ => True) ∧
      Yields (PropertyHost.slot 0 o (.int 2) true) crampedShelves (fun _ _ => False)
        (fun _ _ => True) := by decide +kernel
  refine ⟨fun o member => ?_, ?_⟩
  · obtain ⟨idle, set, slot⟩ := fails o member
    obtain ⟨_, _, idle, _⟩ := idle.fails
    obtain ⟨e, t, set, _⟩ := set.fails
    obtain ⟨e', t', slot, _⟩ := slot.fails
    have quiet : ¬ ∃ stub, Property.RunsSetter crampedShelves o (.int 2) (.int 5) stub := by
      rintro ⟨stub, runs⟩
      cases (runs fun _ _ _ => pure .hole).symm.trans idle
    obtain rfl := (settled o member (.int 2)).1 _ _ e t quiet set
    obtain rfl := (settled o member (.int 2)).2.1 _ _ e' t' slot
    exact ⟨e, e', set, slot⟩
  · exact (settled (.pointer 448) (by decide) (.int 1)).2.2 fun _ => ⟨0, by decide +kernel⟩

end FastPath
