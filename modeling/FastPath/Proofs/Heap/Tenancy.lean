import FastPath.Proofs.Heap.Appending
import FastPath.Proofs.Heap.Creation
import FastPath.Proofs.Heap.Taking

/-! Tenants of a heap. A tenant asks for atoms and for other entities, and writes to the latter as
it likes, maps excepted. Whatever it does, the values that it was given stay entities of their
kinds, side by side. -/

namespace FastPath.Heap

/-- What a tenant knows of an entity. Atoms have the name that they were asked for by. -/
structure Holding where
  value : Word
  words : Nat
  kind : Kind
  name : Option String
  deriving DecidableEq

namespace Holding

def plain (k : Kind) (words : Nat) (w : Word) : Holding :=
  { value := w, words := words, kind := k, name := none }

def atom (name : String) (w : Word) : Holding :=
  { value := w, words := 2, kind := .atom, name := some name }

/-- The one ends before the other begins. -/
def Before (x y : Holding) : Prop := x.value.toNat + 8 * x.words ≤ y.value.toNat

instance (x y : Holding) : Decidable (x.Before y) := Nat.decLe _ _

end Holding

inductive Action where
  | atom (name : String)
  | allocate (k : Kind) (size : Nat)
  | field (slots : Nat)
  | pair
  | moveCursor (cursor : Nat)
  | write (base : Word) (offset : Nat) (w : Word)

/-- The holding that an action brings, if it is to bring one. -/
def Action.run : Action → HeapM (Option Holding)
  | atom name => do
    let w ← Heap.atom name
    return some (.atom name w)
  | allocate k size => do
    let w ← Heap.allocate k size
    return some (.plain k (roundUp (max size Layout.word) / 8) w)
  | field slots => do
    let w ← allocateField slots
    return some (.plain .field (slots + 2) w)
  | pair => do
    let w ← allocatePair
    return some (.plain .accessPair 4 w)
  | moveCursor cursor => do
    Heap.moveCursor cursor
    return none
  | write base offset w => do
    store base offset w
    return none

structure Tenant where
  heap : Heap
  held : List Holding

namespace Tenant

/-- Holdings are never given up, and failures are survived. -/
def act (t : Tenant) (a : Action) : Tenant :=
  match a.run t.heap with
  | .ok x h => ⟨h, x.toList ++ t.held⟩
  | .error _ h => ⟨h, t.held⟩

def after (t : Tenant) (as : List Action) : Tenant := as.foldl act t

/-- Atoms are asked for by name and never written to. Other holdings may be written to behind their
maps. -/
def Permits (t : Tenant) : Action → Prop
  | .allocate k _ => k ≠ .atom
  | .write base offset _ =>
    ∃ x ∈ t.held, x.value = base ∧ x.kind ≠ .atom ∧ 8 ≤ offset ∧ offset + 8 ≤ 8 * x.words
  | .atom _ | .field _ | .pair | .moveCursor _ => True

instance (t : Tenant) : (a : Action) → Decidable (t.Permits a)
  | .allocate k _ => inferInstanceAs (Decidable (k ≠ .atom))
  | .write base offset _ => inferInstanceAs (Decidable (∃ x ∈ t.held, x.value = base ∧
      x.kind ≠ .atom ∧ 8 ≤ offset ∧ offset + 8 ≤ 8 * x.words))
  | .atom _ | .field _ | .pair | .moveCursor _ => .isTrue trivial

/-- Each action is permitted when its turn comes. -/
def Admits (t : Tenant) : List Action → Prop
  | [] => True
  | a :: as => t.Permits a ∧ (t.act a).Admits as

instance decidableAdmits (t : Tenant) : (as : List Action) → Decidable (t.Admits as)
  | [] => .isTrue trivial
  | a :: as =>
    have := decidableAdmits (t.act a) as
    inferInstanceAs (Decidable (_ ∧ _))

end Tenant

/-- What every heap starts with. -/
def Holding.roots : List Holding :=
  Kind.all.map (fun k => .plain .map 5 k.canonicalMap) ++
  [Word.undefined, .null, .hole].map (.plain .oddball 2) ++
  [true, false].map fun b => .plain .boolean 2 (.boolean b)

def Tenant.start (h : Heap) : Tenant := ⟨h, Holding.roots⟩

/-- The holdings are entities of their kinds, side by side. -/
structure Placed (h : Heap) (held : List Holding) : Prop where
  sound : h.Sound
  spans : ∀ x ∈ held, h.Spans x.value x.words
  full : ∀ x ∈ held, 0 < x.words
  stamped : ∀ x ∈ held, h.word x.value.toNat = x.kind.canonicalMap
  apart : ∀ x ∈ held, ∀ y ∈ held, x = y ∨ x.Before y ∨ y.Before x

variable {h h' : Heap} {held : List Holding} {x y : Holding} {t : Tenant} {k : Kind}
  {ws : List Word} {w : Word} {offset size : Nat}

/-! What becomes of the entities. -/

namespace Placed

/-- Different words of holdings are at different addresses. -/
theorem same_word (placed : Placed h held) (member : x ∈ held) (member' : y ∈ held) {i j : Nat}
    (inside : i < 8 * x.words) (inside' : j < 8 * y.words)
    (same : x.value.toNat + i = y.value.toNat + j) : x = y ∧ i = j := by
  obtain rfl | before | before := placed.apart x member y member'
  · exact ⟨rfl, by omega⟩
  · simp only [Holding.Before] at before
    omega
  · simp only [Holding.Before] at before
    omega

theorem spared_word (placed : Placed h held) (spares : Spares h h') (member : x ∈ held) {j : Nat}
    (part : j % 8 = 0) (inside : j < 8 * x.words) :
    h'.word (x.value.toNat + j) = h.word (x.value.toNat + j) := by
  obtain ⟨_, aligned, fits⟩ := placed.spans x member
  exact spares.words _ (by omega) (by omega)

theorem spared (placed : Placed h held) (sound : h'.Sound) (spares : Spares h h') :
    Placed h' held := by
  constructor
  · exact sound
  · intro x member
    exact (placed.spans x member).later spares.cursor
  · exact placed.full
  · intro x member
    have full := placed.full x member
    exact (placed.spared_word spares member (j := 0) rfl (by omega)).trans (placed.stamped x member)
  · exact placed.apart

/-- An entity that was put behind all others is held as well. -/
theorem cons (placed : Placed h held) (appends : Appends h (k.canonicalMap :: ws) h')
    (value : x.value = .pointer h.region.cursor) (words : x.words = ws.length + 1)
    (kind : x.kind = k) : Placed h' (x :: held) := by
  have place : x.value.toNat = h.region.cursor := by rw [value, placed.sound.toNat_cursor]
  have later := placed.spared appends.sound appends.spares
  have before : ∀ y ∈ held, y.Before x := by
    intro y member
    have fits := (placed.spans y member).fits
    simp only [Holding.Before]
    omega
  constructor
  · exact appends.sound
  · rw [List.forall_mem_cons]
    constructor
    · have spans := appends.spans (j := 0) (n := ws.length + 1) (by simp)
      rwa [value, words]
    · exact later.spans
  · rw [List.forall_mem_cons]
    constructor
    · rw [words]
      exact Nat.succ_pos _
    · exact later.full
  · rw [List.forall_mem_cons]
    constructor
    · rw [place, kind]
      exact appends.holds 0 _ rfl
    · exact later.stamped
  · intro y member z member'
    obtain rfl | old := List.mem_cons.mp member
    · obtain rfl | old' := List.mem_cons.mp member'
      · exact .inl rfl
      · exact .inr (.inr (before z old'))
    · obtain rfl | old' := List.mem_cons.mp member'
      · exact .inr (.inl (before y old))
      · exact placed.apart y old z old'

/-- A word behind the map of a holding is replaced. -/
theorem put (placed : Placed h held) (member : x ∈ held) (behind : 8 ≤ offset)
    (inside : offset + 8 ≤ 8 * x.words) (word : h.hasWord (x.value.toNat + offset) = true) :
    Placed (h.put (x.value.toNat + offset) w) held := by
  constructor
  · exact placed.sound.put
  · intro y member'
    exact (placed.spans y member').put
  · exact placed.full
  · intro y member'
    have aligned := (placed.spans y member').aligned
    rw [word_put_other (hasWord_iff.mp word).2.1 aligned, placed.stamped y member']
    intro same
    have full := placed.full y member'
    have first := placed.same_word member' member (i := 0) (by omega) (by omega) same
    omega
  · exact placed.apart

end Placed

/-! What every heap starts with. -/

theorem Sound.moveCursor (sound : h.Sound) (cursor : Nat) : Yields (moveCursor cursor) h
    (fun _ h' => h'.Sound ∧ Spares h h' ∧ h'.atoms = h.atoms) fun _ h' => h' = h := by
  rw [Yields, Heap.moveCursor, Region.moveTo?]
  by_cases fits : cursor % 8 = 0 ∧ h.region.cursor ≤ cursor ∧ cursor ≤ h.region.limit
  · rw [if_pos fits]
    obtain ⟨aligned, forward, bounded⟩ := fits
    exact ⟨⟨aligned, Nat.le_trans sound.start forward, bounded, sound.backed, sound.small⟩,
      ⟨forward, fun _ _ _ => rfl⟩, rfl⟩
  · rw [if_neg fits]

theorem store_yields {base : Word} {a : Nat} (address : addressOf base = .ok a) :
    Yields (store base offset w) h
      (fun _ h' => h.hasWord (a + offset) = true ∧ h' = h.put (a + offset) w)
      fun _ h' => h' = h := by
  by_cases small : a + offset < 0x10000000000000000
  · apply Yields.congr (store_eq address small)
    rw [Yields, write]
    by_cases inside : h.hasWord (a + offset) = true
    · rw [if_pos inside]
      exact ⟨inside, rfl⟩
    · rw [if_neg inside]
  · exact .of_error (store_overflow address small) rfl

/-! What a sequence of actions keeps. -/

namespace Tenant

end Tenant

theorem Action.run_advances (a : Action) : Advances a.run := by
  cases a with
  | atom name => exact (atom_advances name).bind fun _ => .pure _
  | allocate k size => exact (allocate_advances k size).bind fun _ => .pure _
  | field slots => exact (allocateField_advances slots).bind fun _ => .pure _
  | pair => exact allocatePair_advances.bind fun _ => .pure _
  | moveCursor cursor => exact (moveCursor_advances cursor).bind fun _ => .pure _
  | write base offset w => exact (store_advances base offset w).bind fun _ => .pure _

theorem Tenant.onward_act (t : Tenant) (a : Action) : t.heap.Onward (t.act a).heap := by
  have advances := a.run_advances t.heap
  unfold act
  split
  next ran => exact advances.ok ran
  next ran => exact advances.error ran

end FastPath.Heap
