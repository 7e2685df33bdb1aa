import FastPath.Proofs.Catalogue.Laying
import FastPath.Proofs.Execution.Naming

/-! Machines on which functions can be made. Whatever their heap holds, the Code entities of the
accessors of `prototype`, if there are any yet, stand for the accessors. They may do so also while a
range of words is being filled in, as long as they stand outside of it. -/

namespace FastPath

open Catalogue Heap

/-- The stubs that a function is made with. -/
def accessorNames : List String := [prototypeGetter, prototypeSetter]

/-- A stub that has not got the entry point of an accessor without being that accessor. -/
def Stub.Honest (stubs : String → Stub) (s : Stub) : Prop :=
  ∀ x ∈ accessorNames, s.entry = (stubs x).entry → s = stubs x

theorem Library.accessor_honest {stubs : String → Stub} (library : Library stubs) {x : String}
    (accessor : x ∈ accessorNames) : (stubs x).Honest stubs := by
  have apart := library.accessors
  simp only [accessorNames, List.mem_cons, List.not_mem_nil, or_false] at accessor
  intro y accessor' same
  simp only [accessorNames, List.mem_cons, List.not_mem_nil, or_false] at accessor'
  rcases accessor with rfl | rfl <;> rcases accessor' with rfl | rfl
  · rfl
  · exact absurd same apart
  · exact absurd same.symm apart
  · rfl

/-- Functions can be made on the machine. The words from `a` up to `z` may be written. -/
structure Machine.Ready (stubs : String → Stub) (a z : Nat) (m : Machine) : Prop where
  sound : m.heap.Sound
  rooted : Word.hole.toNat < m.heap.region.cursor
  key : m.heap.atoms.lookup "prototype" ≠ some .hole
  honest : ∀ s ∈ m.code, s.Honest stubs
  present : ∀ x ∈ accessorNames, m.entities.lookup (stubs x).entry ≠ some .hole
  accessors : ∀ x ∈ accessorNames, ∀ w, m.entities.lookup (stubs x).entry = some w →
    m.Names (stubs x) w ∧ (w.toNat + Layout.Code.size ≤ a ∨ z ≤ w.toNat)

/-- The atom of a name is found, or made behind the cursor. -/
theorem Heap.Sound.atom {h : Heap} (sound : h.Sound) (name : String) :
    Yields (Heap.atom name) h
      (fun w h' => ∃ ws, Appends h ws h' ∧ h'.atoms.lookup name = some w ∧
        (h'.atoms = h.atoms ∨ h'.atoms = h.atoms ++ [(name, .pointer h.region.cursor)]))
      fun _ h' => ∃ ws, Appends h ws h' ∧ h'.atoms = h.atoms := by
  apply (sound.interns name).mono
  · rintro w h' (⟨known, rfl⟩ | ⟨new, _, rfl, appends, atoms⟩)
    · exact ⟨[], .refl sound, known, .inl rfl⟩
    · refine ⟨_, appends, ?_, .inr atoms⟩
      simp [atoms, List.lookup_append, new]
  · rintro _ h' ⟨_, atoms, ⟨rfl, _⟩ | ⟨_, x, appends⟩⟩
    · exact ⟨[], .refl sound, rfl⟩
    · exact ⟨_, appends, atoms⟩

namespace Machine.Ready

variable {stubs : String → Stub} {a z : Nat} {m : Machine} {s t : State ρ}

/-- Of the heap only the words of the accessors' entities matter, and the atom. -/
theorem of_heap (ready : m.Ready stubs a z) {h : Heap} (sound : h.Sound)
    (cursor : m.heap.region.cursor ≤ h.region.cursor)
    (key : h.atoms.lookup "prototype" ≠ some .hole)
    (kept : ∀ c, c % 8 = 0 → c < m.heap.region.cursor → c < a ∨ z ≤ c →
      h.word c = m.heap.word c) : Machine.Ready stubs a z { m with heap := h } := by
  refine ⟨sound, Nat.lt_of_lt_of_le ready.rooted cursor, key, ready.honest, ready.present,
    fun x accessor w known => ?_⟩
  obtain ⟨names, outside⟩ := ready.accessors x accessor w known
  obtain ⟨_, aligned, fits⟩ := names.spans
  simp only [Layout.Code.size] at outside
  refine ⟨names.mono cursor (kept _ aligned (by omega) (by omega)) ?_ List.prefix_rfl, outside⟩
  simp only [Layout.Code.index]
  exact kept _ (by omega) (by omega) (by omega)

theorem lays {ws : List Word} (ready : s.machine.Ready stubs a z) (lays : s.Lays ws t) :
    t.machine.Ready stubs a z := by
  obtain ⟨h, rfl, appends, atoms⟩ := lays
  refine ready.of_heap appends.sound ?_ (atoms ▸ ready.key) fun c part below _ =>
    appends.kept c part below
  have cursor := appends.cursor
  omega

/-- Any name may be asked for. The word for `prototype` is no hole then either. -/
theorem atom (ready : m.Ready stubs a z) (name : String) :
    Yields (Heap.atom name) m.heap
      (fun w h => Machine.Ready stubs a z { m with heap := h } ∧ (∃ ws, m.heap.Appends ws h) ∧
        h.atoms.lookup name = some w)
      fun _ h => Machine.Ready stubs a z { m with heap := h } := by
  have sound := ready.sound
  have rooted := ready.rooted
  have place := sound.toNat_cursor
  have later {ws : List Word} {h : Heap} (appends : m.heap.Appends ws h)
      (key : h.atoms.lookup "prototype" ≠ some .hole) :
      Machine.Ready stubs a z { m with heap := h } :=
    ready.of_heap appends.sound appends.spares.cursor key fun c part below _ =>
      appends.kept c part below
  refine (sound.atom name).mono ?_ ?_
  · rintro w h ⟨ws, appends, known, atoms⟩
    refine ⟨later appends ?_, ⟨ws, appends⟩, known⟩
    rcases atoms with same | added
    · exact same ▸ ready.key
    · rw [added, List.lookup_append]
      intro none_
      cases old : m.heap.atoms.lookup "prototype" with
      | some w => exact ready.key (old.trans (by rwa [old] at none_))
      | none =>
        have new : Word.pointer m.heap.region.cursor = .hole := by
          rw [old, Option.none_or, List.lookup_cons] at none_
          split at none_
          · exact Option.some.inj none_
          · cases none_
        rw [new] at place
        omega
  · rintro e h ⟨ws, appends, atoms⟩
    exact later appends (atoms ▸ ready.key)

theorem put (ready : m.Ready stubs a z) {c : Nat} (part : c % 8 = 0) (start : a ≤ c)
    (inside : c < z) (w : Word) :
    Machine.Ready stubs a z { m with heap := m.heap.put c w } :=
  ready.of_heap ready.sound.put (Nat.le_refl _) ready.key fun b part' _ outside =>
    word_put_other part part' (by omega)

theorem at_depth (ready : m.Ready stubs a z) (depth : Nat) :
    Machine.Ready stubs a z { m with depth } := by
  refine ⟨ready.sound, ready.rooted, ready.key, ready.honest, ready.present,
    fun x accessor w known => ?_⟩
  obtain ⟨names, outside⟩ := ready.accessors x accessor w known
  exact ⟨names.mono (Nat.le_refl _) rfl rfl List.prefix_rfl, outside⟩

/-- A nested action that leaves a ready machine behind when it fails does so from the outside. -/
theorem nested {act : Exec ρ α} {Q : α → State ρ → Prop} (ready : s.machine.Ready stubs a z)
    (inside : Yields act s.deeper (fun w t => Q w t.shallower)
      fun _ t => t.machine.Ready stubs a z) :
    Yields (Exec.nested act) s Q fun _ t => t.machine.Ready stubs a z :=
  Yields.nested (inside.mono (fun _ _ met => met) fun _ _ failed => failed.at_depth _)
    fun _ => ready

/-- Nothing that was handed out stands behind the cursor. -/
theorem opened (ready : m.Ready stubs a z) (last : Nat) :
    m.Ready stubs m.heap.region.cursor last := by
  refine ⟨ready.sound, ready.rooted, ready.key, ready.honest, ready.present,
    fun x accessor w known => ?_⟩
  obtain ⟨names, _⟩ := ready.accessors x accessor w known
  exact ⟨names, .inl names.spans.fits⟩

theorem closed (ready : m.Ready stubs a z) : m.Ready stubs 0 0 := by
  refine ⟨ready.sound, ready.rooted, ready.key, ready.honest, ready.present,
    fun x accessor w known => ?_⟩
  exact ⟨(ready.accessors x accessor w known).1, .inr (Nat.zero_le _)⟩

/-- An honest stub gets a Code entity behind the cursor. -/
theorem enlist (ready : m.Ready stubs a z) (behind : z ≤ m.heap.region.cursor) {s : Stub}
    (honest : s.Honest stubs) {h : Heap} (grown : Grown m.heap 2 h)
    (names : Names { m with heap := h, code := m.code ++ [s] } s
      (.pointer m.heap.region.cursor)) :
    Machine.Ready stubs a z
      { m with
        heap := h
        code := m.code ++ [s]
        entities := (s.entry, .pointer m.heap.region.cursor) :: m.entities } := by
  have place := ready.sound.toNat_cursor
  have cursor := grown.cursor
  have rooted := ready.rooted
  have rooted' : Word.hole.toNat < h.region.cursor := by omega
  refine ⟨grown.sound, rooted', grown.atoms ▸ ready.key,
    fun s' member => ?_, fun x accessor found => ?_, fun x accessor w found => ?_⟩
  · rcases List.mem_append.mp member with old | new
    · exact ready.honest s' old
    · obtain rfl := List.mem_singleton.mp new
      exact honest
  · change ((s.entry, _) :: m.entities).lookup (stubs x).entry = some .hole at found
    rw [List.lookup_cons] at found
    split at found
    next =>
      rw [Option.some.inj found] at place
      omega
    next => exact ready.present x accessor found
  · change ((s.entry, _) :: m.entities).lookup (stubs x).entry = some w at found
    rw [List.lookup_cons] at found
    split at found
    next same =>
      cases found
      obtain rfl := honest x accessor (beq_iff_eq.mp same).symm
      exact ⟨names.mono (Nat.le_refl _) rfl rfl List.prefix_rfl, .inr (by omega)⟩
    next =>
      obtain ⟨old, outside⟩ := ready.accessors x accessor w found
      exact ⟨old.grown grown [s] _, outside⟩

/-- What a request for a Code entity comes to. -/
structure Asked (m : Machine) (s : Stub) (w : Word) (m' : Machine) : Prop where
  known : m'.entities.lookup s.entry = some w
  entities : ∀ entry v, m.entities.lookup entry = some v → m'.entities.lookup entry = some v
  appends : ∃ ws, m.heap.Appends ws m'.heap
  atoms : m'.heap.atoms = m.heap.atoms
  depth : m'.depth = m.depth
  maxDepth : m'.maxDepth = m.maxDepth

/-- Honest stubs may be asked for. -/
theorem codeEntity (ready : m.Ready stubs a z) (behind : z ≤ m.heap.region.cursor) {s : Stub}
    (honest : s.Honest stubs) :
    Yields (Machine.codeEntity s) m (fun w m' => m'.Ready stubs a z ∧ Asked m s w m')
      fun _ m' => m' = m := by
  have sound := ready.sound
  apply Yields.congr (Machine.codeEntity_eq s m)
  cases known : m.entities.lookup s.entry with
  | some w =>
    exact .pure ⟨ready, known, fun _ _ found => found, ⟨[], .refl sound⟩, rfl, rfl, rfl⟩
  | none =>
    by_cases few : m.code.length < 0x80000000
    · simp only [if_pos few]
      obtain ⟨_, _, failed⟩ | ⟨h, grown, made, names⟩ := newEntity_cases sound s few
      · exact .of_error failed rfl
      · refine .of_ok made ⟨ready.enlist behind honest grown names, ?_, fun entry v found => ?_,
          ?_, grown.atoms, rfl, rfl⟩
        · change ((s.entry, _) :: m.entities).lookup s.entry = _
          rw [List.lookup_cons, beq_self_eq_true]
        · change ((s.entry, _) :: m.entities).lookup entry = some v
          rw [List.lookup_cons]
          split
          next same =>
            rw [beq_iff_eq.mp same] at found
            cases known.symm.trans found
          next => exact found
        · have map := names.map
          rw [sound.toNat_cursor] at map
          obtain ⟨ws, _, appends⟩ := grown.stamped sound map
          exact ⟨_, appends⟩
    · simp only [if_neg few]
      exact .throw rfl

end Machine.Ready

end FastPath
