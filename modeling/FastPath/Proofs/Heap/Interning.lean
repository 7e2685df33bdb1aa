import FastPath.Proofs.Heap.Tenancy

/-! Names and their atoms. Whatever a tenant of a heap does, the atoms among the values that it was
given keep their names, and no two of them share one. -/

namespace FastPath.Heap

/-- Just the atoms have names, and each has its number in the table of names. -/
structure Interned (h : Heap) (held : List Holding) : Prop where
  plain : ∀ x ∈ held, x.name = none → x.kind ≠ .atom
  known : ∀ x ∈ held, ∀ s, x.name = some s →
    x = .atom s x.value ∧ h.atoms.lookup s = some x.value
  listed : ∀ (i : Nat) s w, h.atoms[i]? = some (s, w) →
    .atom s w ∈ held ∧ h.word (w.toNat + 8) = .int i
  few : h.atoms.length ≤ 0x80000000
  room : 448 + 16 * h.atoms.length ≤ h.region.cursor

structure Tenant.Orderly (t : Tenant) : Prop where
  placed : Placed t.heap t.held
  interned : Interned t.heap t.held

variable {h h' : Heap} {held : List Holding} {x : Holding} {t : Tenant} {a : Action} {k : Kind}
  {ws : List Word} {w : Word} {name s : String} {n offset size : Nat}

/-! What becomes of the table of names. -/

namespace Interned

theorem spared (interned : Interned h held) (placed : Placed h held) (spares : Spares h h')
    (atoms : h'.atoms = h.atoms) : Interned h' held := by
  constructor
  · exact interned.plain
  · rw [atoms]
    exact interned.known
  · intro i s w found
    rw [atoms] at found
    obtain ⟨member, number⟩ := interned.listed i s w found
    exact ⟨member, (placed.spared_word spares member rfl (by decide : 8 < 8 * 2)).trans number⟩
  · rw [atoms]
    exact interned.few
  · rw [atoms]
    exact Nat.le_trans interned.room spares.cursor

theorem cons (interned : Interned h held) (name : x.name = none) (kind : x.kind ≠ .atom) :
    Interned h (x :: held) := by
  constructor
  · exact List.forall_mem_cons.mpr ⟨fun _ => kind, interned.plain⟩
  · rw [List.forall_mem_cons]
    constructor
    · intro s named
      rw [name] at named
      cases named
    · exact interned.known
  · intro i s w found
    obtain ⟨member, number⟩ := interned.listed i s w found
    exact ⟨List.mem_cons_of_mem _ member, number⟩
  · exact interned.few
  · exact interned.room

/-- A new name is registered with the atom that was made for it. -/
theorem register (interned : Interned h held) (placed : Placed h held)
    (new : h.atoms.lookup name = none) (few : h.atoms.length < 0x80000000)
    (appends : Appends h [Kind.atom.canonicalMap, .int h.atoms.length] h')
    (atoms : h'.atoms = h.atoms ++ [(name, .pointer h.region.cursor)]) :
    Interned h' (.atom name (.pointer h.region.cursor) :: held) := by
  have place := placed.sound.toNat_cursor
  constructor
  · exact List.forall_mem_cons.mpr ⟨nofun, interned.plain⟩
  · rw [atoms, List.forall_mem_cons]
    constructor
    · intro s named
      cases named
      exact ⟨rfl, by simp [Holding.atom, List.lookup_append, new]⟩
    · intro x member s named
      obtain ⟨same, found⟩ := interned.known x member s named
      exact ⟨same, by simp [List.lookup_append, found]⟩
  · intro i s w found
    rw [atoms] at found
    by_cases old : i < h.atoms.length
    · rw [List.getElem?_append_left old] at found
      obtain ⟨member, number⟩ := interned.listed i s w found
      have kept := placed.spared_word appends.spares member rfl (by decide : 8 < 8 * 2)
      exact ⟨List.mem_cons_of_mem _ member, kept.trans number⟩
    · obtain ⟨here, same⟩ := List.getElem?_eq_some_iff.mp found
      obtain rfl : i = h.atoms.length := by
        simp only [List.length_append, List.length_singleton] at here
        omega
      rw [List.getElem_concat_length rfl] at same
      cases same
      constructor
      · exact List.mem_cons_self
      · rw [place]
        exact appends.holds 1 _ rfl
  · rw [atoms, List.length_append]
    exact few
  · have room := interned.room
    rw [atoms, appends.cursor, List.length_append]
    simp only [List.length_cons, List.length_nil]
    omega

theorem put (interned : Interned h held) (placed : Placed h held) (member : x ∈ held)
    (other : x.kind ≠ .atom) (inside : offset + 8 ≤ 8 * x.words)
    (word : h.hasWord (x.value.toNat + offset) = true) :
    Interned (h.put (x.value.toNat + offset) w) held := by
  constructor
  · exact interned.plain
  · exact interned.known
  · intro i s v found
    obtain ⟨listed, number⟩ := interned.listed i s v found
    have aligned : v.toNat % 8 = 0 := (placed.spans _ listed).aligned
    constructor
    · exact listed
    rw [word_put_other (hasWord_iff.mp word).2.1 (by omega), number]
    intro same
    obtain ⟨rfl, _⟩ := placed.same_word listed member (by decide : 8 < 8 * 2) (by omega) same
    exact other rfl
  · exact interned.few
  · exact interned.room

/-- The entry of a known name. -/
theorem entry (interned : Interned h held) (known : h.atoms.lookup s = some w) :
    .atom s w ∈ held ∧ ∃ i : Nat, h.atoms[i]? = some (s, w) ∧ h.word (w.toNat + 8) = .int i := by
  obtain ⟨earlier, later, split, _⟩ := List.lookup_eq_some_iff.mp known
  have found : h.atoms[earlier.length]? = some (s, w) := by simp [split]
  obtain ⟨member, number⟩ := interned.listed _ s w found
  exact ⟨member, _, found, number⟩

end Interned

/-! What becomes of a tenant. -/

namespace Tenant

/-- What holds of a tenant with each result of an action holds of the tenant after it. -/
theorem act_cases {P : Tenant → Prop} (yields : Yields a.run t.heap
    (fun x h => P ⟨h, x.toList ++ t.held⟩) fun _ h => P ⟨h, t.held⟩) : P (t.act a) := by
  unfold act
  split
  next ran => exact yields.ok ran
  next ran => exact yields.error ran

/-- There is no room for another atom. -/
def Full (t : Tenant) : Prop := t.heap.region.limit < t.heap.region.cursor + Layout.Atom.size

theorem Full.act (full : t.Full) (a : Action) : (t.act a).Full := by
  have onward := t.onward_act a
  have cursor := onward.cursor
  rw [Full, onward.limit]
  exact Nat.lt_of_lt_of_le full (Nat.add_le_add_right cursor _)

/-- No atom was put where there was no room for one. -/
theorem Full.none_appended (full : t.Full) {h : Heap}
    (appends : Appends t.heap [Kind.atom.canonicalMap, w] h) : False := by
  have bounded := appends.sound.bounded
  rw [appends.cursor, appends.limit] at bounded
  exact Nat.not_lt.mpr bounded full

/-- What an action may make of a tenant. No name is added without room for its atom. -/
structure Follows (t t' : Tenant) : Prop where
  orderly : t'.Orderly
  atoms : t.Full → t'.heap.atoms = t.heap.atoms

namespace Orderly

variable (orderly : t.Orderly)

include orderly

theorem spared (sound : h.Sound) (spares : Spares t.heap h) (atoms : h.atoms = t.heap.atoms) :
    t.Follows ⟨h, t.held⟩ := by
  constructor
  · exact ⟨orderly.placed.spared sound spares, orderly.interned.spared orderly.placed spares atoms⟩
  · exact fun _ => atoms

theorem unchanged (same : h = t.heap) : t.Follows ⟨h, t.held⟩ := by
  subst same
  exact ⟨orderly, fun _ => rfl⟩

theorem again (member : x ∈ t.held) : t.Follows ⟨t.heap, x :: t.held⟩ := by
  obtain ⟨placed, interned⟩ := orderly
  have held : ∀ y ∈ x :: t.held, y ∈ t.held := List.forall_mem_cons.mpr ⟨member, fun _ => id⟩
  refine ⟨⟨?_, ?_⟩, fun _ => rfl⟩
  · constructor
    · exact placed.sound
    · exact fun y known => placed.spans y (held y known)
    · exact fun y known => placed.full y (held y known)
    · exact fun y known => placed.stamped y (held y known)
    · exact fun y known z known' => placed.apart y (held y known) z (held z known')
  · constructor
    · exact fun y known => interned.plain y (held y known)
    · exact fun y known => interned.known y (held y known)
    · intro i s w found
      obtain ⟨old, number⟩ := interned.listed i s w found
      exact ⟨List.mem_cons_of_mem _ old, number⟩
    · exact interned.few
    · exact interned.room

/-- Another entity that is no atom. -/
theorem enlist (appends : Appends t.heap (k.canonicalMap :: ws) h)
    (atoms : h.atoms = t.heap.atoms) (words : n = ws.length + 1) (kind : k ≠ .atom) :
    t.Follows ⟨h, .plain k n (.pointer t.heap.region.cursor) :: t.held⟩ := by
  constructor
  · exact ⟨orderly.placed.cons appends rfl words rfl,
      (orderly.interned.spared orderly.placed appends.spares atoms).cons rfl kind⟩
  · exact fun _ => atoms

theorem atom (name : String) : t.Follows (t.act (.atom name)) := by
  have sound := orderly.placed.sound
  apply act_cases
  apply Yields.bind
  apply (sound.interns name).mono
  · rintro w h (⟨known, rfl⟩ | ⟨new, few, rfl, appends, atoms⟩)
    · exact .pure (orderly.again (orderly.interned.entry known).1)
    · apply Yields.pure
      constructor
      · exact ⟨orderly.placed.cons appends rfl rfl rfl,
          orderly.interned.register orderly.placed new few appends atoms⟩
      · intro full
        exact (full.none_appended appends).elim
  · rintro _ h ⟨_, atoms, ⟨rfl, _⟩ | ⟨_, x, appends⟩⟩
    · exact orderly.unchanged rfl
    · exact orderly.spared appends.sound appends.spares atoms

theorem write (permitted : t.Permits (.write base offset w)) :
    t.Follows (t.act (.write base offset w)) := by
  obtain ⟨x, member, rfl, other, behind, inside⟩ := permitted
  obtain ⟨start, aligned, _⟩ := orderly.placed.spans x member
  have address := addressOf_aligned start aligned
  apply act_cases
  apply Yields.bind
  apply (store_yields address).mono
  · rintro _ h ⟨word, rfl⟩
    apply Yields.pure
    constructor
    · exact ⟨orderly.placed.put member behind inside word,
        orderly.interned.put orderly.placed member other inside word⟩
    · exact fun _ => rfl
  · exact fun _ _ same => orderly.unchanged same

theorem follows (permitted : t.Permits a) : t.Follows (t.act a) := by
  have sound := orderly.placed.sound
  have unchanged (e : HeapError) (h : Heap) (same : h = t.heap) : t.Follows ⟨h, t.held⟩ :=
    orderly.unchanged same
  cases a with
  | atom name => exact orderly.atom name
  | write => exact orderly.write permitted
  | allocate k size =>
    apply act_cases
    apply Yields.bind
    apply (sound.allocate k size).mono _ unchanged
    rintro _ h ⟨rfl, atoms, ws, length, appends⟩
    exact .pure (orderly.enlist appends atoms length.symm permitted)
  | field slots =>
    apply act_cases
    obtain ⟨_, failed⟩ | ⟨h, made, fresh⟩ := allocateField_cases slots sound
    · exact .of_error (estate_bind_of_error failed) (orderly.unchanged rfl)
    · apply Yields.step made
      exact .pure (orderly.enlist (fresh.appends sound) fresh.grown.atoms (by simp) (by decide))
  | pair =>
    apply act_cases
    apply Yields.bind
    apply sound.pair.mono _ unchanged
    rintro _ h ⟨rfl, atoms, appends⟩
    exact .pure (orderly.enlist appends atoms rfl (by decide))
  | moveCursor cursor =>
    apply act_cases
    apply Yields.bind
    apply (sound.moveCursor cursor).mono _ unchanged
    rintro _ h ⟨sound, spares, atoms⟩
    exact .pure (orderly.spared sound spares atoms)

theorem after {as : List Action} (admitted : t.Admits as) : (t.after as).Orderly := by
  induction as generalizing t with
  | nil => exact orderly
  | cons a as ih => exact ih (orderly.follows admitted.1).orderly admitted.2

theorem kind? (member : x ∈ t.held) : t.heap.kind? x.value = some x.kind := by
  obtain ⟨placed, _⟩ := orderly
  have full := placed.full x member
  have spans := (placed.spans x member).mono (m := 0 + 1) (by omega)
  rw [spans.kind placed.sound, placed.stamped x member, kindOfMap_canonical]

/-- Names are read off atoms, and off nothing else. -/
theorem atomName? (member : x ∈ t.held) : t.heap.atomName? x.value = x.name := by
  have kind := orderly.kind? member
  obtain ⟨placed, interned⟩ := orderly
  rw [Heap.atomName?, kind]
  cases named : x.name with
  | none => rw [if_neg (by simpa using interned.plain x member named)]
  | some s =>
    obtain ⟨same, known⟩ := interned.known x member s named
    obtain ⟨listed, i, found, number⟩ := interned.entry known
    have spans : t.heap.Spans x.value 2 := placed.spans _ listed
    have below := (List.getElem?_eq_some_iff.mp found).1
    have few := interned.few
    have read : t.heap.loadInt x.value Layout.Atom.id = .ok i := by
      have word := spans.load placed.sound (d := Layout.Atom.id) rfl (by decide)
      rw [loadInt, word.trans (congrArg Except.ok number)]
      simp only [bind, Except.bind, Word.int?_natCast (by omega : i < 0x4000000000000000)]
    have atom : x.kind = .atom := congrArg Holding.kind same
    rw [if_pos (by rw [atom]; rfl), read]
    simp [found]

end Orderly

end Tenant

/-! Names that are refused. Room that is used up does not come back. -/

namespace Tenant.Orderly

variable (orderly : t.Orderly) (full : t.Full)

include orderly full

/-- Without room for its atom a new name is refused, and nothing happens. -/
theorem refuses (new : t.heap.atoms.lookup name = none) :
    ∃ e, Heap.atom name t.heap = .error e t.heap := by
  have interns := orderly.placed.sound.interns name
  cases ran : Heap.atom name t.heap with
  | ok w h =>
    obtain ⟨known, _⟩ | ⟨_, _, _, appends, _⟩ := interns.ok ran
    · cases new.symm.trans known
    · exact (full.none_appended appends).elim
  | error e h =>
    obtain ⟨_, _, ⟨rfl, _⟩ | ⟨_, _, appends⟩⟩ := interns.error ran
    · exact ⟨e, rfl⟩
    · exact (full.none_appended appends).elim

end Tenant.Orderly

end FastPath.Heap
