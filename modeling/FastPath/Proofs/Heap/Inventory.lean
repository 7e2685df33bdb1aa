import FastPath.Proofs.Heap.Reservation
import FastPath.Property.Storage

/-! What stands where in a heap. An inventory says at which addresses entities start and what shape
they have, a shape says what may stand in each of its words, and a heap is typed by an inventory if
its words are as the shapes of its entities say. A draft is an entity that is still being filled
in, of which nothing else may know; filling in its last word makes an entity of it. -/

namespace FastPath

/-- What the stub behind a Code entity is for: the accessors of `prototype`, nothing at all, or
whatever else. -/
inductive Role where
  | getter
  | setter
  | idle
  | other

/-- What may stand in a word of an entity. -/
inductive Content where
  | anything
  | exactly (w : Word)
  | int
  /-- What programs handle: small integers and finished entities. -/
  | value
  /-- A value that is no accessor pair of a function. -/
  | data
  /-- A value that does nothing if it is called as a stub. -/
  | callee
  /-- A field. Only guarded ones may hold accessor pairs as property values. -/
  | storage (guarded : Bool)
  /-- A map that plain objects have. Instance maps are older than the instances. -/
  | map
  | instanceMap
  /-- Where lookups go on, which is older than the map that says so. -/
  | proto
  /-- The hole, or a Code entity for an accessor. -/
  | accessor (r : Role)

inductive Shape where
  | canonicalMap (k : Kind)
  | instanceMap
  | field (slots : Nat) (guarded : Bool)
  | object
  | function (slots : Nat)
  | pair
  /-- A pair without accessors, which no function knows of. -/
  | blank
  | code (r : Role) (index : Nat)
  | boolean
  | oddball
  | atom
  | draft (words : Nat) (content : Nat → Content)

namespace Shape

def words : Shape → Nat
  | canonicalMap _ | instanceMap => 5
  | field slots _ => slots + 2
  | object => 3
  | function slots => slots + 7
  | pair | blank => 4
  | code _ _ | boolean | oddball | atom => 2
  | draft words _ => words

/-- What stands in a slot of a field that serves as a dictionary. -/
def slotContent (guarded : Bool) (j : Nat) : Content :=
  if j % Layout.Item.words = Layout.Item.value ∧ guarded = false then .data else .value

/-- The flags of a canonical map. -/
def mapFlags (k : Kind) : Int := if k = .function then Layout.Map.callable else Layout.Map.plain

def content : Shape → Nat → Content
  | canonicalMap _, 0 | instanceMap, 0 => .exactly Kind.map.canonicalMap
  | canonicalMap k, 1 => .exactly (.int (mapFlags k))
  | instanceMap, 1 => .exactly (.int Layout.Map.plain)
  | canonicalMap _, 2 => .exactly .null
  | instanceMap, 2 => .proto
  | canonicalMap _, 4 => .exactly (.int 0)
  | instanceMap, 4 => .exactly .hole
  | canonicalMap _, _ | instanceMap, _ => .value
  | field _ _, 0 => .exactly Kind.field.canonicalMap
  | field slots _, 1 => .exactly (.int slots)
  | field _ guarded, j + 2 => slotContent guarded j
  | object, 0 => .map
  | object, 1 => .exactly (.int Layout.Object.plain)
  | object, _ => .storage false
  | function _, 0 => .exactly Kind.function.canonicalMap
  | function _, 1 => .exactly (.int Layout.Object.access)
  | function _, 2 => .storage true
  | function _, 3 => .callee
  | function _, 4 => .instanceMap
  | function _, 6 => .int
  | function _, _ => .value
  | pair, 0 | blank, 0 => .exactly Kind.accessPair.canonicalMap
  | pair, 1 => .accessor .getter
  | pair, 2 => .accessor .setter
  | blank, 1 | blank, 2 => .exactly .hole
  | pair, _ | blank, _ => .int
  | code _ _, 0 => .exactly Kind.code.canonicalMap
  | code _ index, _ => .exactly (.int index)
  | boolean, 0 => .exactly Kind.boolean.canonicalMap
  | oddball, 0 => .exactly Kind.oddball.canonicalMap
  | atom, 0 => .exactly Kind.atom.canonicalMap
  | boolean, _ | oddball, _ | atom, _ => .int
  | draft _ content, i => content i

/-- Whether the entity is complete. -/
def finished : Shape → Bool
  | draft _ _ => false
  | _ => true

/-- Whether programs get hold of such entities. The accessors of `prototype` stay in their pair,
and stubs that do something are not asked for, unless they are shared. -/
def handled (shared : Bool) : Shape → Bool
  | draft _ _ => false
  | code .idle _ => true
  | code _ _ | blank => shared
  | _ => true

def isCode : Shape → Bool
  | code _ _ => true
  | _ => false

/-- Whether there is a stub behind the entity that does something. -/
def active : Shape → Bool
  | code .idle _ => false
  | code _ _ => true
  | _ => false

/-- Words that stay as they are once the entity is complete: all but the slots of a field, the
storage of an object and the storage and instance map of a function. -/
def frozen : Shape → Nat → Bool
  | field _ _, i => i < 2
  | object, i => i != 2
  | function _, i => i != 2 && i != 4
  | draft _ _, _ => false
  | _, _ => true

def kind : Shape → Kind
  | canonicalMap _ | instanceMap => .map
  | field _ _ => .field
  | object | draft _ _ => .object
  | function _ => .function
  | pair | blank => .accessPair
  | code _ _ => .code
  | boolean => .boolean
  | oddball => .oddball
  | atom => .atom

theorem finished_of_handled {x : Shape} (handled : x.handled shared = true) :
    x.finished = true := by
  cases x with
  | draft => cases handled
  | _ => rfl

/-- What is not shared is not active. -/
theorem idle_of_handled {x : Shape} (handled : x.handled false = true) : x.active = false := by
  cases x with
  | code r index =>
    cases r with
    | idle => rfl
    | _ => cases handled
  | _ => rfl

end Shape

/-- The entities of a heap by their addresses, and whether programs share those that only the
stubs of the catalogue use otherwise. -/
abbrev Inventory (_ : Bool) := Nat → Option Shape

namespace Inventory

def set (Γ : Inventory shared) (a : Nat) (x : Shape) : Inventory shared :=
  fun b => if b = a then some x else Γ b

def Value (Γ : Inventory shared) (w : Word) : Prop :=
  w.isInt = true ∨ ∃ x, Γ w.toNat = some x ∧ x.handled shared = true

def Data (Γ : Inventory shared) (w : Word) : Prop :=
  w.isInt = true ∨ ∃ x, Γ w.toNat = some x ∧ x.handled shared = true ∧ x ≠ .pair

def Callee (Γ : Inventory shared) (w : Word) : Prop :=
  w.isInt = true ∨ ∃ x, Γ w.toNat = some x ∧ x.handled shared = true ∧ x.active = false

/-- Nothing of the first inventory is missing from the second. -/
def Extends (Γ Γ' : Inventory shared) : Prop := ∀ a x, Γ a = some x → Γ' a = some x

/-- No finished entity of the first inventory is missing from the second. -/
def Settles (Γ Γ' : Inventory shared) : Prop :=
  ∀ a x, Γ a = some x → x.finished = true → Γ' a = some x

end Inventory

/-- Whether a word may stand in an entity that starts at `a`. -/
def Content.Accepts (Γ : Inventory shared) (a : Nat) : Content → Word → Prop
  | anything, _ => True
  | exactly v, w => w = v
  | int, w => ∃ n, w.int? = some n
  | value, w => Γ.Value w
  | data, w => Γ.Data w
  | callee, w => Γ.Callee w
  | storage guarded, w => ∃ slots, Γ w.toNat = some (.field slots guarded)
  | map, w => w = Kind.object.canonicalMap ∨ Γ w.toNat = some .instanceMap ∧ w.toNat < a
  | instanceMap, w => Γ w.toNat = some .instanceMap
  | proto, w => Γ.Data w ∧ (w.isInt = true ∨ w.toNat < a)
  | accessor r, w => w = .hole ∨ ∃ index, Γ w.toNat = some (.code r index)

namespace Inventory

variable {Γ Γ' Γ'' : Inventory shared} {a b : Nat} {x y : Shape} {c : Content} {w : Word}

theorem set_same : Γ.set a x a = some x := if_pos rfl

theorem set_other (other : b ≠ a) : Γ.set a x b = Γ b := if_neg other

/-- What is known after something was set was known before or is what was set. -/
theorem of_set (found : Γ.set a x b = some y) : b = a ∧ y = x ∨ b ≠ a ∧ Γ b = some y := by
  by_cases same : b = a
  · rw [same, set_same] at found
    exact .inl ⟨same, (Option.some.inj found).symm⟩
  · rw [set_other same] at found
    exact .inr ⟨same, found⟩

theorem set_set : (Γ.set a x).set a y = Γ.set a y := by
  funext b
  by_cases same : b = a
  · subst same
    rw [set_same, set_same]
  · rw [set_other same, set_other same, set_other same]

theorem set_known (found : Γ a = some x) : Γ.set a x = Γ := by
  funext b
  by_cases same : b = a
  · rw [same, set_same, found]
  · rw [set_other same]

/-- Code entities were there before anything else was set. -/
theorem code_of_set (other : x.isCode = false)
    (found : Γ.set a x b = some (.code r index)) : Γ b = some (.code r index) := by
  obtain ⟨_, rfl⟩ | ⟨_, old⟩ := of_set found
  · cases other
  · exact old

theorem Extends.refl (Γ : Inventory shared) : Γ.Extends Γ := fun _ _ found => found

theorem Extends.trans (first : Γ.Extends Γ') (second : Γ'.Extends Γ'') : Γ.Extends Γ'' :=
  fun a x found => second a x (first a x found)

theorem Extends.settles (extends_ : Γ.Extends Γ') : Γ.Settles Γ' :=
  fun a x found _ => extends_ a x found

theorem extends_set (fresh : Γ a = none) : Γ.Extends (Γ.set a x) := by
  intro b y found
  have other : b ≠ a := by
    rintro rfl
    simp [fresh] at found
  rw [set_other other, found]

/-- Changing a draft settles what is finished. -/
theorem settles_set (draft : Γ a = some y) (open_ : y.finished = false) :
    Γ.Settles (Γ.set a x) := by
  intro b z found finished
  have other : b ≠ a := by
    rintro rfl
    rw [draft] at found
    cases found
    simp [open_] at finished
  rw [set_other other, found]

theorem Value.mono (value : Γ.Value w) (settles : Γ.Settles Γ') : Γ'.Value w := by
  rcases value with int | ⟨x, found, handled⟩
  · exact .inl int
  · exact .inr ⟨x, settles _ x found (Shape.finished_of_handled handled), handled⟩

theorem Data.mono (data : Γ.Data w) (settles : Γ.Settles Γ') : Γ'.Data w := by
  rcases data with int | ⟨x, found, handled, single⟩
  · exact .inl int
  · exact .inr ⟨x, settles _ x found (Shape.finished_of_handled handled), handled, single⟩

theorem Callee.mono (callee : Γ.Callee w) (settles : Γ.Settles Γ') : Γ'.Callee w := by
  rcases callee with int | ⟨x, found, handled, idle⟩
  · exact .inl int
  · exact .inr ⟨x, settles _ x found (Shape.finished_of_handled handled), handled, idle⟩

theorem Callee.value (callee : Γ.Callee w) : Γ.Value w := by
  rcases callee with int | ⟨x, found, handled, _⟩
  · exact .inl int
  · exact .inr ⟨x, found, handled⟩

/-- A Code entity to call is that of a stub that does nothing. -/
theorem Callee.role (callee : Γ.Callee w) (aligned : w.toNat % 8 = 0)
    (found : Γ w.toNat = some (.code r index)) : r = .idle := by
  rcases callee with int | ⟨x, known, _, idle⟩
  · rw [Word.isInt_aligned aligned] at int
    cases int
  · cases known.symm.trans found
    cases r with
    | idle => rfl
    | _ => cases idle

/-- Where nothing is shared, no value does something if it is called as a stub. -/
theorem Value.callee {Γ : Inventory false} (value : Γ.Value w) : Γ.Callee w := by
  rcases value with int | ⟨x, found, handled⟩
  · exact .inl int
  · exact .inr ⟨x, found, handled, Shape.idle_of_handled handled⟩

theorem Data.value (data : Γ.Data w) : Γ.Value w := by
  rcases data with int | ⟨x, found, handled, _⟩
  · exact .inl int
  · exact .inr ⟨x, found, handled⟩

/-- What may stand in a word may still stand there when more is finished. -/
theorem accepts_mono (accepts : c.Accepts Γ a w) (settles : Γ.Settles Γ') :
    c.Accepts Γ' a w := by
  cases c with
  | anything => trivial
  | exactly v => exact accepts
  | int => exact accepts
  | value => exact Value.mono accepts settles
  | data => exact Data.mono accepts settles
  | callee => exact Callee.mono accepts settles
  | storage guarded =>
    obtain ⟨slots, found⟩ := accepts
    exact ⟨slots, settles _ _ found rfl⟩
  | map =>
    rcases accepts with canonical | ⟨found, older⟩
    · exact .inl canonical
    · exact .inr ⟨settles _ _ found rfl, older⟩
  | instanceMap => exact settles _ _ accepts rfl
  | proto => exact ⟨Data.mono accepts.1 settles, accepts.2⟩
  | accessor r =>
    rcases accepts with hole | ⟨index, found⟩
    · exact .inl hole
    · exact .inr ⟨index, settles _ _ found rfl⟩

end Inventory

namespace Heap

/-- The entities that every heap starts with. -/
structure Rooted (Γ : Inventory shared) : Prop where
  map : ∀ k : Kind, Γ k.canonicalMap.toNat = some (.canonicalMap k)
  undefined : Γ Word.undefined.toNat = some .oddball
  null : Γ Word.null.toNat = some .oddball
  hole : Γ Word.hole.toNat = some .oddball
  boolean : ∀ b, Γ (Word.boolean b).toNat = some .boolean

theorem Rooted.mono (rooted : Rooted Γ) (settles : Γ.Settles Γ') : Rooted Γ' :=
  ⟨fun k => settles _ _ (rooted.map k) rfl, settles _ _ rooted.undefined rfl,
    settles _ _ rooted.null rfl, settles _ _ rooted.hole rfl,
    fun b => settles _ _ (rooted.boolean b) rfl⟩

theorem Rooted.not_canonical (rooted : Rooted Γ) (found : Γ w.toNat = some .instanceMap)
    (k : Kind) : w ≠ k.canonicalMap := by
  rintro rfl
  cases (rooted.map k).symm.trans found

/-- In guarded fields accessor pairs stand under the key `prototype` only. -/
def Named (Γ : Inventory shared) (h : Heap) : Prop :=
  ∀ a slots, Γ a = some (.field slots true) → ∀ i, (i + 1) * Layout.Item.words ≤ slots →
    Γ (h.word (a + itemOffset i Layout.Item.value)).toNat = some .pair →
    h.atoms.lookup "prototype" = some (h.word (a + itemOffset i Layout.Item.key))

/-- The heap is as the inventory says. If it is `strict`, then only functions' own accessors of
`prototype` are properties. -/
structure Typed (strict : Bool) (Γ : Inventory shared) (h : Heap) : Prop where
  sound : h.Sound
  inside : Γ a = some x → 8 ≤ a ∧ a % 8 = 0 ∧ 0 < x.words ∧ a + 8 * x.words ≤ h.region.cursor
  apart : Γ a = some x → Γ b = some y → a < b → a + 8 * x.words ≤ b
  covers : 8 ≤ a → a % 8 = 0 → a < h.region.cursor →
    ∃ b x, Γ b = some x ∧ b ≤ a ∧ a < b + 8 * x.words
  holds : Γ a = some x → ∀ i < x.words, (x.content i).Accepts Γ a (h.word (a + 8 * i))
  rooted : Rooted Γ
  atoms : h.atoms.lookup name = some w → Γ w.toNat = some .atom
  named : strict = true → Named Γ h
  /-- The field that an object was made with comes right after it. -/
  flanked : Γ a = some .object → ∃ slots guarded, Γ (a + 24) = some (.field slots guarded)

/-- What was there is there still, frozen words are as they were, and `New` says of all that is
there now and was not there before what it is. -/
structure Evolves (New : Nat → Shape → Prop) (Γ : Inventory shared) (h : Heap)
    (Γ' : Inventory shared) (h' : Heap) : Prop where
  stays : Γ.Extends Γ'
  new : Γ' a = some x → Γ a = some x ∨ New a x
  frozen : Γ a = some x → ∀ i < x.words, x.frozen i = true →
    h'.word (a + 8 * i) = h.word (a + 8 * i)
  atoms : h.atoms.lookup name = some w → h'.atoms.lookup name = some w

namespace Evolves

variable {New New' : Nat → Shape → Prop} {h h' h'' : Heap}

theorem refl (New : Nat → Shape → Prop) (Γ : Inventory shared) (h : Heap) : Evolves New Γ h Γ h :=
  ⟨.refl Γ, .inl, fun _ _ _ _ => rfl, id⟩

theorem trans (first : Evolves New Γ h Γ' h') (second : Evolves New Γ' h' Γ'' h'') :
    Evolves New Γ h Γ'' h'' := by
  constructor
  · exact first.stays.trans second.stays
  · intro a x found
    rcases second.new found with old | new
    · exact first.new old
    · exact .inr new
  · intro a x found i inside still
    rw [second.frozen (first.stays _ _ found) i inside still, first.frozen found i inside still]
  · exact second.atoms ∘ first.atoms

theorem mono (evolves : Evolves New Γ h Γ' h') (weaker : ∀ a x, New a x → New' a x) :
    Evolves New' Γ h Γ' h' :=
  ⟨evolves.stays, fun found => (evolves.new found).imp_right (weaker _ _), evolves.frozen,
    evolves.atoms⟩

end Evolves

end Heap

end FastPath
