import FastPath.Proofs.Catalogue.Fields

/-! What becomes of the number of slots that the stub for fields is asked for. The stub works out
the bytes in small integers and does not look at their overflow. As long as the bytes are those
that the field takes, or are negative, it gives the field that the heap would give or traps and
changes nothing. For any other number it gives an entity that is laid out as a field of that many
slots in words that are too few for them. -/

namespace FastPath

open Catalogue

/-- The words that the stub takes for a field of `n` slots: as many as there are slots, and two for
the header, as far as small integers can count their bytes. -/
def fieldWords (n : Int) : Int := (n + 2).bmod 0x1000000000000000

theorem fieldWords_bytes (n : Int) : Word.carried (16 + 8 * n) = 8 * fieldWords n := by
  simp only [Word.carried, fieldWords, Int.bmod_def]
  split <;> split <;> omega

/-- Fewer than `2 ^ 59` words are counted as they are. -/
theorem fieldWords_eq {n : Int} (nonneg : 0 ≤ n) :
    fieldWords n = n + 2 ↔ n + 2 < 0x800000000000000 := by
  simp only [fieldWords, Int.bmod_def]
  split <;> omega

namespace Heap

/-- In `h'` there is a field of `slots` holes where the cursor of `h` stood, and all that came
before it is as it was. -/
structure FieldAdded (h : Heap) (slots : Nat) (h' : Heap) : Prop where
  kind : h'.kind? (.pointer h.region.cursor) = some .field
  length : h'.loadInt (.pointer h.region.cursor) Layout.Field.length = .ok slots
  cursor : h'.region.cursor = h.region.cursor + 16 + 8 * slots
  holes : ∀ i < slots, h.region.cursor + Layout.Field.data + 8 * i < h'.region.cursor ∧
    h'.load (.pointer h.region.cursor) (Layout.Field.data + 8 * i) = .ok .hole
  kept : ∀ a < h.region.cursor, h'.read a = h.read a

variable {h h' : Heap} {slots : Nat}

theorem FreshField.added (fresh : FreshField h slots h') (sound : h.Sound) :
    FieldAdded h slots h' := by
  have spans := fresh.grown.spans sound
  have sound' := fresh.grown.sound
  have place := sound.toNat_cursor
  have cursor := fresh.grown.cursor
  constructor
  · have kind := spans.kind sound'
    rw [place, fresh.map] at kind
    exact kind
  · have loaded := spans.load (d := Layout.Field.length) sound' rfl
      (by simp only [Layout.Field.length]; omega)
    rw [place] at loaded
    simp only [loadInt, loaded, bind, Except.bind, fresh.length]
  · omega
  · intro i inside
    have loaded := spans.load (d := Layout.Field.data + 8 * i) sound'
      (by simp only [Layout.Field.data]; omega) (by simp only [Layout.Field.data]; omega)
    rw [place, ← Nat.add_assoc, fresh.holes i inside] at loaded
    exact ⟨by simp only [Layout.Field.data]; omega, loaded⟩
  · intro a below
    have same : h'.hasWord a = h.hasWord a := by
      simp only [hasWord, fresh.grown.capacity]
    rw [read, read, same]
    by_cases inside : h.hasWord a = true
    · have kept := fresh.grown.kept a (hasWord_iff.mp inside).2.1 (.inl below)
      rw [if_pos inside, if_pos inside]
      exact congrArg Except.ok kept
    · rw [if_neg inside, if_neg inside]

/-- The header can be read back, though the words may be too few for it and for the slots that it
speaks of. -/
theorem Sound.laid_reads (sound : h.Sound) {count : Nat} {n : Int} (fits : Word.Fits n)
    (room : h.region.cursor + 8 * max count 2 ≤ h.capacity)
    (laid : lay h.region.cursor count (.int n)
      ((h.advanced (8 * count)).put h.region.cursor Kind.field.canonicalMap) = .ok () h') :
    h'.kind? (.pointer h.region.cursor) = some .field ∧
      h'.loadInt (.pointer h.region.cursor) Layout.Field.length = .ok n ∧
      h'.region.cursor = h.region.cursor + 8 * count := by
  obtain ⟨aligned, start, bounded, backed, small⟩ := sound
  have header : Layout.Field.length = 8 := rfl
  have data : Layout.Field.data = 16 := rfl
  have wide : (h.advanced (8 * count)).capacity = h.capacity := rfl
  obtain ⟨_, again, region, capacity, _, words⟩ := lay_ok
    (h := (h.advanced (8 * count)).put h.region.cursor Kind.field.canonicalMap)
    (v := .int n) count aligned start (by omega) (by rw [capacity_put]; omega)
  cases laid.symm.trans again
  rw [capacity_put, wide] at capacity
  have loaded {d : Nat} (part : d = 0 ∨ d = 8) : h'.load (.pointer h.region.cursor) d =
      .ok (h'.word (h.region.cursor + d)) := by
    rw [load_pointer aligned start d (by omega)]
    exact read_eq (hasWord_iff.mpr ⟨by omega, by omega, by omega⟩)
  have stamped : h'.word h.region.cursor = Kind.field.canonicalMap := by
    have inside : (h.advanced (8 * count)).hasWord h.region.cursor = true :=
      hasWord_iff.mpr ⟨start, aligned, by omega⟩
    rw [words _ aligned, if_neg (by omega), if_neg (by omega), word_put_same inside]
  have length : h'.word (h.region.cursor + Layout.Field.length) = .int n := by
    rw [words _ (by omega), if_pos rfl]
  refine ⟨?_, ?_, ?_⟩
  · have map : h'.mapOf (.pointer h.region.cursor) = .ok Kind.field.canonicalMap := by
      rw [← stamped]
      exact loaded (.inl rfl)
    rw [kind?, map]
    rfl
  · simp only [loadInt, loaded (.inr header), length, bind, Except.bind, Word.int?_int fits]
  · rw [region, region_put, Heap.advanced, roundUp_of_mod (by omega)]

end Heap

section

variable {stubs : String → Stub} (library : Library stubs) {s : State ρ}
  (depth : s.machine.depth + 1 < s.machine.maxDepth) {n : Int} (fits : Word.Fits n)
  (host : Host ρ) (fuel : Nat) (self : Word)

include library depth fits

/-- Bytes that come to a negative number are refused. -/
theorem Library.allocField_negative (negative : fieldWords n < 0) :
    invoke host (fuel + 4) (stubs allocField) self [.int n] s =
      .error (.trap (.ofHeapError (.outOfBounds 0))) s := by
  obtain ⟨m, bytes⟩ := Int.eq_negSucc_of_lt_zero (by omega : 8 * fieldWords n < 0)
  rw [← fieldWords_bytes] at bytes
  have size : (Word.int (16 + 8 * n)).int? = some (.negSucc m) := by rw [Word.int?_carried, bytes]
  have deep : s.deeper.machine.depth < s.deeper.machine.maxDepth := depth
  have refused : invoke host (fuel + 3) (stubs (allocTagged .field)) .undefined
      [.int (16 + 8 * n)] s.deeper = .error (.trap (.ofHeapError (.outOfBounds 0))) s.deeper := by
    rw [library.invoke_graph (Programs.tagged .field) (allocTagged .field) rfl,
      Programs.tagged_negative stubs host _ _ _ .field size, Exec.nested_eq, if_pos deep]
    rfl
  rw [library.invoke_graph Programs.field allocField rfl,
    Programs.field_run stubs host _ _ self fits, Exec.nested_eq, if_pos (by omega),
    estate_bind_of_error refused]
  rfl

variable (sound : s.machine.heap.Sound)

include sound

/-- A field whose bytes are those that it takes is the field that the heap gives. -/
theorem Library.allocField_exact {slots : Nat} (asked : n = slots)
    (counted : fieldWords n = n + 2) :
    Yields (invoke host (fuel + 4) (stubs allocField) self [.int n]) s
      (fun w t => w = .pointer s.machine.heap.region.cursor ∧ ∃ h, t = s.withHeap h ∧
        Heap.allocateField slots s.machine.heap = .ok w h ∧
        Heap.FieldAdded s.machine.heap slots h)
      fun e t => (∃ trap, e = .trap trap) ∧ t = s ∧
        s.machine.heap.region.limit < s.machine.heap.region.cursor + 16 + 8 * slots := by
  subst asked
  have bytes : Word.carried (16 + 8 * (slots : Int)) = (8 * (slots + 2) : Nat) := by
    rw [fieldWords_bytes, counted]
    omega
  have bounded := sound.bounded
  have backed := sound.backed
  apply (library.allocField_lays sound fits bytes host fuel self).mono
  · rintro _ _ ⟨rfl, room, _, h, laid, rfl⟩
    have size : Layout.Field.size slots = 8 * (slots + 2) := by
      simp only [Layout.Field.size, Layout.Field.data, Layout.word]
      omega
    have done := sound.allocateField (size ▸ room) laid
    obtain ⟨_, failed⟩ | ⟨h', made, fresh⟩ := Heap.allocateField_cases slots sound
    · cases done.symm.trans failed
    · cases done.symm.trans made
      exact ⟨rfl, h, rfl, done, fresh.added sound⟩
  · rintro e t ⟨traps, same, reason⟩
    refine ⟨traps, same (by omega), ?_⟩
    obtain deep | full | short := reason
    · omega
    · omega
    · omega

/-- Whatever count of words comes out is taken, and the length written behind the map. -/
theorem Library.allocField_counted {count : Nat} (counted : fieldWords n = count) :
    Yields (invoke host (fuel + 4) (stubs allocField) self [.int n]) s
      (fun w t => w = .pointer s.machine.heap.region.cursor ∧ ∃ h, t = s.withHeap h ∧
        h.kind? w = some .field ∧ h.loadInt w Layout.Field.length = .ok n ∧
        h.region.cursor = s.machine.heap.region.cursor + 8 * count)
      fun e t => (∃ trap, e = .trap trap) ∧ (2 ≤ count → t = s) ∧
        (s.machine.heap.region.limit < s.machine.heap.region.cursor + 8 * count ∨
          s.machine.heap.capacity < s.machine.heap.region.cursor + 16) := by
  have bytes : Word.carried (16 + 8 * n) = (8 * count : Nat) := by
    rw [fieldWords_bytes, counted]
    omega
  have backed := sound.backed
  apply (library.allocField_lays sound fits bytes host fuel self).mono
  · rintro _ _ ⟨rfl, room, header, h, laid, rfl⟩
    exact ⟨rfl, h, rfl, sound.laid_reads fits (by omega) laid⟩
  · rintro e t ⟨traps, same, reason⟩
    exact ⟨traps, same, by omega⟩

/-- Asked for any small integer of slots, the stub for fields gives the field that the heap gives,
or traps and changes nothing, if the bytes that it works out are right or negative. Any other
number of bytes it takes for granted. What it gives then has the map of a field and the length that
it was asked for, but that length is negative or the slots are not all below the cursor. -/
theorem allocField_wraps :
    (fieldWords n < 0 ∨ 0 ≤ n ∧ n + 2 < 0x800000000000000 →
      Yields (invoke host (fuel + 4) (stubs allocField) self [.int n]) s
        (fun w t => ∃ slots : Nat, n = slots ∧ w = .pointer s.machine.heap.region.cursor ∧
          ∃ h, t = s.withHeap h ∧ Heap.allocateField slots s.machine.heap = .ok w h ∧
            Heap.FieldAdded s.machine.heap slots h)
        fun e t => (∃ trap, e = .trap trap) ∧ t = s ∧ (fieldWords n < 0 ∨
          (s.machine.heap.region.limit : Int) < s.machine.heap.region.cursor + 16 + 8 * n)) ∧
    ∀ count : Nat, fieldWords n = count → ¬(0 ≤ n ∧ n + 2 < 0x800000000000000) →
      Yields (invoke host (fuel + 4) (stubs allocField) self [.int n]) s
        (fun w t => w = .pointer s.machine.heap.region.cursor ∧ ∃ h, t = s.withHeap h ∧
          h.kind? w = some .field ∧ h.loadInt w Layout.Field.length = .ok n ∧
          h.region.cursor = s.machine.heap.region.cursor + 8 * count ∧
          (n < 0 ∨ (h.region.cursor : Int) < s.machine.heap.region.cursor + 16 + 8 * n))
        fun e t => (∃ trap, e = .trap trap) ∧ (2 ≤ count → t = s) ∧
          (s.machine.heap.region.limit < s.machine.heap.region.cursor + 8 * count ∨
            s.machine.heap.capacity < s.machine.heap.region.cursor + 16) := by
  constructor
  · rintro (negative | ⟨nonneg, few⟩)
    · have refused := library.allocField_negative depth fits host fuel self negative
      exact .of_error refused ⟨⟨_, rfl⟩, rfl, .inl negative⟩
    · have counted := (fieldWords_eq nonneg).mpr few
      obtain ⟨slots, rfl⟩ := Int.eq_ofNat_of_zero_le nonneg
      apply (library.allocField_exact depth fits host fuel self sound rfl counted).mono
      · rintro w t ⟨place, h, after, done, added⟩
        exact ⟨slots, rfl, place, h, after, done, added⟩
      · rintro e t ⟨traps, same, full⟩
        exact ⟨traps, same, .inr (by omega)⟩
  · intro count counted wrong
    have fewer : n < 0 ∨ fieldWords n < n + 2 := by
      simp only [fieldWords, Int.bmod_def]
      split <;> omega
    apply (library.allocField_counted depth fits host fuel self sound counted).mono
    · rintro w t ⟨place, h, after, kind, length, cursor⟩
      exact ⟨place, h, after, kind, length, cursor, by omega⟩
    · exact fun e t failed => failed

end

/-- A machine with room for a few slots. -/
def spacious : State Unit :=
  { machine := .ofHeap (match Heap.create 512 with
      | .ok h => h
      | .error _ => default) 4
    host := () }

theorem spacious_sound : spacious.machine.heap.Sound ∧
    spacious.machine.heap.region.cursor = 448 := by
  have facts : spacious.machine.heap.region.cursor = 448 ∧
      spacious.machine.heap.region.limit = 512 ∧ spacious.machine.heap.capacity = 512 := by
    decide +kernel
  obtain ⟨cursor, limit, capacity⟩ := facts
  refine ⟨?_, cursor⟩
  constructor <;> omega

/-- A field of fewer slots than none, and one of more slots than there are bytes. -/
theorem allocField_miscounts :
    (∃ t, invoke Host.absent 4 (freshStubs allocField) .undefined [.int (-1)] spacious =
        .ok (.pointer 448) t ∧ t.machine.heap.kind? (.pointer 448) = some .field ∧
      t.machine.heap.loadInt (.pointer 448) Layout.Field.length = .ok (-1) ∧
      t.machine.heap.region.cursor = 456) ∧
    ∃ t, invoke Host.absent 4 (freshStubs allocField) .undefined [.int 0x1000000000000000]
        spacious = .ok (.pointer 448) t ∧
      t.machine.heap.loadInt (.pointer 448) Layout.Field.length = .ok 0x1000000000000000 ∧
      t.machine.heap.region.cursor = 464 ∧
      ¬ ∃ w h, Heap.allocateField 0x1000000000000000 spacious.machine.heap = .ok w h := by
  obtain ⟨_, t, ran, rfl, negative⟩ : ∃ w t, invoke Host.absent 4 (freshStubs allocField)
      .undefined [.int (-1)] spacious = .ok w t ∧ w = .pointer 448 ∧
      t.machine.heap.kind? (.pointer 448) = some .field ∧
      t.machine.heap.loadInt (.pointer 448) Layout.Field.length = .ok (-1) ∧
      t.machine.heap.region.cursor = 456 := Yields.returns (by decide +kernel)
  obtain ⟨_, t', ran', rfl, length, cursor⟩ : ∃ w t, invoke Host.absent 4 (freshStubs allocField)
      .undefined [.int 0x1000000000000000] spacious = .ok w t ∧ w = .pointer 448 ∧
      t.machine.heap.loadInt (.pointer 448) Layout.Field.length = .ok 0x1000000000000000 ∧
      t.machine.heap.region.cursor = 464 := Yields.returns (by decide +kernel)
  obtain ⟨_, _, failed, _⟩ : ∃ e h, Heap.allocateField 0x1000000000000000 spacious.machine.heap =
      .error e h ∧ True := Yields.fails (by decide +kernel)
  refine ⟨⟨t, ran, negative⟩, t', ran', length, cursor, ?_⟩
  rintro ⟨w, h, done⟩
  cases failed.symm.trans done

/-- Three slots are given as the heap gives them, `-3` are refused, and `-1` are given. -/
theorem spacious_wraps : spacious.machine.heap.Sound ∧
    spacious.machine.depth + 1 < spacious.machine.maxDepth ∧
    Word.Fits 3 ∧ Word.Fits (-3) ∧ Word.Fits (-1) ∧
    (∃ t, invoke Host.absent 4 (freshStubs allocField) .undefined [.int 3] spacious =
        .ok (.pointer 448) t ∧
      Heap.allocateField 3 spacious.machine.heap = .ok (.pointer 448) t.machine.heap ∧
      Heap.FieldAdded spacious.machine.heap 3 t.machine.heap) ∧
    (∃ trap, invoke Host.absent 4 (freshStubs allocField) .undefined [.int (-3)] spacious =
      .error (.trap trap) spacious) ∧
    ∃ t, invoke Host.absent 4 (freshStubs allocField) .undefined [.int (-1)] spacious =
        .ok (.pointer 448) t ∧
      t.machine.heap.loadInt (.pointer 448) Layout.Field.length = .ok (-1) ∧
      t.machine.heap.region.cursor = 448 + 8 * 1 := by
  have library := freshStubs_library
  obtain ⟨sound, cursor⟩ := spacious_sound
  have depth : spacious.machine.depth + 1 < spacious.machine.maxDepth := by decide
  obtain ⟨three, minus_three, minus_one⟩ : Word.Fits 3 ∧ Word.Fits (-3) ∧ Word.Fits (-1) := by
    decide
  obtain ⟨_, t, ran, _⟩ : ∃ w t, invoke Host.absent 4 (freshStubs allocField) .undefined [.int 3]
      spacious = .ok w t ∧ True := Yields.returns (by decide +kernel)
  obtain ⟨_, t', failed, _⟩ : ∃ e t, invoke Host.absent 4 (freshStubs allocField) .undefined
      [.int (-3)] spacious = .error e t ∧ True := Yields.fails (by decide +kernel)
  obtain ⟨_, t'', short, _⟩ : ∃ w t, invoke Host.absent 4 (freshStubs allocField) .undefined
      [.int (-1)] spacious = .ok w t ∧ True := Yields.returns (by decide +kernel)
  -- from here on neither the machine nor the stubs are looked into
  generalize spacious = s at sound cursor depth ran failed short ⊢
  generalize freshStubs = stubs at library ran failed short ⊢
  have given := (allocField_wraps library depth three Host.absent 0 .undefined sound).1
    (.inr (by decide))
  have refused := (allocField_wraps library depth minus_three Host.absent 0 .undefined sound).1
    (.inl (by decide))
  have counted := (allocField_wraps library depth minus_one Host.absent 0 .undefined sound).2 1
    (by decide) (by decide)
  obtain ⟨slots, same, rfl, h, rfl, done, added⟩ := given.ok ran
  obtain ⟨⟨trap, rfl⟩, rfl, _⟩ := refused.error failed
  obtain ⟨rfl, h', rfl, _, length, cursor', _⟩ := counted.ok short
  obtain rfl : 3 = slots := Int.ofNat.inj same
  rw [cursor] at ran done short length cursor'
  exact ⟨sound, depth, three, minus_three, minus_one, ⟨_, ran, done, added⟩, ⟨trap, failed⟩, _,
    short, length, cursor'⟩

end FastPath
