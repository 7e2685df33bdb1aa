import FastPath.Proofs.Catalogue.Requests
import FastPath.Proofs.Property.SlotAgreement
import FastPath.Session

/-! Accessor pairs as property values. A client that stores pairs only where the flags allow for
them never gets hold of a pair by reading a property, whether by its key or in a slot; and the only
read that fails is that of `prototype` on a plain object with a function among its prototypes. -/

namespace FastPath

open Catalogue Heap

variable {stubs : String → Stub} {strict : Bool} {Γ : Inventory false} {loader : Stub} {c : Client}
  {o k : Word} {fuel : Nat}

/-- A load that has to be left to the host comes to a read of the property. -/
theorem load_stub_gets (loads : SlotStub .load loader) (given : SlotArgs .load o k w v args)
    (self : Word) {s : State PropertyHost} (sound : s.machine.heap.Sound)
    (backed : s.machine.heap.Backed o) (hosted : PropertyOp.load.Hosted s.machine.heap o w)
    (enough : 4 ≤ fuel) (depth : s.machine.depth < s.machine.maxDepth) :
    invoke PropertyHost.serve (fuel + 1) loader self args s =
      match Property.get (invoke PropertyHost.serve fuel) o k s.deeper.counted with
      | .ok x t => .ok x t.shallower
      | .error e t => .error e t.shallower := by
  obtain ⟨n, f, few, path, ready⟩ := slot_leads_host self loads given (s := s.deeper) sound backed
    hosted PropertyHost.serve (invoke PropertyHost.serve fuel)
  have run := slot_host_run loads path ready (show n < fuel by omega)
  have direct : PropertyOp.load.direct (invoke PropertyHost.serve fuel) o k v =
      Property.get (invoke PropertyHost.serve fuel) o k := rfl
  rw [invoke_succ, Exec.nested_eq, if_pos depth, run, direct]
  cases Property.get (invoke PropertyHost.serve fuel) o k s.deeper.counted <;> rfl

/-- Entities that hold an accessor pair are flagged, so what a lookup hands out is never the slot
of a pair, and whatever a lookup gives, a load with it gives no pair. -/
theorem pairs_are_flagged (library : Library stubs) (loads : PropertyOp.load.Compiled loader)
    (reached : c.Reached stubs false (fuel + 8)) (knows : c.Knows o)
    (object : c.state.machine.heap.isObjectLike o = true) :
    (∀ i < c.state.machine.heap.items o,
      c.state.machine.heap.isPair (c.state.machine.heap.value o i) = true →
      c.state.machine.heap.loadFlag o Layout.Object.flags Layout.Object.access = .ok true) ∧
    ∀ k, c.Knows k → ∀ id update w t, PropertyHost.slot id o k update c.state = .ok w t →
      (w.isInt = true → ∃ (i : Nat) (x : Word), w.int? = some (i : Int) ∧
        t.machine.heap.ownSlot o k = .ok (some (.item i)) ∧
        t.machine.heap.loadSlot o (.item i) = .ok x ∧ t.machine.heap.isPair x = false) ∧
      ∀ n self rest x u, 9 ≤ n →
        invoke PropertyHost.serve (n + 1) loader self (o :: k :: w :: rest) t = .ok x u →
        u.machine.heap.isPair x = false := by
  obtain ⟨Γ, furnished, held⟩ := reached.furnished library
  have typed := furnished.typed
  have obj := (knows.known held).1
  obtain ⟨guarded, housed⟩ := typed.objectLike obj object
  refine ⟨fun i bound pair => ?_, fun k knows id update w t looked => ?_⟩
  · cases typed.pair_guarded housed bound (typed.pair_of_isPair (typed.value housed bound) pair)
    rw [(typed.backed housed).loadFlag typed.sound, typed.access housed]
  have looks := furnished.slot_looks id obj (knows.known held).1 update
  obtain ⟨Γ', ⟨furnished', evolves⟩, outcome⟩ := looks.ok looked
  have typed' := furnished'.typed
  have obj' := obj.mono evolves.stays.settles
  have backed' := typed'.backed (housed.mono evolves.stays)
  refine ⟨fun int => ?_, fun n self rest x u enough ran => ?_⟩
  · rcases outcome with rfl | ⟨plain, _⟩
    · cases int
    cases guarded with
    | true =>
      obtain ⟨slots, function⟩ := housed
      cases (evolves.stays _ _ function).symm.trans plain
    | false =>
      obtain ⟨sound', _, _, sl, own, slot, _⟩ :=
        slot_placed typed.sound (typed.backed housed) (typed.access housed) looked int
      obtain ⟨i, bound, rfl, _⟩ := typed'.own_item plain own
      exact ⟨i, _, slot, own ▸ backed'.ownSlot sound',
        backed'.loadSlot sound' (item_position bound).1, typed'.item_unpaired plain bound⟩
  by_cases depth : t.machine.depth < t.machine.maxDepth
  · rcases outcome with rfl | ⟨plain, i, bound, small, rfl, _⟩
    · rw [load_stub_gets loads.slotStub (v := .hole) ⟨rest, rfl, nofun⟩ self typed'.sound backed'
        (.inr ⟨rfl, rfl⟩) (by omega) depth] at ran
      obtain ⟨m, rfl⟩ : ∃ m, n = m + 2 := ⟨n - 2, by omega⟩
      have reads := library.get_reads (s := t.deeper.counted) (furnished'.at_depth _)
        PropertyHost.serve m obj' k
      cases got : Property.get (invoke PropertyHost.serve (m + 2)) o k t.deeper.counted with
      | error e t' =>
        rw [got] at ran
        cases ran
      | ok y t' =>
        rw [got] at ran
        cases ran
        obtain ⟨rfl, data⟩ := reads.ok got
        exact typed'.data_unpaired data
    · have flag : t.machine.heap.flagged o Layout.Object.access = false := typed'.access plain
      have suits : (Slot.item i).Suits t.machine.heap o := typed'.no_dense plain
      rw [loadSlot_ok (w := .int i) typed'.sound backed' flag suits (item_position bound).1
        (Word.int?_natCast (by omega)) small depth enough loads.slotStub (v := .hole)
          ⟨rest, rfl, nofun⟩] at ran
      cases ran
      exact typed'.item_unpaired plain bound
  · rw [invoke_succ, Exec.nested_eq, if_neg depth] at ran
    cases ran

/-- A function gets a pair for a property, and an object is there too. -/
def pairKeeping : List Request :=
  [.codeRef idler, .function (.pointer 448) .undefined 0, .pair,
    .set (.pointer 464) (.int 1) (.pointer 1080), .object]

theorem pairKeeping_flagged : ∃ c, Client.fresh.asks freshStubs 8 pairKeeping = c ∧
    c.state.machine.heap.isPair (c.state.machine.heap.value (.pointer 464) 1) = true ∧
    c.state.machine.heap.loadFlag (.pointer 464) Layout.Object.flags Layout.Object.access =
      .ok true ∧
    ∃ t x, PropertyHost.slot 0 (.pointer 1112) (.int 1) true c.state = .ok (.int 0) t ∧
      t.machine.heap.loadSlot (.pointer 1112) (.item 0) = .ok x ∧
      t.machine.heap.isPair x = false := by
  have facts : Client.fresh.Legal freshStubs false 8 pairKeeping ∧
      let c := Client.fresh.asks freshStubs 8 pairKeeping
      (∀ o ∈ [.pointer 464, .pointer 1112], c.Knows o ∧
        c.state.machine.heap.isObjectLike o = true) ∧
      1 < c.state.machine.heap.items (.pointer 464) ∧
      c.state.machine.heap.isPair (c.state.machine.heap.value (.pointer 464) 1) = true ∧
      (match PropertyHost.slot 0 (.pointer 1112) (.int 1) true c.state with
        | .ok w _ => w == .int 0
        | .error _ _ => false) = true := by decide +kernel
  obtain ⟨legal, objects, bound, pair, slot⟩ := facts
  have reached := (Client.fresh_reached _ _ _).asks legal
  generalize Client.fresh.asks freshStubs 8 pairKeeping = c at *
  obtain ⟨knows, object⟩ := objects (.pointer 464) (by simp)
  obtain ⟨knows', object'⟩ := objects (.pointer 1112) (by simp)
  have flagged := pairs_are_flagged freshStubs_library PropertyOp.load.stub_compiled
    reached knows object
  have plain := pairs_are_flagged freshStubs_library PropertyOp.load.stub_compiled
    reached knows' object'
  refine ⟨c, rfl, pair, flagged.1 1 bound pair, ?_⟩
  split at slot
  next w t looked =>
    obtain rfl := beq_iff_eq.mp slot
    obtain ⟨i, x, number, _, loaded, single⟩ :=
      (plain.2 (.int 1) (.inl rfl) 0 true _ t looked).1 rfl
    obtain rfl : i = 0 := by
      rw [Word.int?_int (by decide)] at number
      exact (Int.ofNat.inj (Option.some.inj number)).symm
    exact ⟨t, x, looked, loaded, single⟩
  next => cases slot

/-- A plain object is given a pair, looked up and read in its slot. -/
def straying : SessionM (Word × Word × Word × Word) := do
  let o ← Session.call PropertyHost.serve 10 allocObject .undefined []
  let p ← Session.call PropertyHost.serve 10 allocAccessPair .undefined []
  let _ ← Session.onState (Property.set (invoke PropertyHost.serve 10) o (.int 1) p)
  let slot ← Session.onState (PropertyHost.slot 0 o (.int 1) false)
  let w ← Session.call PropertyHost.serve 10 PropertyOp.load.stubName .undefined
    [o, .int 1, slot]
  return (o, p, slot, w)

/-- The property holds a pair and the flags of the object do not say so. -/
def Strays (h : Heap) (o k p : Word) (i : Nat) : Prop :=
  h.isObjectLike o = true ∧ h.ownSlot o k = .ok (some (.item i)) ∧
    h.loadSlot o (.item i) = .ok p ∧ h.isPair p = true ∧
    h.loadFlag o Layout.Object.flags Layout.Object.access = .ok false

instance : Decidable (Strays h o k p i) := inferInstanceAs (Decidable (_ ∧ _))

/-- Stores leave the flags alone, so the lookup hands out the slot and the load returns the
pair. -/
theorem straying_unflagged : ∃ o p s,
    (Session.create 1024 8 [.property, .allocation, .construction]).map straying =
      .ok (.ok (o, p, .int 0, p) s) ∧ Strays s.state.machine.heap o (.int 1) p 0 := by
  have facts : ∃ s₀ ∈ (Session.create 1024 8 [.property, .allocation, .construction]).toOption,
      Yields straying s₀ (fun r s => r.2.2.1 = .int 0 ∧ r.2.2.2 = r.2.1 ∧
        Strays s.state.machine.heap r.1 (.int 1) r.2.1 0) fun _ _ => False := by decide +kernel
  obtain ⟨s₀, created, yields⟩ := facts
  obtain ⟨⟨o, p, slot, w⟩, s, ran, first, same, strays⟩ := yields.returns
  obtain rfl : slot = .int 0 := first
  obtain rfl : w = p := same
  refine ⟨o, w, s, ?_, strays⟩
  rw [except_toOption_some.mp created]
  exact congrArg Except.ok ran

/-- A read that takes a plain object for a function: it is for `prototype`, and what it finds on
the prototype chain is the accessor of a function. -/
def TakenForFunction (h : Heap) (o k : Word) : Prop :=
  h.kind? o = some .object ∧ h.atoms.lookup "prototype" = some k ∧
    ∃ callee, h.find o k = .ok (.getter callee)

/-- How a read ends in the state `t`: it returns, unless it takes an object for a function. -/
def ReadEnds (h : Heap) (o k : Word) (t : State ρ) (r : EStateM.Result Halt (State ρ) Word) :
    Prop :=
  (TakenForFunction h o k →
    ∃ n : Nat, r = .error (.trap (.fatal (.heapAccess (.notPointer (.int n))))) t) ∧
  (¬ TakenForFunction h o k → ∃ w, r = .ok w t)

theorem Library.get_ends (library : Library stubs) {s : State ρ}
    (furnished : Furnished stubs true Γ s.machine) (host : Host ρ) (n : Nat) (obj : Γ.Value o)
    (k : Word) (depth : s.machine.depth < s.machine.maxDepth) :
    ReadEnds s.machine.heap o k s (Property.get (invoke host (n + 2)) o k s) := by
  constructor
  · rintro ⟨kind, _, callee, found⟩
    rcases (furnished.typed.getter_found obj found).2.2 with ⟨slots, function⟩ | object
    · rw [furnished.typed.kind function rfl] at kind
      cases kind
    · exact library.get_aborts furnished host n depth object found
  · intro apt
    refine library.get_returns furnished host n obj depth fun object callee found => apt ?_
    refine ⟨furnished.typed.kind object rfl, ?_, callee, found⟩
    exact (furnished.typed.getter_found obj found).2.1 rfl

/-- Reads return, also by way of a load without a slot, unless they take an object for a
function. -/
theorem reads_return (library : Library stubs) (loads : PropertyOp.load.Compiled loader)
    (reached : c.Reached stubs true (fuel + 8)) (knows : c.Knows o) (k : Word) (n : Nat) :
    (c.state.machine.depth < c.state.machine.maxDepth →
      ReadEnds c.state.machine.heap o k c.state
        (Property.get (invoke PropertyHost.serve (n + 2)) o k c.state)) ∧
    (c.state.machine.heap.isObjectLike o = true →
      c.state.machine.depth + 1 < c.state.machine.maxDepth → ∀ self rest,
      ReadEnds c.state.machine.heap o k c.state.counted
        (invoke PropertyHost.serve (n + 5) loader self (o :: k :: .undefined :: rest)
          c.state)) := by
  obtain ⟨Γ, furnished, held⟩ := reached.furnished library
  have typed := furnished.typed
  have obj := (knows.known held).1
  refine ⟨library.get_ends furnished PropertyHost.serve n obj k, fun object depth self rest => ?_⟩
  obtain ⟨guarded, housed⟩ := typed.objectLike obj object
  have ends := library.get_ends (s := c.state.deeper.counted) (furnished.at_depth _)
    PropertyHost.serve (n + 2) obj k depth
  rw [load_stub_gets loads.slotStub (v := .hole) ⟨rest, rfl, nofun⟩ self typed.sound
    (typed.backed housed) (.inr ⟨rfl, rfl⟩) (by omega) (by omega)]
  refine ⟨fun taken => ?_, fun apt => ?_⟩
  · obtain ⟨m, failed⟩ := ends.1 taken
    rw [failed]
    exact ⟨m, rfl⟩
  · obtain ⟨w, returned⟩ := ends.2 apt
    rw [returned]
    exact ⟨w, rfl⟩

/-- A function is called for an instance. -/
def instanceMaking : List Request :=
  [.codeRef idler, .function (.pointer 448) .undefined 0, .construct (.int 0) (.pointer 464) []]

theorem instanceMaking_reads : ∃ c, Client.fresh.asks freshStubs 8 instanceMaking = c ∧
    (∃ w, Property.get (invoke PropertyHost.serve 2) (.pointer 1080) (.int 1) c.state =
      .ok w c.state) ∧
    ∃ w, invoke PropertyHost.serve 5 PropertyOp.load.stub .undefined
      [.pointer 1080, .int 1, .undefined] c.state = .ok w c.state.counted := by
  have facts : Client.fresh.Legal freshStubs true 8 instanceMaking ∧
      let c := Client.fresh.asks freshStubs 8 instanceMaking
      c.Knows (.pointer 1080) ∧ c.state.machine.heap.isObjectLike (.pointer 1080) = true ∧
      c.state.machine.heap.atoms.lookup "prototype" ≠ some (.int 1) ∧
      c.state.machine.depth + 1 < c.state.machine.maxDepth := by decide +kernel
  obtain ⟨legal, knows, object, other, depth⟩ := facts
  have reached := (Client.fresh_reached _ _ _).asks legal
  generalize Client.fresh.asks freshStubs 8 instanceMaking = c at *
  have apt : ¬ TakenForFunction c.state.machine.heap (.pointer 1080) (.int 1) :=
    fun taken => other taken.2.1
  have reads := reads_return freshStubs_library PropertyOp.load.stub_compiled reached knows
    (.int 1) 0
  exact ⟨c, rfl, (reads.1 (Nat.lt_of_succ_lt depth)).2 apt,
    (reads.2 object depth .undefined []).2 apt⟩

/-- A function is made the prototype of its own instances. -/
def inheriting : SessionM (Word × Word) := do
  Session.onRegistry (modify fun r =>
    r.declare { name := "idle", template := Build.template Build.retUndefined })
  let code ← Session.codeRef "idle"
  let g ← Session.call PropertyHost.serve 10 allocFn .undefined [code, .undefined, .int 0]
  let key ← Session.onHeap (Heap.atom "prototype")
  let _ ← Session.onState (Property.set (invoke PropertyHost.serve 10) g key g)
  let o ← Session.call PropertyHost.serve 10 new .undefined [.int 0, g]
  return (o, key)

/-- What a getter comes to that finds the length of a dictionary where it looks for a map. -/
def lengthForMap : Halt := .trap (.fatal (.heapAccess (.notPointer (.int 24))))

/-- The getter of a function aborts on an instance that inherits it, although there is room for
many more calls. -/
theorem inheriting_aborts : ∃ o key s t u,
    (Session.create 2048 8 [.property, .types, .allocation, .construction]).map inheriting =
      .ok (.ok (o, key) s) ∧
    s.state.machine.depth = 0 ∧ s.state.machine.maxDepth = 8 ∧
    s.state.machine.heap.isObjectLike o = true ∧
    Property.get (invoke PropertyHost.serve 10) o key s.state = .error lengthForMap t ∧
    Session.call PropertyHost.serve 10 PropertyOp.load.stubName .undefined
      [o, key, .undefined] s = .error (.halted lengthForMap) u := by
  have facts : ∃ s₀ ∈ (Session.create 2048 8
        [.property, .types, .allocation, .construction]).toOption,
      Yields inheriting s₀ (fun r s => s.state.machine.depth = 0 ∧ s.state.machine.maxDepth = 8 ∧
        s.state.machine.heap.isObjectLike r.1 = true ∧
        Yields (Property.get (invoke PropertyHost.serve 10) r.1 r.2) s.state (fun _ _ => False)
          (fun e _ => e = lengthForMap) ∧
        Yields (Session.call PropertyHost.serve 10 PropertyOp.load.stubName .undefined
          [r.1, r.2, .undefined]) s (fun _ _ => False) fun e _ => e = .halted lengthForMap)
        fun _ _ => False := by decide +kernel
  obtain ⟨s₀, created, yields⟩ := facts
  obtain ⟨⟨o, key⟩, s, ran, depth, most, object, read, loaded⟩ := yields.returns
  obtain ⟨_, t, failed, rfl⟩ := read.fails
  obtain ⟨_, u, failed', rfl⟩ := loaded.fails
  refine ⟨o, key, s, t, u, ?_, depth, most, object, failed, failed'⟩
  rw [except_toOption_some.mp created]
  exact congrArg Except.ok ran

end FastPath
