import FastPath.Proofs.Catalogue.Chains
import FastPath.Proofs.Catalogue.Histories
import FastPath.Proofs.Catalogue.Initialisation
import FastPath.Proofs.Heap.Ancestors

/-! What it means to assign the `prototype` of a function. The function gets a new instance map, and
all else stays as it is. No chain comes to the new map from an entity that was there before, while
everything that the function makes from then on starts with it. -/

namespace FastPath

open Catalogue Heap

/-- Given enough fuel, the tester says whether the function has made the object, and nothing
changes. -/
def Stub.Answers (tester : Stub) (s : State PropertyHost) (obj fn : Word) (yes : Bool) : Prop :=
  ∀ self, ∃ n, ∀ m, n ≤ m →
    invoke PropertyHost.serve m tester self [obj, fn] s = .ok (.boolean yes) s

variable {stubs : String → Stub} {Γ Γ' : Inventory false}

section

variable {s : State PropertyHost} {obj fn i v : Word} {fuel : Nat} (library : Library stubs)
  {d : Declaration} (declared : d ∈ binaryOperators)
  (named : d.name = BinaryOp.instanceOf.stubName) {tester : Stub}
  (compiled : d.CompiledTo stubs tester) (depth : s.machine.depth < s.machine.maxDepth)
  (passed : invoke PropertyHost.serve fuel (stubs checkFunction) .undefined [fn] s.deeper =
    .ok v s.deeper)
  (entity : obj.isInt = false)
  (instances : s.machine.heap.load fn Layout.Function.instanceMap = .ok i)
  (chained : Γ.Chained s.machine.heap obj)

include library declared named compiled depth passed entity instances chained

/-- Whatever has the map of the function's instances is one. -/
theorem Library.affirms (mapped : s.machine.heap.mapOf obj = .ok i) :
    tester.Answers s obj fn true := by
  intro self
  have met : s.machine.heap.mapAlong obj 0 = .ok (some i) := by
    rw [mapAlong, mapped]
    rfl
  obtain ⟨n, answered⟩ : ∃ n, invoke PropertyHost.serve n tester self [obj, fn] s =
      .ok (.boolean true) s :=
    library.instanceOf_meets declared named compiled depth passed entity instances
      (readable_of_chained chained) (fun _ none => absurd none (Nat.not_lt_zero _)) met
  exact ⟨n, fun m more => (library.instanceOf_approaches declared named compiled more self _).ok
    answered⟩

/-- What has nothing but other maps on its chain is no instance of the function. -/
theorem Library.denies (other : ¬ Γ.Map i) : tester.Answers s obj fn false := by
  intro self
  obtain ⟨k, before, unmet, ended⟩ := open_misses chained other
  obtain ⟨n, answered⟩ : ∃ n, invoke PropertyHost.serve n tester self [obj, fn] s =
      .ok (.boolean false) s :=
    library.instanceOf_misses declared named compiled depth passed entity instances
      (readable_of_chained chained) before unmet ended
  exact ⟨n, fun m more => (library.instanceOf_approaches declared named compiled more self _).ok
    answered⟩

end

namespace Client

/-- The function has its instance map at the address, with this prototype. -/
structure Renewed (stubs : String → Stub) (Γ : Inventory false) (c : Client) (f key v : Word)
    (a : Nat) : Prop extends c.Stands stubs false Γ where
  function : ∃ slots, Γ f.toNat = some (.function slots)
  holds : f ∈ c.hand
  named : c.state.machine.heap.atoms.lookup "prototype" = some key
  instances : c.state.machine.heap.word (f.toNat + 8 * 4) = .pointer a
  proto : c.state.machine.heap.word (a + 8 * 2) = v
  place : (Word.pointer a).toNat = a
  deep : c.state.machine.depth + 1 < c.state.machine.maxDepth

variable {c d : Client} {f key v : Word} {a fuel : Nat} {total : Bool}

/-- What a client holds and is a function can be assigned another `prototype`. -/
theorem Stands.equipped (stands : c.Stands stubs total Γ) (knows : c.Knows f)
    (kind : c.state.machine.heap.kind? f = some .function)
    (named : c.state.machine.heap.atoms.lookup "prototype" = some key) :
    f ∈ c.hand ∧ (∃ slots, Γ f.toNat = some (.function slots)) ∧
      ∃ pair, Γ.Equips c.state.machine.heap f key pair := by
  rcases (knows.known stands.held).1 with int | ⟨x, found, handled⟩
  · rw [kind?_int int] at kind
    cases kind
  rcases knows with int | member
  · rw [kind?_int int] at kind
    cases kind
  have typed := stands.furnished.typed
  have same := (typed.kind found (Shape.finished_of_handled handled)).symm.trans kind
  cases x with
  | function slots =>
    obtain ⟨key', pair, equips⟩ := stands.apt f member ⟨slots, found⟩
    cases named.symm.trans equips.name
    exact ⟨member, ⟨slots, found⟩, pair, equips⟩
  | _ => cases same

namespace Renewed

variable (library : Library stubs) (renewed : c.Renewed stubs Γ f key v a)

include renewed

theorem map : Γ a = some .instanceMap := by
  obtain ⟨slots, function⟩ := renewed.function
  have held := (renewed.furnished.typed.instanceMap function).2
  rwa [renewed.instances, renewed.place] at held

theorem loads :
    c.state.machine.heap.load f Layout.Function.instanceMap = .ok (.pointer a) := by
  obtain ⟨slots, function⟩ := renewed.function
  have loaded := (renewed.furnished.typed.instanceMap function).1
  rwa [renewed.instances] at loaded

theorem loads_proto :
    c.state.machine.heap.load (.pointer a) Layout.Map.proto = .ok v := by
  have found := renewed.map
  rw [← renewed.place] at found
  have loaded := renewed.furnished.typed.load found (i := 2) (by decide : 2 < 5)
  rwa [renewed.place, renewed.proto] at loaded

include library

theorem passes (fuel : Nat) : invoke PropertyHost.serve (fuel + 4) (stubs checkFunction) .undefined
    [f] c.state.deeper = .ok .undefined c.state.deeper := by
  obtain ⟨slots, function⟩ := renewed.function
  obtain ⟨_, _, passed⟩ | ⟨other, _⟩ := library.checkFunction_tells (s := c.state.deeper)
    (renewed.furnished.at_depth _) PropertyHost.serve fuel .undefined (.inr ⟨_, function, rfl⟩)
    renewed.deep
  · exact passed
  · exact absurd (renewed.furnished.typed.kind function rfl) other

/-- The getter answers with the prototype of the instance map. -/
theorem reads (fuel : Nat) :
    Property.get (invoke PropertyHost.serve (fuel + 2)) f key c.state = .ok v c.state := by
  obtain ⟨slots, function⟩ := renewed.function
  obtain ⟨key', pair, equips⟩ := renewed.apt f renewed.holds ⟨slots, function⟩
  obtain rfl : key = key' := Option.some.inj (renewed.named.symm.trans equips.name)
  rw [renewed.furnished.get_calls (.inr ⟨_, function, rfl⟩)
    (equips.find renewed.furnished.typed ⟨slots, function⟩), library.getter_gets renewed.furnished
    PropertyHost.serve fuel [] (Nat.lt_of_succ_lt renewed.deep) function, renewed.instances,
    renewed.place, renewed.proto]

/-- That lasts until the `prototype` is assigned again. -/
theorem later (later : c.Later stubs (fuel + 8) f d) :
    ∃ Γ', d.Renewed stubs Γ' f key v a ∧ c.Keeps Γ Γ' d := by
  obtain ⟨slots, function⟩ := renewed.function
  obtain ⟨Γ', stands, keeps, same⟩ := later.stands library renewed.toStands function
  refine ⟨Γ', ⟨stands, ⟨slots, keeps.evolves.stays _ _ function⟩, keeps.hand renewed.holds,
    keeps.evolves.atoms renewed.named, same.trans renewed.instances, ?_, renewed.place, ?_⟩, keeps⟩
  · rw [keeps.evolves.frozen renewed.map 2 (by decide) rfl, renewed.proto]
  · rw [keeps.within.depth, keeps.within.maxDepth]
    exact renewed.deep

/-- What the function makes has that instance map. -/
theorem makes {argc y : Word} {args : List Word} {t : State PropertyHost}
    (known : ∀ w ∈ argc :: args, c.Knows w)
    (ran : (Request.construct argc f args).run stubs (fuel + 8) c.state = .ok y t) :
    (∃ Γ', (c.ask stubs (fuel + 8) (.construct argc f args)).Renewed stubs Γ' f key v a) ∧
      y ∈ (c.ask stubs (fuel + 8) (.construct argc f args)).hand ∧ y.isInt = false ∧
      (c.ask stubs (fuel + 8) (.construct argc f args)).state.machine.heap.word y.toNat =
        .pointer a := by
  have typed := renewed.furnished.typed
  have words (w : Word) (used : w ∈ (Request.construct argc f args).words) : c.Knows w := by
    rcases List.mem_cons.mp used with rfl | rest
    · exact known _ (List.mem_cons_self ..)
    rcases List.mem_cons.mp rest with rfl | rest
    · exact .inr renewed.holds
    · exact known _ (List.mem_cons_of_mem _ rest)
  obtain ⟨Γ', renewed', _⟩ := renewed.later library
    (.ask _ .refl words trivial rfl (fun assigns => assigns))
  refine ⟨⟨Γ', renewed'⟩, ?_⟩
  have asked : c.ask stubs (fuel + 8) (.construct argc f args) = ⟨t, y :: c.hand⟩ := by
    rw [Client.ask, ran]
  obtain ⟨rfl, _, _, h, rfl, _, _, same⟩ := (library.new_runs renewed.furnished PropertyHost.serve
    (fuel + 1) .undefined ((words f (by simp [Request.words])).known renewed.held).1 argc args).ok
    ran
  rw [asked, typed.sound.toNat_cursor]
  refine ⟨List.mem_cons_self .., Word.isInt_aligned ?_, same.trans renewed.instances⟩
  rw [typed.sound.toNat_cursor]
  exact typed.sound.aligned

section

variable {decl : Declaration} (declared : decl ∈ binaryOperators)
  (tests : decl.name = BinaryOp.instanceOf.stubName) {tester : Stub}
  (compiled : decl.CompiledTo stubs tester)

include declared tests compiled

/-- No entity that was there before the map is an instance. -/
theorem rejects {c₀ : Client} {Γ₀ : Inventory false} {b : Nat} {x : Shape} (keeps : c₀.Keeps Γ₀ Γ c)
    (typed : Typed true Γ₀ c₀.state.machine.heap) (found : Γ₀ b = some x)
    (finished : x.finished = true) (new : ¬ Γ₀.Map (.pointer a)) :
    tester.Answers c.state (.pointer b) f false := by
  rw [← typed.toNat_pointer found] at found
  exact library.denies declared tests compiled (Nat.lt_of_succ_lt renewed.deep)
    (renewed.passes library 0) (Word.isInt_aligned (typed.inside found).2.1) renewed.loads
    (keeps.evolves.chained typed renewed.furnished.typed found finished) new

/-- What has the map keeps it, and is an instance from then on. -/
theorem accepts {y : Word} (member : y ∈ c.hand) (entity : y.isInt = false)
    (mapped : c.state.machine.heap.word y.toNat = .pointer a)
    (later : c.Later stubs (fuel + 8) f d) :
    d.state.machine.heap.load y Layout.map = .ok (.pointer a) ∧
      d.state.machine.heap.load (.pointer a) Layout.Map.proto = .ok v ∧
      tester.Answers d.state y f true := by
  have typed := renewed.furnished.typed
  obtain ⟨x, found, handled⟩ :=
    (renewed.held y member).1.resolve_left (by rw [entity]; exact Bool.false_ne_true)
  have finished := Shape.finished_of_handled handled
  have loaded : c.state.machine.heap.mapOf y = .ok (.pointer a) :=
    mapped ▸ typed.load (i := 0) found (typed.inside found).2.2.1
  obtain ⟨Γ', renewed', keeps⟩ := renewed.later library later
  have typed' := renewed'.furnished.typed
  have loaded' : d.state.machine.heap.mapOf y = .ok (.pointer a) :=
    (keeps.evolves.mapOf typed typed' found finished).trans loaded
  exact ⟨loaded', renewed'.loads_proto, library.affirms declared tests compiled
    (Nat.lt_of_succ_lt renewed'.deep) (renewed'.passes library 0) entity renewed'.loads
    (keeps.evolves.chained typed typed' found finished) loaded'⟩

end

end Renewed

/-- The client assigns the `prototype` of a function. -/
theorem Stands.renews (library : Library stubs) (stands : c.Stands stubs total Γ)
    (knows : c.Knows f) (kind : c.state.machine.heap.kind? f = some .function)
    (named : c.state.machine.heap.atoms.lookup "prototype" = some key) (knows' : c.Knows v)
    (deep : c.state.machine.depth + 1 < c.state.machine.maxDepth) :
    Yields (Property.set (invoke PropertyHost.serve (fuel + 8)) f key v) c.state
      (fun w t => w = .undefined ∧ c.state.Reassigns stubs true Γ f v t ∧ ∃ Γ',
        Renewed stubs Γ' ⟨t, w :: c.hand⟩ f key v c.state.machine.heap.region.cursor ∧
          c.Keeps Γ Γ' ⟨t, w :: c.hand⟩)
      fun e t => e = .trap (.unhandled .collection) ∧ t = c.state := by
  have typed := stands.furnished.typed
  have place := typed.sound.toNat_cursor
  have data := (knows'.known stands.held).2 rfl
  have plain := typed.data_unpaired data
  have key_ : Γ.Known true key := Inventory.known_entity (typed.atoms named) rfl fun _ => by simp
  have room : c.state.machine.heap.region.cursor + Layout.Map.size < 0x8000000000000000 :=
    Nat.lt_of_le_of_lt (Nat.add_le_add_right stands.inBounds.bounded _) stands.room
  obtain ⟨member, ⟨slots, function⟩, pair, equips⟩ := stands.equipped knows kind named
  have assigns := library.set_assigns stands.furnished PropertyHost.serve (fuel + 4) equips function
    data plain
  cases ran : Property.set (invoke PropertyHost.serve (fuel + 8)) f key v c.state with
  | error e t =>
    obtain ⟨same, collects⟩ := assigns.error ran
    exact .of_error ran ⟨collects deep room, same⟩
  | ok w t =>
    obtain ⟨rfl, reassigns⟩ := assigns.ok ran
    have asked : c.ask stubs (fuel + 8) (.set f key v) = ⟨t, .undefined :: c.hand⟩ := by
      rw [Client.ask, Request.run, ran]
    have known : ∀ w ∈ (Request.set f key v).words, Γ.Known true w := by
      simp only [Request.words, List.forall_mem_cons]
      exact ⟨knows.known stands.held, key_, data.known, by simp⟩
    obtain ⟨Γ', stands', keeps, _⟩ := stands.loose.ask library fuel (.set f key v) known
      (fun pair => absurd (plain.symm.trans pair) Bool.false_ne_true) rfl (by simp)
    rw [asked] at stands' keeps
    obtain ⟨instances, proto⟩ := reassigns.words function
    refine .of_ok ran ⟨rfl, reassigns, Γ', ⟨stands', ⟨slots, keeps.evolves.stays _ _ function⟩,
      keeps.hand member, keeps.evolves.atoms named, instances, proto, place, ?_⟩, keeps⟩
    rw [keeps.within.depth, keeps.within.maxDepth]
    exact deep

/-- What has come of it when the client has assigned `v` to the `prototype` of the function `f`. -/
structure Reassigned (stubs : String → Stub) (tester : Stub) (total : Bool) (fuel : Nat)
    (f key v : Word) (c c' : Client) : Prop where
  /-- Nothing but the heap has changed. -/
  machine : c'.state = c.state.withHeap c'.state.machine.heap
  /-- The new map comes right behind all that there was. -/
  used : c'.state.machine.heap.region.cursor =
    c.state.machine.heap.region.cursor + Layout.Map.size
  map : c'.state.machine.heap.kind? (.pointer c.state.machine.heap.region.cursor) = some .map
  instances : c'.state.machine.heap.load f Layout.Function.instanceMap =
    .ok (.pointer c.state.machine.heap.region.cursor)
  /-- All other words are as they were. -/
  kept : ∀ a < c.state.machine.heap.region.cursor, a ≠ f.toNat + Layout.Function.instanceMap →
    c'.state.machine.heap.read a = c.state.machine.heap.read a
  reads : ∀ d, c'.Later stubs fuel f d →
    Property.get (invoke PropertyHost.serve fuel) f key d.state = .ok v d.state
  /-- No entity that was there is an instance of the function from now on. -/
  older : ∃ es, c.state.machine.heap.Tiles 8 es ∧
    (total = true → ∀ e ∈ es, e.kind.isSome = true) ∧
    (∀ w ∈ c.hand, w.isInt = true ∨ ∃ e ∈ es, e.kind.isSome = true ∧ w = .pointer e.start) ∧
    ∀ e ∈ es, e.kind.isSome = true → ∀ d, c'.Later stubs fuel f d →
      tester.Answers d.state (.pointer e.start) f false
  /-- All that the function makes is an instance of it. -/
  younger : ∀ d argc args y t, c'.Later stubs fuel f d → (∀ w ∈ argc :: args, d.Knows w) →
    (Request.construct argc f args).run stubs fuel d.state = .ok y t →
    ∀ e, (d.ask stubs fuel (.construct argc f args)).Later stubs fuel f e →
      e.state.machine.heap.load y Layout.map = .ok (.pointer c.state.machine.heap.region.cursor) ∧
      e.state.machine.heap.load (.pointer c.state.machine.heap.region.cursor) Layout.Map.proto =
        .ok v ∧
      tester.Answers e.state y f true

end Client

/-- Assigning the `prototype` of a function gives it a new instance map and changes nothing else, or
there is no room for the map and nothing changes at all. From then on no entity that was there is an
instance of the function, and all that it makes is one and has the new prototype. -/
theorem assigning_replaces_map (library : Library stubs) {d : Declaration}
    (declared : d ∈ binaryOperators) (named : d.name = BinaryOp.instanceOf.stubName) {tester : Stub}
    (compiled : d.CompiledTo stubs tester) {total : Bool} {fuel : Nat} {c : Client}
    (works : c.Works stubs total (fuel + 8)) {f key v : Word} (knows : c.Knows f)
    (kind : c.state.machine.heap.kind? f = some .function)
    (prototype : c.state.machine.heap.atoms.lookup "prototype" = some key) (knows' : c.Knows v)
    (deep : c.state.machine.depth + 1 < c.state.machine.maxDepth) :
    Yields (Property.set (invoke PropertyHost.serve (fuel + 8)) f key v) c.state
      (fun w t => w = .undefined ∧
        Client.Reassigned stubs tester total (fuel + 8) f key v c ⟨t, w :: c.hand⟩)
      fun e t => e = .trap (.unhandled .collection) ∧ t = c.state := by
  obtain ⟨Γ, stands⟩ := works.stands library
  have typed := stands.furnished.typed
  refine (stands.renews library knows kind prototype knows' deep).mono ?_ fun _ _ failed => failed
  rintro _ t ⟨rfl, reassigns, Γ', renewed, keeps⟩
  obtain ⟨_, ⟨slots, function⟩, _⟩ := stands.equipped knows kind prototype
  -- the map was not there before
  have new : ¬ Γ.Map (.pointer c.state.machine.heap.region.cursor) := by
    rintro (⟨k, same⟩ | found)
    · have root := typed.rooted.map k
      rw [← same, renewed.place, typed.fresh] at root
      cases root
    · rw [renewed.place, typed.fresh] at found
      cases found
  obtain ⟨es, tiles, members⟩ := typed.tiles
  refine ⟨rfl, ?_, ?_, ?_, renewed.loads, fun a below other => ?_, fun d later => ?_,
    ⟨es, tiles, fun same e member => ?_, fun w member => ?_, fun e member complete d later => ?_⟩,
    fun d argc args y t later known ran e later' => ?_⟩
  · obtain ⟨h, rfl, _⟩ := reassigns
    rfl
  · obtain ⟨h, rfl, _, cursor, _⟩ := reassigns
    exact cursor
  · exact renewed.furnished.typed.kind_at renewed.map rfl
  · exact reassigns.rereads typed function keeps.within.heap.capacity below other
  · obtain ⟨_, renewed, _⟩ := renewed.later library later
    exact renewed.reads library (fuel + 6)
  · obtain ⟨a, x, found, rfl⟩ := (members e).mp member
    rw [Shape.isSome_extent, stands.whole same a x found]
  · refine (stands.held w member).1.imp id ?_
    rintro ⟨x, found, handled⟩
    refine ⟨_, (members _).mpr ⟨_, _, found, rfl⟩, ?_, ?_⟩
    · rw [Shape.isSome_extent, Shape.finished_of_handled handled]
    · exact Word.ext_toNat (typed.toNat_pointer found).symm
  · obtain ⟨a, x, found, rfl⟩ := (members e).mp member
    rw [Shape.isSome_extent] at complete
    obtain ⟨_, renewed, keeps'⟩ := renewed.later library later
    exact renewed.rejects library declared named compiled (keeps.trans keeps') typed found complete
      new
  · obtain ⟨_, renewed, _⟩ := renewed.later library later
    obtain ⟨⟨_, renewed⟩, member, entity, mapped⟩ := renewed.makes library known ran
    exact renewed.accepts library declared named compiled member entity mapped later'

/-- A function that has made an object, and the name that it is about to be asked for. -/
def endowing : List Request :=
  [.codeRef idler, .function (.pointer 448) .undefined 0, .construct (.int 0) (.pointer 464) [],
    .atom "prototype"]

/-- When the function gets the object as its `prototype`, the object is no instance of it any more,
while the next one is. -/
theorem endowing_replaces : ∃ c t u, Client.fresh.asks freshStubs 8 endowing = c ∧
    Property.set (invoke PropertyHost.serve 8) (.pointer 464) (.pointer 792) (.pointer 1080)
      c.state = .ok .undefined t ∧
    Client.Reassigned freshStubs freshTester false 8 (.pointer 464) (.pointer 792) (.pointer 1080) c
      ⟨t, .undefined :: c.hand⟩ ∧
    freshTester.Answers t (.pointer 1080) (.pointer 464) false ∧
    (Request.construct (.int 0) (.pointer 464) []).run freshStubs 8 t = .ok (.pointer 1352) u ∧
    freshTester.Answers u (.pointer 1352) (.pointer 464) true := by
  have facts : Client.fresh.Legal freshStubs true 8 endowing ∧
      (let c := Client.fresh.asks freshStubs 8 endowing
      (.pointer 1080 ∈ c.hand ∧ c.Knows (.pointer 464)) ∧
      c.state.machine.heap.kind? (.pointer 464) = some .function ∧
      c.state.machine.heap.atoms.lookup "prototype" = some (.pointer 792) ∧
      c.state.machine.depth + 1 < c.state.machine.maxDepth) := by decide +kernel
  obtain ⟨legal, ⟨member, knows⟩, kind, prototype, deep⟩ := facts
  obtain ⟨_, t, ran, rfl, makes⟩ : ∃ w t, Property.set (invoke PropertyHost.serve 8) (.pointer 464)
      (.pointer 792) (.pointer 1080) (Client.fresh.asks freshStubs 8 endowing).state = .ok w t ∧
      w = .undefined ∧ Yields ((Request.construct (.int 0) (.pointer 464) []).run freshStubs 8) t
        (fun y _ => y = .pointer 1352) fun _ _ => False := Yields.returns (by decide +kernel)
  obtain ⟨_, u, made, rfl⟩ := makes.returns
  have works := (Client.fresh_works freshStubs false 8).asks legal (by decide)
  clear legal
  -- what the client has done before does not matter any more
  generalize same : Client.fresh.asks freshStubs 8 endowing = c at *
  obtain ⟨d, declared, named, compiled⟩ := freshTester_compiled
  have replaces := assigning_replaces_map freshStubs_library declared named compiled works knows
    kind prototype (.inr member) deep
  obtain ⟨_, reassigned⟩ := replaces.ok ran
  refine ⟨c, t, u, rfl, ran, reassigned, ?_, made, ?_⟩
  · obtain ⟨es, _, _, held, older⟩ := reassigned.older
    obtain ⟨e, inside, complete, same⟩ := (held _ member).resolve_left (by decide)
    rw [same]
    exact older e inside complete _ .refl
  · have asked : Client.ask freshStubs 8 ⟨t, .undefined :: c.hand⟩
        (.construct (.int 0) (.pointer 464) []) =
          ⟨u, .pointer 1352 :: .undefined :: c.hand⟩ := by rw [Client.ask, made]
    have known : ∀ w ∈ [Word.int 0], Client.Knows ⟨t, .undefined :: c.hand⟩ w := by
      rintro _ (_ | ⟨_, none⟩)
      · exact .inl rfl
      · cases none
    have younger := reassigned.younger _ _ _ _ u .refl known made _ .refl
    rw [asked] at younger
    exact younger.2.2

/-- A function that was made with the impostor in the machine. -/
def disowning : List Request :=
  [.codeRef impostor, .function (.pointer 448) .undefined 0, .atom "prototype"]

/-- The impostor runs in the place of the setter and does nothing, so that there is no map for the
getter to read. -/
theorem impostor_loses_prototype : ∃ c t u,
    (Compiler.compileAll { id := 1 } (List.replicate 12
      ⟨{ stub := "idle", varCount := 0, blocks := [⟨[], [], .ret none⟩] }, {}, []⟩)).1[11]? =
        some impostor ∧ impostor.Idle ∧ Client.fresh.asks freshStubs 8 disowning = c ∧
    c.hand = [.pointer 776, .pointer 464, .pointer 448] ++ roots ∧
    c.state.machine.heap.kind? (.pointer 464) = some .function ∧
    c.state.machine.heap.atoms.lookup "prototype" = some (.pointer 776) ∧
    c.state.machine.depth + 1 < c.state.machine.maxDepth ∧
    Property.set (invoke PropertyHost.serve 8) (.pointer 464) (.pointer 776) (.int 5) c.state =
      .ok .undefined t ∧
    Property.get (invoke PropertyHost.serve 8) (.pointer 464) (.pointer 776) t =
      .error (.trap (.ofHeapError (.outOfBounds 0))) u := by
  have facts : (let c := Client.fresh.asks freshStubs 8 disowning
      c.hand = [.pointer 776, .pointer 464, .pointer 448] ++ roots ∧
      c.state.machine.heap.kind? (.pointer 464) = some .function ∧
      c.state.machine.heap.atoms.lookup "prototype" = some (.pointer 776) ∧
      c.state.machine.depth + 1 < c.state.machine.maxDepth) := by decide +kernel
  obtain ⟨hand, kind, prototype, deep⟩ := facts
  obtain ⟨_, t, ran, rfl, reads⟩ : ∃ w t, Property.set (invoke PropertyHost.serve 8) (.pointer 464)
      (.pointer 776) (.int 5) (Client.fresh.asks freshStubs 8 disowning).state = .ok w t ∧
      w = .undefined ∧
      Yields (Property.get (invoke PropertyHost.serve 8) (.pointer 464) (.pointer 776)) t
        (fun _ _ => False) fun e _ => e = .trap (.ofHeapError (.outOfBounds 0)) :=
    Yields.returns (by decide +kernel)
  obtain ⟨_, u, failed, rfl⟩ := reads.fails
  exact ⟨_, t, u, impostor_compiled.1, impostor_compiled.2, rfl, hand, kind, prototype, deep, ran,
    failed⟩

end FastPath
