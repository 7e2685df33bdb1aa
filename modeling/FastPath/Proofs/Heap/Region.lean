import FastPath.Heap.Region

/-! A region hands out no byte twice. However requests for bytes and moves of the cursor follow one
another, the cursor only goes onward, and what was handed out lies behind it. -/

namespace FastPath

namespace Region

/-- What a region is asked for: fresh bytes, or to move its cursor. -/
inductive Request where
  | bytes (n : Nat)
  | moveTo (cursor : Nat)

/-- What was handed out to a request for `size` bytes. -/
structure Grant where
  start : Nat
  size : Nat
  deriving DecidableEq

/-- One past the last byte, with what the request was rounded up by. -/
def Grant.stop (g : Grant) : Nat := g.start + roundUp g.size

def Grant.covers (g : Grant) (byte : Nat) : Bool := g.start ≤ byte && byte < g.stop

def granted? (r : Region) : Request → Option Grant
  | .bytes n => (r.reserve? n).map fun taken => ⟨taken.1, n⟩
  | .moveTo _ => none

/-- A refused request leaves the region as it was. -/
def after (r : Region) : Request → Region
  | .bytes n => ((r.reserve? n).map Prod.snd).getD r
  | .moveTo cursor => (r.moveTo? cursor).getD r

/-- What is handed out to one request after the other. -/
def grants (r : Region) : List Request → List Grant
  | [] => []
  | q :: rest => (r.granted? q).toList ++ (r.after q).grants rest

def afterAll (r : Region) (requests : List Request) : Region := requests.foldl after r

/-- The cursor stands at a word boundary and within the limit. -/
structure Sound (r : Region) : Prop where
  aligned : r.cursor % 8 = 0
  bounded : r.cursor ≤ r.limit

/-- What becomes of a region: its cursor goes onward within the same limit. -/
structure Onward (r s : Region) : Prop where
  sound : s.Sound
  forward : r.cursor ≤ s.cursor
  limit : s.limit = r.limit

variable {r s t : Region} {n c : Nat} {requests : List Request}

theorem Onward.trans (first : r.Onward s) (second : s.Onward t) : r.Onward t where
  sound := second.sound
  forward := Nat.le_trans first.forward second.forward
  limit := second.limit.trans first.limit

theorem Sound.refl (sound : r.Sound) : r.Onward r := ⟨sound, Nat.le_refl _, rfl⟩

theorem reserve?_of_le (room : r.cursor + roundUp n ≤ r.limit) :
    r.reserve? n = some (r.cursor, { r with cursor := r.cursor + roundUp n }) :=
  if_neg (Nat.not_lt.mpr room)

theorem reserve?_of_lt (short : r.limit < r.cursor + roundUp n) : r.reserve? n = none :=
  if_pos short

theorem moveTo?_of_fits (fits : c % 8 = 0 ∧ r.cursor ≤ c ∧ c ≤ r.limit) :
    r.moveTo? c = some { r with cursor := c } :=
  if_pos fits

theorem moveTo?_of_not_fits (fits : ¬(c % 8 = 0 ∧ r.cursor ≤ c ∧ c ≤ r.limit)) :
    r.moveTo? c = none :=
  if_neg fits

theorem after_of_reserve?_none (refused : r.reserve? n = none) : r.after (.bytes n) = r := by
  rw [after, refused]
  rfl

theorem after_of_moveTo?_none (refused : r.moveTo? c = none) : r.after (.moveTo c) = r := by
  rw [after, refused]
  rfl

theorem Sound.after (sound : r.Sound) (q : Request) : r.Onward (r.after q) := by
  cases q with
  | bytes n =>
    by_cases room : r.cursor + roundUp n ≤ r.limit
    · rw [Region.after, reserve?_of_le room]
      have aligned := sound.aligned
      have rounded := roundUp_mod n
      have stays : (r.cursor + roundUp n) % 8 = 0 := by omega
      exact ⟨⟨stays, room⟩, Nat.le_add_right _ _, rfl⟩
    · rw [after_of_reserve?_none (reserve?_of_lt (Nat.lt_of_not_le room))]
      exact sound.refl
  | moveTo c =>
    by_cases fits : c % 8 = 0 ∧ r.cursor ≤ c ∧ c ≤ r.limit
    · rw [Region.after, moveTo?_of_fits fits]
      exact ⟨⟨fits.1, fits.2.2⟩, fits.2.1, rfl⟩
    · rw [after_of_moveTo?_none (moveTo?_of_not_fits fits)]
      exact sound.refl

/-- What is handed out is what the cursor passes over. -/
theorem span_of_granted? {q : Request} {g : Grant} (granted : r.granted? q = some g) :
    g.start = r.cursor ∧ g.stop = (r.after q).cursor := by
  cases q with
  | bytes n =>
    by_cases room : r.cursor + roundUp n ≤ r.limit
    · rw [granted?, reserve?_of_le room] at granted
      rw [Region.after, reserve?_of_le room]
      cases granted
      exact ⟨rfl, rfl⟩
    · rw [granted?, reserve?_of_lt (Nat.lt_of_not_le room)] at granted
      cases granted
  | moveTo c => cases granted

theorem Sound.afterAll (sound : r.Sound) (requests : List Request) :
    r.Onward (r.afterAll requests) := by
  induction requests generalizing r with
  | nil => exact sound.refl
  | cons q rest ih =>
    have step := sound.after q
    exact step.trans (ih step.sound)

/-- Everything that is handed out lies between the cursor's places before and afterwards. -/
theorem Sound.grants_between (sound : r.Sound) :
    ∀ g ∈ r.grants requests, r.cursor ≤ g.start ∧ g.stop ≤ (r.afterAll requests).cursor := by
  induction requests generalizing r with
  | nil =>
    intro g given
    cases given
  | cons q rest ih =>
    intro g given
    have step := sound.after q
    have onward := step.sound.afterAll rest
    rcases List.mem_append.mp given with first | later
    · obtain ⟨start, stop⟩ := span_of_granted? (Option.mem_toList.mp first)
      exact ⟨Nat.le_of_eq start.symm, stop ▸ onward.forward⟩
    · obtain ⟨lower, upper⟩ := ih step.sound g later
      exact ⟨Nat.le_trans step.forward lower, upper⟩

theorem Sound.grants_pairwise (sound : r.Sound) :
    (r.grants requests).Pairwise fun g h => g.stop ≤ h.start := by
  induction requests generalizing r with
  | nil => exact .nil
  | cons q rest ih =>
    have step := sound.after q
    apply List.pairwise_append.mpr
    constructor
    · cases r.granted? q with
      | none => exact .nil
      | some g => exact List.pairwise_singleton _ g
    constructor
    · exact ih step.sound
    · intro g first h later
      obtain ⟨_, stop⟩ := span_of_granted? (Option.mem_toList.mp first)
      exact stop ▸ (step.sound.grants_between h later).1

theorem covered_once {all : List Grant} (apart : all.Pairwise fun g h => g.stop ≤ h.start)
    (byte : Nat) : all.countP (·.covers byte) ≤ 1 := by
  induction apart with
  | nil => exact Nat.zero_le 1
  | @cons g rest after _ ih =>
    rw [List.countP_cons]
    split
    next covered =>
      -- whatever is handed out later starts behind the byte
      have beyond : rest.countP (·.covers byte) = 0 := by
        apply List.countP_eq_zero.mpr
        intro h later
        have behind := after h later
        simp only [Grant.covers, Bool.and_eq_true, decide_eq_true_eq] at covered ⊢
        omega
      omega
    next => exact ih

section

/-! Regions whose bounds are machine words behave as if there were no largest word. -/

/-- Rounding up by an addition, after which the low three bits are cleared. -/
def roundUp64 (n : UInt64) : UInt64 := (n + 7) &&& ~~~(7 : UInt64)

/-- Reserving with a sum that is noticed to wrap around when it is too large. -/
def reserve64? (cursor limit n : UInt64) : Option (UInt64 × UInt64) :=
  let after := cursor + roundUp64 n
  if after < cursor then none else if limit < after then none else some (cursor, after)

theorem clear_low {m : Nat} (small : m < 0x10000000000000000) :
    m &&& 0xFFFFFFFFFFFFFFF8 = m / 8 * 8 := by
  have high : (m &&& 0xFFFFFFFFFFFFFFF8) / 8 = m / 8 :=
    (Nat.and_div_two_pow (n := 3)).trans
      (Nat.and_two_pow_sub_one_of_lt_two_pow (n := 61) (by omega))
  have low : (m &&& 0xFFFFFFFFFFFFFFF8) % 8 = 0 :=
    (Nat.and_mod_two_pow (n := 3)).trans (Nat.and_zero _)
  omega

theorem toNat_roundUp64 {n : UInt64} (small : n.toNat ≤ 0xFFFFFFFFFFFFFFF8) :
    (roundUp64 n).toNat = roundUp n.toNat := by
  have sum : (n + 7).toNat = n.toNat + 7 := by
    rw [UInt64.toNat_add]
    exact Nat.mod_eq_of_lt (Nat.lt_of_le_of_lt (Nat.add_le_add_right small 7) (by decide))
  rw [roundUp64, UInt64.toNat_and, sum]
  exact clear_low (by omega)

theorem reserve64?_toNat {cursor limit n : UInt64} (small : n.toNat ≤ 0xFFFFFFFFFFFFFFF8) :
    (reserve64? cursor limit n).map (fun taken => (taken.1.toNat, taken.2.toNat)) =
      (reserve? ⟨cursor.toNat, limit.toNat⟩ n.toNat).map fun taken =>
        (taken.1, taken.2.cursor) := by
  have rounded := toNat_roundUp64 small
  have most : roundUp n.toNat ≤ 0xFFFFFFFFFFFFFFF8 := by
    unfold roundUp
    omega
  have lower := cursor.toNat_lt
  have upper := limit.toNat_lt
  have sum : (cursor + roundUp64 n).toNat =
      (cursor.toNat + roundUp n.toNat) % 0x10000000000000000 := by
    rw [UInt64.toNat_add, rounded]
  unfold reserve64? reserve?
  simp only [UInt64.lt_iff_toNat_lt, sum]
  by_cases wraps : cursor.toNat + roundUp n.toNat < 0x10000000000000000
  · rw [Nat.mod_eq_of_lt wraps, if_neg (by omega)]
    split
    · rfl
    · rw [Option.map_some, sum, Nat.mod_eq_of_lt wraps]
      rfl
  · rw [if_pos (by omega), if_pos (by omega)]
    rfl

end

/-- A region after any requests. Its cursor is at a word boundary, has only gone onward and is
within the limit. Bytes are refused exactly when the rounded request exceeds what is available, and
begin at the cursor otherwise. A move is refused exactly when it leads behind the cursor, beyond the
limit or off a word boundary, and what is refused changes nothing. The bytes that were handed out
all lie between the rounded start and the cursor, and none of them was handed out twice. The
arithmetic of 64-bit words makes no difference. -/
theorem no_byte_granted_twice {start limit : Nat} (room : roundUp start ≤ limit)
    (requests : List Request) :
    let first := ofBounds start limit
    let r := first.afterAll requests
    (r.cursor % 8 = 0 ∧ roundUp start ≤ r.cursor ∧ r.cursor ≤ limit ∧ r.limit = limit ∧
      r.cursor + r.available = limit) ∧
    (∀ more, r.cursor ≤ (r.afterAll more).cursor) ∧
    (∀ n, (roundUp n ≤ r.available →
        r.reserve? n = some (r.cursor, { r with cursor := r.cursor + roundUp n })) ∧
      (r.available < roundUp n → r.reserve? n = none ∧ r.after (.bytes n) = r)) ∧
    (∀ c, (c % 8 = 0 ∧ r.cursor ≤ c ∧ c ≤ limit → r.moveTo? c = some { r with cursor := c }) ∧
      (¬(c % 8 = 0 ∧ r.cursor ≤ c ∧ c ≤ limit) →
        r.moveTo? c = none ∧ r.after (.moveTo c) = r)) ∧
    (∀ g ∈ first.grants requests, roundUp start ≤ g.start ∧ g.start + roundUp g.size ≤ r.cursor) ∧
    (first.grants requests).Pairwise (fun g h => g.start + roundUp g.size ≤ h.start) ∧
    (∀ byte, (first.grants requests).countP (·.covers byte) ≤ 1) ∧
    ∀ n : UInt64, n.toNat ≤ 0xFFFFFFFFFFFFFFF8 → (roundUp64 n).toNat = roundUp n.toNat ∧
      (limit < 0x10000000000000000 →
        (reserve64? (.ofNat r.cursor) (.ofNat limit) n).map
            (fun taken => (taken.1.toNat, taken.2.toNat)) =
          (r.reserve? n.toNat).map fun taken => (taken.1, taken.2.cursor)) := by
  intro first r
  have sound : first.Sound := ⟨roundUp_mod start, room⟩
  have onward : first.Onward r := sound.afterAll requests
  have same : r.limit = limit := onward.limit
  have bounded := onward.sound.bounded
  have left : r.available = r.limit - r.cursor := rfl
  constructor
  · exact ⟨onward.sound.aligned, onward.forward, by omega, same, by omega⟩
  constructor
  · intro more
    exact (onward.sound.afterAll more).forward
  constructor
  · intro n
    constructor
    · intro enough
      exact reserve?_of_le (by omega)
    · intro short
      have refused : r.reserve? n = none := reserve?_of_lt (by omega)
      exact ⟨refused, after_of_reserve?_none refused⟩
  constructor
  · intro c
    rw [← same]
    constructor
    · exact moveTo?_of_fits
    · intro fits
      have refused := moveTo?_of_not_fits fits
      exact ⟨refused, after_of_moveTo?_none refused⟩
  constructor
  · exact sound.grants_between
  constructor
  · exact sound.grants_pairwise
  constructor
  · exact covered_once sound.grants_pairwise
  · intro n small
    constructor
    · exact toNat_roundUp64 small
    · intro word
      have within : r.cursor < 0x10000000000000000 := by omega
      rw [reserve64?_toNat small, UInt64.toNat_ofNat_of_lt' within,
        UInt64.toNat_ofNat_of_lt' word, ← same]

/-- Between two grants the cursor is moved over some bytes; two moves and a request are refused. -/
theorem grants_apart :
    roundUp 4 ≤ 60 ∧
    (let requests := [.bytes 10, .moveTo 28, .moveTo 32, .bytes 40, .bytes 20, .moveTo 64]
     (ofBounds 4 60).grants requests = [⟨8, 10⟩, ⟨32, 20⟩] ∧
     (ofBounds 4 60).afterAll requests = ⟨56, 60⟩ ∧
     ∀ byte, ((ofBounds 4 60).grants requests).countP (·.covers byte) ≤ 1) := by
  have room : roundUp 4 ≤ 60 := by decide
  obtain ⟨_, _, _, _, _, _, once, _⟩ := no_byte_granted_twice room
    [.bytes 10, .moveTo 28, .moveTo 32, .bytes 40, .bytes 20, .moveTo 64]
  exact ⟨room, by decide, by decide, once⟩

end Region

end FastPath
