import Mathlib.Tactic.Ring

/-!
# The `SttIndex` union

`FsmBase` keys its state transition table `m_stt` by a `uint64_t` read through
the union `SttIndex<FsmStateId, FsmEvent>`: an `integer` member, zeroed by
`SttIndexType index {0ULL}`, overlaid by a struct of the 32-bit `stateId`
followed by the policy's `eventId`. The union is modelled byte by byte on a
little-endian target (every target the library is built for is one).

What it yields: the state id always fills the low four bytes of the key, and an
event type of at most four bytes fills the high four (`sttKey_eq`), so the key
is injective there (`sttKey_inj`). A wider event does not fit into the
integer, and two events then share a key (`sttKey_u64_collides`).
-/

namespace LwiotFsm

/-- The layout of the policy's `FsmEvent` type on the target: its size in bytes
and its alignment `2 ^ eventAlignLog`, which for an integral type never exceeds
its size. -/
structure Layout where
  eventSize : Nat
  eventAlignLog : Nat
  align_le : 2 ^ eventAlignLog ≤ eventSize

namespace Layout

/-- Values of the event type, as their bit patterns. -/
abbrev Event (L : Layout) := BitVec (8 * L.eventSize)

/-- Offset of `eventId` in the struct: the first multiple of its (power of two)
alignment at or after the four bytes of `stateId`. -/
def eventOffset (L : Layout) : Nat := max 4 (2 ^ L.eventAlignLog)

theorem eventOffset_eq_four {L : Layout} (h : L.eventSize ≤ 4) : L.eventOffset = 4 :=
  Nat.max_eq_left (Nat.le_trans L.align_le h)

/-- `uint32_t` events. -/
def u32 : Layout := ⟨4, 2, by decide⟩

/-- `uint64_t` events on x86-64: eight bytes, eight-byte aligned. -/
def u64 : Layout := ⟨8, 3, by decide⟩

end Layout

/-- Storage of an `SttIndex` union: the byte at each offset. -/
abbrev Bytes := Nat → Nat

namespace SttIndex

/-- `SttIndexType index {0ULL}`. -/
def zero : Bytes := fun _ => 0

/-- Write the `n`-byte little-endian representation of `v` at offset `off`. -/
def store (off n v : Nat) (m : Bytes) : Bytes :=
  fun j => if off ≤ j ∧ j < off + n then v / 256 ^ (j - off) % 256 else m j

/-- Read `n` bytes at offset `off` as a little-endian unsigned integer. -/
def load (m : Bytes) (off : Nat) : Nat → Nat
  | 0 => 0
  | n + 1 => m off + 256 * load m (off + 1) n

/-- `index.value.stateId = id`. -/
def setStateId (id : UInt32) (m : Bytes) : Bytes := store 0 4 id.toNat m

/-- `index.value.eventId = event`. -/
def setEventId (L : Layout) (e : L.Event) (m : Bytes) : Bytes :=
  store L.eventOffset L.eventSize e.toNat m

/-- `operator IntegerType()`: the `uint64_t` member. -/
def integer (m : Bytes) : Nat := load m 0 8

theorem store_digit (off n v : Nat) (m : Bytes) {j : Nat} (hj : j < n) :
    store off n v m (off + j) = v / 256 ^ j % 256 := by
  simp [store, hj]

theorem store_outside {off n v : Nat} {m : Bytes} {j : Nat} (hj : j < off ∨ off + n ≤ j) :
    store off n v m j = m j := by
  simp only [store]
  rw [if_neg (by omega)]

theorem store_comm {off₁ n₁ v₁ off₂ n₂ v₂ : Nat} (m : Bytes) (h : off₁ + n₁ ≤ off₂) :
    store off₁ n₁ v₁ (store off₂ n₂ v₂ m) = store off₂ n₂ v₂ (store off₁ n₁ v₁ m) := by
  funext j
  simp only [store]
  split_ifs <;> first | rfl | omega

theorem load_congr {m m' : Bytes} : ∀ {off n : Nat},
    (∀ j, off ≤ j → j < off + n → m j = m' j) → load m off n = load m' off n
  | _, 0, _ => rfl
  | off, n + 1, h => by
    rw [load, load, h off (Nat.le_refl _) (by omega),
      load_congr fun j h1 h2 => h j (by omega) (by omega)]

theorem load_add (m : Bytes) : ∀ (off a b : Nat),
    load m off (a + b) = load m off a + 256 ^ a * load m (off + a) b
  | off, 0, b => by simp [load]
  | off, a + 1, b => by
    rw [Nat.add_right_comm, load, load, load_add m (off + 1) a b, Nat.pow_succ,
      show off + 1 + a = off + (a + 1) by omega]
    ring

/-- `n` bytes holding the little-endian digits of `v` read back as `v` modulo
`256 ^ n`. -/
theorem load_digits {m : Bytes} : ∀ {off n v : Nat},
    (∀ j < n, m (off + j) = v / 256 ^ j % 256) → load m off n = v % 256 ^ n
  | _, 0, _, _ => by rw [load, Nat.pow_zero, Nat.mod_one]
  | off, n + 1, v, h => by
    have ih : load m (off + 1) n = v / 256 % 256 ^ n := load_digits fun j hj => by
      rw [show off + 1 + j = off + (j + 1) by omega, h (j + 1) (by omega),
        Nat.div_div_eq_div_mul, Nat.pow_succ']
    have h0 : m off = v % 256 := by simpa using h 0 (by omega)
    rw [load, ih, h0, Nat.pow_succ', Nat.mod_mul]

/-- The integer splits into the four bytes of `stateId` and the four after them. -/
theorem integer_eq (m : Bytes) : integer m = load m 0 4 + 2 ^ 32 * load m 4 4 :=
  load_add m 0 4 4

theorem load_zero (off n : Nat) : load zero off n = 0 := by
  simpa using @load_digits zero off n 0 fun _ _ => by simp [zero]

end SttIndex

open SttIndex

/-- The key that `lookup`, `accept` and `addTransition(state, TransitionType&&)`
build: `eventId` is written first. -/
def sttKey (L : Layout) (id : UInt32) (e : L.Event) : Nat :=
  integer (setStateId id (setEventId L e zero))

/-- The key that the forwarding `addTransition(state, args...)` builds:
`stateId` is written first. -/
def sttKeyArgs (L : Layout) (id : UInt32) (e : L.Event) : Nat :=
  integer (setEventId L e (setStateId id zero))

/-- The two members of the struct do not overlap, so the order of the writes
does not matter. -/
theorem sttKeyArgs_eq (L : Layout) (id : UInt32) (e : L.Event) :
    sttKeyArgs L id e = sttKey L id e := by
  simp only [sttKeyArgs, sttKey, setEventId, setStateId]
  rw [store_comm zero (show 0 + 4 ≤ L.eventOffset from Nat.le_max_left 4 _)]

theorem load_state_id (L : Layout) (id : UInt32) (e : L.Event) :
    load (setStateId id (setEventId L e zero)) 0 4 = id.toNat :=
  (load_digits fun j hj => by simpa using store_digit 0 4 id.toNat _ hj).trans
    (Nat.mod_eq_of_lt id.toNat_lt_size)

/-- The low half of the key is the state id, whatever the event type. -/
theorem sttKey_mod (L : Layout) (id : UInt32) (e : L.Event) :
    sttKey L id e % 2 ^ 32 = id.toNat := by
  have hid : id.toNat < 2 ^ 32 := id.toNat_lt_size
  rw [sttKey, integer_eq, load_state_id, Nat.add_mul_mod_self_left, Nat.mod_eq_of_lt hid]

/-- An event of at most four bytes fills the high half of the key. -/
theorem sttKey_eq {L : Layout} (hL : L.eventSize ≤ 4) (id : UInt32) (e : L.Event) :
    sttKey L id e = id.toNat + 2 ^ 32 * e.toNat := by
  have hoff := Layout.eventOffset_eq_four hL
  have hhigh : ∀ j, 4 ≤ j →
      setStateId id (setEventId L e zero) j = store 4 L.eventSize e.toNat zero j :=
    fun j hj => by rw [setStateId, store_outside (by omega), setEventId, hoff]
  have he : e.toNat < 256 ^ L.eventSize := by simpa [Nat.pow_mul] using e.isLt
  have hevent : load (setStateId id (setEventId L e zero)) 4 L.eventSize = e.toNat :=
    (load_digits fun j hj => by rw [hhigh _ (by omega), store_digit _ _ _ _ hj]).trans
      (Nat.mod_eq_of_lt he)
  have hpad : load (setStateId id (setEventId L e zero)) (4 + L.eventSize)
      (4 - L.eventSize) = 0 :=
    (load_congr fun j h1 _ => by rw [hhigh _ (by omega), store_outside (by omega)]).trans
      (load_zero _ _)
  have hup := load_add (setStateId id (setEventId L e zero)) 4 L.eventSize (4 - L.eventSize)
  rw [Nat.add_sub_of_le hL, hevent, hpad, Nat.mul_zero, Nat.add_zero] at hup
  rw [sttKey, integer_eq, load_state_id, hup]

/-- Distinct states never share a key, whatever the event type. -/
theorem sttKey_state_inj {L : Layout} {id₁ id₂ : UInt32} {e₁ e₂ : L.Event}
    (h : sttKey L id₁ e₁ = sttKey L id₂ e₂) : id₁ = id₂ :=
  UInt32.toNat.inj (by rw [← sttKey_mod L id₁ e₁, h, sttKey_mod])

/-- With an event of at most four bytes the key is injective. -/
theorem sttKey_inj {L : Layout} (hL : L.eventSize ≤ 4) {id₁ id₂ : UInt32} {e₁ e₂ : L.Event}
    (h : sttKey L id₁ e₁ = sttKey L id₂ e₂) : id₁ = id₂ ∧ e₁ = e₂ := by
  obtain rfl := sttKey_state_inj h
  rw [sttKey_eq hL, sttKey_eq hL] at h
  exact ⟨rfl, BitVec.eq_of_toNat_eq (by omega)⟩

/-- A `uint64_t` event on x86-64 sits past the integer, so the key ignores it. -/
theorem sttKey_u64_collides :
    (1 : Layout.u64.Event) ≠ 2 ∧ sttKey Layout.u64 7 1 = sttKey Layout.u64 7 2 := by
  decide

end LwiotFsm
