/-
# A memory of bytes

Addresses are words of 64 bits and wrap around.  `read` and `write` are little-endian accesses
to ranges of bytes, `load` and `copy` move a list of bytes out of the memory and into it.
-/
import Mathlib.Data.Nat.Basic
import Mathlib.Data.List.Basic
import Mathlib.Tactic.Ring

namespace ByteMemory

abbrev Address := BitVec 64

abbrev Memory := Address → BitVec 8

/-! ## Ranges -/

/-- `x` is one of the `n` addresses from `a` on. -/
def Inside (a : Address) (n : ℕ) (x : Address) : Prop := (x - a).toNat < n

instance (a : Address) (n : ℕ) (x : Address) : Decidable (Inside a n x) :=
  inferInstanceAs (Decidable ((x - a).toNat < n))

/-- The `n` addresses from `a` on are none of the `k` from `b` on. -/
def Apart (a : Address) (n : ℕ) (b : Address) (k : ℕ) : Prop :=
  ∀ x, Inside a n x → ¬ Inside b k x

/-- Parts of what lies apart lie apart. -/
theorem Apart.mono {a b a' b' : Address} {n k n' k' : ℕ} (h : Apart a n b k)
    (ha : ∀ x, Inside a' n' x → Inside a n x) (hb : ∀ x, Inside b' k' x → Inside b k x) :
    Apart a' n' b' k' :=
  fun x hx hx' => h x (ha x hx) (hb x hx')

/-- The `i`-th address of a range. -/
theorem toNat_offset (a : Address) {i : ℕ} (hi : i < 2 ^ 64) :
    (a + BitVec.ofNat 64 i - a).toNat = i := by
  have hsub : a + BitVec.ofNat 64 i - a = BitVec.ofNat 64 i := by
    rw [BitVec.add_comm]
    exact BitVec.add_sub_cancel _ _
  rw [hsub, BitVec.toNat_ofNat, Nat.mod_eq_of_lt hi]

theorem inside_offset (a : Address) {i n : ℕ} (hi : i < n) (hn : n ≤ 2 ^ 64) :
    Inside a n (a + BitVec.ofNat 64 i) := by
  unfold Inside
  rw [toNat_offset a (by omega)]
  exact hi

/-- Every address of a range is at some offset. -/
theorem Inside.offset {a x : Address} {n : ℕ} (h : Inside a n x) :
    ∃ i < n, x = a + BitVec.ofNat 64 i := by
  refine ⟨(x - a).toNat, h, ?_⟩
  rw [BitVec.ofNat_toNat, BitVec.setWidth_eq]
  bv_omega

/-- A range that starts inside another one and ends no later lies in it. -/
theorem Inside.of_sub {a : Address} {n k : ℕ} {x : Address} (i : ℕ) (hk : i + k ≤ n)
    (hn : n ≤ 2 ^ 64) (h : Inside (a + BitVec.ofNat 64 i) k x) : Inside a n x := by
  obtain ⟨j, hj, rfl⟩ := h.offset
  rw [BitVec.add_assoc, ← BitVec.ofNat_add]
  exact inside_offset a (by omega) hn

/-- A range that does not wrap around, by the numbers of its addresses. -/
theorem inside_ofNat {a n : ℕ} {x : Address} (h : a + n ≤ 2 ^ 64) :
    Inside (BitVec.ofNat 64 a) n x ↔ a ≤ x.toNat ∧ x.toNat < a + n := by
  have hx := x.isLt
  unfold Inside
  rw [BitVec.toNat_sub, BitVec.toNat_ofNat]
  by_cases ha : a = 2 ^ 64
  · omega
  · rw [Nat.mod_eq_of_lt (a := a) (by omega)]
    omega

/-- Two ranges without a wrap lie apart if one ends before the other begins. -/
theorem apart_ofNat {a n b k : ℕ} (ha : a + n ≤ 2 ^ 64) (hb : b + k ≤ 2 ^ 64)
    (h : a + n ≤ b ∨ b + k ≤ a) : Apart (BitVec.ofNat 64 a) n (BitVec.ofNat 64 b) k := by
  intro x hx hx'
  rw [inside_ofNat ha] at hx
  rw [inside_ofNat hb] at hx'
  omega

/-! ## Little-endian accesses -/

/-- The number in the `n` bytes from `a` on. -/
def read (m : Memory) (a : Address) : ℕ → ℕ
  | 0 => 0
  | n + 1 => (m a).toNat + 256 * read m (a + 1) n

/-- The memory with `v` in the `n` bytes from `a` on. -/
def write (m : Memory) (a : Address) (n v : ℕ) : Memory :=
  fun x => if Inside a n x then BitVec.ofNat 8 (v / 256 ^ (x - a).toNat) else m x

variable {m m' : Memory} {a b : Address} {n k v : ℕ}

private theorem add_one_offset (a : Address) (i : ℕ) :
    a + 1 + BitVec.ofNat 64 i = a + BitVec.ofNat 64 (i + 1) := by
  rw [BitVec.add_assoc]
  congr 1
  rw [BitVec.add_comm]
  exact (BitVec.ofNat_add i 1).symm

/-- A number is read from its own bytes. -/
theorem read_congr : ∀ {n : ℕ} {a : Address},
    (∀ i < n, m (a + BitVec.ofNat 64 i) = m' (a + BitVec.ofNat 64 i)) →
      read m a n = read m' a n := by
  intro n
  induction n with
  | zero => intro a _; rfl
  | succ n ih =>
      intro a h
      have hhead : m a = m' a := by simpa using h 0 (by omega)
      have htail : read m (a + 1) n = read m' (a + 1) n := by
        apply ih
        intro i hi
        rw [add_one_offset]
        exact h (i + 1) (by omega)
      unfold read
      rw [hhead, htail]

/-- An access sees only its own range. -/
theorem read_congr_inside (hn : n ≤ 2 ^ 64) (h : ∀ x, Inside a n x → m x = m' x) :
    read m a n = read m' a n :=
  read_congr fun _ hi => h _ (inside_offset a hi hn)

theorem read_lt (m : Memory) : ∀ (n : ℕ) (a : Address), read m a n < 256 ^ n := by
  intro n
  induction n with
  | zero => intro a; simp [read]
  | succ n ih =>
      intro a
      have hhead := (m a).isLt
      have htail := ih (a + 1)
      unfold read
      rw [Nat.pow_succ]
      omega

/-- An access to `n + k` bytes is one to `n` and one to `k` bytes. -/
theorem read_add (m : Memory) (k : ℕ) : ∀ (n : ℕ) (a : Address),
    read m a (n + k) = read m a n + 256 ^ n * read m (a + BitVec.ofNat 64 n) k := by
  intro n
  induction n with
  | zero => intro a; simp [read]
  | succ n ih =>
      intro a
      have hstep : n + 1 + k = (n + k) + 1 := by omega
      rw [hstep, read, ih (a + 1), add_one_offset, read, Nat.pow_succ]
      ring

theorem write_of_inside {x : Address} (h : Inside a n x) :
    write m a n v x = BitVec.ofNat 8 (v / 256 ^ (x - a).toNat) := by
  unfold write
  rw [if_pos h]

/-- A store changes nothing else. -/
theorem write_of_not_inside {x : Address} (h : ¬ Inside a n x) : write m a n v x = m x := by
  unfold write
  rw [if_neg h]

/-- The bytes of a number, read back. -/
private theorem read_of_bytes : ∀ {n : ℕ} {a : Address} {v : ℕ},
    (∀ i < n, m (a + BitVec.ofNat 64 i) = BitVec.ofNat 8 (v / 256 ^ i)) →
      read m a n = v % 256 ^ n := by
  intro n
  induction n with
  | zero => intro a v _; simp [read, Nat.mod_one]
  | succ n ih =>
      intro a v h
      have hhead : (m a).toNat = v % 256 := by
        have h0 := h 0 (by omega)
        simp only [BitVec.add_zero, pow_zero, Nat.div_one] at h0
        rw [h0, BitVec.toNat_ofNat]
      have htail : read m (a + 1) n = v / 256 % 256 ^ n := by
        apply ih
        intro i hi
        rw [add_one_offset, h (i + 1) (by omega), Nat.div_div_eq_div_mul, Nat.pow_succ,
          Nat.mul_comm]
      unfold read
      rw [hhead, htail, Nat.pow_succ, Nat.mul_comm (256 ^ n), Nat.mod_mul]

/-- What was stored is read again, as far as it fits. -/
theorem read_write_self (m : Memory) (a : Address) (v : ℕ) (hn : n ≤ 2 ^ 64) :
    read (write m a n v) a n = v % 256 ^ n := by
  apply read_of_bytes
  intro i hi
  rw [write_of_inside (inside_offset a hi hn), toNat_offset a (by omega)]

/-! ## Lists of bytes -/

/-- The `n` bytes from `a` on. -/
def load (m : Memory) (a : Address) (n : ℕ) : List (BitVec 8) :=
  (List.range n).map fun i => m (a + BitVec.ofNat 64 i)

/-- The memory with the bytes from `a` on. -/
def copy (m : Memory) (a : Address) (bytes : List (BitVec 8)) : Memory :=
  fun x => bytes[(x - a).toNat]?.getD (m x)

theorem length_load (m : Memory) (a : Address) (n : ℕ) : (load m a n).length = n := by
  simp [load]

/-- A copy changes nothing else. -/
theorem copy_of_not_inside {bytes : List (BitVec 8)} {x : Address}
    (h : ¬ Inside a bytes.length x) : copy m a bytes x = m x := by
  unfold copy
  rw [List.getElem?_eq_none (by unfold Inside at h; omega)]
  rfl

theorem copy_offset (m : Memory) (a : Address) {bytes : List (BitVec 8)} {i : ℕ}
    (hi : i < bytes.length) (hlen : bytes.length ≤ 2 ^ 64) :
    copy m a bytes (a + BitVec.ofNat 64 i) = bytes[i] := by
  unfold copy
  rw [toNat_offset a (by omega), List.getElem?_eq_getElem hi]
  rfl

/-- What was copied to a range is what is loaded from it. -/
theorem load_copy (m : Memory) (a : Address) {bytes : List (BitVec 8)}
    (hlen : bytes.length ≤ 2 ^ 64) : load (copy m a bytes) a bytes.length = bytes := by
  apply List.ext_getElem
  · exact length_load _ _ _
  · intro i hi hi'
    simp only [load, List.getElem_map, List.getElem_range]
    exact copy_offset m a hi' hlen

/-- Bytes are loaded from their own range. -/
theorem load_congr (h : ∀ x, Inside a n x → m x = m' x) (hn : n ≤ 2 ^ 64) :
    load m a n = load m' a n := by
  unfold load
  apply List.map_congr_left
  intro i hi
  exact h _ (inside_offset a (List.mem_range.mp hi) hn)

/-- A list that was copied elsewhere does not change what is loaded. -/
theorem load_copy_apart {bytes : List (BitVec 8)} (h : Apart a n b bytes.length)
    (hn : n ≤ 2 ^ 64) : load (copy m b bytes) a n = load m a n :=
  load_congr (fun x hx => copy_of_not_inside (h x hx)) hn

/-- A list that is copied to the beginning of a range. -/
theorem load_copy_prefix {bytes : List (BitVec 8)} (hlen : bytes.length ≤ n)
    (hn : n ≤ 2 ^ 64) : load (copy m a bytes) a n = bytes ++ (load m a n).drop bytes.length := by
  apply List.ext_getElem
  · rw [List.length_append, List.length_drop, length_load, length_load]
    omega
  · intro i hi _
    rw [length_load] at hi
    simp only [load, List.getElem_map, List.getElem_range]
    by_cases hin : i < bytes.length
    · rw [copy_offset m a hin (by omega), List.getElem_append_left hin]
    · have hout : ¬ Inside a bytes.length (a + BitVec.ofNat 64 i) := by
        unfold Inside
        rw [toNat_offset a (by omega)]
        exact hin
      rw [copy_of_not_inside hout, List.getElem_append_right (by omega), List.getElem_drop,
        List.getElem_map, List.getElem_range, Nat.add_sub_cancel' (by omega)]

/-- Copying back what was loaded from a range restores it. -/
theorem copy_load (m m' : Memory) (a : Address) {x : Address} (hn : n ≤ 2 ^ 64)
    (hout : ¬ Inside a n x → m' x = m x) : copy m' a (load m a n) x = m x := by
  by_cases hx : Inside a n x
  · obtain ⟨i, hi, rfl⟩ := hx.offset
    have hlen := length_load m a n
    rw [copy_offset m' a (by omega) (by omega)]
    simp [load]
  · rw [copy_of_not_inside (by rw [length_load]; exact hx)]
    exact hout hx

end ByteMemory
