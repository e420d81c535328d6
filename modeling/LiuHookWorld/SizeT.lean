/-
# Machine words of the two ABIs and `std::vector<uint8_t>`

`app/build.gradle` builds for `armeabi-v7a` and `arm64-v8a`; the two differ in the
width of `size_t`.  A `size_t` is a natural number, and every operation that can
wrap is reduced modulo the width.  Reading or copying outside a vector is undefined
behaviour in the source and the error `Fault` here.
-/
import Mathlib.Data.List.Basic
import Mathlib.Tactic.Linarith

/-! ## `size_t` -/

/-- `abiFilters` of `app/build.gradle`. -/
inductive Abi
  | armeabi_v7a
  | arm64_v8a
  deriving DecidableEq, Repr

namespace Abi

/-- The width of `size_t`. -/
def sizeBits : Abi → ℕ
  | armeabi_v7a => 32
  | arm64_v8a => 64

/-- Reduce to the width of `size_t`. -/
def wrap (abi : Abi) (n : ℕ) : ℕ := n % 2 ^ abi.sizeBits

/-- Subtraction of `size_t` values. -/
def sub (abi : Abi) (a b : ℕ) : ℕ := abi.wrap (a + 2 ^ abi.sizeBits - b)

/-- `std::vector<uint8_t>::max_size()`, which is `PTRDIFF_MAX`. -/
def maxSize (abi : Abi) : ℕ := 2 ^ (abi.sizeBits - 1) - 1

/-- Half of the range of `size_t` is a bound for every vector. -/
theorem two_mul_maxSize_lt (abi : Abi) : 2 * abi.maxSize + 2 ≤ 2 ^ abi.sizeBits := by
  cases abi <;> decide

theorem le_maxSize (abi : Abi) : 2 ^ 31 - 1 ≤ abi.maxSize := by
  cases abi <;> decide

theorem wrap_of_lt {abi : Abi} {n : ℕ} (h : n < 2 ^ abi.sizeBits) : abi.wrap n = n :=
  Nat.mod_eq_of_lt h

end Abi

/-! ## Vectors of bytes -/

/-- What a read outside the vector's elements is, or an `assign` from such a range. -/
inductive Fault
  /-- `data[i]` with `i` not below the length. -/
  | read (i length : ℕ)
  /-- A range of `L` elements from `offset` that does not end inside the vector: `assign` gets a
  `last` that wraps around to before `first`, and copies nothing. -/
  | copy (offset L length : ℕ)
  deriving DecidableEq, Repr

/-- A `std::vector<uint8_t>`: no more elements than `max_size()`. -/
structure Vec (abi : Abi) where
  bytes : List UInt8
  size_le : bytes.length ≤ abi.maxSize

/-- A read that succeeded is followed by the rest of the computation. -/
@[simp] theorem Except.ok_bind {ε α β : Type} (a : α) (f : α → Except ε β) :
    ((Except.ok a : Except ε α) >>= f) = f a := rfl

@[simp] theorem Except.error_bind {ε α β : Type} (e : ε) (f : α → Except ε β) :
    ((Except.error e : Except ε α) >>= f) = .error e := rfl

/-- A computation that succeeded did so step by step. -/
theorem Except.bind_eq_ok_iff {ε α β : Type} {x : Except ε α} {f : α → Except ε β} {r : β} :
    (x >>= f) = .ok r ↔ ∃ a, x = .ok a ∧ f a = .ok r := by
  cases x with
  | error e => simp
  | ok a => simp

namespace Vec

variable {abi : Abi}

@[ext] theorem ext {v w : Vec abi} (h : v.bytes = w.bytes) : v = w := by
  cases v
  cases w
  simpa using h

instance : DecidableEq (Vec abi) := fun v w =>
  decidable_of_iff (v.bytes = w.bytes) ⟨ext, fun h => h ▸ rfl⟩

/-- `size()`. -/
def size (v : Vec abi) : ℕ := v.bytes.length

/-- The empty vector. -/
def empty : Vec abi := ⟨[], Nat.zero_le _⟩

@[simp] theorem length_bytes (v : Vec abi) : v.bytes.length = v.size := rfl

@[simp] theorem size_mk (bs : List UInt8) (h : bs.length ≤ abi.maxSize) :
    (Vec.mk bs h).size = bs.length := rfl

/-- `data[i]`. -/
def read (v : Vec abi) (i : ℕ) : Except Fault UInt8 :=
  if h : i < v.bytes.length then .ok v.bytes[i] else .error (.read i v.size)

theorem read_eq_ok_iff {v : Vec abi} {i : ℕ} {b : UInt8} :
    v.read i = .ok b ↔ v.bytes[i]? = some b := by
  rw [read]
  split
  · rename_i h
    simp [List.getElem?_eq_getElem h]
  · rename_i h
    simp [List.getElem?_eq_none (Nat.not_lt.mp h)]

/-- A read at a position where the rest of the vector starts with `b`. -/
theorem read_of_drop {v : Vec abi} {i : ℕ} {b : UInt8} {bs : List UInt8}
    (h : v.bytes.drop i = b :: bs) : v.read i = .ok b := by
  rw [read_eq_ok_iff, ← List.head?_drop, h]
  rfl

/-- The `L` elements from `offset` as a vector of their own
(`assign(data + offset, data + offset + L)`). -/
def slice (v : Vec abi) (offset L : ℕ) : Except Fault (Vec abi) :=
  if offset + L ≤ v.bytes.length then
    .ok ⟨(v.bytes.drop offset).take L,
      ((List.take_sublist _ _).trans (List.drop_sublist _ _)).length_le.trans v.size_le⟩
  else .error (.copy offset L v.size)

theorem slice_of_le {v : Vec abi} {offset L : ℕ} (h : offset + L ≤ v.size) :
    ∃ w, v.slice offset L = .ok w ∧ w.bytes = (v.bytes.drop offset).take L ∧ w.size = L := by
  refine ⟨_, if_pos h, rfl, ?_⟩
  rw [size_mk, List.length_take, List.length_drop]
  rw [size] at h
  omega

theorem slice_of_lt {v : Vec abi} {offset L : ℕ} (h : v.size < offset + L) :
    v.slice offset L = .error (.copy offset L v.size) :=
  if_neg (Nat.not_le.mpr h)

/-- A position that is not far past the end does not wrap. -/
theorem wrap_near (v : Vec abi) {n : ℕ} (h : n < v.size + 2 ^ 31) : abi.wrap n = n := by
  have hsize : v.size ≤ abi.maxSize := v.size_le
  have hmax := abi.two_mul_maxSize_lt
  have hge := abi.le_maxSize
  exact Abi.wrap_of_lt (by omega)

/-- Stepping back from a position past the start. -/
theorem sub_one (v : Vec abi) {n : ℕ} (h : n < v.size + 2 ^ 31) : abi.sub (n + 1) 1 = n := by
  have hstep : n + 1 + 2 ^ abi.sizeBits - 1 = n + 2 ^ abi.sizeBits := by
    rw [Nat.add_right_comm]
    rfl
  rw [Abi.sub, hstep, Abi.wrap, Nat.add_mod_right]
  exact v.wrap_near h

end Vec
