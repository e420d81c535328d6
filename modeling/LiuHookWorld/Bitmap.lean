/-
# Bitmaps

`n` flags, packed into words of 32 bits: the flag `i` is a bit of the word `i / 32`.
-/
import Mathlib.Data.List.Basic

/-- The words have room for `n` flags. -/
structure Bitmap (n : ℕ) where
  words : List (BitVec 32)
  enough : n ≤ 32 * words.length

namespace Bitmap

variable {n : ℕ} (flags : Bitmap n)

/-- The word that has the flag, zero behind the last one. -/
def word (i : ℕ) : BitVec 32 := flags.words.getD (i / 32) 0

/-- The bit of a flag in its word. -/
def mask (i : ℕ) : BitVec 32 := 1 <<< (i % 32)

/-- A flag is set if its bit of the word is. -/
def test (i : ℕ) : Bool := flags.word i &&& mask i ≠ 0

/-- A word is stored; outside of the bitmap nothing changes. -/
def put (i : ℕ) (w : BitVec 32) : Bitmap n where
  words := flags.words.set (i / 32) w
  enough := by
    rw [List.length_set]
    exact flags.enough

/-- A flag is set. -/
def raise (i : ℕ) : Bitmap n := flags.put i (flags.word i ||| mask i)

/-- A flag is cleared. -/
def lower (i : ℕ) : Bitmap n := flags.put i (flags.word i &&& ~~~mask i)

/-- No flag is raised. -/
def zeros (n : ℕ) : Bitmap n where
  words := List.replicate ((n + 31) / 32) 0
  enough := by
    rw [List.length_replicate]
    omega

theorem mask_eq (i : ℕ) : mask i = BitVec.twoPow 32 (i % 32) := (BitVec.twoPow_eq 32 _).symm

/-- A flag is a bit of its word. -/
theorem test_eq (i : ℕ) : flags.test i = (flags.word i).getLsbD (i % 32) := by
  have hpow : BitVec.twoPow 32 (i % 32) ≠ 0 := by
    intro h
    have hbit := congrArg (fun w => BitVec.getLsbD w (i % 32)) h
    simp [show i % 32 < 32 by omega] at hbit
  unfold test
  rw [mask_eq, BitVec.and_twoPow]
  split
  · rename_i h
    rw [h, decide_eq_true hpow]
  · rename_i h
    rw [Bool.not_eq_true] at h
    rw [h]
    decide

/-- A stored word is read back, and no other one changes. -/
theorem word_put {i : ℕ} (hi : i < n) (w : BitVec 32) (j : ℕ) :
    (flags.put i w).word j = if j / 32 = i / 32 then w else flags.word j := by
  have henough := flags.enough
  unfold word put
  split
  · rename_i h
    rw [h, List.getD_eq_getElem?_getD, List.getElem?_set_self (by omega)]
    rfl
  · rename_i h
    rw [List.getD_eq_getElem?_getD, List.getElem?_set_ne (Ne.symm h),
      List.getD_eq_getElem?_getD]

@[simp] theorem test_zeros (i : ℕ) : (zeros n).test i = false := by
  have hword : (zeros n).word i = 0 := by
    unfold word zeros
    rw [List.getD_eq_getElem?_getD, List.getElem?_replicate]
    split <;> rfl
  rw [test_eq, hword]
  exact BitVec.getLsbD_zero

/-- Setting a flag changes no other one. -/
theorem test_raise {i : ℕ} (hi : i < n) (j : ℕ) :
    (flags.raise i).test j = (decide (j = i) || flags.test j) := by
  rw [test_eq, test_eq, raise, word_put flags hi, mask_eq]
  split
  · rename_i h
    have hbit : i % 32 = j % 32 ↔ j = i := by omega
    have hword : flags.word i = flags.word j := by
      unfold word
      rw [h]
    rw [BitVec.getLsbD_or, BitVec.getLsbD_twoPow, hword, Bool.or_comm]
    simp [hbit, show i % 32 < 32 by omega]
  · rename_i h
    have hne : j ≠ i := by
      rintro rfl
      exact h rfl
    simp [hne]

/-- Clearing a flag changes no other one. -/
theorem test_lower {i : ℕ} (hi : i < n) (j : ℕ) :
    (flags.lower i).test j = (decide (j ≠ i) && flags.test j) := by
  rw [test_eq, test_eq, lower, word_put flags hi, mask_eq]
  split
  · rename_i h
    have hbit : i % 32 = j % 32 ↔ j = i := by omega
    have hword : flags.word i = flags.word j := by
      unfold word
      rw [h]
    rw [BitVec.getLsbD_and, BitVec.getLsbD_not, BitVec.getLsbD_twoPow, hword, Bool.and_comm]
    simp [hbit, show i % 32 < 32 by omega, show j % 32 < 32 by omega]
  · rename_i h
    have hne : j ≠ i := by
      rintro rfl
      exact h rfl
    simp [hne]

end Bitmap
