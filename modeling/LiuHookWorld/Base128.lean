/-
# Base-128 numbers with continuation bits

A number is written in digits of seven bits, most significant first, with the top bit of
every octet but the last one set, and in as few octets as possible.  Reading is
accumulating: a reader multiplies what it has by 128 and adds the low seven bits.
-/
import Mathlib.Data.List.Basic

namespace Base128

/-! ## Writing -/

/-- The octets before the last one: the digits of a number with the top bit set, none for
zero. -/
def continued (n : ℕ) : List UInt8 :=
  if n = 0 then [] else continued (n / 128) ++ [UInt8.ofNat (n % 128 + 128)]

/-- The shortest encoding of a number. -/
def encode (n : ℕ) : List UInt8 := continued (n / 128) ++ [UInt8.ofNat (n % 128)]

theorem continued_zero : continued 0 = [] := by
  rw [continued, if_pos rfl]

/-- The last of the septets has the low seven bits. -/
theorem continued_of_pos {n : ℕ} (hn : n ≠ 0) :
    continued n = continued (n / 128) ++ [UInt8.ofNat (n % 128 + 128)] := by
  rw [continued, if_neg hn]

theorem toNat_continued (n : ℕ) : (UInt8.ofNat (n % 128 + 128)).toNat = n % 128 + 128 := by
  rw [UInt8.toNat_ofNat']
  omega

theorem toNat_last (n : ℕ) : (UInt8.ofNat (n % 128)).toNat = n % 128 := by
  rw [UInt8.toNat_ofNat']
  omega

/-- Every octet before the last one is continued. -/
theorem continued_ge (n : ℕ) : ∀ b ∈ continued n, 128 ≤ b.toNat := by
  induction n using Nat.strongRecOn with
  | ind n ih =>
      intro b hb
      by_cases hn : n = 0
      · rw [hn, continued_zero] at hb
        simp at hb
      · rw [continued_of_pos hn] at hb
        rcases List.mem_append.mp hb with hb | hb
        · exact ih (n / 128) (by omega) b hb
        · rw [List.mem_singleton.mp hb, toNat_continued]
          omega

/-! ## Reading -/

/-- Accumulate octets from `acc`. -/
def accumulate (acc : ℕ) (os : List UInt8) : ℕ :=
  os.foldl (fun n b => n * 128 + b.toNat % 128) acc

/-- Reading goes on from what was read. -/
theorem accumulate_append (acc : ℕ) (os os' : List UInt8) :
    accumulate acc (os ++ os') = accumulate (accumulate acc os) os' :=
  List.foldl_append

/-- Reading undoes writing. -/
theorem accumulate_continued (n : ℕ) : accumulate 0 (continued n) = n := by
  induction n using Nat.strongRecOn with
  | ind n ih =>
      by_cases hn : n = 0
      · rw [hn, continued_zero]
        rfl
      · rw [continued_of_pos hn, accumulate_append, ih (n / 128) (by omega)]
        show n / 128 * 128 + (UInt8.ofNat (n % 128 + 128)).toNat % 128 = n
        rw [toNat_continued]
        omega

end Base128
