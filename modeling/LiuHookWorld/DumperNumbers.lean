/-
# Numbers in memory and in the dump

Numerals as the dump prints them, and what an `int` variable makes of the storage of an
integer of another width or signedness.
-/
import LiuHookWorld.DumperFields
import LiuHookWorld.ManagedType

namespace Dumper

/-! ## Numerals -/

/-- The characters of a numeral to base 10 or 16. -/
theorem exists_digitChar_of_mem {base : ℕ} (hbase : 1 < base) (n : ℕ) :
    ∀ c ∈ Nat.toDigits base n, ∃ d < base, c = Nat.digitChar d := by
  induction n using Nat.strongRecOn with
  | ind n ih =>
      intro c hc
      rw [Nat.toDigits_eq_if hbase] at hc
      split at hc
      case isTrue hn => exact ⟨n, hn, List.mem_singleton.mp hc⟩
      case isFalse hn =>
        rcases List.mem_append.mp hc with hc | hc
        · exact ih (n / base) (Nat.div_lt_self (by omega) hbase) c hc
        · exact ⟨n % base, Nat.mod_lt n (by omega), List.mem_singleton.mp hc⟩

/-- The characters of a numeral, as bytes. -/
def numeralBytes : Text := ascii "0123456789abcdef"

theorem mem_numeralBytes {base : ℕ} (hbase : 1 < base) (hle : base ≤ 16) (n : ℕ) :
    ∀ b ∈ ascii (String.ofList (Nat.toDigits base n)), b ∈ numeralBytes := by
  intro b hb
  rw [ascii, String.toList_ofList] at hb
  obtain ⟨c, hc, rfl⟩ := List.mem_map.mp hb
  obtain ⟨d, hd, rfl⟩ := exists_digitChar_of_mem hbase n c hc
  exact (by decide : ∀ d < 16, UInt8.ofNat (Nat.digitChar d).toNat ∈ numeralBytes) d (by omega)

/-- The decimal of a number. -/
def decimal (n : ℤ) : Text := ascii (toString n)

theorem decimal_of_nonneg {n : ℤ} (hn : 0 ≤ n) :
    decimal n = ascii (String.ofList (Nat.toDigits 10 n.toNat)) := by
  rw [decimal, Int.toString_eq_repr, Int.repr_eq_if, if_pos hn, Nat.repr_eq_ofList_toDigits]

theorem decimal_of_neg {n : ℤ} (hn : n < 0) :
    decimal n = 0x2D :: ascii (String.ofList (Nat.toDigits 10 (-n).toNat)) := by
  rw [decimal, Int.toString_eq_repr, Int.repr_eq_if, if_neg (by omega),
    Nat.repr_eq_ofList_toDigits, ascii, String.toList_append, List.map_append]
  rfl

/-- Only the decimal of a negative number has a minus sign. -/
theorem minus_mem_decimal_iff (n : ℤ) : 0x2D ∈ decimal n ↔ n < 0 := by
  constructor
  · intro h
    by_contra hn
    rw [decimal_of_nonneg (by omega)] at h
    exact absurd (mem_numeralBytes (by decide) (by decide) _ _ h) (by decide)
  · intro hn
    rw [decimal_of_neg hn]
    exact List.mem_cons_self

/-- No decimal has a NUL. -/
theorem zero_not_mem_decimal (n : ℤ) : 0 ∉ decimal n := by
  intro h
  rcases lt_or_ge n 0 with hn | hn
  · rw [decimal_of_neg hn] at h
    rcases List.mem_cons.mp h with h | h
    · exact absurd h (by decide)
    · exact absurd (mem_numeralBytes (by decide) (by decide) _ _ h) (by decide)
  · rw [decimal_of_nonneg hn] at h
    exact absurd (mem_numeralBytes (by decide) (by decide) _ _ h) (by decide)

/-! ## Storage -/

theorem littleEndian_lt (bytes : List UInt8) : littleEndian bytes < 2 ^ (8 * bytes.length) := by
  induction bytes with
  | nil => exact Nat.one_pos
  | cons b bs ih =>
      have hb := b.toNat_lt
      rw [littleEndian, List.length_cons, Nat.mul_succ, Nat.pow_add]
      omega

theorem littleEndian_zeros (k : ℕ) : littleEndian (List.replicate k 0) = 0 := by
  induction k with
  | zero => rfl
  | succ k ih =>
      rw [List.replicate_succ, littleEndian, ih]
      rfl

theorem littleEndian_append_zeros (bytes : List UInt8) (k : ℕ) :
    littleEndian (bytes ++ List.replicate k 0) = littleEndian bytes := by
  induction bytes with
  | nil => exact littleEndian_zeros k
  | cons b bs ih => rw [List.cons_append, littleEndian, ih, littleEndian]

/-- A variable wide enough holds the number that was written to it. -/
theorem littleEndian_received {size : ℕ} {bytes : List UInt8} (h : bytes.length ≤ size) :
    littleEndian (received size bytes) = littleEndian bytes := by
  rw [received, List.take_of_length_le h, littleEndian_append_zeros]

/-- Two's complement. -/
theorem toInt_ofNat_of_lt {w n : ℕ} (h : n < 2 ^ w) :
    (BitVec.ofNat w n).toInt = if 2 * n < 2 ^ w then (n : ℤ) else n - 2 ^ w := by
  rw [BitVec.toInt_eq_toNat_cond, BitVec.toNat_ofNat, Nat.mod_eq_of_lt h]
  push_cast
  rfl

/-- The value of an `int` that received these bytes. -/
def intOf (storage : List UInt8) : ℤ := (BitVec.ofNat 32 (littleEndian storage)).toInt

/-- The numbers that an `int` set to 0 before receives unchanged: of four bytes at most, not
negative in fewer than four, and within its range. -/
def IntReads (t : Integral) (storage : List UInt8) : Prop :=
  storage.length ≤ 4 ∧ (storage.length < 4 → 0 ≤ t.value storage) ∧ t.value storage < 2 ^ 31

/-- The widths of the integral types. -/
theorem Integral.width_cases (abi : Abi) (t : Integral) :
    t.width abi = 1 ∨ t.width abi = 2 ∨ t.width abi = 4 ∨ t.width abi = 8 := by
  cases abi <;> cases t <;> decide

/-- Four bytes at most are received as the number or as one of the other sign. -/
theorem intOf_sign {t : Integral} {storage : List UInt8} (hlength : storage.length = 1 ∨
    storage.length = 2 ∨ storage.length = 4) :
    (IntReads t storage ∧ intOf storage = t.value storage)
      ∨ (¬ IntReads t storage ∧ (intOf storage < 0 ↔ 0 ≤ t.value storage)) := by
  have hn := littleEndian_lt storage
  have hint : intOf storage = if littleEndian storage < 2 ^ 31 then (littleEndian storage : ℤ)
      else littleEndian storage - 2 ^ 32 := by
    rw [intOf, toInt_ofNat_of_lt (hn.trans_le (Nat.pow_le_pow_right (by decide) (by omega)))]
    split <;> split <;> omega
  rw [IntReads, hint, Integral.value, toInt_ofNat_of_lt hn]
  rcases hlength with h | h | h
  all_goals
    rw [h] at hn ⊢
    cases t.signed
    · simp only [Bool.false_eq_true, if_false]
      split <;> omega
    · simp only [if_true]
      split <;> split <;> omega

end Dumper
