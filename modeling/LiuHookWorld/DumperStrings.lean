/-
# Managed strings

`Il2CppStringToStdString` is the conversion from UTF-16 to UTF-8: it reads the units as
`Utf16.decode` does and writes the UTF-8 form of every scalar value.
-/
import LiuHookWorld.DumperText
import LiuHookWorld.Utf16
import Mathlib.Algebra.Group.Nat.Defs

namespace Dumper

/-! ## One code point -/

/-- Marker bits above `k` payload bits. -/
theorem or_and_mask (k marker n : ℕ) :
    2 ^ k * marker ||| (n &&& (2 ^ k - 1)) = n % 2 ^ k + 2 ^ k * marker := by
  rw [Nat.and_two_pow_sub_one_eq_mod,
    ← Nat.two_pow_add_eq_or_of_lt (Nat.mod_lt n (Nat.two_pow_pos k)), Nat.add_comm]

/-- The bytes appended for a scalar value are its UTF-8 form. -/
theorem utf8_toNat (c : Char) : utf8 c.toNat = String.utf8EncodeChar c := by
  have h3 (n : ℕ) : 0xF0 ||| (n &&& 0x07) = n % 0x08 + 0xF0 := or_and_mask 3 30 n
  have h4 (n : ℕ) : 0xE0 ||| (n &&& 0x0F) = n % 0x10 + 0xE0 := or_and_mask 4 14 n
  have h5 (n : ℕ) : 0xC0 ||| (n &&& 0x1F) = n % 0x20 + 0xC0 := or_and_mask 5 6 n
  have h6 (n : ℕ) : 0x80 ||| (n &&& 0x3F) = n % 0x40 + 0x80 := or_and_mask 6 2 n
  simp only [utf8, String.utf8EncodeChar, Char.toNat, h3, h4, h5, h6, Nat.shiftRight_eq_div_pow]

/-! ## The loop -/

theorem isHigh_iff (unit : UInt16) : isHigh unit = true ↔ Utf16.IsHigh unit := by
  rw [isHigh, Bool.and_eq_true, decide_eq_true_iff, decide_eq_true_iff, Utf16.IsHigh]

theorem isLow_iff (unit : UInt16) : isLow unit = true ↔ Utf16.IsLow unit := by
  rw [isLow, Bool.and_eq_true, decide_eq_true_iff, decide_eq_true_iff, Utf16.IsLow]

/-- The replacement character, appended for a surrogate that is half of no pair. -/
theorem utf8_replacement {unit : UInt16} (hs : Utf16.IsHigh unit ∨ Utf16.IsLow unit) :
    utf8 0xFFFD = String.utf8EncodeChar (Utf16.scalar unit) := by
  rw [← utf8_toNat, Utf16.toNat_scalar_of_surrogate hs]

/-- The bytes appended for any other unit. -/
theorem utf8_unit {unit : UInt16} (hs : ¬ (Utf16.IsHigh unit ∨ Utf16.IsLow unit)) :
    utf8 unit.toNat = String.utf8EncodeChar (Utf16.scalar unit) := by
  rw [← utf8_toNat, Utf16.toNat_scalar hs]

/-- The bytes appended for a pair. -/
theorem utf8_pair {high low : UInt16} (hh : Utf16.IsHigh high) (hl : Utf16.IsLow low) :
    utf8 (((high.toNat - 0xD800) <<< 10) + (low.toNat - 0xDC00) + 0x10000)
      = String.utf8EncodeChar (Utf16.combine high low) := by
  have hsum : ((high.toNat - 0xD800) <<< 10) + (low.toNat - 0xDC00) + 0x10000
      = 0x10000 + (high.toNat - 0xD800) * 0x400 + (low.toNat - 0xDC00) := by
    rw [Nat.shiftLeft_eq]
    omega
  rw [← utf8_toNat, Utf16.toNat_combine hh hl, hsum]

/-- The loop writes the UTF-8 forms of the scalar values the units are read as. -/
theorem utf16ToUtf8_eq (units : List UInt16) :
    utf16ToUtf8 units = (Utf16.decode units).flatMap String.utf8EncodeChar := by
  induction units using Utf16.decode.induct with
  | case1 => rfl
  | case2 unit =>
      simp only [utf16ToUtf8, Bool.or_eq_true, isHigh_iff, isLow_iff, Utf16.decode]
      rw [List.flatMap_singleton]
      split
      case isTrue hs => exact utf8_replacement hs
      case isFalse hs => exact utf8_unit hs
  | case3 unit next rest hpair ih =>
      obtain ⟨hh, hl⟩ := hpair
      rw [utf16ToUtf8, if_pos ((isHigh_iff unit).2 hh), if_pos ((isLow_iff next).2 hl),
        utf8_pair hh hl, ih, Utf16.decode_pair hh hl, List.flatMap_cons]
  | case4 unit next rest hpair ih =>
      rw [Utf16.decode, if_neg hpair, List.flatMap_cons, ← ih]
      simp only [utf16ToUtf8, isHigh_iff, isLow_iff]
      split
      case isTrue hh =>
        rw [if_neg fun hl => hpair ⟨hh, hl⟩, utf8_replacement (.inl hh)]
      case isFalse hh =>
        split
        case isTrue hl => rw [utf8_replacement (.inr hl)]
        case isFalse hl => rw [utf8_unit fun hs => hs.elim hh hl]

/-- The converted string as the UTF-8 form of a list of scalar values. -/
theorem il2CppString_toByteArray (units : List UInt16) :
    (Il2CppStringToStdString (some units)).toByteArray = (Utf16.decode units).utf8Encode := by
  rw [Il2CppStringToStdString, utf16ToUtf8_eq, List.utf8Encode]

/-! ## Length -/

theorem length_utf8EncodeChar_scalar (unit : UInt16) :
    (String.utf8EncodeChar (Utf16.scalar unit)).length ≤ 3 := by
  have hlt : (Utf16.scalar unit).toNat < 0x10000 := by
    by_cases hs : Utf16.IsHigh unit ∨ Utf16.IsLow unit
    · rw [Utf16.toNat_scalar_of_surrogate hs]
      decide
    · rw [Utf16.toNat_scalar hs]
      exact unit.toNat_lt
  rw [← utf8_toNat, utf8]
  split
  case isTrue => simp only [List.length_cons, List.length_nil]; omega
  case isFalse =>
    split
    case isTrue => simp only [List.length_cons, List.length_nil]; omega
    case isFalse =>
      rw [if_pos (by omega)]
      exact le_rfl

theorem length_utf8EncodeChar_le (c : Char) : (String.utf8EncodeChar c).length ≤ 4 := by
  rw [String.length_utf8EncodeChar]
  exact c.utf8Size_le_four

/-- A unit makes at most three bytes, a pair at most four. -/
theorem length_utf16ToUtf8_le (units : List UInt16) :
    (utf16ToUtf8 units).length ≤ 3 * units.length := by
  rw [utf16ToUtf8_eq]
  induction units using Utf16.decode.induct with
  | case1 => exact Nat.zero_le _
  | case2 unit =>
      rw [Utf16.decode, List.flatMap_singleton]
      exact length_utf8EncodeChar_scalar unit
  | case3 unit next rest hpair ih =>
      have hc := length_utf8EncodeChar_le (Utf16.combine unit next)
      rw [Utf16.decode_pair hpair.1 hpair.2, List.flatMap_cons, List.length_append]
      simp only [List.length_cons]
      omega
  | case4 unit next rest hpair ih =>
      have hc := length_utf8EncodeChar_scalar unit
      rw [Utf16.decode, if_neg hpair, List.flatMap_cons, List.length_append]
      simp only [List.length_cons] at ih ⊢
      omega

/-! ## ASCII characters -/

/-- A marker bit keeps a byte out of ASCII. -/
theorem le_toNat_marked (k marker n : ℕ) (hmarker : 0x80 ≤ 2 ^ k * marker)
    (hfits : 2 ^ k * marker + 2 ^ k ≤ 0x100) :
    0x80 ≤ (UInt8.ofNat (2 ^ k * marker ||| (n &&& (2 ^ k - 1)))).toNat := by
  have hlt := Nat.mod_lt n (Nat.two_pow_pos k)
  rw [or_and_mask, UInt8.toNat_ofNat', Nat.mod_eq_of_lt (by omega)]
  omega

/-- The bytes of a code point outside ASCII are outside ASCII. -/
theorem le_toNat_of_mem_utf8 {n : ℕ} (hn : 0x7F < n) : ∀ b ∈ utf8 n, 0x80 ≤ b.toNat := by
  have h3 (m : ℕ) : 0x80 ≤ (UInt8.ofNat (0xF0 ||| (m &&& 0x07))).toNat :=
    le_toNat_marked 3 30 m (by decide) (by decide)
  have h4 (m : ℕ) : 0x80 ≤ (UInt8.ofNat (0xE0 ||| (m &&& 0x0F))).toNat :=
    le_toNat_marked 4 14 m (by decide) (by decide)
  have h5 (m : ℕ) : 0x80 ≤ (UInt8.ofNat (0xC0 ||| (m &&& 0x1F))).toNat :=
    le_toNat_marked 5 6 m (by decide) (by decide)
  have h6 (m : ℕ) : 0x80 ≤ (UInt8.ofNat (0x80 ||| (m &&& 0x3F))).toNat :=
    le_toNat_marked 6 2 m (by decide) (by decide)
  rw [utf8, if_neg (by omega)]
  split
  · exact List.forall_mem_cons.mpr ⟨h5 _, List.forall_mem_singleton.mpr (h6 _)⟩
  split
  · exact List.forall_mem_cons.mpr ⟨h4 _, List.forall_mem_cons.mpr
      ⟨h6 _, List.forall_mem_singleton.mpr (h6 _)⟩⟩
  · exact List.forall_mem_cons.mpr ⟨h3 _, List.forall_mem_cons.mpr
      ⟨h6 _, List.forall_mem_cons.mpr ⟨h6 _, List.forall_mem_singleton.mpr (h6 _)⟩⟩⟩

/-- An ASCII byte is the form of its own code point only. -/
theorem mem_utf8_iff {b : UInt8} (hb : b.toNat < 0x80) (n : ℕ) : b ∈ utf8 n ↔ n = b.toNat := by
  by_cases hn : n ≤ 0x7F
  · rw [utf8, if_pos hn, List.mem_singleton, ← UInt8.toNat_inj, UInt8.toNat_ofNat',
      Nat.mod_eq_of_lt (by omega)]
    exact eq_comm
  · refine iff_of_false (fun hmem => ?_) (by omega)
    have := le_toNat_of_mem_utf8 (by omega) b hmem
    omega

/-- An ASCII byte is in the converted string exactly where its unit is in the string. -/
theorem mem_il2CppString_iff {b : UInt8} (hb : b.toNat < 0x80) (str : Option (List UInt16)) :
    b ∈ Il2CppStringToStdString str ↔ ∃ units ∈ str, UInt16.ofNat b.toNat ∈ units := by
  cases str with
  | none => simp [Il2CppStringToStdString]
  | some units =>
      have hunits : (∃ unit ∈ units, unit.toNat = b.toNat) ↔ UInt16.ofNat b.toNat ∈ units := by
        constructor
        · rintro ⟨unit, hunit, heq⟩
          rw [← heq, UInt16.ofNat_toNat]
          exact hunit
        · intro hunit
          exact ⟨_, hunit, by rw [UInt16.toNat_ofNat', Nat.mod_eq_of_lt (by omega)]⟩
      have hmem : b ∈ utf16ToUtf8 units ↔ ∃ unit ∈ units, unit.toNat = b.toNat := by
        rw [utf16ToUtf8_eq, List.mem_flatMap, ← Utf16.exists_decode_iff hb]
        simp only [← utf8_toNat, mem_utf8_iff hb]
      rw [Il2CppStringToStdString, hmem, hunits]
      simp

/-! ## The conversion -/

/-- The bytes are valid UTF-8 for the scalar values the units are read as, at most three for
each unit, and well-formed UTF-16 is converted injectively. -/
theorem il2CppString_exact :
    (∀ units : List UInt16,
      (Il2CppStringToStdString (some units)).toByteArray.IsValidUTF8
      ∧ (Il2CppStringToStdString (some units)).toByteArray.utf8Decode?
          = some (Utf16.decode units).toArray
      ∧ (Il2CppStringToStdString (some units)).length ≤ 3 * units.length)
    ∧ Set.InjOn (fun units => Il2CppStringToStdString (some units))
        {units | Utf16.WellFormed units} := by
  have hdecode (units : List UInt16) :
      (Il2CppStringToStdString (some units)).toByteArray.utf8Decode?
        = some (Utf16.decode units).toArray := by
    rw [il2CppString_toByteArray, List.utf8Decode?_utf8Encode]
  refine ⟨fun units => ⟨?_, hdecode units, length_utf16ToUtf8_le units⟩, ?_⟩
  · rw [il2CppString_toByteArray]
    exact ByteArray.isValidUTF8_utf8Encode
  · intro us hus vs hvs huv
    have hchars : some (Utf16.decode us).toArray = some (Utf16.decode vs).toArray := by
      rw [← hdecode us, ← hdecode vs]
      exact congrArg (fun bytes : Text => bytes.toByteArray.utf8Decode?) huv
    rw [Option.some_inj, ← Array.toList_inj] at hchars
    exact Utf16.decode_injOn hus hvs hchars

end Dumper
