/-
# UTF-16

Reading a sequence of 16-bit units as Unicode scalar values, with a replacement character
for every unit that is half of no pair, and writing scalar values as units.

* `encode_decode` : well-formed units are recovered from the scalar values they are read as;
* `decode_injOn` : hence two well-formed sequences are read differently;
* `length_utf8` : only ASCII characters have as many bytes in UTF-8 as units;
* `countP_utf8` : a unit that is no ASCII character has two bytes at least that are none.
-/
import Mathlib.Data.Set.Function

namespace Utf16

/-! ## Units -/

/-- The first half of a pair. -/
def IsHigh (unit : UInt16) : Prop := 0xD800 ≤ unit.toNat ∧ unit.toNat ≤ 0xDBFF

/-- The second half of a pair. -/
def IsLow (unit : UInt16) : Prop := 0xDC00 ≤ unit.toNat ∧ unit.toNat ≤ 0xDFFF

instance (unit : UInt16) : Decidable (IsHigh unit) := inferInstanceAs (Decidable (_ ∧ _))

instance (unit : UInt16) : Decidable (IsLow unit) := inferInstanceAs (Decidable (_ ∧ _))

/-- The scalar value of a unit that is not part of a pair. -/
def scalar (unit : UInt16) : Char :=
  if IsHigh unit ∨ IsLow unit then Char.ofNat 0xFFFD else Char.ofNat unit.toNat

/-- The scalar value of a pair. -/
def combine (high low : UInt16) : Char :=
  Char.ofNat (0x10000 + (high.toNat - 0xD800) * 0x400 + (low.toNat - 0xDC00))

theorem toNat_ofNat {n : ℕ} (hn : n.isValidChar) : (Char.ofNat n).toNat = n := by
  rw [Char.ofNat, dif_pos hn]
  rfl

/-- An unpaired surrogate becomes `U+FFFD`. -/
theorem toNat_scalar_of_surrogate {unit : UInt16} (hs : IsHigh unit ∨ IsLow unit) :
    (scalar unit).toNat = 0xFFFD := by
  rw [scalar, if_pos hs]
  rfl

theorem toNat_scalar {unit : UInt16} (hs : ¬ (IsHigh unit ∨ IsLow unit)) :
    (scalar unit).toNat = unit.toNat := by
  have hlt := unit.toNat_lt
  rw [scalar, if_neg hs, toNat_ofNat]
  simp only [IsHigh, IsLow, Nat.isValidChar] at hs ⊢
  omega

/-- A pair has ten bits of each. -/
theorem toNat_combine {high low : UInt16} (hh : IsHigh high) (hl : IsLow low) :
    (combine high low).toNat
      = 0x10000 + (high.toNat - 0xD800) * 0x400 + (low.toNat - 0xDC00) := by
  rw [combine, toNat_ofNat]
  simp only [IsHigh, IsLow, Nat.isValidChar] at hh hl ⊢
  omega

/-- Only a unit that stands for itself is read as an ASCII character. -/
theorem toNat_scalar_eq_iff {unit : UInt16} {n : ℕ} (hn : n < 0x80) :
    (scalar unit).toNat = n ↔ unit.toNat = n := by
  by_cases hs : IsHigh unit ∨ IsLow unit
  · rw [toNat_scalar_of_surrogate hs]
    simp only [IsHigh, IsLow] at hs
    omega
  · rw [toNat_scalar hs]

/-! ## Sequences -/

/-- Reading from left to right.  A pair is consumed as a whole, any other unit alone. -/
def decode : List UInt16 → List Char
  | [] => []
  | [unit] => [scalar unit]
  | unit :: next :: rest =>
      if IsHigh unit ∧ IsLow next then combine unit next :: decode rest
      else scalar unit :: decode (next :: rest)

/-- Sequences in which every half of a pair has its other half. -/
inductive WellFormed : List UInt16 → Prop
  | nil : WellFormed []
  | single {unit : UInt16} {rest : List UInt16} (hs : ¬ (IsHigh unit ∨ IsLow unit))
      (hr : WellFormed rest) : WellFormed (unit :: rest)
  | pair {high low : UInt16} {rest : List UInt16} (hh : IsHigh high) (hl : IsLow low)
      (hr : WellFormed rest) : WellFormed (high :: low :: rest)

/-- The units of a scalar value. -/
def encodeChar (c : Char) : List UInt16 :=
  if c.toNat < 0x10000 then [UInt16.ofNat c.toNat]
  else
    [UInt16.ofNat (0xD800 + (c.toNat - 0x10000) / 0x400),
     UInt16.ofNat (0xDC00 + (c.toNat - 0x10000) % 0x400)]

/-- The units of a sequence of scalar values. -/
def encode (cs : List Char) : List UInt16 := cs.flatMap encodeChar

/-- A unit that is no high surrogate is read alone, whatever follows. -/
theorem decode_cons {unit : UInt16} (hh : ¬ IsHigh unit) (rest : List UInt16) :
    decode (unit :: rest) = scalar unit :: decode rest := by
  cases rest with
  | nil => rfl
  | cons next rest => rw [decode, if_neg fun h => hh h.1]

theorem decode_pair {high low : UInt16} (hh : IsHigh high) (hl : IsLow low)
    (rest : List UInt16) :
    decode (high :: low :: rest) = combine high low :: decode rest := by
  rw [decode, if_pos ⟨hh, hl⟩]

/-- An ASCII character is read exactly where its unit stands. -/
theorem exists_decode_iff {n : ℕ} (hn : n < 0x80) (units : List UInt16) :
    (∃ c ∈ decode units, c.toNat = n) ↔ ∃ unit ∈ units, unit.toNat = n := by
  induction units using decode.induct with
  | case1 => simp [decode]
  | case2 unit => simp [decode, toNat_scalar_eq_iff hn]
  | case3 high low rest hpair ih =>
      obtain ⟨hh, hl⟩ := hpair
      have hcombine := toNat_combine hh hl
      simp only [IsHigh, IsLow] at hh hl
      have hc : (combine high low).toNat ≠ n := by omega
      have hhigh : high.toNat ≠ n := by omega
      have hlow : low.toNat ≠ n := by omega
      rw [decode_pair ⟨hh.1, hh.2⟩ ⟨hl.1, hl.2⟩]
      simp only [List.mem_cons, exists_eq_or_imp, hc, hhigh, hlow, false_or, ih]
  | case4 unit next rest hpair ih =>
      rw [decode, if_neg hpair]
      simp only [List.mem_cons, exists_eq_or_imp, toNat_scalar_eq_iff hn] at ih ⊢
      rw [ih]

/-- A unit that is no surrogate is its own encoding. -/
theorem encodeChar_scalar {unit : UInt16} (hs : ¬ (IsHigh unit ∨ IsLow unit)) :
    encodeChar (scalar unit) = [unit] := by
  have hlt := unit.toNat_lt
  rw [encodeChar, toNat_scalar hs, if_pos (by omega), UInt16.ofNat_toNat]

/-- A pair is encoded by its two units. -/
theorem encodeChar_combine {high low : UInt16} (hh : IsHigh high) (hl : IsLow low) :
    encodeChar (combine high low) = [high, low] := by
  obtain ⟨hh₁, hh₂⟩ := id hh
  obtain ⟨hl₁, hl₂⟩ := id hl
  rw [encodeChar, toNat_combine hh hl, if_neg (by omega)]
  -- the quotient gives the first half back, the remainder the second
  have hquot : 0xD800 + (0x10000 + (high.toNat - 0xD800) * 0x400 + (low.toNat - 0xDC00)
      - 0x10000) / 0x400 = high.toNat := by omega
  have hrem : 0xDC00 + (0x10000 + (high.toNat - 0xD800) * 0x400 + (low.toNat - 0xDC00)
      - 0x10000) % 0x400 = low.toNat := by omega
  rw [hquot, hrem, UInt16.ofNat_toNat, UInt16.ofNat_toNat]

/-- Well-formed units are recovered from what they are read as. -/
theorem encode_decode {units : List UInt16} (hw : WellFormed units) :
    encode (decode units) = units := by
  induction hw with
  | nil => rfl
  | single hs _ ih =>
      rw [decode_cons (fun h => hs (.inl h)), encode, List.flatMap_cons, encodeChar_scalar hs]
      exact congrArg (_ :: ·) ih
  | pair hh hl _ ih =>
      rw [decode_pair hh hl, encode, List.flatMap_cons, encodeChar_combine hh hl]
      exact congrArg (fun us => _ :: _ :: us) ih

/-- Two well-formed sequences that are read alike are equal. -/
theorem decode_injOn : Set.InjOn decode {units | WellFormed units} := by
  intro us hus vs hvs huv
  rw [← encode_decode hus, huv, encode_decode hvs]

/-! ## UTF-8 -/

/-- The UTF-8 bytes of the scalar values that the units are read as. -/
def utf8 (units : List UInt16) : List UInt8 := (decode units).flatMap String.utf8EncodeChar

theorem utf8_cons {unit : UInt16} (hh : ¬ IsHigh unit) (rest : List UInt16) :
    utf8 (unit :: rest) = String.utf8EncodeChar (scalar unit) ++ utf8 rest := by
  rw [utf8, decode_cons hh, List.flatMap_cons, utf8]

/-- One byte is an ASCII character. -/
theorem utf8Size_eq_one_iff {c : Char} : c.utf8Size = 1 ↔ c.toNat < 0x80 := by
  rw [Char.utf8Size_eq_one_iff, UInt32.le_iff_toNat_le]
  exact Nat.lt_succ_iff.symm

theorem toNat_scalar_lt_iff {unit : UInt16} : (scalar unit).toNat < 0x80 ↔ unit.toNat < 0x80 := by
  constructor
  · intro h
    rw [(toNat_scalar_eq_iff h).mp rfl]
    exact h
  · intro h
    rw [(toNat_scalar_eq_iff h).mpr rfl]
    exact h

theorem length_encode_scalar (unit : UInt16) :
    1 ≤ (String.utf8EncodeChar (scalar unit)).length
      ∧ ((String.utf8EncodeChar (scalar unit)).length ≤ 1 → unit.toNat < 0x80) := by
  have hpos := Char.utf8Size_pos (scalar unit)
  rw [String.length_utf8EncodeChar]
  refine ⟨hpos, fun hle => ?_⟩
  rw [← toNat_scalar_lt_iff, ← utf8Size_eq_one_iff]
  omega

theorem length_encode_combine {high low : UInt16} (hh : IsHigh high) (hl : IsLow low) :
    (String.utf8EncodeChar (combine high low)).length = 4 := by
  have hcombine : (combine high low).val.toNat = _ := toNat_combine hh hl
  have hmax : (0xffff : UInt32).toNat = 0xffff := rfl
  rw [String.length_utf8EncodeChar, Char.utf8Size_eq_four_iff, UInt32.lt_iff_toNat_lt, hcombine,
    hmax]
  omega

/-- There is a byte for each unit, and one more where a unit is no ASCII character. -/
theorem length_utf8 (units : List UInt16) :
    units.length ≤ (utf8 units).length
      ∧ ((utf8 units).length ≤ units.length → ∀ unit ∈ units, unit.toNat < 0x80) := by
  unfold utf8
  induction units using decode.induct with
  | case1 => simp [decode]
  | case2 unit =>
      obtain ⟨hpos, hascii⟩ := length_encode_scalar unit
      rw [decode, List.flatMap_singleton, List.length_singleton]
      exact ⟨hpos, fun hle _ hunit => List.mem_singleton.mp hunit ▸ hascii hle⟩
  | case3 high low rest hpair ih =>
      have hfour := length_encode_combine hpair.1 hpair.2
      rw [decode_pair hpair.1 hpair.2, List.flatMap_cons, List.length_append, hfour,
        List.length_cons, List.length_cons]
      exact ⟨by omega, fun hle => absurd hle (by omega)⟩
  | case4 unit next rest hpair ih =>
      obtain ⟨hpos, hascii⟩ := length_encode_scalar unit
      rw [decode, if_neg hpair, List.flatMap_cons, List.length_append, List.length_cons (a := unit)]
      refine ⟨by omega, fun hle => List.forall_mem_cons.mpr ⟨hascii (by omega), ih.2 (by omega)⟩⟩

/-- ASCII characters are their own bytes. -/
theorem utf8_of_ascii {units : List UInt16} (h : ∀ unit ∈ units, unit.toNat < 0x80) :
    utf8 units = units.map UInt16.toUInt8 := by
  induction units with
  | nil => rfl
  | cons unit units ih =>
      obtain ⟨hunit, hunits⟩ := List.forall_mem_cons.mp h
      have hhigh : ¬ IsHigh unit := fun hhigh => by
        have := hhigh.1
        omega
      have hsize := utf8Size_eq_one_iff.mpr (toNat_scalar_lt_iff.mpr hunit)
      have hval : (scalar unit).val.toNat = unit.toNat := (toNat_scalar_eq_iff hunit).mpr rfl
      have hbyte : (scalar unit).val.toUInt8 = unit.toUInt8 := by
        rw [← UInt8.toNat_inj, UInt32.toNat_toUInt8, hval, UInt16.toNat_toUInt8]
      rw [utf8_cons hhigh, ih hunits, String.utf8EncodeChar_eq_singleton hsize, hbyte]
      rfl

/-- The bytes of a character that is not ASCII are none either. -/
theorem le_of_mem_utf8EncodeChar {c : Char} (hc : 0x80 ≤ c.toNat) :
    ∀ byte ∈ String.utf8EncodeChar c, 0x80 ≤ byte.toNat := by
  have hval : 0x80 ≤ c.val.toNat := hc
  have hbyte {n : ℕ} (hle : 0x80 ≤ n) (hlt : n < 0x100) : 0x80 ≤ (UInt8.ofNat n).toNat := by
    rw [UInt8.toNat_ofNat', Nat.mod_eq_of_lt hlt]
    exact hle
  simp only [String.utf8EncodeChar]
  split_ifs with hone htwo hthree
  · omega
  all_goals
    simp only [List.forall_mem_cons, List.not_mem_nil, false_implies, implies_true, and_true]
  · exact ⟨hbyte (by omega) (by omega), hbyte (by omega) (by omega)⟩
  · exact ⟨hbyte (by omega) (by omega), hbyte (by omega) (by omega),
      hbyte (by omega) (by omega)⟩
  · exact ⟨hbyte (by omega) (by omega), hbyte (by omega) (by omega),
      hbyte (by omega) (by omega), hbyte (by omega) (by omega)⟩

/-- No ASCII character. -/
def isWide (n : ℕ) : Bool := 0x80 ≤ n

theorem countP_utf8EncodeChar {c : Char} (hc : 0x80 ≤ c.toNat) :
    (String.utf8EncodeChar c).countP (fun byte => isWide byte.toNat)
      = (String.utf8EncodeChar c).length :=
  List.countP_eq_length.mpr fun byte hbyte =>
    decide_eq_true (le_of_mem_utf8EncodeChar hc byte hbyte)

/-- A unit beyond ASCII has at least two bytes beyond ASCII. -/
theorem countP_encode_scalar (unit : UInt16) :
    2 * [unit].countP (fun unit => isWide unit.toNat)
      ≤ (String.utf8EncodeChar (scalar unit)).countP (fun byte => isWide byte.toNat) := by
  by_cases hunit : unit.toNat < 0x80
  · have hnone : [unit].countP (fun unit => isWide unit.toNat) = 0 := by simp [isWide, hunit]
    omega
  · have hone : [unit].countP (fun unit => isWide unit.toNat) ≤ 1 := List.countP_le_length
    obtain ⟨-, hascii⟩ := length_encode_scalar unit
    rw [countP_utf8EncodeChar (by rw [← not_lt, toNat_scalar_lt_iff]; exact hunit)]
    omega

theorem countP_encode_combine {high low : UInt16} (hh : IsHigh high) (hl : IsLow low) :
    (String.utf8EncodeChar (combine high low)).countP (fun byte => isWide byte.toNat) = 4 := by
  rw [countP_utf8EncodeChar (by rw [toNat_combine hh hl]; omega), length_encode_combine hh hl]

/-- A unit that is no ASCII character has two bytes at least that are none. -/
theorem countP_utf8 (units : List UInt16) :
    2 * units.countP (fun unit => isWide unit.toNat)
      ≤ (utf8 units).countP (fun byte => isWide byte.toNat) := by
  unfold utf8
  induction units using decode.induct with
  | case1 => simp
  | case2 unit =>
      rw [decode, List.flatMap_singleton]
      exact countP_encode_scalar unit
  | case3 high low rest hpair ih =>
      have hle : [high, low].countP (fun unit => isWide unit.toNat) ≤ 2 := List.countP_le_length
      have happend : (high :: low :: rest).countP (fun unit => isWide unit.toNat) = _ :=
        @List.countP_append _ _ [high, low] rest
      rw [decode_pair hpair.1 hpair.2, List.flatMap_cons, List.countP_append,
        countP_encode_combine hpair.1 hpair.2, happend]
      omega
  | case4 unit next rest hpair ih =>
      have hunit := countP_encode_scalar unit
      have happend : (unit :: next :: rest).countP (fun unit => isWide unit.toNat) = _ :=
        @List.countP_append _ _ [unit] (next :: rest)
      rw [decode, if_neg hpair, List.flatMap_cons, List.countP_append, happend]
      omega

end Utf16
