/-
# Certificate text in the log (`parseAsciiValue`)

`parseAsciiValue` decodes one-byte strings and `BMPString` on two paths.  The one-byte path
replaces everything that is not printable ASCII; the two-byte path replaces what is not
ASCII, and lets control characters through.
-/
import LiuHookWorld.Utf16
import LiuHookWorld.V1SigText

namespace V1Sig

/-! ## Characters and code units -/

/-- The complete big-endian 16-bit units of a content. -/
def bmpUnits : List UInt8 → List ℕ
  | hi :: lo :: data => (hi.toNat * 256 + lo.toNat) :: bmpUnits data
  | _ => []

/-- The code units of a content: 16-bit ones for `BMPString`, octets otherwise. -/
def codeUnits (tag : UInt32) (data : List UInt8) : List ℕ :=
  if tag = 0x1E then bmpUnits data else data.map UInt8.toNat

/-- Printable ASCII. -/
def Printable (n : ℕ) : Prop := 0x20 ≤ n ∧ n ≤ 0x7E

instance (n : ℕ) : Decidable (Printable n) := inferInstanceAs (Decidable (0x20 ≤ n ∧ n ≤ 0x7E))

/-- The text is printable, has one character for each code unit, and shows the printable
ones as they are. -/
structure CleanText (tag : UInt32) (data : List UInt8) : Prop where
  printable : ∀ c ∈ (parseAsciiValue tag data).toList, Printable c.toNat
  length : (parseAsciiValue tag data).length
    = if tag = 0x1E then data.length / 2 else data.length
  shown : ∀ k u : ℕ, (codeUnits tag data)[k]? = some u → Printable u →
    (parseAsciiValue tag data).toList[k]? = some (Char.ofNat u)

/-- The character `parseAsciiValue` makes of a code unit. -/
def shownChar (tag : UInt32) (u : ℕ) : Char :=
  if tag = 0x1E then (if u < 128 then Char.ofNat u else '?')
  else (if Printable u then Char.ofNat u else '.')

/-- The 16-bit unit of two octets. -/
theorem toNat_unit (hi lo : UInt8) :
    (hi.toUInt16 <<< 8 ||| lo.toUInt16).toNat = hi.toNat * 256 + lo.toNat := by
  have hlo : lo.toNat < 2 ^ 8 := lo.toNat_lt
  have hhi : hi.toNat < 2 ^ 8 := hi.toNat_lt
  have hshift : (hi.toUInt16 <<< 8).toNat = 2 ^ 8 * hi.toNat := by
    rw [UInt16.toNat_shiftLeft, UInt8.toNat_toUInt16, Nat.shiftLeft_eq]
    have h8 : (8 : UInt16).toNat % 16 = 8 := rfl
    rw [h8]
    omega
  rw [UInt16.toNat_or, UInt8.toNat_toUInt16, hshift, ← Nat.two_pow_add_eq_or_of_lt hlo]
  omega

theorem bmpChars_eq_map (data : List UInt8) :
    bmpChars data = (bmpUnits data).map (shownChar 0x1E) := by
  induction data using bmpUnits.induct with
  | case1 hi lo data ih =>
      have hval := toNat_unit hi lo
      have hlt : hi.toUInt16 <<< 8 ||| lo.toUInt16 < 128 ↔ hi.toNat * 256 + lo.toNat < 128 := by
        rw [UInt16.lt_iff_toNat_lt, hval]
        rfl
      rw [bmpChars, bmpUnits, List.map_cons, ih, shownChar, if_pos rfl]
      simp only [hlt, hval]
  | case2 data h =>
      rw [bmpChars, bmpUnits]
      · rfl
      · exact h
      · exact h

/-- The test of the one-byte path. -/
theorem byteTest_iff (b : UInt8) :
    (b < 0x20 || b > 0x7E) = true ↔ ¬ Printable b.toNat := by
  induction b using Ber.forall_octet with
  | h n =>
      -- there are 256 octets to try
      revert n
      decide +kernel

/-- Both paths work unit by unit. -/
theorem toList_parseAsciiValue (tag : UInt32) (data : List UInt8) :
    (parseAsciiValue tag data).toList = (codeUnits tag data).map (shownChar tag) := by
  rcases data with _ | ⟨b, data⟩
  · rw [parseAsciiValue, if_pos List.isEmpty_nil, codeUnits]
    split <;> rfl
  · rw [parseAsciiValue, if_neg (by simp), codeUnits]
    by_cases htag : tag = 0x1E
    · rw [if_pos htag, if_pos htag, String.toList_ofList, bmpChars_eq_map, htag]
    · rw [if_neg htag, if_neg htag, String.toList_ofList, List.map_map]
      apply List.map_congr_left
      intro c _
      rw [Function.comp_apply, shownChar, if_neg htag]
      by_cases hc : Printable c.toNat
      · rw [if_pos hc, if_neg (fun h => (byteTest_iff c).mp h hc)]
      · rw [if_neg hc, if_pos ((byteTest_iff c).mpr hc)]

/-! ## Which texts are clean -/

/-- A control character: below the space, or delete. -/
def Control (u : ℕ) : Prop := u < 0x20 ∨ u = 0x7F

theorem toNat_ofNat_ascii {u : ℕ} (hu : u < 128) : (Char.ofNat u).toNat = u := by
  exact Utf16.toNat_ofNat (Or.inl (by omega))

/-- Printable units are shown as they are on both paths. -/
theorem shownChar_of_printable {u : ℕ} (tag : UInt32) (hu : Printable u) :
    shownChar tag u = Char.ofNat u := by
  obtain ⟨-, hle⟩ := id hu
  rw [shownChar, if_pos (by omega : u < 128), if_pos hu, ite_self]

/-- What is shown is printable, unless it is a control character on the two-byte path. -/
theorem printable_shownChar_iff (tag : UInt32) (u : ℕ) :
    Printable (shownChar tag u).toNat ↔ tag ≠ 0x1E ∨ ¬ Control u := by
  unfold shownChar
  by_cases htag : tag = 0x1E
  · rw [if_pos htag]
    by_cases hu : u < 128
    · rw [if_pos hu, toNat_ofNat_ascii hu]
      have hcontrol : Printable u ↔ ¬ Control u := by
        rw [Printable, Control]
        omega
      simp [htag, hcontrol]
    -- a unit above ASCII is shown as a question mark
    · have hcontrol : ¬ Control u := by
        rw [Control]
        omega
      rw [if_neg hu]
      simp only [hcontrol, not_false_eq_true, or_true, iff_true]
      decide
  · rw [if_neg htag]
    refine iff_of_true ?_ (Or.inl htag)
    by_cases hu : Printable u
    · obtain ⟨-, hle⟩ := id hu
      rwa [if_pos hu, toNat_ofNat_ascii (by omega)]
    · rw [if_neg hu]
      decide

theorem length_bmpUnits (data : List UInt8) : (bmpUnits data).length = data.length / 2 := by
  induction data using bmpUnits.induct with
  | case1 hi lo data ih =>
      rw [bmpUnits, List.length_cons, ih, List.length_cons, List.length_cons]
      omega
  | case2 data h =>
      rcases data with _ | ⟨b, _ | ⟨c, data⟩⟩
      · rfl
      · simp [bmpUnits]
      · exact absurd rfl (h b c data)

theorem length_codeUnits (tag : UInt32) (data : List UInt8) :
    (codeUnits tag data).length = if tag = 0x1E then data.length / 2 else data.length := by
  rw [codeUnits]
  split
  · exact length_bmpUnits data
  · exact List.length_map _

/-- **Certificate text.**  The text of a content is clean if and only if it is not a
`BMPString` with a control character among its complete units. -/
theorem cleanText_iff (tag : UInt32) (data : List UInt8) :
    CleanText tag data ↔ tag ≠ 0x1E ∨ ∀ u ∈ bmpUnits data, ¬ Control u := by
  constructor
  · intro h
    by_cases htag : tag = 0x1E
    · refine Or.inr ?_
      intro u hu
      have hmem : shownChar tag u ∈ (parseAsciiValue tag data).toList := by
        rw [toList_parseAsciiValue, codeUnits, if_pos htag]
        exact List.mem_map_of_mem hu
      rcases (printable_shownChar_iff tag u).mp (h.printable _ hmem) with hne | hu
      · exact absurd htag hne
      · exact hu
    · exact Or.inl htag
  · intro h
    refine ⟨?_, ?_, ?_⟩
    · intro c hc
      rw [toList_parseAsciiValue] at hc
      obtain ⟨u, hu, rfl⟩ := List.mem_map.mp hc
      rw [printable_shownChar_iff]
      by_cases htag : tag = 0x1E
      · rw [codeUnits, if_pos htag] at hu
        exact Or.imp_right (fun hnone => hnone u hu) h
      · exact Or.inl htag
    · rw [← String.length_toList, toList_parseAsciiValue, List.length_map, length_codeUnits]
    · intro k u hk hu
      rw [toList_parseAsciiValue, List.getElem?_map, hk, Option.map_some,
        shownChar_of_printable tag hu]

/-- The `BMPString` `00 41 00 0A 00 42` is shown on two lines. -/
theorem not_cleanText_newline :
    isAsciiTag 0x1E = true ∧ parseAsciiValue 0x1E [0x00, 0x41, 0x00, 0x0A, 0x00, 0x42] = "A\nB"
      ∧ ¬ CleanText 0x1E [0x00, 0x41, 0x00, 0x0A, 0x00, 0x42] := by
  refine ⟨by decide, by decide, ?_⟩
  intro h
  exact absurd (h.printable '\n' (by decide)) (by decide)

end V1Sig
