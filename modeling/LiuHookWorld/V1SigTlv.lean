/-
# One element of the signature dump (`parseBERLength`, `parseTLV`)

The two decoders of `MyHook/utils/v1sigparse.cpp` on either ABI: a `size_t` sum is
wrapped, an access outside the vector is a `Fault`, and every offset is an offset
into the vector the function was given.

`reading` says what the octets at an offset are, without offsets or machine words; there is
one lemma on `parseTLV` for each kind of reading, and nothing after them unfolds it.
-/
import LiuHookWorld.Ber
import LiuHookWorld.SizeT

namespace V1Sig

/-! ## The decoders -/

/-- `struct TLV` (its `next` is never set). -/
structure TLV (abi : Abi) where
  T : UInt32
  L : UInt32
  V : Vec abi
  deriving DecidableEq

variable {abi : Abi}

/-- `TLV tlv{}`. -/
def TLV.zero : TLV abi := ⟨0, 0, Vec.empty⟩

/-- What a call of `parseBERLength` leaves: its return value and its two reference
parameters. -/
structure LengthRead where
  ret : ℕ
  offset : ℕ
  outLen : UInt32
  deriving DecidableEq, Repr

/-- `for (uint8_t i = 0; i < byteCount; ++i) outLen = (outLen << 8) | data[offset++];` -/
def lengthLoop (data : Vec abi) : ℕ → ℕ → UInt32 → Except Fault LengthRead
  | 0, offset, outLen => .ok ⟨offset, offset, outLen⟩
  | count + 1, offset, outLen => do
      let b ← data.read offset
      lengthLoop data count (abi.wrap (offset + 1)) (outLen <<< 8 ||| b.toUInt32)

/-- `parseBERLength(data, len, offset, outLen)`. -/
def parseBERLength (data : Vec abi) (offset : ℕ) (outLen : UInt32) :
    Except Fault LengthRead :=
  if data.size ≤ offset then .ok ⟨offset, offset, outLen⟩
  else do
    let first ← data.read offset
    let offset := abi.wrap (offset + 1)
    if first < 0x80 then
      return ⟨offset, offset, first.toUInt32⟩
    let byteCount := first &&& 0x7F
    -- `offset` is past the first octet: the octet that was refused is given back
    if byteCount = 0 ∨ 4 < byteCount ∨ data.size < abi.wrap (offset + byteCount.toNat) then
      return ⟨abi.sub offset 1, offset, outLen⟩
    lengthLoop data byteCount.toNat offset 0

/-- The identifier loop of `parseTLV`: `while (offset < length) { … }`. -/
def tagLoop (data : Vec abi) (offset : ℕ) (T : UInt32) : Except Fault (ℕ × UInt32) :=
  if _h : offset < data.size then do
    let b ← data.read offset
    if b &&& 0x80 = 0 then
      return (abi.wrap (offset + 1), T <<< 8 ||| b.toUInt32)
    tagLoop data (abi.wrap (offset + 1)) (T <<< 8 ||| b.toUInt32)
  else .ok (offset, T)
termination_by data.size - offset
decreasing_by
  rw [data.wrap_near (by omega)]
  omega

/-- The identifier of `parseTLV`, from its first octet on: the offset after it and `tlv.T`. -/
def parseTag (data : Vec abi) (offset : ℕ) (first : UInt8) : Except Fault (ℕ × UInt32) :=
  if first &&& 0x1F = 0x1F then tagLoop data offset first.toUInt32
  else .ok (offset, first.toUInt32)

/-- `parseTLV(data, length, offset, tlv)` on a fresh `tlv`: the returned offset and the
element. -/
def parseTLV (data : Vec abi) (offset : ℕ) : Except Fault (ℕ × TLV abi) :=
  if data.size ≤ offset then .ok (offset, TLV.zero)
  else do
    let first ← data.read offset
    let offset := abi.wrap (offset + 1)
    if first = 0 then
      return (offset, TLV.zero)
    let (oldOffset, T) ← parseTag data offset first
    let lenVal ← parseBERLength data oldOffset 0
    let offset := lenVal.ret
    -- no length: the caller gets the offset after the identifier
    if offset = oldOffset then
      return (oldOffset, ⟨T, 0, Vec.empty⟩)
    let L := lenVal.outLen
    if data.size < abi.wrap (offset + L.toNat) then
      return (offset, ⟨T, 0, Vec.empty⟩)
    let V ← data.slice offset L.toNat
    return (abi.wrap (offset + L.toNat), ⟨T, L, V⟩)

/-- `isContainerTag`. -/
def isContainerTag (tag : UInt32) : Bool :=
  if tag == 0x30 || tag == 0x31 then true
  else if tag &&& 0xC0 == 0x80 && tag &&& 0x20 != 0 then true
  else if tag &&& 0xE0 == 0xA0 && tag &&& 0x20 != 0 then true
  else false

/-! ## What the decoders compute -/

/-- Appending octets to a 32-bit accumulator. -/
def shiftIn (acc : UInt32) (os : List UInt8) : UInt32 :=
  os.foldl (fun n b => n <<< 8 ||| b.toUInt32) acc

theorem shiftIn_cons (acc : UInt32) (b : UInt8) (os : List UInt8) :
    shiftIn acc (b :: os) = shiftIn (acc <<< 8 ||| b.toUInt32) os := rfl

/-- One octet in: multiply by 256, add, drop what does not fit. -/
theorem toNat_shift_or (acc : UInt32) (b : UInt8) :
    (acc <<< 8 ||| b.toUInt32).toNat = (acc.toNat * 256 + b.toNat) % 2 ^ 32 := by
  have hb : b.toNat < 2 ^ 8 := b.toNat_lt
  have hacc : acc.toNat < 2 ^ 32 := acc.toNat_lt
  have hshift : (acc <<< 8).toNat = 2 ^ 8 * (acc.toNat % 2 ^ 24) := by
    rw [UInt32.toNat_shiftLeft, Nat.shiftLeft_eq]
    have h8 : (8 : UInt32).toNat % 32 = 8 := rfl
    rw [h8]
    omega
  rw [UInt32.toNat_or, UInt8.toNat_toUInt32, hshift, ← Nat.two_pow_add_eq_or_of_lt hb]
  omega

/-- The accumulator holds the big-endian number modulo `2 ^ 32`. -/
theorem toNat_shiftIn (os : List UInt8) :
    ∀ acc : UInt32, (shiftIn acc os).toNat
      = (acc.toNat * 256 ^ os.length + Ber.bigEndian os) % 2 ^ 32 := by
  induction os with
  | nil =>
      intro acc
      have := acc.toNat_lt
      simp only [shiftIn, List.foldl_nil, List.length_nil, pow_zero, Ber.bigEndian_nil]
      omega
  | cons b os ih =>
      intro acc
      rw [shiftIn_cons, ih, toNat_shift_or, Ber.bigEndian_cons, List.length_cons, Nat.add_mod,
        Nat.mod_mul_mod, ← Nat.add_mod]
      congr 1
      ring

theorem shiftIn_zero (os : List UInt8) : shiftIn 0 os = UInt32.ofNat (Ber.bigEndian os) := by
  apply UInt32.toNat_inj.mp
  rw [toNat_shiftIn]
  simp

/-- What is left of a vector at an offset determines the offset. -/
theorem offset_of_drop {data : Vec abi} {offset : ℕ} {os r : List UInt8}
    (hoff : offset ≤ data.size) (h : data.bytes.drop offset = os ++ r) :
    offset + os.length = data.size - r.length ∧ offset + os.length ≤ data.size
      ∧ data.bytes.drop (offset + os.length) = r := by
  have hlen : data.size - offset = os.length + r.length := by
    rw [← List.length_append, ← h, List.length_drop, Vec.length_bytes]
  refine ⟨by omega, by omega, ?_⟩
  rw [← List.drop_drop, h, List.drop_left]

theorem offset_of_drop_cons {data : Vec abi} {offset : ℕ} {b : UInt8} {bs : List UInt8}
    (hoff : offset ≤ data.size) (h : data.bytes.drop offset = b :: bs) :
    offset + 1 = data.size - bs.length ∧ offset + 1 ≤ data.size
      ∧ data.bytes.drop (offset + 1) = bs := by
  have hone : data.bytes.drop offset = [b] ++ bs := h
  exact offset_of_drop hoff hone

theorem lengthLoop_eq {data : Vec abi} (os : List UInt8) :
    ∀ {offset : ℕ} {r : List UInt8} (acc : UInt32), offset ≤ data.size →
      data.bytes.drop offset = os ++ r →
      lengthLoop data os.length offset acc
        = .ok ⟨offset + os.length, offset + os.length, shiftIn acc os⟩ := by
  induction os with
  | nil => intro offset r acc _ _; rfl
  | cons b os ih =>
      intro offset r acc hoff h
      obtain ⟨-, hle, hdrop⟩ := offset_of_drop_cons hoff h
      rw [List.length_cons, lengthLoop, Vec.read_of_drop h, data.wrap_near (by omega),
        Except.ok_bind, ih _ hle hdrop, shiftIn_cons, Nat.add_assoc, Nat.add_comm 1]

/-- The low seven bits of an octet with the top bit set. -/
theorem toNat_and_7F {b : UInt8} (h : ¬ b < 0x80) : (b &&& 0x7F).toNat = b.toNat - 0x80 := by
  have hge : 0x80 ≤ b.toNat := by
    rw [UInt8.lt_iff_toNat_lt] at h
    exact Nat.not_lt.mp h
  have hlt : b.toNat < 256 := b.toNat_lt
  have hmask : (0x7F : UInt8).toNat = 2 ^ 7 - 1 := rfl
  rw [UInt8.toNat_and, hmask, Nat.and_two_pow_sub_one_eq_mod]
  omega

/-- A definite length of at most four octets is decoded, whatever `outLen` was. -/
theorem parseBERLength_some {data : Vec abi} {offset n : ℕ} {r : List UInt8} (outLen : UInt32)
    (h : Ber.readLength 4 (data.bytes.drop offset) = some (n, r)) :
    parseBERLength data offset outLen
      = .ok ⟨data.size - r.length, data.size - r.length, UInt32.ofNat n⟩ := by
  obtain ⟨o, hdrop, ho⟩ := Ber.readLength_sound h
  -- something is left to read, so the offset is inside the vector
  have hoff : offset < data.size := by
    by_contra hge
    rw [List.drop_eq_nil_of_le (by simpa using hge)] at hdrop
    have := ho.length_pos
    simp_all
  cases ho with
  | @short b hb =>
      obtain ⟨hpos, hle, -⟩ := offset_of_drop hoff.le hdrop
      rw [List.length_singleton] at hpos hle
      rw [parseBERLength, if_neg (by omega), Vec.read_of_drop hdrop, ← hpos, Except.ok_bind,
        data.wrap_near (by omega), if_pos hb, UInt32.ofNat_uInt8ToNat]
      rfl
  | @long b os hb hge1 hle4 =>
      obtain ⟨hpos1, hle1, hdrop1⟩ := offset_of_drop_cons hoff.le hdrop
      obtain ⟨hpos, hle, -⟩ := offset_of_drop hle1 hdrop1
      have hnlt : ¬ b < 0x80 := by
        rw [UInt8.lt_iff_toNat_lt, hb]
        simp
      have hcount : (b &&& 0x7F).toNat = os.length := by
        rw [toNat_and_7F hnlt]
        omega
      -- the count passes all three tests of the source
      have hne : ¬ (b &&& 0x7F = 0 ∨ 4 < b &&& 0x7F
          ∨ data.size < abi.wrap (offset + 1 + (b &&& 0x7F).toNat)) := by
        have hfour : (4 : UInt8).toNat = 4 := rfl
        rw [hcount, data.wrap_near (by omega), UInt8.lt_iff_toNat_lt, ← UInt8.toNat_inj, hcount,
          hfour, UInt8.toNat_zero]
        omega
      rw [parseBERLength, if_neg (by omega), Vec.read_of_drop hdrop, Except.ok_bind, if_neg hnlt,
        data.wrap_near (n := offset + 1) (by omega), if_neg hne, hcount,
        lengthLoop_eq os 0 hle1 hdrop1, hpos, shiftIn_zero]

/-- Anything else is refused: the offset passed in comes back and `outLen` is kept. -/
theorem parseBERLength_none {data : Vec abi} {offset : ℕ} (outLen : UInt32)
    (hoff : offset ≤ data.size) (h : Ber.readLength 4 (data.bytes.drop offset) = none) :
    ∃ byRef, parseBERLength data offset outLen = .ok ⟨offset, byRef, outLen⟩ := by
  rcases hdrop : data.bytes.drop offset with _ | ⟨b, bs⟩
  · have hend : data.size ≤ offset := by simpa using hdrop
    exact ⟨offset, by rw [parseBERLength, if_pos hend]⟩
  · rw [hdrop, Ber.readLength] at h
    obtain ⟨hpos, hle, -⟩ := offset_of_drop_cons hoff hdrop
    by_cases hb : b < 0x80
    · simp [hb] at h
    · rw [if_neg hb] at h
      -- `readLength` refuses for the reasons the source does
      have hbad : b &&& 0x7F = 0 ∨ 4 < b &&& 0x7F
          ∨ data.size < abi.wrap (offset + 1 + (b &&& 0x7F).toNat) := by
        have hk := toNat_and_7F hb
        have hlt : b.toNat < 256 := b.toNat_lt
        have hfour : (4 : UInt8).toNat = 4 := rfl
        have hlen : bs.length = data.size - (offset + 1) := by omega
        rw [data.wrap_near (by omega), UInt8.lt_iff_toNat_lt, ← UInt8.toNat_inj, hk, hfour,
          UInt8.toNat_zero]
        by_contra hok
        rw [if_pos (by omega)] at h
        simp at h
      refine ⟨offset + 1, ?_⟩
      rw [parseBERLength, if_neg (by omega), Vec.read_of_drop hdrop, Except.ok_bind, if_neg hb,
        data.wrap_near (n := offset + 1) (by omega), if_pos hbad, data.sub_one (by omega)]
      rfl

/-- **Lengths.**  `parseBERLength` accepts the definite lengths of at most four octets after the
first and steps over them; all that is refused gives back the offset passed in. -/
theorem parseBERLength_exact (data : Vec abi) (offset : ℕ) (outLen : UInt32)
    (hoff : offset ≤ data.size) :
    (∀ o n, Ber.LengthOctets 4 o n → o <+: data.bytes.drop offset →
      ∃ out, parseBERLength data offset outLen
          = .ok ⟨offset + o.length, offset + o.length, out⟩
        ∧ offset < offset + o.length ∧ out.toNat = n)
    ∧ (Ber.NoLength 4 (data.bytes.drop offset) →
      ∃ byRef, parseBERLength data offset outLen = .ok ⟨offset, byRef, outLen⟩)
    ∧ ((∃ o n, Ber.LengthOctets 4 o n ∧ o <+: data.bytes.drop offset)
      ∨ Ber.NoLength 4 (data.bytes.drop offset)) := by
  refine ⟨?_, ?_, Ber.lengthOctets_or_noLength 4 _⟩
  · rintro o n ho ⟨r, hr⟩
    have hread : Ber.readLength 4 (data.bytes.drop offset) = some (n, r) := by
      rw [← hr, Ber.readLength_append ho]
    refine ⟨UInt32.ofNat n, ?_, ?_, ?_⟩
    · rw [parseBERLength_some outLen hread, (offset_of_drop hoff hr.symm).1]
    · have := ho.length_pos
      omega
    · exact UInt32.toNat_ofNat_of_lt' (ho.lt (by norm_num))
  · intro h
    exact parseBERLength_none outLen hoff (Ber.readLength_of_noLength h)

/-- At the length of an element whose content is one octet. -/
theorem parseBERLength_exact_one :
    ∃ out, parseBERLength (⟨[0x30, 0x81, 0x01, 0x05], by decide⟩ : Vec .arm64_v8a) 1 7
        = .ok ⟨3, 3, out⟩ ∧ 1 < 3 ∧ out.toNat = 1 :=
  (parseBERLength_exact _ 1 7 (by decide)).1 [0x81, 0x01] 1
    (.long rfl (by decide) (by decide)) ⟨[0x05], rfl⟩

/-- The identifier loop consumes up to the first octet with a clear top bit. -/
theorem tagLoop_eq {data : Vec abi} (bs : List UInt8) :
    ∀ {offset : ℕ} (T : UInt32), offset ≤ data.size → data.bytes.drop offset = bs →
      tagLoop data offset T = .ok (data.size - (Ber.spanContinued bs).2.length,
        shiftIn T (Ber.spanContinued bs).1) := by
  induction bs with
  | nil =>
      intro offset T hoff h
      have hend : data.size ≤ offset := by simpa using h
      rw [tagLoop, dif_neg (by omega), le_antisymm hoff hend]
      rfl
  | cons b bs ih =>
      intro offset T hoff h
      obtain ⟨hpos, hle, hdrop⟩ := offset_of_drop_cons hoff h
      rw [tagLoop, dif_pos (by omega), Vec.read_of_drop h, Except.ok_bind,
        data.wrap_near (by omega), Ber.spanContinued]
      by_cases hb : b &&& 0x80 = 0
      · rw [if_pos hb, if_pos hb, hpos]
        rfl
      · rw [if_neg hb, if_neg hb, ih _ hle hdrop, shiftIn_cons]

/-! ## Readings -/

/-- What the octets at an offset are. -/
inductive Reading
  /-- A zero identifier octet, and the octets after it. -/
  | zero (r : List UInt8)
  /-- A complete element: identifier, content, what follows. -/
  | element (i c r : List UInt8)
  /-- An identifier that no definite length follows. -/
  | noLength (i r : List UInt8)
  /-- Identifier and length `n`, but fewer than `n` octets `r` are left. -/
  | truncated (i : List UInt8) (n : ℕ) (r : List UInt8)
  deriving DecidableEq, Repr

/-- Read the octets `b :: bs`, with lengths of at most four octets. -/
def reading (b : UInt8) (bs : List UInt8) : Reading :=
  if b = 0 then .zero bs
  else
    match Ber.readLength 4 (Ber.identifierSpan (b :: bs)).2 with
    | none => .noLength (Ber.identifierSpan (b :: bs)).1 (Ber.identifierSpan (b :: bs)).2
    | some (n, r) =>
        if n ≤ r.length then .element (Ber.identifierSpan (b :: bs)).1 (r.take n) (r.drop n)
        else .truncated (Ber.identifierSpan (b :: bs)).1 n r

theorem reading_eq_zero {b : UInt8} {bs r : List UInt8} (h : reading b bs = .zero r) :
    b = 0 ∧ bs = r := by
  unfold reading at h
  split_ifs at h with hb
  · exact ⟨hb, by simpa using h⟩
  · split at h
    · simp at h
    · split_ifs at h

theorem reading_eq_noLength {b : UInt8} {bs i r : List UInt8} (h : reading b bs = .noLength i r) :
    b ≠ 0 ∧ Ber.identifierSpan (b :: bs) = (i, r) ∧ Ber.readLength 4 r = none := by
  unfold reading at h
  split_ifs at h with hb
  split at h
  · rename_i hlen
    obtain ⟨rfl, rfl⟩ := Reading.noLength.inj h
    exact ⟨hb, rfl, hlen⟩
  · split_ifs at h

theorem reading_eq_truncated {b : UInt8} {bs i r : List UInt8} {n : ℕ}
    (h : reading b bs = .truncated i n r) :
    b ≠ 0 ∧ ∃ r₀, Ber.identifierSpan (b :: bs) = (i, r₀) ∧ Ber.readLength 4 r₀ = some (n, r)
      ∧ r.length < n := by
  unfold reading at h
  split_ifs at h with hb
  split at h
  · simp at h
  · rename_i hlen
    split_ifs at h with hle
    obtain ⟨rfl, rfl, rfl⟩ := Reading.truncated.inj h
    exact ⟨hb, _, rfl, hlen, Nat.not_le.mp hle⟩

theorem reading_eq_element {b : UInt8} {bs i c r : List UInt8}
    (h : reading b bs = .element i c r) :
    b ≠ 0 ∧ ∃ r₀, Ber.identifierSpan (b :: bs) = (i, r₀)
      ∧ Ber.readLength 4 r₀ = some (c.length, c ++ r) := by
  unfold reading at h
  split_ifs at h with hb
  split at h
  · simp at h
  · rename_i n r' hlen
    split_ifs at h with hle
    obtain ⟨rfl, rfl, rfl⟩ := Reading.element.inj h
    refine ⟨hb, (Ber.identifierSpan (b :: bs)).2, rfl, ?_⟩
    rw [List.length_take, Nat.min_eq_left hle, List.take_append_drop, hlen]

/-- What follows a reading. -/
def Reading.rest : Reading → List UInt8
  | .zero r | .element _ _ r | .noLength _ r | .truncated _ _ r => r

/-- Every reading consumes an octet, an element also its content and a length octet. -/
theorem length_rest_reading (b : UInt8) (bs : List UInt8) :
    (reading b bs).rest.length ≤ bs.length := by
  have hspan := Ber.length_identifierSpan b bs
  rcases h : reading b bs with r | ⟨i, c, r⟩ | ⟨i, r⟩ | ⟨i, n, r⟩
  · obtain ⟨-, rfl⟩ := reading_eq_zero h
    exact le_refl _
  · obtain ⟨-, r₀, hi, hlen⟩ := reading_eq_element h
    have := Ber.readLength_length hlen
    rw [List.length_append] at this
    simp only [hi, Reading.rest] at hspan ⊢
    omega
  · obtain ⟨-, hi, -⟩ := reading_eq_noLength h
    simpa only [hi, Reading.rest] using hspan
  · obtain ⟨-, r₀, hi, hlen, -⟩ := reading_eq_truncated h
    have := Ber.readLength_length hlen
    simp only [hi, Reading.rest] at hspan ⊢
    omega

/-- A reading is taken off the front. -/
theorem rest_suffix_reading (b : UInt8) (bs : List UInt8) :
    (reading b bs).rest <:+ b :: bs := by
  have hspan : (Ber.identifierSpan (b :: bs)).2 <:+ b :: bs :=
    ⟨_, Ber.identifierSpan_append (b :: bs)⟩
  rcases h : reading b bs with r | ⟨i, c, r⟩ | ⟨i, r⟩ | ⟨i, n, r⟩
  · obtain ⟨-, rfl⟩ := reading_eq_zero h
    exact List.suffix_cons b bs
  · obtain ⟨-, r₀, hi, hlen⟩ := reading_eq_element h
    obtain ⟨o, ho, -⟩ := Ber.readLength_sound hlen
    rw [hi] at hspan
    refine List.IsSuffix.trans ⟨o ++ c, ?_⟩ hspan
    simp [ho, Reading.rest]
  · obtain ⟨-, hi, -⟩ := reading_eq_noLength h
    rwa [hi] at hspan
  · obtain ⟨-, r₀, hi, hlen, -⟩ := reading_eq_truncated h
    obtain ⟨o, ho, -⟩ := Ber.readLength_sound hlen
    rw [hi] at hspan
    exact List.IsSuffix.trans ⟨o, ho.symm⟩ hspan

theorem length_content_reading {b : UInt8} {bs i c r : List UInt8}
    (h : reading b bs = .element i c r) : c.length + r.length < bs.length := by
  have hspan := Ber.length_identifierSpan b bs
  obtain ⟨-, r₀, hi, hlen⟩ := reading_eq_element h
  have := Ber.readLength_length hlen
  rw [List.length_append] at this
  simp only [hi] at hspan
  omega

/-- A content has at most `2 ^ 32 - 1` octets, so its length fits `tlv.L`. -/
theorem toNat_content_length {b : UInt8} {bs i c r : List UInt8}
    (h : reading b bs = .element i c r) : (UInt32.ofNat c.length).toNat = c.length := by
  obtain ⟨-, r₀, -, hlen⟩ := reading_eq_element h
  have hlt := Ber.readLength_lt (by norm_num) hlen
  norm_num at hlt
  exact UInt32.toNat_ofNat_of_lt' hlt

theorem declared_lt_reading {b : UInt8} {bs i r : List UInt8} {n : ℕ}
    (h : reading b bs = .truncated i n r) : n < 2 ^ 32 := by
  obtain ⟨-, r₀, -, hlen, -⟩ := reading_eq_truncated h
  have hlt := Ber.readLength_lt (by norm_num) hlen
  norm_num at hlt
  exact hlt

/-- The readings that are elements are those of the grammar. -/
theorem reading_element_iff {b : UInt8} {bs i c r : List UInt8} :
    reading b bs = .element i c r ↔ Ber.Element 4 (b :: bs) i c r := by
  rw [← Ber.readElement_eq_some_iff, reading, Ber.readElement]
  by_cases hb : b = 0
  · simp [hb]
  · rw [if_neg hb, if_neg (by simpa using hb)]
    rcases Ber.readLength 4 (Ber.identifierSpan (b :: bs)).2 with _ | ⟨n, r'⟩
    · simp
    · by_cases hle : n ≤ r'.length <;> simp [hle]

/-- The number `parseTLV` makes of identifier octets. -/
def tagValue (i : List UInt8) : UInt32 := shiftIn 0 i

theorem tagValue_cons (b : UInt8) (bs : List UInt8) :
    tagValue (b :: bs) = shiftIn b.toUInt32 bs := by
  rw [tagValue, shiftIn_cons]
  simp

/-- An identifier never comes out as zero, however many of its octets are shifted out. -/
theorem tagValue_span_ne_zero {b : UInt8} (bs : List UInt8) (hb : b ≠ 0) :
    tagValue (Ber.identifierSpan (b :: bs)).1 ≠ 0 := by
  intro hzero
  have hmod : Ber.bigEndian (Ber.identifierSpan (b :: bs)).1 % 2 ^ 32 = 0 := by
    have := congrArg UInt32.toNat hzero
    rwa [tagValue, toNat_shiftIn, UInt32.toNat_zero, Nat.zero_mul, Nat.zero_add] at this
  rcases List.eq_nil_or_concat (Ber.identifierSpan (b :: bs)).1 with hnil | ⟨pre, y, hpre⟩
  · have hspan := hnil
    rw [Ber.identifierSpan] at hspan
    split at hspan <;> simp at hspan
  · rcases List.eq_nil_or_concat pre with rfl | ⟨pre, x, rfl⟩
    · -- one octet: it is `b`
      have hby : b = y := by
        have hhead := congrArg List.head? (Ber.identifierSpan_append (b :: bs))
        rw [hpre] at hhead
        simpa using hhead.symm
      subst hby
      rw [hpre, List.concat_eq_append] at hmod
      have hlt : b.toNat < 256 := b.toNat_lt
      have hval : Ber.bigEndian ([] ++ [b]) = b.toNat := by
        rw [Ber.bigEndian_concat, Ber.bigEndian_nil]
        omega
      rw [hval] at hmod
      apply hb
      apply UInt8.toNat_inj.mp
      rw [UInt8.toNat_zero]
      omega
    · -- the last two octets stay in the accumulator
      have hpair : (Ber.identifierSpan (b :: bs)).1 = pre ++ [x, y] := by simpa using hpre
      have hx := Ber.identifierSpan_ne_zero hb hpair
      have hy : y.toNat < 256 := y.toNat_lt
      have hxlt : x.toNat < 256 := x.toNat_lt
      rw [hpre, List.concat_eq_append, List.concat_eq_append, Ber.bigEndian_concat,
        Ber.bigEndian_concat] at hmod
      apply hx
      apply UInt8.toNat_inj.mp
      rw [UInt8.toNat_zero]
      omega

theorem parseTag_eq {data : Vec abi} {offset : ℕ} {b : UInt8} {bs : List UInt8}
    (hoff : offset ≤ data.size) (h : data.bytes.drop offset = b :: bs) :
    parseTag data (offset + 1) b
      = .ok (data.size - (Ber.identifierSpan (b :: bs)).2.length,
          tagValue (Ber.identifierSpan (b :: bs)).1) := by
  obtain ⟨hpos, hle, hdrop⟩ := offset_of_drop_cons hoff h
  rw [Ber.identifierSpan, parseTag]
  by_cases hb : b &&& 0x1F = 0x1F
  · rw [if_pos hb, if_pos hb, tagLoop_eq bs _ hle hdrop, tagValue_cons]
  · rw [if_neg hb, if_neg hb, tagValue_cons, hpos]
    rfl

/-- The position `parseTLV` has reached after the identifier. -/
theorem drop_identifierSpan {data : Vec abi} {offset : ℕ} {b : UInt8} {bs : List UInt8}
    (hoff : offset ≤ data.size) (h : data.bytes.drop offset = b :: bs) :
    data.bytes.drop (data.size - (Ber.identifierSpan (b :: bs)).2.length)
      = (Ber.identifierSpan (b :: bs)).2 := by
  rw [← Ber.identifierSpan_append (b :: bs)] at h
  obtain ⟨hpos, -, hdrop⟩ := offset_of_drop hoff h
  rwa [← hpos]

/-- `parseTLV` up to the length octets. -/
theorem parseTLV_unfold {data : Vec abi} {offset : ℕ} {b : UInt8} {bs : List UInt8}
    (hoff : offset ≤ data.size) (h : data.bytes.drop offset = b :: bs) (hb : b ≠ 0) :
    parseTLV data offset =
      (do
        let oldOffset := data.size - (Ber.identifierSpan (b :: bs)).2.length
        let T := tagValue (Ber.identifierSpan (b :: bs)).1
        let lenVal ← parseBERLength data oldOffset 0
        if lenVal.ret = oldOffset then
          return (oldOffset, ⟨T, 0, Vec.empty⟩)
        if data.size < abi.wrap (lenVal.ret + lenVal.outLen.toNat) then
          return (lenVal.ret, ⟨T, 0, Vec.empty⟩)
        let V ← data.slice lenVal.ret lenVal.outLen.toNat
        return (abi.wrap (lenVal.ret + lenVal.outLen.toNat), ⟨T, lenVal.outLen, V⟩)) := by
  have hlt : offset + 1 ≤ data.size :=
    (offset_of_drop_cons hoff h).2.1
  rw [parseTLV, if_neg (by omega), Vec.read_of_drop h, Except.ok_bind, if_neg hb,
    data.wrap_near (by omega), parseTag_eq hoff h]
  rfl

/-- The offset after a length, seen from the offset after the identifier. -/
theorem lengthEnd {data : Vec abi} {start n : ℕ} {r : List UInt8} (hstart : start ≤ data.size)
    (h : Ber.readLength 4 (data.bytes.drop start) = some (n, r)) :
    start < data.size - r.length ∧ r.length ≤ data.size
      ∧ data.bytes.drop (data.size - r.length) = r ∧ n < 2 ^ 32 := by
  have hlt := Ber.readLength_lt (by norm_num) h
  obtain ⟨o, hdrop, ho⟩ := Ber.readLength_sound h
  obtain ⟨hpos, hle, hrest⟩ := offset_of_drop hstart hdrop
  have hlen := ho.length_pos
  rw [← hpos]
  exact ⟨by omega, by omega, hrest, by norm_num at hlt; exact hlt⟩

theorem parseTLV_zero {data : Vec abi} {offset : ℕ} {b : UInt8} {bs r : List UInt8}
    (hoff : offset ≤ data.size) (h : data.bytes.drop offset = b :: bs)
    (hread : reading b bs = .zero r) :
    parseTLV data offset = .ok (offset + 1, TLV.zero) := by
  have hlt : offset + 1 ≤ data.size :=
    (offset_of_drop_cons hoff h).2.1
  rw [parseTLV, if_neg (by omega), Vec.read_of_drop h, Except.ok_bind,
    if_pos (reading_eq_zero hread).1, data.wrap_near (by omega)]
  rfl

/-- With no length after the identifier, the identifier is reported with length zero. -/
theorem parseTLV_noLength {data : Vec abi} {offset : ℕ} {b : UInt8} {bs i r : List UInt8}
    (hoff : offset ≤ data.size) (h : data.bytes.drop offset = b :: bs)
    (hread : reading b bs = .noLength i r) :
    parseTLV data offset = .ok (data.size - r.length, ⟨tagValue i, 0, Vec.empty⟩) := by
  obtain ⟨hb, hspan, hlen⟩ := reading_eq_noLength hread
  have hdrop := drop_identifierSpan hoff h
  rw [parseTLV_unfold hoff h hb]
  simp only [hspan] at hdrop ⊢
  rw [← hdrop] at hlen
  obtain ⟨byRef, hber⟩ := parseBERLength_none 0 (Nat.sub_le _ _) hlen
  rw [hber, Except.ok_bind, if_pos rfl]
  rfl

section

variable {data : Vec abi} {offset n : ℕ} {b : UInt8} {bs i r₀ r : List UInt8}

/-- Where a length after the identifier ends. -/
theorem length_of_span (hoff : offset ≤ data.size) (h : data.bytes.drop offset = b :: bs)
    (hspan : Ber.identifierSpan (b :: bs) = (i, r₀)) (hlen : Ber.readLength 4 r₀ = some (n, r)) :
    data.size - r₀.length < data.size - r.length ∧ r.length ≤ data.size
      ∧ data.bytes.drop (data.size - r.length) = r ∧ n < 2 ^ 32 := by
  have hdrop := drop_identifierSpan hoff h
  simp only [hspan] at hdrop
  rw [← hdrop] at hlen
  exact lengthEnd (Nat.sub_le _ _) hlen

/-- `parseTLV` from the end of a length on: the check of the content, and its copy. -/
theorem parseTLV_length (hoff : offset ≤ data.size) (h : data.bytes.drop offset = b :: bs)
    (hb : b ≠ 0) (hspan : Ber.identifierSpan (b :: bs) = (i, r₀))
    (hlen : Ber.readLength 4 r₀ = some (n, r)) :
    parseTLV data offset =
      (do
        if data.size < abi.wrap (data.size - r.length + n) then
          return (data.size - r.length, ⟨tagValue i, 0, Vec.empty⟩)
        let V ← data.slice (data.size - r.length) n
        return (abi.wrap (data.size - r.length + n), ⟨tagValue i, UInt32.ofNat n, V⟩)) := by
  obtain ⟨hlt, -, -, hn⟩ := length_of_span hoff h hspan hlen
  have hval : (UInt32.ofNat n).toNat = n := UInt32.toNat_ofNat_of_lt' hn
  have hdrop := drop_identifierSpan hoff h
  rw [parseTLV_unfold hoff h hb]
  simp only [hspan] at hdrop ⊢
  rw [← hdrop] at hlen
  rw [parseBERLength_some 0 hlen, Except.ok_bind]
  dsimp only
  rw [if_neg hlt.ne', hval]

/-- With less content than the length says, the element is reported with length zero and
`parseTLV` stops after the length, provided the sum of the check does not wrap. -/
theorem parseTLV_truncated (hoff : offset ≤ data.size) (h : data.bytes.drop offset = b :: bs)
    (hread : reading b bs = .truncated i n r)
    (hfit : data.size - r.length + n < 2 ^ abi.sizeBits) :
    parseTLV data offset = .ok (data.size - r.length, ⟨tagValue i, 0, Vec.empty⟩) := by
  obtain ⟨hb, r₀, hspan, hlen, hshort⟩ := reading_eq_truncated hread
  obtain ⟨-, hle, -, -⟩ := length_of_span hoff h hspan hlen
  rw [parseTLV_length hoff h hb hspan hlen, Abi.wrap_of_lt hfit, if_pos (by omega)]
  rfl

/-- When the sum wraps the check passes, and the copy does not end inside the buffer. -/
theorem parseTLV_wraps (hoff : offset ≤ data.size) (h : data.bytes.drop offset = b :: bs)
    (hread : reading b bs = .truncated i n r)
    (hwrap : 2 ^ abi.sizeBits ≤ data.size - r.length + n) :
    parseTLV data offset = .error (.copy (data.size - r.length) n data.size) := by
  obtain ⟨hb, r₀, hspan, hlen, hshort⟩ := reading_eq_truncated hread
  obtain ⟨-, hle, -, hn⟩ := length_of_span hoff h hspan hlen
  -- a sum that wraps once ends up below the offset, which is inside the buffer
  have hpass : abi.wrap (data.size - r.length + n) ≤ data.size := by
    have hbits : 2 ^ 32 ≤ 2 ^ abi.sizeBits := by cases abi <;> decide
    have hsize := data.wrap_near (n := data.size) (by omega)
    rw [Abi.wrap] at hsize ⊢
    rw [Nat.mod_eq_sub_mod hwrap]
    exact (Nat.mod_le _ _).trans (by omega)
  rw [parseTLV_length hoff h hb hspan hlen, if_neg (Nat.not_lt.mpr hpass),
    Vec.slice_of_lt (by omega)]
  rfl

/-- A complete element is reported as it is. -/
theorem parseTLV_element {V : Vec abi} (hoff : offset ≤ data.size)
    (h : data.bytes.drop offset = b :: bs) (hread : reading b bs = .element i V.bytes r) :
    parseTLV data offset
      = .ok (data.size - r.length, ⟨tagValue i, UInt32.ofNat V.size, V⟩) := by
  obtain ⟨hb, r₀, hspan, hlen⟩ := reading_eq_element hread
  obtain ⟨-, hle, hrest, -⟩ := length_of_span hoff h hspan hlen
  rw [List.length_append, Vec.length_bytes] at hle
  have hend : data.size - (V.bytes ++ r).length + V.size = data.size - r.length := by
    rw [List.length_append, Vec.length_bytes]
    omega
  have hroom : data.size - (V.bytes ++ r).length + V.size ≤ data.size := by omega
  obtain ⟨W, hslice, hW, -⟩ := Vec.slice_of_le hroom
  have hWV : W = V := by
    apply Vec.ext
    rw [hW, hrest, ← Vec.length_bytes, List.take_left]
  subst hWV
  rw [parseTLV_length hoff h hb hspan hlen, Vec.length_bytes, hend, data.wrap_near (by omega),
    if_neg (by omega), hslice]
  rfl

end

end V1Sig
