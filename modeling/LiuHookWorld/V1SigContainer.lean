/-
# Constructed elements and container tags

Whether an element is constructed is a bit of its leading identifier octet.  The dump
decides by `isContainerTag`, a test on the number made of all identifier octets: it knows
`SEQUENCE`, `SET` and the context-specific class among one-octet identifiers, and looks at
the last octet of longer ones.
-/
import LiuHookWorld.V1SigParse

namespace V1Sig

variable {abi : Abi}

/-- Bit `0x20` of the leading identifier octet. -/
def constructed : List UInt8 → Bool
  | [] => false
  | b :: _ => b &&& 0x20 != 0

/-- One identifier octet that says `SEQUENCE`, `SET` or the context-specific class. -/
def KnownOctet (i : List UInt8) : Prop :=
  ∃ b, i = [b] ∧ (b = 0x30 ∨ b = 0x31 ∨ b &&& 0xC0 = 0x80)

/-! ## Identifiers of one octet -/

/-- Among one-octet identifiers the known ones are told apart by the constructed bit, and
the others are never containers. -/
theorem isContainerTag_low {b : UInt8} (hlow : b &&& 0x1F ≠ 0x1F) :
    isContainerTag b.toUInt32 = true
      ↔ b &&& 0x20 ≠ 0 ∧ (b = 0x30 ∨ b = 0x31 ∨ b &&& 0xC0 = 0x80) := by
  revert hlow
  induction b using Ber.forall_octet with
  | h n =>
      -- there are 256 octets to try
      revert n
      decide +kernel

/-! ## Longer identifiers -/

theorem tagValue_concat (i : List UInt8) (e : UInt8) :
    tagValue (i ++ [e]) = tagValue i <<< 8 ||| e.toUInt32 := by
  rw [tagValue, shiftIn, List.foldl_append]
  rfl

/-- Bit 7 of the number is bit 7 of the last octet. -/
theorem testBit_tagValue {e : UInt8} (i : List UInt8) (he : e &&& 0x80 = 0) :
    (tagValue (i ++ [e])).toNat.testBit 7 = false := by
  have hlt := (Ber.and_80_eq_zero_iff e).mp he
  rw [tagValue_concat, toNat_shift_or, Nat.testBit_eq_decide_div_mod_eq]
  simp only [decide_eq_false_iff_not]
  omega

/-- A number without bit 7 has it under no mask. -/
theorem and_ne_of_testBit {T mask v : UInt32} (hT : T.toNat.testBit 7 = false)
    (hv : v.toNat.testBit 7 = true) : T &&& mask ≠ v := by
  rintro rfl
  rw [UInt32.toNat_and, Nat.testBit_and, hT] at hv
  simp at hv

/-- The last two octets stay in the number. -/
theorem tagValue_ge {i : List UInt8} {x e : UInt8} (hx : x ≠ 0) :
    256 ≤ (tagValue (i ++ [x] ++ [e])).toNat := by
  have hpos : 0 < x.toNat := by
    rw [Nat.pos_iff_ne_zero]
    intro h
    exact hx (UInt8.toNat_inj.mp h)
  have hxlt := x.toNat_lt
  have helt := e.toNat_lt
  rw [tagValue_concat, toNat_shift_or, tagValue_concat, toNat_shift_or]
  omega

/-- An identifier of several octets is never a container. -/
theorem isContainerTag_high {i : List UInt8} {x e : UInt8} (hx : x ≠ 0) (he : e &&& 0x80 = 0) :
    isContainerTag (tagValue (i ++ [x] ++ [e])) = false := by
  have hge := tagValue_ge (i := i) (e := e) hx
  have hbit := testBit_tagValue (i ++ [x]) he
  generalize tagValue (i ++ [x] ++ [e]) = T at hge hbit
  have hSeq : T ≠ 0x30 := by
    rintro rfl
    exact absurd hge (by decide)
  have hSet : T ≠ 0x31 := by
    rintro rfl
    exact absurd hge (by decide)
  have hC0 : T &&& 0xC0 ≠ 0x80 := and_ne_of_testBit hbit (by decide)
  have hE0 : T &&& 0xE0 ≠ 0xA0 := and_ne_of_testBit hbit (by decide)
  simp [isContainerTag, hSeq, hSet, hC0, hE0]

/-- The octet before the last one of a long identifier is not zero. -/
theorem exists_concat_of_high {b e : UInt8} {cs : List UInt8} (hb : b &&& 0x1F = 0x1F)
    (hcs : ∀ c ∈ cs, c &&& 0x80 ≠ 0) : ∃ pre x, b :: (cs ++ [e]) = pre ++ [x] ++ [e] ∧ x ≠ 0 := by
  rcases List.eq_nil_or_concat cs with rfl | ⟨cs, c, rfl⟩
  · refine ⟨[], b, rfl, ?_⟩
    rintro rfl
    exact absurd hb (by decide)
  · refine ⟨b :: cs, c, by simp, ?_⟩
    rintro rfl
    exact hcs 0 (by simp) rfl

/-- The containers are the constructed elements with a known octet. -/
theorem isContainerTag_iff {i : List UInt8} (hi : Ber.Identifier i) :
    isContainerTag (tagValue i) = true ↔ constructed i = true ∧ KnownOctet i := by
  cases hi with
  | @low b _ hlow =>
      have hT : tagValue [b] = b.toUInt32 := by
        rw [tagValue_cons]
        rfl
      rw [hT, isContainerTag_low hlow]
      simp [constructed, KnownOctet]
  | @high b e cs hb hcs he =>
      obtain ⟨pre, x, heq, hx⟩ := exists_concat_of_high (e := e) hb hcs
      have hunknown : ¬ KnownOctet (b :: (cs ++ [e])) := by
        rintro ⟨b', h, -⟩
        simp at h
      rw [heq, isContainerTag_high hx he, ← heq]
      simp [hunknown]

/-! ## Containers and constructed elements -/

/-- **Containers.**  The tag code makes `tagValue i` of identifier octets `i`, and the dump
descends into the content of an element when `isContainerTag` holds of it; that is when the
element is constructed if and only if it is primitive or has a known octet. -/
theorem isContainerTag_iff_constructed {i : List UInt8} (hi : Ber.Identifier i) :
    (∀ (data : Vec abi) (offset : ℕ) (b : UInt8) (bs r : List UInt8), i = b :: bs →
        data.bytes.drop offset = i ++ r →
        parseTag data (offset + 1) b = .ok (offset + i.length, tagValue i))
      ∧ (∀ (data V : Vec abi) (depth offset : ℕ) (r : List UInt8),
        Ber.Element 4 (data.bytes.drop offset) i V.bytes r →
        parseFrom data depth offset = (do
          let inner ← (if isContainerTag (tagValue i) then parseFrom V (depth + 1) 0 else .ok [])
          let next ← parseFrom data depth (data.size - r.length)
          return ⟨depth, data, offset, data.size - r.length,
            ⟨tagValue i, UInt32.ofNat V.size, V⟩⟩ :: (inner ++ next)))
      ∧ ((isContainerTag (tagValue i) = true ↔ constructed i = true)
        ↔ constructed i = false ∨ KnownOctet i) := by
  refine ⟨?_, ?_, ?_⟩
  · rintro data offset b bs r rfl hdrop
    have hoff := lt_of_drop_cons hdrop
    obtain ⟨hpos, -, -⟩ := offset_of_drop hoff.le hdrop
    have hspan := Ber.identifierSpan_eq hi r
    have htag := parseTag_eq hoff.le hdrop
    rw [List.cons_append] at hspan
    rw [List.append_eq, hspan, ← hpos] at htag
    exact htag
  · intro data V depth offset r helem
    obtain ⟨o, heq, -, -⟩ := id helem
    obtain ⟨b, bs, rfl, -⟩ := hi.exists_cons
    have hdrop : data.bytes.drop offset = b :: (bs ++ o ++ V.bytes ++ r) := by simpa using heq
    rw [hdrop] at helem
    exact parseFrom_element (lt_of_drop_cons hdrop) hdrop (reading_element_iff.mpr helem)
  · rw [isContainerTag_iff hi]
    cases constructed i <;> simp

/-- The theorem at a `SEQUENCE`. -/
theorem isContainerTag_iff_constructed_sequence :
    (isContainerTag (tagValue [0x30]) = true ↔ constructed [0x30] = true)
      ↔ constructed [0x30] = false ∨ KnownOctet [0x30] :=
  (@isContainerTag_iff_constructed .arm64_v8a _ (.low (by decide) (by decide))).2.2

/-- `60` is `[APPLICATION 0]`, constructed, and no container. -/
theorem not_container_application :
    Ber.Identifier [0x60] ∧ constructed [0x60] = true ∧ isContainerTag (tagValue [0x60]) = false :=
  ⟨.low (by decide) (by decide), by decide, by decide⟩

end V1Sig
