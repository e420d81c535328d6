/-
# The recursive signature dump (`parseAndPrintNested`, `v1SigParse`)

`parseAndPrintNested` of `MyHook/utils/v1sigparse.cpp` returns what it reports, in
order.  A `Visit` keeps with the element the vector the loop was reading and the
offsets around it; the program prints only the depth and the element.
-/
import LiuHookWorld.V1SigText

namespace V1Sig

variable {abi : Abi}

/-! ## Progress -/

/-- A position inside a vector has an octet. -/
theorem exists_drop {data : Vec abi} {offset : ℕ} (hoff : offset < data.size) :
    ∃ b bs, data.bytes.drop offset = b :: bs ∧ bs.length + 1 = data.size - offset := by
  have hlen : (data.bytes.drop offset).length = data.size - offset := by simp
  rcases hdrop : data.bytes.drop offset with _ | ⟨b, bs⟩
  · rw [hdrop, List.length_nil] at hlen
    omega
  · refine ⟨b, bs, rfl, ?_⟩
    rw [hdrop, List.length_cons] at hlen
    exact hlen

theorem lt_of_drop_cons {data : Vec abi} {p : ℕ} {b : UInt8} {bs : List UInt8}
    (h : data.bytes.drop p = b :: bs) : p < data.size := by
  by_contra hge
  rw [List.drop_eq_nil_of_le (Nat.not_lt.mp hge)] at h
  simp at h

/-- The content of an element of a vector is a vector. -/
theorem exists_content {data : Vec abi} {offset : ℕ} {b : UInt8} {bs i c r : List UInt8}
    (h : data.bytes.drop offset = b :: bs) (hread : reading b bs = .element i c r) :
    ∃ V : Vec abi, V.bytes = c := by
  have hcontent := length_content_reading hread
  have hlen := congrArg List.length h
  have hsize := data.size_le
  rw [List.length_drop, List.length_cons] at hlen
  exact ⟨⟨c, by omega⟩, rfl⟩

/-- `parseTLV` moves on, stays inside its vector, and cuts contents shorter than what was
left of it. -/
theorem parseTLV_progress {data : Vec abi} {offset newOffset : ℕ} {tlv : TLV abi}
    (hoff : offset < data.size) (h : parseTLV data offset = .ok (newOffset, tlv)) :
    offset < newOffset ∧ newOffset ≤ data.size ∧ tlv.V.size < data.size - offset := by
  obtain ⟨b, bs, hdrop, hlen⟩ := exists_drop hoff
  have hrest := length_rest_reading b bs
  rcases hread : reading b bs with r | ⟨i, c, r⟩ | ⟨i, r⟩ | ⟨i, n, r⟩
  · rw [parseTLV_zero hoff.le hdrop hread] at h
    obtain ⟨rfl, rfl⟩ : offset + 1 = newOffset ∧ TLV.zero = tlv := by simpa using h
    refine ⟨by omega, by omega, ?_⟩
    show 0 < _
    omega
  · obtain ⟨V, rfl⟩ := exists_content hdrop hread
    have hcontent := length_content_reading hread
    rw [parseTLV_element hoff.le hdrop hread] at h
    obtain ⟨rfl, rfl⟩ : data.size - r.length = newOffset ∧ _ = tlv := by simpa using h
    rw [hread, Reading.rest] at hrest
    refine ⟨by omega, by omega, ?_⟩
    show V.bytes.length < _
    omega
  · rw [parseTLV_noLength hoff.le hdrop hread] at h
    obtain ⟨rfl, rfl⟩ : data.size - r.length = newOffset ∧ _ = tlv := by simpa using h
    rw [hread, Reading.rest] at hrest
    refine ⟨by omega, by omega, ?_⟩
    show 0 < _
    omega
  · rw [hread, Reading.rest] at hrest
    by_cases hfit : data.size - r.length + n < 2 ^ abi.sizeBits
    · rw [parseTLV_truncated hoff.le hdrop hread hfit] at h
      obtain ⟨rfl, rfl⟩ : data.size - r.length = newOffset ∧ _ = tlv := by simpa using h
      refine ⟨by omega, by omega, ?_⟩
      show 0 < _
      omega
    · rw [parseTLV_wraps hoff.le hdrop hread (Nat.not_lt.mp hfit)] at h
      simp at h

/-! ## The dump -/

/-- One reported element, with the level it was found in and the offsets around it. -/
structure Visit (abi : Abi) where
  depth : ℕ
  level : Vec abi
  start : ℕ
  stop : ℕ
  tlv : TLV abi
  deriving DecidableEq

/-- The loop of `parseAndPrintNested(data, depth)` from `offset` on. -/
def parseFrom (data : Vec abi) (depth offset : ℕ) : Except Fault (List (Visit abi)) :=
  if _hoff : offset < data.size then
    match _hparse : parseTLV data offset with
    | .error e => .error e
    | .ok (newOffset, tlv) =>
        if newOffset = offset ∨ (tlv.T = 0 ∧ tlv.L = 0) then .ok []
        else do
          let inner ← (if isContainerTag tlv.T then parseFrom tlv.V (depth + 1) 0 else .ok [])
          let next ← parseFrom data depth newOffset
          return ⟨depth, data, offset, newOffset, tlv⟩ :: (inner ++ next)
  else .ok []
termination_by data.size - offset
decreasing_by
  · have := parseTLV_progress _hoff _hparse
    omega
  · have := parseTLV_progress _hoff _hparse
    omega

/-- `parseAndPrintNested(data, depth)`. -/
def parseAndPrintNested (data : Vec abi) (depth : ℕ) : Except Fault (List (Visit abi)) :=
  parseFrom data depth 0

/-- `v1SigParse(data, length)`: the lines it logs. -/
def v1SigParse (buffer : Vec abi) : Except Fault (List String) := do
  let visits ← parseAndPrintNested buffer 0
  return ("=== Start parsing V1 signature (" ++ toString buffer.size ++ " bytes) ===")
    :: (visits.flatMap fun v => reportLines v.depth v.tlv.T v.tlv.L v.tlv.V.bytes)
    ++ ["=== Parsing finished ==="]

/-- A `jbyteArray`: its length is a `jsize`. -/
structure JByteArray where
  bytes : List UInt8
  length_le : bytes.length ≤ 2 ^ 31 - 1

/-- `rsaData`, filled by `GetByteArrayRegion`. -/
def JByteArray.toVec (rsa_bytes : JByteArray) (abi : Abi) : Vec abi :=
  ⟨rsa_bytes.bytes, rsa_bytes.length_le.trans abi.le_maxSize⟩

/-- `nativeParseV1Signature`; `pending` is what `ExceptionCheck` returns. -/
def nativeParseV1Signature (abi : Abi) (pending : Bool) :
    Option JByteArray → Except Fault (List String)
  | none => .ok []
  | some rsa_bytes =>
      if rsa_bytes.bytes.length = 0 then .ok []
      else if pending then .ok []
      else v1SigParse (rsa_bytes.toVec abi)

/-! ## One iteration -/

theorem parseFrom_end {data : Vec abi} {offset : ℕ} (depth : ℕ) (hoff : data.size ≤ offset) :
    parseFrom data depth offset = .ok [] := by
  rw [parseFrom, dif_neg (by omega)]

section

variable {data : Vec abi} {depth offset : ℕ} {b : UInt8} {bs i r : List UInt8}
  (hoff : offset < data.size) (hdrop : data.bytes.drop offset = b :: bs)

include hoff

theorem parseFrom_of_ok {newOffset : ℕ} {tlv : TLV abi}
    (hparse : parseTLV data offset = .ok (newOffset, tlv)) :
    parseFrom data depth offset
      = if newOffset = offset ∨ (tlv.T = 0 ∧ tlv.L = 0) then .ok []
        else do
          let inner ← (if isContainerTag tlv.T then parseFrom tlv.V (depth + 1) 0 else .ok [])
          let next ← parseFrom data depth newOffset
          return ⟨depth, data, offset, newOffset, tlv⟩ :: (inner ++ next) := by
  rw [parseFrom, dif_pos hoff]
  split
  · rename_i h
    rw [hparse] at h
    cases h
  · rename_i h
    rw [hparse] at h
    cases h
    rfl

theorem parseFrom_of_error {e : Fault} (hparse : parseTLV data offset = .error e) :
    parseFrom data depth offset = .error e := by
  rw [parseFrom, dif_pos hoff]
  split
  · rename_i h
    rw [hparse] at h
    cases h
    rfl
  · rename_i h
    rw [hparse] at h
    cases h

/-- What one iteration does with an element that `parseTLV` returned. -/
theorem parseFrom_tlv {newOffset : ℕ} {tlv : TLV abi}
    (hparse : parseTLV data offset = .ok (newOffset, tlv)) (hT : tlv.T ≠ 0) :
    parseFrom data depth offset = (do
      let inner ← (if isContainerTag tlv.T then parseFrom tlv.V (depth + 1) 0 else .ok [])
      let next ← parseFrom data depth newOffset
      return ⟨depth, data, offset, newOffset, tlv⟩ :: (inner ++ next)) := by
  have hlt := (parseTLV_progress hoff hparse).1
  rw [parseFrom_of_ok hoff hparse, if_neg]
  rintro (h | h)
  · omega
  · exact hT h.1

/-- Both kinds of malformed element are reported with length zero, and the loop goes on. -/
theorem parseFrom_malformed {newOffset : ℕ} {T : UInt32}
    (hparse : parseTLV data offset = .ok (newOffset, ⟨T, 0, Vec.empty⟩)) (hT : T ≠ 0) :
    parseFrom data depth offset = (do
      let next ← parseFrom data depth newOffset
      return ⟨depth, data, offset, newOffset, ⟨T, 0, Vec.empty⟩⟩ :: next) := by
  have hinner : (if isContainerTag T then parseFrom (Vec.empty : Vec abi) (depth + 1) 0
      else .ok []) = .ok [] := by
    rw [parseFrom_end _ (Nat.le_refl 0), ite_self]
  rw [parseFrom_tlv hoff hparse hT]
  dsimp only
  rw [hinner]
  rfl

include hdrop

/-- The loop stops at a zero identifier octet. -/
theorem parseFrom_zero (hread : reading b bs = .zero r) :
    parseFrom data depth offset = .ok [] := by
  have hparse := parseTLV_zero hoff.le hdrop hread
  rw [parseFrom_of_ok hoff hparse, if_pos (Or.inr ⟨rfl, rfl⟩)]

theorem parseFrom_noLength (hread : reading b bs = .noLength i r) :
    parseFrom data depth offset = (do
      let next ← parseFrom data depth (data.size - r.length)
      return ⟨depth, data, offset, data.size - r.length, ⟨tagValue i, 0, Vec.empty⟩⟩ :: next) := by
  obtain ⟨hb, hspan, -⟩ := reading_eq_noLength hread
  have hT := tagValue_span_ne_zero bs hb
  rw [hspan] at hT
  exact parseFrom_malformed hoff (parseTLV_noLength hoff.le hdrop hread) hT

theorem parseFrom_truncated {n : ℕ} (hread : reading b bs = .truncated i n r)
    (hfit : data.size - r.length + n < 2 ^ abi.sizeBits) :
    parseFrom data depth offset = (do
      let next ← parseFrom data depth (data.size - r.length)
      return ⟨depth, data, offset, data.size - r.length, ⟨tagValue i, 0, Vec.empty⟩⟩ :: next) := by
  obtain ⟨hb, r₀, hspan, -⟩ := reading_eq_truncated hread
  have hT := tagValue_span_ne_zero bs hb
  rw [hspan] at hT
  exact parseFrom_malformed hoff (parseTLV_truncated hoff.le hdrop hread hfit) hT

/-- The dump ends in a fault where the sum of the bounds check wraps. -/
theorem parseFrom_wraps {n : ℕ} (hread : reading b bs = .truncated i n r)
    (hwrap : 2 ^ abi.sizeBits ≤ data.size - r.length + n) :
    parseFrom data depth offset = .error (.copy (data.size - r.length) n data.size) := by
  exact parseFrom_of_error hoff (parseTLV_wraps hoff.le hdrop hread hwrap)

theorem parseFrom_element {V : Vec abi} (hread : reading b bs = .element i V.bytes r) :
    parseFrom data depth offset = (do
      let inner ← (if isContainerTag (tagValue i) then parseFrom V (depth + 1) 0 else .ok [])
      let next ← parseFrom data depth (data.size - r.length)
      return ⟨depth, data, offset, data.size - r.length, ⟨tagValue i, UInt32.ofNat V.size, V⟩⟩
        :: (inner ++ next)) := by
  obtain ⟨hb, r₀, hspan, -⟩ := reading_eq_element hread
  have hT := tagValue_span_ne_zero bs hb
  rw [hspan] at hT
  exact parseFrom_tlv hoff (parseTLV_element hoff.le hdrop hread) hT

end

/-- Induction along the dump: what holds past the end and at a zero octet, and of a position
when it holds where the loop goes on and at the start of the content it descends into,
holds of every position of every vector. -/
theorem parse_induction {motive : Vec abi → ℕ → Prop}
    (past : ∀ data offset, data.size ≤ offset → motive data offset)
    (zero : ∀ data offset b bs r, offset < data.size → data.bytes.drop offset = b :: bs →
      reading b bs = .zero r → motive data offset)
    (noLength : ∀ data offset b bs i r, offset < data.size → data.bytes.drop offset = b :: bs →
      reading b bs = .noLength i r → motive data (data.size - r.length) → motive data offset)
    (truncated : ∀ data offset b bs i n r, offset < data.size →
      data.bytes.drop offset = b :: bs → reading b bs = .truncated i n r →
      motive data (data.size - r.length) → motive data offset)
    (element : ∀ data offset b bs i V r, offset < data.size → data.bytes.drop offset = b :: bs →
      reading b bs = .element i (Vec.bytes V) r → motive V 0 →
      motive data (data.size - r.length) → motive data offset) :
    ∀ data offset, motive data offset := by
  -- the octets left in a content and after a reading are fewer than those at the position
  suffices h : ∀ m (data : Vec abi) offset, data.size - offset ≤ m → motive data offset from
    fun data offset => h _ data offset (le_refl _)
  intro m
  induction m with
  | zero => intro data offset hm; exact past data offset (by omega)
  | succ m ih =>
      intro data offset hm
      by_cases hoff : offset < data.size
      · obtain ⟨b, bs, hdrop, hlen⟩ := exists_drop hoff
        have hrest := length_rest_reading b bs
        rcases hread : reading b bs with r | ⟨i, c, r⟩ | ⟨i, r⟩ | ⟨i, n, r⟩
        · exact zero data offset b bs r hoff hdrop hread
        · obtain ⟨V, rfl⟩ := exists_content hdrop hread
          have hcontent := length_content_reading hread
          rw [Vec.length_bytes] at hcontent
          exact element data offset b bs i V r hoff hdrop hread (ih V 0 (by omega))
            (ih data _ (by omega))
        · rw [hread, Reading.rest] at hrest
          exact noLength data offset b bs i r hoff hdrop hread (ih data _ (by omega))
        · rw [hread, Reading.rest] at hrest
          exact truncated data offset b bs i n r hoff hdrop hread (ih data _ (by omega))
      · exact past data offset (by omega)

end V1Sig
