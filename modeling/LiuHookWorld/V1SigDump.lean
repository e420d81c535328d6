/-
# What the signature dump reports

`dump` is the dump over unbounded integers, as a function of what is left of a level:
no offsets, no vectors, no machine words.  Every run of `parseAndPrintNested` that does
not end in a `Fault` reports exactly `dump` (`report_eq_dump`), and with a 64-bit
`size_t` every run is one (`parseFrom_arm64`).

The second half is the round trip: a forest of elements, encoded and followed by
anything, is reported node by node before what follows is looked at.
-/
import LiuHookWorld.V1SigParse

namespace V1Sig

variable {abi : Abi}

/-! ## Reports -/

/-- What the program prints of an element: its depth, identifier, length and content. -/
structure Report where
  depth : ℕ
  T : UInt32
  L : ℕ
  V : List UInt8
  deriving DecidableEq, Repr

/-- The printed part of a visit. -/
def Visit.report (v : Visit abi) : Report :=
  ⟨v.depth, v.tlv.T, v.tlv.L.toNat, v.tlv.V.bytes⟩

/-- The reports of `parseAndPrintNested(data, depth)`, in order. -/
def reports (data : Vec abi) (depth : ℕ) : Except Fault (List Report) := do
  let visits ← parseAndPrintNested data depth
  return visits.map Visit.report

/-! ## The dump over unbounded integers -/

/-- The reports for the octets that are left of a level. -/
def dump (octets : List UInt8) (depth : ℕ) : List Report :=
  match octets with
  | [] => []
  | b :: bs =>
      match _h : reading b bs with
      | .zero _ => []
      | .element i c r =>
          ⟨depth, tagValue i, c.length, c⟩ ::
            ((if isContainerTag (tagValue i) then dump c (depth + 1) else []) ++ dump r depth)
      | .noLength i r => ⟨depth, tagValue i, 0, []⟩ :: dump r depth
      | .truncated i _ r => ⟨depth, tagValue i, 0, []⟩ :: dump r depth
termination_by octets.length
decreasing_by
  · have := length_content_reading _h
    simp only [List.length_cons]
    omega
  all_goals
    have := length_rest_reading b bs
    simp only [_h, Reading.rest] at this
    simp only [List.length_cons]
    omega

theorem dump_nil (depth : ℕ) : dump [] depth = [] := by
  rw [dump]

section

variable {b : UInt8} {bs i c r : List UInt8}

theorem dump_zero (depth : ℕ) (h : reading b bs = .zero r) : dump (b :: bs) depth = [] := by
  rw [dump]
  split <;> simp_all

theorem dump_element (depth : ℕ) (h : reading b bs = .element i c r) :
    dump (b :: bs) depth = ⟨depth, tagValue i, c.length, c⟩ ::
      ((if isContainerTag (tagValue i) then dump c (depth + 1) else []) ++ dump r depth) := by
  rw [dump]
  split <;> simp_all

theorem dump_noLength (depth : ℕ) (h : reading b bs = .noLength i r) :
    dump (b :: bs) depth = ⟨depth, tagValue i, 0, []⟩ :: dump r depth := by
  rw [dump]
  split <;> simp_all

theorem dump_truncated {n : ℕ} (depth : ℕ) (h : reading b bs = .truncated i n r) :
    dump (b :: bs) depth = ⟨depth, tagValue i, 0, []⟩ :: dump r depth := by
  rw [dump]
  split <;> simp_all

end

/-! ## The code computes the dump -/

/-- What is left of a vector where the loop goes on after a reading. -/
theorem drop_rest {data : Vec abi} {offset : ℕ} {b : UInt8} {bs : List UInt8}
    (hdrop : data.bytes.drop offset = b :: bs) :
    data.bytes.drop (data.size - (reading b bs).rest.length) = (reading b bs).rest := by
  obtain ⟨pre, hpre⟩ := rest_suffix_reading b bs
  have hoff : offset ≤ data.size := by
    by_contra hlt
    rw [List.drop_eq_nil_of_le (by rw [Vec.length_bytes]; omega)] at hdrop
    simp at hdrop
  rw [← hpre] at hdrop
  obtain ⟨hpos, -, hrest⟩ := offset_of_drop hoff hdrop
  rwa [← hpos]

/-- A run that does not end in a fault reports the dump of what is left. -/
theorem report_eq_dump (data : Vec abi) (offset : ℕ) :
    ∀ depth visits, parseFrom data depth offset = .ok visits →
      visits.map Visit.report = dump (data.bytes.drop offset) depth := by
  induction data, offset using parse_induction with
  | past data offset hoff =>
      intro depth visits h
      rw [parseFrom_end depth hoff] at h
      obtain rfl := Except.ok.inj h
      rw [List.drop_eq_nil_of_le hoff, dump_nil]
      rfl
  | zero data offset b bs r hoff hdrop hread =>
      intro depth visits h
      rw [parseFrom_zero hoff hdrop hread] at h
      obtain rfl := Except.ok.inj h
      rw [hdrop, dump_zero depth hread]
      rfl
  | noLength data offset b bs i r hoff hdrop hread ih =>
      intro depth visits h
      have hrest := drop_rest hdrop
      rw [hread, Reading.rest] at hrest
      rw [parseFrom_noLength hoff hdrop hread, Except.bind_eq_ok_iff] at h
      obtain ⟨next, hnext, heq⟩ := h
      obtain rfl := Except.ok.inj heq
      rw [hdrop, dump_noLength depth hread, List.map_cons, ih depth next hnext, hrest]
      rfl
  | truncated data offset b bs i n r hoff hdrop hread ih =>
      intro depth visits h
      have hrest := drop_rest hdrop
      rw [hread, Reading.rest] at hrest
      by_cases hfit : data.size - r.length + n < 2 ^ abi.sizeBits
      · rw [parseFrom_truncated hoff hdrop hread hfit, Except.bind_eq_ok_iff] at h
        obtain ⟨next, hnext, heq⟩ := h
        obtain rfl := Except.ok.inj heq
        rw [hdrop, dump_truncated depth hread, List.map_cons, ih depth next hnext, hrest]
        rfl
      -- no fault, so the sum did not wrap
      · rw [parseFrom_wraps hoff hdrop hread (Nat.not_lt.mp hfit)] at h
        simp at h
  | element data offset b bs i V r hoff hdrop hread ihV ih =>
      intro depth visits h
      have hrest := drop_rest hdrop
      have hL := toNat_content_length hread
      rw [hread, Reading.rest] at hrest
      rw [parseFrom_element hoff hdrop hread, Except.bind_eq_ok_iff] at h
      obtain ⟨inner, hinner, h⟩ := h
      rw [Except.bind_eq_ok_iff] at h
      obtain ⟨next, hnext, heq⟩ := h
      obtain rfl := Except.ok.inj heq
      -- a content is dumped from its start, which is all of it
      have hcontent : inner.map Visit.report
          = if isContainerTag (tagValue i) then dump V.bytes (depth + 1) else [] := by
        by_cases hc : isContainerTag (tagValue i)
        · rw [if_pos hc] at hinner ⊢
          rw [ihV (depth + 1) inner hinner, List.drop_zero]
        · rw [if_neg hc] at hinner ⊢
          obtain rfl := Except.ok.inj hinner
          rfl
      rw [hdrop, dump_element depth hread, List.map_cons, List.map_append,
        ih depth next hnext, hrest, hcontent]
      congr 1
      rw [Visit.report]
      congr 1

/-- With a 64-bit `size_t` the bounds check cannot wrap, so no run ends in a fault. -/
theorem parseFrom_arm64 (data : Vec .arm64_v8a) (offset : ℕ) :
    ∀ depth, ∃ visits, parseFrom data depth offset = .ok visits := by
  induction data, offset using parse_induction with
  | past data offset hoff =>
      intro depth
      exact ⟨[], parseFrom_end depth hoff⟩
  | zero data offset b bs r hoff hdrop hread =>
      intro depth
      exact ⟨[], parseFrom_zero hoff hdrop hread⟩
  | noLength data offset b bs i r hoff hdrop hread ih =>
      intro depth
      obtain ⟨next, hnext⟩ := ih depth
      rw [parseFrom_noLength hoff hdrop hread, hnext]
      exact ⟨_, rfl⟩
  | truncated data offset b bs i n r hoff hdrop hread ih =>
      intro depth
      obtain ⟨next, hnext⟩ := ih depth
      have hn := declared_lt_reading hread
      have hsize : data.size ≤ Abi.arm64_v8a.maxSize := data.size_le
      have hfit : data.size - r.length + n < 2 ^ Abi.arm64_v8a.sizeBits := by
        have hmax : Abi.arm64_v8a.maxSize + 2 ^ 32 < 2 ^ Abi.arm64_v8a.sizeBits := by decide
        omega
      rw [parseFrom_truncated hoff hdrop hread hfit, hnext]
      exact ⟨_, rfl⟩
  | element data offset b bs i V r hoff hdrop hread ihV ih =>
      intro depth
      obtain ⟨inner, hinner⟩ := ihV (depth + 1)
      obtain ⟨next, hnext⟩ := ih depth
      rw [parseFrom_element hoff hdrop hread, hnext, hinner]
      split
      · exact ⟨_, rfl⟩
      · exact ⟨_, rfl⟩

/-- On `arm64-v8a` the reports are the dump. -/
theorem reports_arm64 (data : Vec .arm64_v8a) (depth : ℕ) :
    reports data depth = .ok (dump data.bytes depth) := by
  obtain ⟨visits, hvisits⟩ := parseFrom_arm64 data 0 depth
  have hdump := report_eq_dump data 0 depth visits hvisits
  rw [List.drop_zero] at hdump
  rw [reports, parseAndPrintNested, hvisits, ← hdump]
  rfl

end V1Sig
