/-
# Where in the buffer the dump reports its elements

`parseAndPrintNested` works on copies: every container's content is a vector of its own,
and offsets count from the start of that vector.  `locateFrom` is the same loop with the
position of its vector in the whole buffer handed along.  The positions it finds grow
strictly from one report to the next, through malformed elements and into the copies, so
no octet of the buffer starts two reported elements.
-/
import Mathlib.Data.List.Infix
import Mathlib.Data.List.Perm.Subperm
import LiuHookWorld.V1SigDump

namespace V1Sig

variable {abi : Abi}

/-! ## One element, cut out of its vector -/

/-- `tlv.V` is a copy of the octets before the returned offset, and they start after the
identifier. -/
theorem parseTLV_content {data : Vec abi} {offset newOffset : ℕ} {tlv : TLV abi}
    (hoff : offset < data.size) (h : parseTLV data offset = .ok (newOffset, tlv)) :
    offset + tlv.V.size < newOffset
      ∧ tlv.V.bytes <+: data.bytes.drop (newOffset - tlv.V.size) := by
  have hprogress := (parseTLV_progress hoff h).1
  obtain ⟨b, bs, hdrop, hlen⟩ := exists_drop hoff
  rcases hread : reading b bs with r | ⟨i, c, r⟩ | ⟨i, r⟩ | ⟨i, n, r⟩
  · rw [parseTLV_zero hoff.le hdrop hread] at h
    obtain ⟨rfl, rfl⟩ : offset + 1 = newOffset ∧ TLV.zero = tlv := by simpa using h
    exact ⟨hprogress, List.nil_prefix⟩
  · obtain ⟨V, rfl⟩ := exists_content hdrop hread
    have hcontent := length_content_reading hread
    rw [parseTLV_element hoff.le hdrop hread] at h
    obtain ⟨rfl, rfl⟩ : data.size - r.length = newOffset ∧ _ = tlv := by simpa using h
    rw [Vec.length_bytes] at hcontent
    -- the octets from the position on are identifier and length, content, rest
    obtain ⟨o, heq, -, -⟩ := reading_element_iff.mp hread
    have hsplit : data.bytes.drop offset = (i ++ o) ++ (V.bytes ++ r) := by
      rw [hdrop, heq, List.append_assoc]
    obtain ⟨hpos, -, hrest⟩ := offset_of_drop hoff.le hsplit
    simp only [List.length_append, Vec.length_bytes] at hpos hrest
    have hstart : data.size - r.length - V.size = offset + (i.length + o.length) := by omega
    refine ⟨?_, ?_⟩
    · show offset + V.size < _
      omega
    · show V.bytes <+: data.bytes.drop (data.size - r.length - V.size)
      rw [hstart, hrest]
      exact List.prefix_append _ _
  · rw [parseTLV_noLength hoff.le hdrop hread] at h
    obtain ⟨rfl, rfl⟩ : data.size - r.length = newOffset ∧ _ = tlv := by simpa using h
    exact ⟨hprogress, List.nil_prefix⟩
  · by_cases hfit : data.size - r.length + n < 2 ^ abi.sizeBits
    · rw [parseTLV_truncated hoff.le hdrop hread hfit] at h
      obtain ⟨rfl, rfl⟩ : data.size - r.length = newOffset ∧ _ = tlv := by simpa using h
      exact ⟨hprogress, List.nil_prefix⟩
    · rw [parseTLV_wraps hoff.le hdrop hread (Nat.not_lt.mp hfit)] at h
      simp at h

/-- With a 64-bit `size_t` every call of `parseTLV` returns, and further on than it began. -/
theorem parseTLV_arm64 (data : Vec .arm64_v8a) {offset : ℕ} (hoff : offset < data.size) :
    ∃ newOffset tlv, parseTLV data offset = .ok (newOffset, tlv) ∧ offset < newOffset
      ∧ newOffset ≤ data.size ∧ tlv.V.size < data.size := by
  rcases hparse : parseTLV data offset with e | ⟨newOffset, tlv⟩
  · obtain ⟨visits, hrun⟩ := parseFrom_arm64 data offset 0
    rw [parseFrom_of_error hoff hparse] at hrun
    simp at hrun
  · obtain ⟨hlt, hle, hV⟩ := parseTLV_progress hoff hparse
    exact ⟨newOffset, tlv, rfl, hlt, hle, by omega⟩

/-- Induction along the calls of `parseTLV`: to the offset it returns, and to the start of
the content it cuts out. -/
theorem parseTLV_induction {motive : Vec abi → ℕ → Prop}
    (past : ∀ data offset, data.size ≤ offset → motive data offset)
    (step : ∀ data offset, offset < data.size →
      (∀ newOffset tlv, parseTLV data offset = .ok (newOffset, tlv) →
        motive tlv.V 0 ∧ motive data newOffset) → motive data offset) :
    ∀ data offset, motive data offset := by
  suffices h : ∀ m (data : Vec abi) offset, data.size - offset ≤ m → motive data offset from
    fun data offset => h _ data offset (le_refl _)
  intro m
  induction m with
  | zero => intro data offset hm; exact past data offset (by omega)
  | succ m ih =>
      intro data offset hm
      by_cases hoff : offset < data.size
      · refine step data offset hoff ?_
        intro newOffset tlv hparse
        obtain ⟨hlt, hle, hV⟩ := parseTLV_progress hoff hparse
        exact ⟨ih tlv.V 0 (by omega), ih data newOffset (by omega)⟩
      · exact past data offset (by omega)

/-! ## The loop with positions -/

/-- A reported element with the position of its first identifier octet. -/
structure Located (abi : Abi) where
  position : ℕ
  visit : Visit abi
  deriving DecidableEq

/-- `parseFrom` on a vector that starts at `base` of the whole buffer.  The content it
descends into is the copy of the `tlv.L` octets before `newOffset`. -/
def locateFrom (base : ℕ) (data : Vec abi) (depth offset : ℕ) :
    Except Fault (List (Located abi)) :=
  if _hoff : offset < data.size then
    match _hparse : parseTLV data offset with
    | .error e => .error e
    | .ok (newOffset, tlv) =>
        if newOffset = offset ∨ (tlv.T = 0 ∧ tlv.L = 0) then .ok []
        else do
          let inner ← (if isContainerTag tlv.T then
              locateFrom (base + (newOffset - tlv.V.size)) tlv.V (depth + 1) 0 else .ok [])
          let next ← locateFrom base data depth newOffset
          return ⟨base + offset, ⟨depth, data, offset, newOffset, tlv⟩⟩ :: (inner ++ next)
  else .ok []
termination_by data.size - offset
decreasing_by
  · have := parseTLV_progress _hoff _hparse
    omega
  · have := parseTLV_progress _hoff _hparse
    omega

theorem locateFrom_end {base : ℕ} {data : Vec abi} {depth offset : ℕ}
    (hoff : data.size ≤ offset) : locateFrom base data depth offset = .ok [] := by
  rw [locateFrom, dif_neg (by omega)]

section

variable {base : ℕ} {data : Vec abi} {depth offset : ℕ} (hoff : offset < data.size)

include hoff

theorem locateFrom_of_error {e : Fault} (hparse : parseTLV data offset = .error e) :
    locateFrom base data depth offset = .error e := by
  rw [locateFrom, dif_pos hoff]
  split
  · rename_i h
    rw [hparse] at h
    cases h
    rfl
  · rename_i h
    rw [hparse] at h
    cases h

theorem locateFrom_of_ok {newOffset : ℕ} {tlv : TLV abi}
    (hparse : parseTLV data offset = .ok (newOffset, tlv)) :
    locateFrom base data depth offset
      = if newOffset = offset ∨ (tlv.T = 0 ∧ tlv.L = 0) then .ok []
        else do
          let inner ← (if isContainerTag tlv.T then
              locateFrom (base + (newOffset - tlv.V.size)) tlv.V (depth + 1) 0 else .ok [])
          let next ← locateFrom base data depth newOffset
          return ⟨base + offset, ⟨depth, data, offset, newOffset, tlv⟩⟩ :: (inner ++ next) := by
  rw [locateFrom, dif_pos hoff]
  split
  · rename_i h
    rw [hparse] at h
    cases h
  · rename_i h
    rw [hparse] at h
    cases h
    rfl

end

/-- Forgetting the positions gives back the loop of the source. -/
theorem map_visit_locateFrom (data : Vec abi) (offset : ℕ) :
    ∀ base depth, (locateFrom base data depth offset).map (List.map Located.visit)
      = parseFrom data depth offset := by
  induction data, offset using parseTLV_induction with
  | past data offset hoff =>
      intro base depth
      rw [locateFrom_end hoff, parseFrom_end depth hoff]
      rfl
  | step data offset hoff ih =>
      intro base depth
      rcases hparse : parseTLV data offset with e | ⟨newOffset, tlv⟩
      · rw [locateFrom_of_error hoff hparse, parseFrom_of_error hoff hparse]
        rfl
      · obtain ⟨ihV, ihNext⟩ := ih newOffset tlv hparse
        rw [locateFrom_of_ok hoff hparse, parseFrom_of_ok hoff hparse, ← ihNext base depth,
          ← ihV (base + (newOffset - tlv.V.size)) (depth + 1)]
        by_cases hbreak : newOffset = offset ∨ (tlv.T = 0 ∧ tlv.L = 0)
        · rw [if_pos hbreak, if_pos hbreak]
          rfl
        · rw [if_neg hbreak, if_neg hbreak]
          -- a loop that ends in a fault does so with and without positions
          rcases locateFrom (base + (newOffset - tlv.V.size)) tlv.V (depth + 1) 0 with e | inner
            <;> rcases locateFrom base data depth newOffset with e' | next
            <;> by_cases htag : isContainerTag tlv.T
            <;> simp [htag, Except.map, pure, Except.pure]

/-! ## Positions of one run -/

/-- The element was found in a part of the buffer, at a position of that part. -/
structure Located.In (l : Located abi) (buffer : List UInt8) : Prop where
  start_lt : l.visit.start < l.visit.level.size
  level : ∃ base, l.position = base + l.visit.start
    ∧ l.visit.level.bytes <+: buffer.drop base

/-- A visit moved on, and what it hands down is shorter than its level. -/
def Visit.Advances (v : Visit abi) : Prop :=
  v.start < v.stop ∧ v.stop ≤ v.level.size ∧ v.tlv.V.size < v.level.size

/-- What is known of the elements found from `lo` on: positions below `hi` that grow, in the
buffer, each step moving on. -/
structure Ordered (buffer : List UInt8) (lo hi : ℕ) (located : List (Located abi)) : Prop where
  increasing : (located.map Located.position).Pairwise (· < ·)
  ge : ∀ l ∈ located, lo ≤ l.position
  lt : ∀ l ∈ located, l.position < hi
  found : ∀ l ∈ located, l.In buffer
  advances : ∀ l ∈ located, l.visit.Advances

namespace Ordered

variable {buffer : List UInt8} {lo mid hi : ℕ} {inner next : List (Located abi)}

theorem nil : Ordered buffer lo hi ([] : List (Located abi)) :=
  ⟨.nil, by simp, by simp, by simp, by simp⟩

/-- An interval may be widened. -/
theorem mono {lo' hi' : ℕ} (h : Ordered buffer lo hi inner) (hlo : lo' ≤ lo) (hhi : hi ≤ hi') :
    Ordered buffer lo' hi' inner :=
  ⟨h.increasing, fun l hl => hlo.trans (h.ge l hl), fun l hl => (h.lt l hl).trans_le hhi,
    h.found, h.advances⟩

/-- Reports of one interval after those of an earlier one. -/
theorem append (hinner : Ordered buffer lo mid inner) (hnext : Ordered buffer mid hi next)
    (hlo : lo ≤ mid) (hhi : mid ≤ hi) : Ordered buffer lo hi (inner ++ next) := by
  have hin := hinner.mono (le_refl lo) hhi
  have hne := hnext.mono hlo (le_refl hi)
  refine ⟨?_, ?_, ?_, ?_, ?_⟩
  · rw [List.map_append, List.pairwise_append]
    refine ⟨hinner.increasing, hnext.increasing, ?_⟩
    intro p hp q hq
    obtain ⟨l, hl, rfl⟩ := List.mem_map.mp hp
    obtain ⟨m, hm, rfl⟩ := List.mem_map.mp hq
    exact (hinner.lt l hl).trans_le (hnext.ge m hm)
  · exact List.forall_mem_append.mpr ⟨hin.ge, hne.ge⟩
  · exact List.forall_mem_append.mpr ⟨hin.lt, hne.lt⟩
  · exact List.forall_mem_append.mpr ⟨hin.found, hne.found⟩
  · exact List.forall_mem_append.mpr ⟨hin.advances, hne.advances⟩

/-- One report before those of what follows it. -/
theorem cons {l : Located abi} (hnext : Ordered buffer (l.position + 1) hi next)
    (hhi : l.position < hi) (hfound : l.In buffer) (hadvances : l.visit.Advances) :
    Ordered buffer l.position hi (l :: next) := by
  have hone : Ordered buffer l.position (l.position + 1) [l] := by
    refine ⟨by simp, ?_, ?_, ?_, ?_⟩ <;> simp [hfound, hadvances]
  exact hone.append hnext (Nat.le_succ _) hhi

/-- There are no more reports than octets in the interval. -/
theorem length_le (h : Ordered buffer lo hi inner) : inner.length ≤ hi := by
  have hnodup : (inner.map Located.position).Nodup := h.increasing.imp ne_of_lt
  have hsub : inner.map Located.position ⊆ List.range hi := by
    intro p hp
    obtain ⟨l, hl, rfl⟩ := List.mem_map.mp hp
    exact List.mem_range.mpr (h.lt l hl)
  have hle := (List.subperm_of_subset hnodup hsub).length_le
  rwa [List.length_map, List.length_range] at hle

end Ordered

/-- From an offset on, the loop reports positions between that offset and the end of its
vector, in increasing order. -/
theorem locateFrom_ordered (buffer : List UInt8) (data : Vec abi) (offset : ℕ) :
    ∀ base depth located, data.bytes <+: buffer.drop base →
      locateFrom base data depth offset = .ok located →
      Ordered buffer (base + offset) (base + data.size) located := by
  induction data, offset using parseTLV_induction with
  | past data offset hoff =>
      intro base depth located _ h
      rw [locateFrom_end hoff] at h
      obtain rfl := Except.ok.inj h
      exact .nil
  | step data offset hoff ih =>
      intro base depth located hbase h
      rcases hparse : parseTLV data offset with e | ⟨newOffset, tlv⟩
      · rw [locateFrom_of_error hoff hparse] at h
        simp at h
      · obtain ⟨ihV, ihNext⟩ := ih newOffset tlv hparse
        obtain ⟨hlt, hle, hV⟩ := parseTLV_progress hoff hparse
        obtain ⟨hafter, hcopy⟩ := parseTLV_content hoff hparse
        rw [locateFrom_of_ok hoff hparse] at h
        by_cases hbreak : newOffset = offset ∨ (tlv.T = 0 ∧ tlv.L = 0)
        · rw [if_pos hbreak] at h
          obtain rfl := Except.ok.inj h
          exact .nil
        · rw [if_neg hbreak] at h
          obtain ⟨inner, hinner, h⟩ := Except.bind_eq_ok_iff.mp h
          obtain ⟨next, hnext, heq⟩ := Except.bind_eq_ok_iff.mp h
          obtain rfl := Except.ok.inj heq
          -- the content lies between the identifier and the offset the loop goes on at
          have hcontent : Ordered buffer (base + offset + 1) (base + newOffset) inner := by
            by_cases htag : isContainerTag tlv.T
            · rw [if_pos htag] at hinner
              have hcopied := hcopy.trans (hbase.drop (newOffset - tlv.V.size))
              rw [List.drop_drop] at hcopied
              exact (ihV _ (depth + 1) inner hcopied hinner).mono (by omega) (by omega)
            · rw [if_neg htag] at hinner
              obtain rfl := Except.ok.inj hinner
              exact .nil
          have hrest := hcontent.append (ihNext base depth next hbase hnext) (by omega) (by omega)
          have hshort : tlv.V.size < data.size := by omega
          exact .cons (l := ⟨base + offset, ⟨depth, data, offset, newOffset, tlv⟩⟩) hrest
            (Nat.add_lt_add_left hoff base) ⟨hoff, base, rfl, hbase⟩ ⟨hlt, hle, hshort⟩

/-- **Termination without duplicates.**  With a 64-bit `size_t` every call of `parseTLV`
inside a vector returns an offset further on and a strictly shorter vector; the dump of a
buffer ends, and each of its reports is at a position of its own in the buffer. -/
theorem dump_positions (data : Vec .arm64_v8a) (depth : ℕ) :
    (∀ (level : Vec .arm64_v8a) (offset : ℕ), offset < level.size →
        ∃ newOffset tlv, parseTLV level offset = .ok (newOffset, tlv) ∧ offset < newOffset
          ∧ newOffset ≤ level.size ∧ tlv.V.size < level.size)
      ∧ ∃ located, locateFrom 0 data depth 0 = .ok located
        ∧ parseAndPrintNested data depth = .ok (located.map Located.visit)
        ∧ (∀ l ∈ located, l.In data.bytes ∧ l.visit.Advances)
        ∧ (located.map Located.position).Pairwise (· < ·)
        ∧ located.length ≤ data.size := by
  refine ⟨fun level offset hoff => parseTLV_arm64 level hoff, ?_⟩
  obtain ⟨visits, hrun⟩ := parseFrom_arm64 data 0 depth
  have hmap := map_visit_locateFrom data 0 0 depth
  rw [hrun] at hmap
  rcases hloc : locateFrom 0 data depth 0 with e | located
  · rw [hloc] at hmap
    simp [Except.map] at hmap
  · rw [hloc] at hmap
    have hbuffer : data.bytes <+: data.bytes.drop 0 := List.prefix_rfl
    have hordered := locateFrom_ordered data.bytes data 0 0 depth located hbuffer hloc
    have hcount := hordered.length_le
    rw [Nat.zero_add] at hcount
    refine ⟨located, rfl, ?_, fun l hl => ⟨hordered.found l hl, hordered.advances l hl⟩,
      hordered.increasing, hcount⟩
    rw [parseAndPrintNested, hrun]
    exact hmap.symm

end V1Sig
