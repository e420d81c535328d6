/-
# Accesses of the signature dump on the two ABIs

`parseTLV` checks `offset + L` against the length of its buffer in `size_t`.  On
`armeabi-v7a` a declared length close to `2 ^ 32` makes the sum wrap, the check passes,
and the copy into `tlv.V` does not end inside the buffer.  The dump stays inside its
buffers exactly where it comes to no such length.
-/
import Mathlib.Logic.Relation
import LiuHookWorld.V1SigParse

namespace V1Sig

variable {abi : Abi}

/-! ## Positions the dump comes to -/

/-- Where the dump goes from a position of a level: past what is there, or to the start of
a container's content. -/
inductive Moves : List UInt8 × ℕ → List UInt8 × ℕ → Prop
  | past {level bs : List UInt8} {p : ℕ} {b : UInt8} : level.drop p = b :: bs → b ≠ 0 →
      Moves (level, p) (level, level.length - (reading b bs).rest.length)
  | into {level bs i c r : List UInt8} {p : ℕ} {b : UInt8} : level.drop p = b :: bs →
      reading b bs = .element i c r → isContainerTag (tagValue i) = true →
      Moves (level, p) (c, 0)

/-- The positions a dump of `data` comes to. -/
def Reached (data level : List UInt8) (p : ℕ) : Prop :=
  Relation.ReflTransGen Moves (data, 0) (level, p)

/-- An identifier and a definite length that reaches past the level and, added to its
offset, past `2 ^ bits`. -/
def Overlong (bits : ℕ) (level : List UInt8) (p : ℕ) : Prop :=
  ∃ b bs i n r, level.drop p = b :: bs ∧ reading b bs = .truncated i n r
    ∧ 2 ^ bits ≤ level.length - r.length + n

/-- The dump ends without a `Fault`, and every `tlv.V` has `tlv.L` octets. -/
def InBounds (data : Vec abi) : Prop :=
  ∃ visits, parseAndPrintNested data 0 = .ok visits ∧ ∀ v ∈ visits, v.tlv.V.size = v.tlv.L.toNat

/-- With a 64-bit `size_t` the sum of an offset and a length does not wrap. -/
theorem not_overlong_arm64 (data : Vec .arm64_v8a) (p : ℕ) : ¬ Overlong 64 data.bytes p := by
  rintro ⟨b, bs, i, n, r, -, hread, hwrap⟩
  have hn := declared_lt_reading hread
  have hsize : data.bytes.length ≤ 2 ^ 63 - 1 := data.size_le
  omega

/-! ## One step -/

/-- A dump that ends without a fault also does from where it moves to. -/
theorem parseFrom_moves {data : Vec abi} {depth p q : ℕ} {level : List UInt8}
    {visits : List (Visit abi)} (hrun : parseFrom data depth p = .ok visits)
    (hmove : Moves (data.bytes, p) (level, q)) :
    ∃ (W : Vec abi) (depth' : ℕ) (visits' : List (Visit abi)), W.bytes = level
      ∧ parseFrom W depth' q = .ok visits' := by
  cases hmove with
  | @past _ bs _ b hdrop hb =>
      have hp := lt_of_drop_cons hdrop
      rcases hread : reading b bs with r | ⟨i, c, r⟩ | ⟨i, r⟩ | ⟨i, n, r⟩
      · exact absurd (reading_eq_zero hread).1 hb
      · obtain ⟨V, rfl⟩ := exists_content hdrop hread
        rw [parseFrom_element hp hdrop hread, Except.bind_eq_ok_iff] at hrun
        obtain ⟨inner, -, hrun⟩ := hrun
        rw [Except.bind_eq_ok_iff] at hrun
        obtain ⟨next, hnext, -⟩ := hrun
        exact ⟨data, depth, next, rfl, hnext⟩
      · rw [parseFrom_noLength hp hdrop hread, Except.bind_eq_ok_iff] at hrun
        obtain ⟨next, hnext, -⟩ := hrun
        exact ⟨data, depth, next, rfl, hnext⟩
      · by_cases hfit : data.size - r.length + n < 2 ^ abi.sizeBits
        · rw [parseFrom_truncated hp hdrop hread hfit, Except.bind_eq_ok_iff] at hrun
          obtain ⟨next, hnext, -⟩ := hrun
          exact ⟨data, depth, next, rfl, hnext⟩
        -- the run ends in a fault here
        · rw [parseFrom_wraps hp hdrop hread (Nat.not_lt.mp hfit)] at hrun
          simp at hrun
  | @into _ bs i c r _ b hdrop hread htag =>
      have hp := lt_of_drop_cons hdrop
      obtain ⟨V, rfl⟩ := exists_content hdrop hread
      rw [parseFrom_element hp hdrop hread, Except.bind_eq_ok_iff] at hrun
      obtain ⟨inner, hinner, -⟩ := hrun
      rw [if_pos htag] at hinner
      exact ⟨V, depth + 1, inner, rfl, hinner⟩

/-- At an overlong length the dump ends in the copy that leaves the buffer. -/
theorem parseFrom_overlong {data : Vec abi} {p : ℕ} (depth : ℕ)
    (h : Overlong abi.sizeBits data.bytes p) :
    ∃ offset L, data.size < offset + L
      ∧ parseFrom data depth p = .error (.copy offset L data.size) := by
  obtain ⟨b, bs, i, n, r, hdrop, hread, hwrap⟩ := h
  have hshort := (reading_eq_truncated hread).2
  obtain ⟨r₀, -, -, hlt⟩ := hshort
  refine ⟨data.size - r.length, n, ?_, parseFrom_wraps (lt_of_drop_cons hdrop) hdrop hread hwrap⟩
  have hle : r.length ≤ bs.length := by
    have := length_rest_reading b bs
    rwa [hread] at this
  have hlen := congrArg List.length hdrop
  rw [List.length_drop, List.length_cons, Vec.length_bytes] at hlen
  omega

/-! ## Whole runs -/

/-- No overlong length is reached by a dump that ends without a fault. -/
theorem not_overlong_of_ok {data : Vec abi} {depth p q : ℕ} {level : List UInt8}
    {visits : List (Visit abi)} (hrun : parseFrom data depth p = .ok visits)
    (hreach : Relation.ReflTransGen Moves (data.bytes, p) (level, q)) :
    ¬ Overlong abi.sizeBits level q := by
  -- by induction along the moves, the dump from every position it comes to ends
  have hok : ∀ x, Relation.ReflTransGen Moves (data.bytes, p) x →
      ∃ (W : Vec abi) (depth' : ℕ) (visits' : List (Visit abi)), W.bytes = x.1
        ∧ parseFrom W depth' x.2 = .ok visits' := by
    intro x hx
    induction hx with
    | refl => exact ⟨data, depth, visits, rfl, hrun⟩
    | tail _ hmove ih =>
        obtain ⟨W, depth', visits', hW, hrun'⟩ := ih
        exact parseFrom_moves hrun' (by rw [hW]; exact hmove)
  obtain ⟨W, depth', visits', hW, hrun'⟩ := hok _ hreach
  dsimp only at hW hrun'
  subst hW
  intro hlong
  obtain ⟨offset, L, -, hfault⟩ := parseFrom_overlong depth' hlong
  rw [hfault] at hrun'
  simp at hrun'

/-- Without one the dump ends without a fault, and cuts contents of the declared length. -/
theorem parseFrom_inBounds (data : Vec abi) (p : ℕ) :
    ∀ depth, (∀ level q, Relation.ReflTransGen Moves (data.bytes, p) (level, q) →
        ¬ Overlong abi.sizeBits level q) →
      ∃ visits, parseFrom data depth p = .ok visits
        ∧ ∀ v ∈ visits, v.tlv.V.size = v.tlv.L.toNat := by
  induction data, p using parse_induction with
  | past data p hp =>
      intro depth _
      exact ⟨[], parseFrom_end depth hp, by simp⟩
  | zero data p b bs r hp hdrop hread =>
      intro depth _
      exact ⟨[], parseFrom_zero hp hdrop hread, by simp⟩
  | noLength data p b bs i r hp hdrop hread ih =>
      intro depth hnone
      have hmove : Moves (data.bytes, p) (data.bytes, data.size - r.length) := by
        have := Moves.past hdrop (reading_eq_noLength hread).1
        rwa [hread] at this
      obtain ⟨next, hnext, hsize⟩ := ih depth fun level q h => hnone level q (.head hmove h)
      refine ⟨_, by rw [parseFrom_noLength hp hdrop hread, hnext]; rfl, ?_⟩
      intro v hv
      rcases List.mem_cons.mp hv with rfl | hv
      · rfl
      · exact hsize v hv
  | truncated data p b bs i n r hp hdrop hread ih =>
      intro depth hnone
      have hfit : data.size - r.length + n < 2 ^ abi.sizeBits := by
        by_contra hwrap
        exact hnone data.bytes p .refl ⟨b, bs, i, n, r, hdrop, hread, Nat.not_lt.mp hwrap⟩
      have hmove : Moves (data.bytes, p) (data.bytes, data.size - r.length) := by
        have := Moves.past hdrop (reading_eq_truncated hread).1
        rwa [hread] at this
      obtain ⟨next, hnext, hsize⟩ := ih depth fun level q h => hnone level q (.head hmove h)
      refine ⟨_, by rw [parseFrom_truncated hp hdrop hread hfit, hnext]; rfl, ?_⟩
      intro v hv
      rcases List.mem_cons.mp hv with rfl | hv
      · rfl
      · exact hsize v hv
  | element data p b bs i V r hp hdrop hread ihV ih =>
      intro depth hnone
      have hmove : Moves (data.bytes, p) (data.bytes, data.size - r.length) := by
        have := Moves.past hdrop (reading_eq_element hread).1
        rwa [hread] at this
      obtain ⟨next, hnext, hsize⟩ := ih depth fun level q h => hnone level q (.head hmove h)
      have hinner : ∃ inner, (if isContainerTag (tagValue i) then parseFrom V (depth + 1) 0
          else .ok []) = .ok inner ∧ ∀ v ∈ inner, v.tlv.V.size = v.tlv.L.toNat := by
        by_cases htag : isContainerTag (tagValue i)
        · obtain ⟨inner, hinner, hin⟩ := ihV (depth + 1)
            fun level q h => hnone level q (.head (.into hdrop hread htag) h)
          exact ⟨inner, by rw [if_pos htag, hinner], hin⟩
        · exact ⟨[], by rw [if_neg htag], by simp⟩
      obtain ⟨inner, hinner, hin⟩ := hinner
      refine ⟨_, by rw [parseFrom_element hp hdrop hread, hinner, hnext]; rfl, ?_⟩
      intro v hv
      rcases List.mem_cons.mp hv with rfl | hv
      · exact (toNat_content_length hread).symm
      · rcases List.mem_append.mp hv with hv | hv
        · exact hin v hv
        · exact hsize v hv

/-- On either ABI the dump is in bounds exactly when it comes to no overlong length. -/
theorem inBounds_iff_not_overlong (data : Vec abi) :
    InBounds data ↔ ∀ level p, Reached data.bytes level p → ¬ Overlong abi.sizeBits level p := by
  constructor
  · rintro ⟨visits, hrun, -⟩ level p hreach
    exact not_overlong_of_ok hrun hreach
  · intro h
    exact parseFrom_inBounds data 0 0 h

/-- A level is never longer than the buffer. -/
theorem length_le_of_reached {data level : List UInt8} {p : ℕ} (h : Reached data level p) :
    level.length ≤ data.length := by
  suffices hall : ∀ x, Relation.ReflTransGen Moves (data, 0) x → x.1.length ≤ data.length from
    hall _ h
  intro x hx
  induction hx with
  | refl => exact le_refl _
  | tail _ hmove ih =>
      cases hmove with
      | past => exact ih
      -- a content is shorter than what was left of its level
      | into hdrop hread =>
          have hcontent := length_content_reading hread
          have hlen := congrArg List.length hdrop
          rw [List.length_drop, List.length_cons] at hlen
          dsimp only at ih ⊢
          omega

/-- **Bounds of the dump.**  For an array from JNI every access of the dump is in range if
and only if `size_t` has 64 bits or the dump comes to no overlong length. -/
theorem inBounds_iff (abi : Abi) (rsa_bytes : JByteArray) :
    InBounds (rsa_bytes.toVec abi) ↔ abi = .arm64_v8a
      ∨ ∀ level p, Reached rsa_bytes.bytes level p → ¬ Overlong 32 level p := by
  rw [inBounds_iff_not_overlong]
  cases abi with
  | armeabi_v7a =>
      constructor
      · exact Or.inr
      · rintro (h | h)
        · simp at h
        · exact h
  | arm64_v8a =>
      constructor
      · intro _
        exact Or.inl rfl
      · intro _ level p hreach
        have hle := (length_le_of_reached hreach).trans (rsa_bytes.toVec .arm64_v8a).size_le
        exact not_overlong_arm64 ⟨level, hle⟩ p

/-- `04 84 FF FF FF FF` on `armeabi-v7a`: `6 + 0xFFFFFFFF` wraps to `5`. -/
theorem not_inBounds_wrapping :
    ¬ InBounds ((⟨[0x04, 0x84, 0xFF, 0xFF, 0xFF, 0xFF], by decide⟩ : JByteArray).toVec
      .armeabi_v7a) := by
  rintro ⟨visits, hrun, -⟩
  refine not_overlong_of_ok hrun .refl ⟨0x04, _, [0x04], 0xFFFFFFFF, [], rfl, ?_, by decide⟩
  decide

end V1Sig
