/-
# What the dump may report, and when it does

`Sound` says that every reported element is in its level's buffer and that a level stops
at its first malformed element.  `parseTLV` tells its caller about a malformed element
by an offset, and the caller's test `newOffset == offset` compares with the offset before
the identifier, which `parseTLV` never returns; so the dump is sound exactly on the
buffers in which no level it walks through has a malformed element.
-/
import LiuHookWorld.V1SigParse

namespace V1Sig

variable {abi : Abi}

/-! ## Levels of a buffer -/

/-- The positions of a level that its elements, one after the other, lead to. -/
inductive Chain (level : List UInt8) : ℕ → Prop
  | start : Chain level 0
  | next {p : ℕ} {i c r : List UInt8} : Chain level p → Ber.Element 4 (level.drop p) i c r →
      Chain level (level.length - r.length)

/-- A position with an octet other than zero where no element can be decoded. -/
def Stuck (level : List UInt8) (p : ℕ) : Prop :=
  ∃ b bs, level.drop p = b :: bs ∧ b ≠ 0 ∧ ¬ ∃ i c r, Ber.Element 4 (b :: bs) i c r

/-- The buffer, the contents of its containers, their contents, and so on. -/
inductive Level (data : List UInt8) : List UInt8 → Prop
  | top : Level data data
  | content {level i c r : List UInt8} {p : ℕ} : Level data level → Chain level p →
      Ber.Element 4 (level.drop p) i c r → isContainerTag (tagValue i) = true → Level data c

theorem Level.trans {data level inner : List UInt8} (h : Level data level)
    (hinner : Level level inner) : Level data inner := by
  induction hinner with
  | top => exact h
  | content _ hchain helem htag ih => exact ih.content hchain helem htag

/-- An element `(T, L)` is in a level: at some position its identifier octets, directly
followed by a definite length of exactly `L` and that many content octets. -/
def Present (level : List UInt8) (T L : UInt32) : Prop :=
  ∃ p i c r, Ber.Element 4 (level.drop p) i c r ∧ tagValue i = T ∧ c.length = L.toNat

/-- Reports of elements that are there, and none at or after the first malformed one. -/
structure SoundVisits (visits : List (Visit abi)) : Prop where
  present : ∀ v ∈ visits, Present v.level.bytes v.tlv.T v.tlv.L
  stops : ∀ v ∈ visits, ∀ p, Chain v.level.bytes p → Stuck v.level.bytes p → v.start < p

/-- The dump of a buffer ends without a fault and reports soundly. -/
def Sound (data : Vec abi) : Prop :=
  ∃ visits, parseAndPrintNested data 0 = .ok visits ∧ SoundVisits visits

/-- No level has a malformed element. -/
def NoneStuck (data : List UInt8) : Prop :=
  ∀ level p, Level data level → Chain level p → ¬ Stuck level p

/-! ## Readings at stuck positions -/

theorem stuck_of_reading {level : List UInt8} {p : ℕ} {b : UInt8} {bs : List UInt8}
    (hdrop : level.drop p = b :: bs) (hb : b ≠ 0)
    (hread : ∀ i c r, reading b bs ≠ .element i c r) : Stuck level p := by
  refine ⟨b, bs, hdrop, hb, ?_⟩
  rintro ⟨i, c, r, h⟩
  exact hread i c r (reading_element_iff.mpr h)

theorem reading_of_stuck {level : List UInt8} {p : ℕ} (h : Stuck level p) :
    ∃ b bs i r, level.drop p = b :: bs
      ∧ (reading b bs = .noLength i r ∨ ∃ n, reading b bs = .truncated i n r) := by
  obtain ⟨b, bs, hdrop, hb, hnone⟩ := h
  rcases hread : reading b bs with r | ⟨i, c, r⟩ | ⟨i, r⟩ | ⟨i, n, r⟩
  · exact absurd (reading_eq_zero hread).1 hb
  · exact absurd ⟨i, c, r, reading_element_iff.mp hread⟩ hnone
  · exact ⟨b, bs, i, r, hdrop, Or.inl hread⟩
  · exact ⟨b, bs, i, r, hdrop, Or.inr ⟨n, hread⟩⟩

/-- An element seen by the grammar is a reading at a position inside the vector. -/
theorem reading_of_element {data : Vec abi} {p : ℕ} {i c r : List UInt8}
    (h : Ber.Element 4 (data.bytes.drop p) i c r) :
    ∃ b bs, data.bytes.drop p = b :: bs ∧ reading b bs = .element i c r ∧ p < data.size := by
  obtain ⟨o, heq, hi, -⟩ := id h
  obtain ⟨b, bs, rfl, -⟩ := hi.exists_cons
  have hdrop : data.bytes.drop p = b :: (bs ++ o ++ c ++ r) := by simpa using heq
  rw [hdrop] at h
  exact ⟨b, _, hdrop, reading_element_iff.mpr h, lt_of_drop_cons hdrop⟩

/-! ## A sound run has no stuck position -/

/-- A run visits whatever the runs it contains visit: at the next position of its level and
in the content of a container. -/
theorem parseFrom_contains {data V : Vec abi} {depth p : ℕ} {i r : List UInt8}
    {visits : List (Visit abi)} (hrun : parseFrom data depth p = .ok visits)
    (helem : Ber.Element 4 (data.bytes.drop p) i V.bytes r) :
    (∃ next, parseFrom data depth (data.size - r.length) = .ok next ∧ ∀ v ∈ next, v ∈ visits)
      ∧ (isContainerTag (tagValue i) = true →
        ∃ inner, parseFrom V (depth + 1) 0 = .ok inner ∧ ∀ v ∈ inner, v ∈ visits) := by
  obtain ⟨b, bs, hdrop, hread, hp⟩ := reading_of_element helem
  rw [parseFrom_element hp hdrop hread, Except.bind_eq_ok_iff] at hrun
  obtain ⟨inner, hinner, hrun⟩ := hrun
  rw [Except.bind_eq_ok_iff] at hrun
  obtain ⟨next, hnext, heq⟩ := hrun
  obtain rfl := Except.ok.inj heq
  constructor
  · exact ⟨next, hnext, fun v hv => by simp [hv]⟩
  · intro htag
    rw [if_pos htag] at hinner
    exact ⟨inner, hinner, fun v hv => by simp [hv]⟩

/-- The loop comes to every position its elements lead to. -/
theorem parseFrom_chain {data : Vec abi} {depth : ℕ} {visits : List (Visit abi)}
    (hrun : parseFrom data depth 0 = .ok visits) {p : ℕ} (hchain : Chain data.bytes p) :
    ∃ next, parseFrom data depth p = .ok next ∧ ∀ v ∈ next, v ∈ visits := by
  induction hchain with
  | start => exact ⟨visits, hrun, fun v hv => hv⟩
  | @next p i c r _ helem ih =>
      obtain ⟨here, hhere, hsub⟩ := ih
      obtain ⟨b, bs, hdrop, hread, -⟩ := reading_of_element helem
      obtain ⟨V, rfl⟩ := exists_content hdrop hread
      obtain ⟨⟨next, hnext, hmem⟩, -⟩ := parseFrom_contains hhere helem
      exact ⟨next, hnext, fun v hv => hsub v (hmem v hv)⟩

/-- The dump comes to every level. -/
theorem parseFrom_level {data : Vec abi} {visits : List (Visit abi)}
    (hrun : parseFrom data 0 0 = .ok visits) {level : List UInt8}
    (hlevel : Level data.bytes level) :
    ∃ (V : Vec abi) (depth : ℕ) (inner : List (Visit abi)), V.bytes = level
      ∧ parseFrom V depth 0 = .ok inner ∧ ∀ v ∈ inner, v ∈ visits := by
  induction hlevel with
  | top => exact ⟨data, 0, visits, rfl, hrun, fun v hv => hv⟩
  | @content level i c r p _ hchain helem htag ih =>
      obtain ⟨W, depth, outer, rfl, houter, hsub⟩ := ih
      obtain ⟨here, hhere, hmem⟩ := parseFrom_chain houter hchain
      obtain ⟨b, bs, hdrop, hread, -⟩ := reading_of_element helem
      obtain ⟨V, rfl⟩ := exists_content hdrop hread
      obtain ⟨-, hinner⟩ := parseFrom_contains hhere helem
      obtain ⟨inner, hrunV, hin⟩ := hinner htag
      exact ⟨V, depth + 1, inner, rfl, hrunV, fun v hv => hsub v (hmem v (hin v hv))⟩

/-- At a stuck position the loop reports, or ends in a fault. -/
theorem visit_of_stuck {data : Vec abi} {depth p : ℕ} {visits : List (Visit abi)}
    (hrun : parseFrom data depth p = .ok visits) (hstuck : Stuck data.bytes p) :
    ∃ v ∈ visits, v.level = data ∧ v.start = p := by
  obtain ⟨b, bs, i, r, hdrop, hread⟩ := reading_of_stuck hstuck
  have hp := lt_of_drop_cons hdrop
  rcases hread with hread | ⟨n, hread⟩
  · rw [parseFrom_noLength hp hdrop hread, Except.bind_eq_ok_iff] at hrun
    obtain ⟨next, -, heq⟩ := hrun
    obtain rfl := Except.ok.inj heq
    exact ⟨_, List.mem_cons_self, rfl, rfl⟩
  · by_cases hfit : data.size - r.length + n < 2 ^ abi.sizeBits
    · rw [parseFrom_truncated hp hdrop hread hfit, Except.bind_eq_ok_iff] at hrun
      obtain ⟨next, -, heq⟩ := hrun
      obtain rfl := Except.ok.inj heq
      exact ⟨_, List.mem_cons_self, rfl, rfl⟩
    · rw [parseFrom_wraps hp hdrop hread (Nat.not_lt.mp hfit)] at hrun
      simp at hrun

theorem noneStuck_of_sound {data : Vec abi} (h : Sound data) : NoneStuck data.bytes := by
  obtain ⟨visits, hrun, hsound⟩ := h
  intro level p hlevel hchain hstuck
  obtain ⟨V, depth, inner, rfl, hinner, hsub⟩ := parseFrom_level hrun hlevel
  obtain ⟨here, hhere, hmem⟩ := parseFrom_chain hinner hchain
  obtain ⟨v, hv, rfl, rfl⟩ := visit_of_stuck hhere hstuck
  exact lt_irrefl _ (hsound.stops v (hsub v (hmem v hv)) v.start hchain hstuck)

/-! ## Without stuck positions the run is sound -/

/-- From a position of the chain on, only elements of levels are reported. -/
theorem parseFrom_sound (data : Vec abi) (offset : ℕ) :
    ∀ depth, Chain data.bytes offset → NoneStuck data.bytes →
      ∃ visits, parseFrom data depth offset = .ok visits
        ∧ ∀ v ∈ visits, Present v.level.bytes v.tlv.T v.tlv.L
          ∧ Level data.bytes v.level.bytes := by
  induction data, offset using parse_induction with
  | past data offset hoff =>
      intro depth _ _
      exact ⟨[], parseFrom_end depth hoff, by simp⟩
  | zero data offset b bs r hoff hdrop hread =>
      intro depth _ _
      exact ⟨[], parseFrom_zero hoff hdrop hread, by simp⟩
  -- malformed elements are stuck positions of this level, of which there is none
  | noLength data offset b bs i r hoff hdrop hread _ =>
      intro depth hchain hnone
      have hb := (reading_eq_noLength hread).1
      exact absurd (stuck_of_reading hdrop hb (by simp [hread])) (hnone _ _ .top hchain)
  | truncated data offset b bs i n r hoff hdrop hread _ =>
      intro depth hchain hnone
      have hb := (reading_eq_truncated hread).1
      exact absurd (stuck_of_reading hdrop hb (by simp [hread])) (hnone _ _ .top hchain)
  | element data offset b bs i V r hoff hdrop hread ihV ih =>
      intro depth hchain hnone
      have helem : Ber.Element 4 (data.bytes.drop offset) i V.bytes r := by
        rw [hdrop]
        exact reading_element_iff.mp hread
      obtain ⟨next, hnext, hnextOk⟩ := ih depth (hchain.next helem) hnone
      have hinner : ∃ inner, (if isContainerTag (tagValue i) then parseFrom V (depth + 1) 0
          else .ok []) = .ok inner ∧ ∀ v ∈ inner, Present v.level.bytes v.tlv.T v.tlv.L
            ∧ Level data.bytes v.level.bytes := by
        by_cases htag : isContainerTag (tagValue i)
        · have hV : Level data.bytes V.bytes := Level.top.content hchain helem htag
          obtain ⟨inner, hinner, hok⟩ := ihV (depth + 1) .start
            (fun level p hlevel => hnone level p (hV.trans hlevel))
          rw [if_pos htag]
          exact ⟨inner, hinner, fun v hv => ⟨(hok v hv).1, hV.trans (hok v hv).2⟩⟩
        · rw [if_neg htag]
          exact ⟨[], rfl, by simp⟩
      obtain ⟨inner, hinner, hinnerOk⟩ := hinner
      refine ⟨_, by rw [parseFrom_element hoff hdrop hread, hinner, hnext]; rfl, ?_⟩
      intro v hv
      rcases List.mem_cons.mp hv with rfl | hv
      · exact ⟨⟨offset, i, V.bytes, r, helem, rfl, (toNat_content_length hread).symm⟩, .top⟩
      · rcases List.mem_append.mp hv with hv | hv
        · exact hinnerOk v hv
        · exact hnextOk v hv

theorem sound_of_noneStuck {data : Vec abi} (h : NoneStuck data.bytes) : Sound data := by
  obtain ⟨visits, hrun, hok⟩ := parseFrom_sound data 0 0 .start h
  refine ⟨visits, hrun, fun v hv => (hok v hv).1, ?_⟩
  intro v hv p hchain hstuck
  exact absurd hstuck (h _ p (hok v hv).2 hchain)

/-- **Soundness of the dump.**  On either ABI the dump of a buffer is sound if and only if
no level of the buffer has a malformed element. -/
theorem sound_iff_noneStuck (data : Vec abi) : Sound data ↔ NoneStuck data.bytes :=
  ⟨noneStuck_of_sound, sound_of_noneStuck⟩

/-- `30 80`: the indefinite length is reported as an element of length zero. -/
theorem not_sound_indefinite : ¬ Sound (⟨[0x30, 0x80], by decide⟩ : Vec .arm64_v8a) := by
  intro h
  refine noneStuck_of_sound h [0x30, 0x80] 0 .top .start ⟨0x30, [0x80], rfl, by decide, ?_⟩
  exact Ber.readElement_eq_none_iff.mp (by decide)

end V1Sig
