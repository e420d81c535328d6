/-
# Definite-length BER elements

The grammar of tag-length-value elements as a relation on octet strings, with a
reader for each production and the theorem that reader and production agree:

* `LengthOctets m o n`: the octets `o` are a definite length `n`, in short form or
  with at most `m` length octets, not necessarily minimal;
* `Identifier i`: the octets `i` are one complete identifier;
* `Element m bs i c r`: `bs` is an element with identifier `i` and content `c`,
  followed by `r`.

The readers work on what is left of the input; nothing here knows about offsets.
-/
import Mathlib.Data.List.Basic
import Mathlib.Tactic.Ring
import Mathlib.Tactic.Linarith

namespace Ber

/-! ## Octets -/

/-- What holds of every number below 256 holds of every octet. -/
theorem forall_octet {p : UInt8 → Prop} (h : ∀ n : Fin 256, p (UInt8.ofNat n.val)) (b : UInt8) :
    p b := by
  have hb := h ⟨b.toNat, b.toNat_lt⟩
  rwa [UInt8.ofNat_toNat] at hb

theorem and_80_eq_zero_iff (b : UInt8) : b &&& 0x80 = 0 ↔ b.toNat < 128 :=
  forall_octet (p := fun b => b &&& 0x80 = 0 ↔ b.toNat < 128) (by decide +kernel) b

/-! ## Big-endian numbers -/

/-- The number a string of octets spells, most significant octet first. -/
def bigEndian (os : List UInt8) : ℕ :=
  os.foldl (fun n b => n * 256 + b.toNat) 0

/-- Accumulating from `n` shifts `n` above the octets read. -/
theorem foldl_octets (os : List UInt8) :
    ∀ n : ℕ, os.foldl (fun n b => n * 256 + b.toNat) n = n * 256 ^ os.length + bigEndian os := by
  unfold bigEndian
  induction os with
  | nil => intro n; simp
  | cons b os ih =>
      intro n
      rw [List.foldl_cons, List.foldl_cons, ih, ih (0 * 256 + b.toNat), List.length_cons]
      ring

theorem bigEndian_nil : bigEndian [] = 0 := rfl

theorem bigEndian_cons (b : UInt8) (os : List UInt8) :
    bigEndian (b :: os) = b.toNat * 256 ^ os.length + bigEndian os := by
  rw [bigEndian, List.foldl_cons, foldl_octets]
  simp

/-- One octet more at the end. -/
theorem bigEndian_concat (os : List UInt8) (b : UInt8) :
    bigEndian (os ++ [b]) = bigEndian os * 256 + b.toNat := by
  rw [bigEndian, List.foldl_append, List.foldl_cons, List.foldl_nil, ← bigEndian]

/-- `k` octets spell a number below `256 ^ k`. -/
theorem bigEndian_lt (os : List UInt8) : bigEndian os < 256 ^ os.length := by
  induction os with
  | nil => simp [bigEndian_nil]
  | cons b os ih =>
      rw [bigEndian_cons, List.length_cons, pow_succ]
      have hb : b.toNat < 256 := b.toNat_lt
      -- the leading octet is worth at most `255 * 256 ^ k`
      have hmul : b.toNat * 256 ^ os.length ≤ 255 * 256 ^ os.length :=
        Nat.mul_le_mul_right _ (by omega)
      omega

/-- The low `k` octets of a number, most significant first. -/
def toOctets : ℕ → ℕ → List UInt8
  | 0, _ => []
  | k + 1, n => toOctets k (n / 256) ++ [UInt8.ofNat n]

@[simp] theorem length_toOctets (k n : ℕ) : (toOctets k n).length = k := by
  induction k generalizing n with
  | zero => rfl
  | succ k ih => simp [toOctets, ih]

/-- The octets of a number that fits read as the number. -/
theorem bigEndian_toOctets (k n : ℕ) (h : n < 256 ^ k) : bigEndian (toOctets k n) = n := by
  induction k generalizing n with
  | zero =>
      have hn : n = 0 := by simpa using h
      rw [hn]
      rfl
  | succ k ih =>
      have hdiv : n / 256 < 256 ^ k := by
        apply Nat.div_lt_of_lt_mul
        rw [pow_succ] at h
        omega
      have hlow : (UInt8.ofNat n).toNat = n % 256 := UInt8.toNat_ofNat'
      rw [toOctets, bigEndian_concat, ih _ hdiv, hlow]
      omega

/-! ## Length octets -/

/-- The octets `o` are a definite length `n` with at most `m` octets after the first. -/
inductive LengthOctets (m : ℕ) : List UInt8 → ℕ → Prop
  | short {b : UInt8} : b < 0x80 → LengthOctets m [b] b.toNat
  | long {b : UInt8} {os : List UInt8} : b.toNat = 0x80 + os.length → 1 ≤ os.length →
      os.length ≤ m → LengthOctets m (b :: os) (bigEndian os)

/-- Read a definite length; `none` when no complete one comes first. -/
def readLength (m : ℕ) : List UInt8 → Option (ℕ × List UInt8)
  | [] => none
  | b :: bs =>
      if b < 0x80 then some (b.toNat, bs)
      else
        let k := b.toNat - 0x80
        if 1 ≤ k ∧ k ≤ m ∧ k ≤ bs.length then some (bigEndian (bs.take k), bs.drop k)
        else none

/-- A length that is there is read, and exactly its octets are consumed. -/
theorem readLength_append {m : ℕ} {o : List UInt8} {n : ℕ} (h : LengthOctets m o n)
    (r : List UInt8) : readLength m (o ++ r) = some (n, r) := by
  cases h with
  | short hb => simp [readLength, hb]
  | @long b os hb hpos hle =>
      have hge : ¬ b < 0x80 := by
        rw [UInt8.lt_iff_toNat_lt, hb]
        simp
      have hk : b.toNat - 0x80 = os.length := by omega
      simp only [List.cons_append, readLength, if_neg hge, hk]
      rw [if_pos ⟨hpos, hle, by simp⟩]
      simp

/-- What is read is a length that is there. -/
theorem readLength_sound {m : ℕ} {bs r : List UInt8} {n : ℕ}
    (h : readLength m bs = some (n, r)) : ∃ o, bs = o ++ r ∧ LengthOctets m o n := by
  cases bs with
  | nil => simp [readLength] at h
  | cons b bs =>
      simp only [readLength] at h
      by_cases hb : b < 0x80
      · rw [if_pos hb] at h
        obtain ⟨rfl, rfl⟩ : b.toNat = n ∧ bs = r := by simpa using h
        exact ⟨[b], rfl, .short hb⟩
      · rw [if_neg hb] at h
        split at h
        · rename_i hk
          obtain ⟨hpos, hle, hlen⟩ := hk
          obtain ⟨rfl, rfl⟩ : bigEndian (bs.take (b.toNat - 0x80)) = n
              ∧ bs.drop (b.toNat - 0x80) = r := by simpa using h
          have htake : (bs.take (b.toNat - 0x80)).length = b.toNat - 0x80 := by
            rw [List.length_take, Nat.min_eq_left hlen]
          refine ⟨b :: bs.take (b.toNat - 0x80), by simp, .long ?_ ?_ ?_⟩ <;> omega
        · simp at h

/-- At least one octet is a length. -/
theorem LengthOctets.length_pos {m : ℕ} {o : List UInt8} {n : ℕ} (h : LengthOctets m o n) :
    0 < o.length := by
  cases h <;> simp

/-- With at most `m` length octets a length is below `256 ^ m`, or in short form. -/
theorem LengthOctets.lt {m : ℕ} {o : List UInt8} {n : ℕ} (h : LengthOctets m o n)
    (hm : 1 ≤ m) : n < 256 ^ m := by
  have hpow : 256 ^ 1 ≤ 256 ^ m := Nat.pow_le_pow_right (by norm_num) hm
  cases h with
  | @short b hb =>
      have := b.toNat_lt
      omega
  | long _ _ hle =>
      exact (bigEndian_lt _).trans_le (Nat.pow_le_pow_right (by norm_num) hle)

theorem readLength_length {m : ℕ} {bs r : List UInt8} {n : ℕ}
    (h : readLength m bs = some (n, r)) : r.length < bs.length := by
  obtain ⟨o, rfl, ho⟩ := readLength_sound h
  have := ho.length_pos
  rw [List.length_append]
  omega

/-- A length has no more octets than are allowed. -/
theorem readLength_lt {m : ℕ} {bs r : List UInt8} {n : ℕ} (hm : 1 ≤ m)
    (h : readLength m bs = some (n, r)) : n < 256 ^ m := by
  obtain ⟨o, rfl, ho⟩ := readLength_sound h
  exact ho.lt hm

/-- The octets start with no definite length of at most `m` octets after the first. -/
inductive NoLength (m : ℕ) : List UInt8 → Prop
  | nil : NoLength m []
  /-- The indefinite form. -/
  | indefinite (bs : List UInt8) : NoLength m (0x80 :: bs)
  | tooLong {b : UInt8} {bs : List UInt8} : 0x80 + m < b.toNat → NoLength m (b :: bs)
  | truncated {b : UInt8} {bs : List UInt8} : 0x80 + bs.length < b.toNat → NoLength m (b :: bs)

theorem noLength_of_readLength {m : ℕ} {bs : List UInt8} (h : readLength m bs = none) :
    NoLength m bs := by
  cases bs with
  | nil => exact .nil
  | cons b bs =>
      have hb : ¬ b < 0x80 := by
        intro hb
        simp [readLength, hb] at h
      rw [readLength, if_neg hb] at h
      have hk : ¬ (1 ≤ b.toNat - 0x80 ∧ b.toNat - 0x80 ≤ m ∧ b.toNat - 0x80 ≤ bs.length) := by
        intro hk
        simp [hk] at h
      -- the count is 0, above `m` or above what is left
      have h80 : (0x80 : UInt8).toNat = 0x80 := rfl
      rw [UInt8.lt_iff_toNat_lt] at hb
      by_cases hone : b = 0x80
      · rw [hone]
        exact .indefinite bs
      · rw [← UInt8.toNat_inj] at hone
        by_cases hm : 0x80 + m < b.toNat
        · exact .tooLong hm
        · exact .truncated (by omega)

theorem readLength_of_noLength {m : ℕ} {bs : List UInt8} (h : NoLength m bs) :
    readLength m bs = none := by
  cases h with
  | nil => rfl
  | indefinite bs => simp [readLength]
  | @tooLong b bs hlong | @truncated b bs hlong =>
      have hb : ¬ b < 0x80 := by
        have h80 : (0x80 : UInt8).toNat = 0x80 := rfl
        rw [UInt8.lt_iff_toNat_lt]
        omega
      rw [readLength, if_neg hb]
      exact if_neg (by omega)

/-- Octets start with a length, or with none for one of the four reasons. -/
theorem lengthOctets_or_noLength (m : ℕ) (bs : List UInt8) :
    (∃ o n, LengthOctets m o n ∧ o <+: bs) ∨ NoLength m bs := by
  rcases hread : readLength m bs with _ | ⟨n, r⟩
  · exact Or.inr (noLength_of_readLength hread)
  · obtain ⟨o, ho, hoct⟩ := readLength_sound hread
    exact Or.inl ⟨o, n, hoct, r, ho.symm⟩

/-- How a length is written: in one octet, or after a count of `k` octets. -/
inductive LengthForm
  | short
  | long (k : ℕ)
  deriving DecidableEq, Repr

/-- The length `n` can be written in this form with at most `m` length octets. -/
def LengthForm.Fits (m : ℕ) : LengthForm → ℕ → Prop
  | .short, n => n < 0x80
  | .long k, n => 1 ≤ k ∧ k ≤ m ∧ k < 0x80 ∧ n < 256 ^ k

instance (m : ℕ) : (f : LengthForm) → (n : ℕ) → Decidable (f.Fits m n)
  | .short, n => inferInstanceAs (Decidable (n < 0x80))
  | .long k, n => inferInstanceAs (Decidable (1 ≤ k ∧ k ≤ m ∧ k < 0x80 ∧ n < 256 ^ k))

/-- Write a length in the chosen form. -/
def LengthForm.encode : LengthForm → ℕ → List UInt8
  | .short, n => [UInt8.ofNat n]
  | .long k, n => UInt8.ofNat (0x80 + k) :: toOctets k n

theorem LengthForm.encode_lengthOctets {m : ℕ} {f : LengthForm} {n : ℕ} (h : f.Fits m n) :
    LengthOctets m (f.encode n) n := by
  cases f with
  | short =>
      have hn : n < 0x80 := h
      have hval : (UInt8.ofNat n).toNat = n :=
        UInt8.toNat_ofNat_of_lt' (hn.trans (by decide))
      have hlt : UInt8.ofNat n < 0x80 := by
        rw [UInt8.lt_iff_toNat_lt, hval]
        simpa using hn
      have hshort := LengthOctets.short (m := m) hlt
      rwa [hval] at hshort
  | long k =>
      obtain ⟨hpos, hle, hk, hn⟩ := h
      have hval : (UInt8.ofNat (0x80 + k)).toNat = 0x80 + k :=
        UInt8.toNat_ofNat_of_lt' (by rw [UInt8.size]; omega)
      have hlong : LengthOctets m (UInt8.ofNat (0x80 + k) :: toOctets k n)
          (bigEndian (toOctets k n)) :=
        .long (by rw [hval, length_toOctets]) (by simpa using hpos) (by simpa using hle)
      rwa [bigEndian_toOctets k n hn] at hlong

/-! ## Identifier octets -/

/-- One complete identifier: a single octet other than zero whose low five bits are not all
set, or a leading octet with all of them set, continuation octets and a final octet. -/
inductive Identifier : List UInt8 → Prop
  | low {b : UInt8} : b ≠ 0 → b &&& 0x1F ≠ 0x1F → Identifier [b]
  | high {b e : UInt8} {cs : List UInt8} : b &&& 0x1F = 0x1F → (∀ c ∈ cs, c &&& 0x80 ≠ 0) →
      e &&& 0x80 = 0 → Identifier (b :: (cs ++ [e]))

/-- Split after the first octet with a clear top bit; everything when there is none. -/
def spanContinued : List UInt8 → List UInt8 × List UInt8
  | [] => ([], [])
  | b :: bs =>
      if b &&& 0x80 = 0 then ([b], bs)
      else (b :: (spanContinued bs).1, (spanContinued bs).2)

theorem spanContinued_append (bs : List UInt8) :
    (spanContinued bs).1 ++ (spanContinued bs).2 = bs := by
  induction bs with
  | nil => rfl
  | cons b bs ih =>
      rw [spanContinued]
      split
      · rfl
      · simp [ih]

/-- The octets up to the first that has no continuation bit. -/
theorem spanContinued_eq {cs : List UInt8} {e : UInt8} (hcs : ∀ c ∈ cs, c &&& 0x80 ≠ 0)
    (he : e &&& 0x80 = 0) (r : List UInt8) :
    spanContinued (cs ++ e :: r) = (cs ++ [e], r) := by
  induction cs with
  | nil => simp [spanContinued, he]
  | cons c cs ih =>
      have hc : c &&& 0x80 ≠ 0 := hcs c (by simp)
      have hrest := ih (fun d hd => hcs d (by simp [hd]))
      rw [List.cons_append, spanContinued, if_neg hc, hrest]
      rfl

/-- When something is left, the span did end at a final octet. -/
theorem spanContinued_final {bs : List UInt8} (h : (spanContinued bs).2 ≠ []) :
    ∃ cs e, (spanContinued bs).1 = cs ++ [e] ∧ (∀ c ∈ cs, c &&& 0x80 ≠ 0) ∧ e &&& 0x80 = 0 := by
  induction bs with
  | nil => exact absurd rfl h
  | cons b bs ih =>
      by_cases hb : b &&& 0x80 = 0
      · exact ⟨[], b, by simp [spanContinued, hb], by simp, hb⟩
      · simp only [spanContinued, if_neg hb] at h ⊢
        obtain ⟨cs, e, heq, hcs, he⟩ := ih h
        refine ⟨b :: cs, e, by rw [heq]; rfl, ?_, he⟩
        intro c hc
        rcases List.mem_cons.mp hc with rfl | hc
        · exact hb
        · exact hcs c hc

/-- Only the last octet of a span can have a clear top bit. -/
theorem spanContinued_init {bs pre : List UInt8} {e : UInt8}
    (h : (spanContinued bs).1 = pre ++ [e]) : ∀ c ∈ pre, c &&& 0x80 ≠ 0 := by
  induction bs generalizing pre with
  | nil => simp [spanContinued] at h
  | cons b bs ih =>
      rw [spanContinued] at h
      split at h
      -- the span ends at its first octet, so nothing stands before the last
      · have hnil : pre = [] := by
          have := congrArg List.length h
          simpa using this
        simp [hnil]
      · rename_i hb
        rcases pre with _ | ⟨c, pre⟩
        · simp
        · obtain ⟨rfl, hrest⟩ : b = c ∧ (spanContinued bs).1 = pre ++ [e] := by simpa using h
          intro d hd
          rcases List.mem_cons.mp hd with rfl | hd
          · exact hb
          · exact ih hrest d hd

/-- The identifier octets a scanner takes off the front, and what follows them.  An
identifier cut off by the end of the input is taken as far as it goes. -/
def identifierSpan : List UInt8 → List UInt8 × List UInt8
  | [] => ([], [])
  | b :: bs =>
      if b &&& 0x1F = 0x1F then (b :: (spanContinued bs).1, (spanContinued bs).2)
      else ([b], bs)

theorem identifierSpan_append (bs : List UInt8) :
    (identifierSpan bs).1 ++ (identifierSpan bs).2 = bs := by
  cases bs with
  | nil => rfl
  | cons b bs =>
      rw [identifierSpan]
      split
      · simp [spanContinued_append]
      · rfl

/-- An identifier takes at least its leading octet. -/
theorem length_identifierSpan (b : UInt8) (bs : List UInt8) :
    (identifierSpan (b :: bs)).2.length ≤ bs.length := by
  rw [identifierSpan]
  split
  · have happ := congrArg List.length (spanContinued_append bs)
    rw [List.length_append] at happ
    show (spanContinued bs).2.length ≤ bs.length
    omega
  · exact le_refl _

/-- Before the last octet of a scanned identifier stands one that is not zero. -/
theorem identifierSpan_ne_zero {b x y : UInt8} {bs pre : List UInt8} (hb : b ≠ 0)
    (h : (identifierSpan (b :: bs)).1 = pre ++ [x, y]) : x ≠ 0 := by
  rw [identifierSpan] at h
  split at h
  · rcases pre with _ | ⟨c, pre⟩
    · obtain ⟨rfl, -⟩ : b = x ∧ _ := by simpa using h
      exact hb
    · obtain ⟨-, hrest⟩ : b = c ∧ (spanContinued bs).1 = (pre ++ [x]) ++ [y] := by
        simpa using h
      -- `x` is continued, so its top bit is set
      have hx : x &&& 0x80 ≠ 0 := spanContinued_init hrest x (by simp)
      rintro rfl
      exact hx rfl
  · have := congrArg List.length h
    simp at this

/-- An identifier is split off whole. -/
theorem identifierSpan_eq {i : List UInt8} (h : Identifier i) (r : List UInt8) :
    identifierSpan (i ++ r) = (i, r) := by
  cases h with
  | low _ hlow => simp [identifierSpan, hlow]
  | @high b e cs hb hcs he =>
      have hspan := spanContinued_eq hcs he r
      rw [List.cons_append, List.append_assoc, identifierSpan, if_pos hb]
      simp only [List.singleton_append, hspan]

/-- A scanned identifier is complete unless the input ended inside it. -/
theorem identifier_of_span {b : UInt8} {bs : List UInt8} (hb : b ≠ 0)
    (h : (identifierSpan (b :: bs)).2 ≠ []) : Identifier (identifierSpan (b :: bs)).1 := by
  by_cases hlow : b &&& 0x1F = 0x1F
  · simp only [identifierSpan, if_pos hlow] at h ⊢
    obtain ⟨cs, e, heq, hcs, he⟩ := spanContinued_final h
    rw [heq]
    exact .high hlow hcs he
  · simp only [identifierSpan, if_neg hlow]
    exact .low hb hlow

theorem Identifier.exists_cons {i : List UInt8} (h : Identifier i) :
    ∃ b bs, i = b :: bs ∧ b ≠ 0 := by
  cases h with
  | low hb _ => exact ⟨_, _, rfl, hb⟩
  | @high b e cs hb _ _ =>
      refine ⟨b, cs ++ [e], rfl, ?_⟩
      rintro rfl
      simp at hb

/-! ## Elements -/

/-- `bs` is an element with identifier octets `i` and content `c`, and then `r`. -/
def Element (m : ℕ) (bs i c r : List UInt8) : Prop :=
  ∃ o, bs = i ++ o ++ c ++ r ∧ Identifier i ∧ LengthOctets m o c.length

/-- Read one element; `none` when no complete one comes first. -/
def readElement (m : ℕ) (bs : List UInt8) : Option (List UInt8 × List UInt8 × List UInt8) :=
  if bs.head? = none ∨ bs.head? = some 0 then none
  else
    match readLength m (identifierSpan bs).2 with
    | none => none
    | some (n, r) =>
        if n ≤ r.length then some ((identifierSpan bs).1, r.take n, r.drop n) else none

/-- Every element is read. -/
theorem readElement_complete {m : ℕ} {bs i c r : List UInt8} (h : Element m bs i c r) :
    readElement m bs = some (i, c, r) := by
  obtain ⟨o, rfl, hi, ho⟩ := h
  obtain ⟨b, i', rfl, hb⟩ := hi.exists_cons
  have hspan : identifierSpan ((b :: i') ++ o ++ c ++ r) = (b :: i', o ++ (c ++ r)) := by
    rw [List.append_assoc, List.append_assoc, identifierSpan_eq hi]
  rw [readElement, if_neg (by simpa using hb), hspan]
  simp only [readLength_append ho]
  simp

/-- Whatever is read is an element. -/
theorem readElement_sound {m : ℕ} {bs i c r : List UInt8}
    (h : readElement m bs = some (i, c, r)) : Element m bs i c r := by
  cases bs with
  | nil => simp [readElement] at h
  | cons b bs =>
      rw [readElement] at h
      split at h
      · simp at h
      · rename_i hne
        have hb : b ≠ 0 := by
          rintro rfl
          exact hne (Or.inr rfl)
        split at h
        · simp at h
        · rename_i n r' hlen
          split at h
          · rename_i hle
            obtain ⟨rfl, rfl, rfl⟩ : (identifierSpan (b :: bs)).1 = i ∧ r'.take n = c
                ∧ r'.drop n = r := by simpa using h
            obtain ⟨o, ho, hoct⟩ := readLength_sound hlen
            -- a length follows the identifier, so the input did not end inside it
            have hrest : (identifierSpan (b :: bs)).2 ≠ [] := by
              rw [ho]
              intro hnil
              have := hoct.length_pos
              simp_all
            refine ⟨o, ?_, identifier_of_span hb hrest, ?_⟩
            · rw [List.append_assoc _ (r'.take n), List.take_append_drop, List.append_assoc,
                ← ho, identifierSpan_append]
            · rwa [List.length_take, Nat.min_eq_left hle]
          · simp at h

theorem readElement_eq_some_iff {m : ℕ} {bs i c r : List UInt8} :
    readElement m bs = some (i, c, r) ↔ Element m bs i c r :=
  ⟨readElement_sound, readElement_complete⟩

/-- No element comes first. -/
theorem readElement_eq_none_iff {m : ℕ} {bs : List UInt8} :
    readElement m bs = none ↔ ¬ ∃ i c r, Element m bs i c r := by
  constructor
  · rintro h ⟨i, c, r, he⟩
    rw [readElement_complete he] at h
    simp at h
  · intro h
    rcases hr : readElement m bs with _ | ⟨i, c, r⟩
    · rfl
    · exact absurd ⟨i, c, r, readElement_sound hr⟩ h

end Ber
