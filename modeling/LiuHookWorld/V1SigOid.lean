/-
# Object identifiers (`parseOID`)

`parseOID` of `MyHook/utils/v1sigparse.cpp` against the encoding of object identifiers: the
first two arcs packed into one number, each number in base 128.  The loop reads the numbers
back; the first one it splits by 40 whatever the root arc is, which undoes the packing only
for second arcs below 40.
-/
import LiuHookWorld.Base128
import LiuHookWorld.Decimal
import LiuHookWorld.V1SigText

namespace V1Sig

/-! ## Object identifiers -/

/-- An object identifier `a0.a1.a2…` whose sub-identifiers have 64 bits. -/
structure ObjectIdentifier where
  a0 : ℕ
  a1 : ℕ
  rest : List ℕ
  root : a0 ≤ 2
  second : a0 < 2 → a1 < 40
  packed_lt : 40 * a0 + a1 < 2 ^ 64
  rest_lt : ∀ a ∈ rest, a < 2 ^ 64

namespace ObjectIdentifier

/-- The first sub-identifier. -/
def packed (oid : ObjectIdentifier) : ℕ := 40 * oid.a0 + oid.a1

/-- The content octets: every sub-identifier in base 128. -/
def encode (oid : ObjectIdentifier) : List UInt8 :=
  (oid.packed :: oid.rest).flatMap Base128.encode

/-- The arcs after the second one, each behind a dot. -/
def dottedRest (rest : List ℕ) : String := String.join (rest.map fun a => "." ++ toString a)

/-- The dotted decimal string. -/
def dotted (oid : ObjectIdentifier) : String :=
  toString oid.a0 ++ "." ++ toString oid.a1 ++ dottedRest oid.rest

end ObjectIdentifier

/-! ## One octet -/

/-- A continued octet adds seven bits to the number being read. -/
theorem toNat_oidShift (value : UInt64) (byte : UInt8) :
    (value <<< 7 ||| (byte &&& 0x7F).toUInt64).toNat
      = (value.toNat * 128 + byte.toNat % 128) % 2 ^ 64 := by
  have hvalue : value.toNat < 2 ^ 64 := value.toNat_lt
  have hlow : (byte &&& 0x7F).toNat = byte.toNat % 128 := by
    have hmask : (0x7F : UInt8).toNat = 2 ^ 7 - 1 := rfl
    rw [UInt8.toNat_and, hmask, Nat.and_two_pow_sub_one_eq_mod]
  have hshift : (value <<< 7).toNat = 2 ^ 7 * (value.toNat % 2 ^ 57) := by
    rw [UInt64.toNat_shiftLeft, Nat.shiftLeft_eq]
    have h7 : (7 : UInt64).toNat % 64 = 7 := rfl
    rw [h7]
    omega
  have hlt : byte.toNat % 128 < 2 ^ 7 := Nat.mod_lt _ (by decide)
  rw [UInt64.toNat_or, UInt8.toNat_toUInt64, hlow, hshift, ← Nat.two_pow_add_eq_or_of_lt hlt]
  omega

/-- The number after one more octet. -/
theorem ofNat_oidShift (n : ℕ) (byte : UInt8) :
    UInt64.ofNat n <<< 7 ||| (byte &&& 0x7F).toUInt64
      = UInt64.ofNat (n * 128 + byte.toNat % 128) := by
  apply UInt64.toNat_inj.mp
  rw [toNat_oidShift, UInt64.toNat_ofNat', UInt64.toNat_ofNat']
  omega

/-! ## One sub-identifier -/

/-- What a complete sub-identifier adds to the string. -/
def arcText (first : Bool) (n : ℕ) : String :=
  if first then toString (n / 40 % 2 ^ 32) ++ "." ++ toString (n % 40) else "." ++ toString n

/-- Continued octets only change the number being read. -/
theorem foldl_continued {os : List UInt8} (first : Bool) (oss : String) :
    ∀ n, (∀ b ∈ os, 128 ≤ b.toNat) →
      os.foldl oidStep ⟨UInt64.ofNat n, first, oss⟩
        = ⟨UInt64.ofNat (Base128.accumulate n os), first, oss⟩ := by
  induction os with
  | nil => intro n _; rfl
  | cons b os ih =>
      intro n hos
      have hb : ¬ b &&& 0x80 = 0 := by
        rw [Ber.and_80_eq_zero_iff]
        exact Nat.not_lt.mpr (hos b List.mem_cons_self)
      have hstep : oidStep ⟨UInt64.ofNat n, first, oss⟩ b
          = ⟨UInt64.ofNat (n * 128 + b.toNat % 128), first, oss⟩ := by
        rw [oidStep, ofNat_oidShift]
        exact if_neg hb
      rw [List.foldl_cons, hstep, ih _ fun c hc => hos c (List.mem_cons_of_mem b hc)]
      rfl

/-- The last octet completes the number. -/
theorem oidStep_last {n : ℕ} {b : UInt8} (first : Bool) (oss : String) (hb : b.toNat < 128)
    (hn : n * 128 + b.toNat < 2 ^ 64) :
    oidStep ⟨UInt64.ofNat n, first, oss⟩ b
      = ⟨0, false, oss ++ arcText first (n * 128 + b.toNat)⟩ := by
  have hval : (UInt64.ofNat (n * 128 + b.toNat)).toNat = n * 128 + b.toNat :=
    UInt64.toNat_ofNat_of_lt' hn
  rw [oidStep, ofNat_oidShift, Nat.mod_eq_of_lt hb, if_pos ((Ber.and_80_eq_zero_iff b).mpr hb)]
  cases first with
  | true =>
      have hx : (UInt64.ofNat (n * 128 + b.toNat) / 40).toUInt32.toNat
          = (n * 128 + b.toNat) / 40 % 2 ^ 32 := by
        rw [UInt64.toNat_toUInt32, UInt64.toNat_div, hval]
        rfl
      have hy : (UInt64.ofNat (n * 128 + b.toNat) % 40).toUInt32.toNat
          = (n * 128 + b.toNat) % 40 := by
        rw [UInt64.toNat_toUInt32, UInt64.toNat_mod, hval]
        exact Nat.mod_eq_of_lt ((Nat.mod_lt _ (by decide)).trans (by decide))
      rw [if_pos rfl, arcText, if_pos rfl]
      dsimp only
      rw [hx, hy, String.append_assoc, String.append_assoc, String.append_assoc]
  | false =>
      rw [if_neg (by simp), arcText, if_neg (by simp), hval, String.append_assoc]

/-- Reading one encoded sub-identifier. -/
theorem foldl_encode {n : ℕ} (first : Bool) (oss : String) (hn : n < 2 ^ 64) :
    (Base128.encode n).foldl oidStep ⟨0, first, oss⟩ = ⟨0, false, oss ++ arcText first n⟩ := by
  have hzero : (0 : UInt64) = UInt64.ofNat 0 := rfl
  have hlast := Base128.toNat_last n
  rw [Base128.encode, List.foldl_append, hzero,
    foldl_continued first oss 0 (Base128.continued_ge (n / 128)), Base128.accumulate_continued,
    List.foldl_cons, List.foldl_nil, oidStep_last first oss (by omega) (by omega), hlast,
    Nat.div_add_mod']
  rfl

/-- Reading the sub-identifiers after the first one. -/
theorem foldl_encode_rest {rest : List ℕ} (hrest : ∀ a ∈ rest, a < 2 ^ 64) (oss : String) :
    (rest.flatMap Base128.encode).foldl oidStep ⟨0, false, oss⟩
      = ⟨0, false, oss ++ ObjectIdentifier.dottedRest rest⟩ := by
  induction rest generalizing oss with
  | nil => simp [ObjectIdentifier.dottedRest]
  | cons a rest ih =>
      rw [List.flatMap_cons, List.foldl_append, foldl_encode false oss (hrest a List.mem_cons_self),
        ih fun b hb => hrest b (List.mem_cons_of_mem a hb)]
      simp [ObjectIdentifier.dottedRest, arcText, String.append_assoc]

/-- What `parseOID` makes of an encoded object identifier. -/
theorem parseOID_encode (oid : ObjectIdentifier) :
    parseOID oid.encode = toString (oid.packed / 40 % 2 ^ 32) ++ "." ++ toString (oid.packed % 40)
      ++ ObjectIdentifier.dottedRest oid.rest := by
  have hne : oid.encode.isEmpty = false := by
    simp [ObjectIdentifier.encode, Base128.encode]
  have hfirst := foldl_encode true "" oid.packed_lt
  rw [parseOID, hne, if_neg (by simp), ObjectIdentifier.encode, List.flatMap_cons,
    List.foldl_append, ObjectIdentifier.packed, hfirst, foldl_encode_rest oid.rest_lt]
  simp [arcText]

/-! ## The round trip -/

/-- A text is cut at its first dot in one way. -/
theorem cut_inj {c : Char} {l l' r r' : List Char} (hl : c ∉ l) (hl' : c ∉ l')
    (h : l ++ c :: r = l' ++ c :: r') : l = l' ∧ r = r' := by
  have hlen : l.length = l'.length := by
    have hidx := congrArg (List.idxOf c) h
    rwa [List.idxOf_append_of_notMem hl, List.idxOf_append_of_notMem hl', List.idxOf_cons_self,
      List.idxOf_cons_self] at hidx
  obtain ⟨rfl, hcons⟩ := List.append_inj h hlen
  exact ⟨rfl, List.tail_eq_of_cons_eq hcons⟩

/-- Two decimals with a dot between them determine the numbers, whatever follows. -/
theorem dotted_inj {x y a b : ℕ} {rest : String} :
    toString x ++ "." ++ toString y ++ rest = toString a ++ "." ++ toString b ++ rest
      ↔ x = a ∧ y = b := by
  constructor
  · intro h
    have hlist : Decimal.digits x ++ '.' :: (Decimal.digits y ++ rest.toList)
        = Decimal.digits a ++ '.' :: (Decimal.digits b ++ rest.toList) := by
      have happ := congrArg String.toList h
      simp only [String.toList_append, List.append_assoc, Decimal.toList_toString] at happ
      exact happ
    have hdot : ∀ n, '.' ∉ Decimal.digits n := Decimal.notMem_digits (by decide)
    obtain ⟨hx, htail⟩ := cut_inj (hdot x) (hdot a) hlist
    have hy := List.append_cancel_right htail
    exact ⟨Decimal.digits_inj hx, Decimal.digits_inj hy⟩
  · rintro ⟨rfl, rfl⟩
    rfl

/-- **Object identifiers.**  `parseOID` gives the dotted decimal string of an encoded object
identifier back if and only if its second arc is below 40. -/
theorem parseOID_encode_iff (oid : ObjectIdentifier) :
    parseOID oid.encode = oid.dotted ↔ oid.a1 < 40 := by
  have hroot := oid.root
  have hsecond := oid.second
  have hpacked : oid.packed = 40 * oid.a0 + oid.a1 := rfl
  rw [parseOID_encode, ObjectIdentifier.dotted, dotted_inj, hpacked]
  constructor
  · rintro ⟨-, hmod⟩
    rw [← hmod]
    exact Nat.mod_lt _ (by decide)
  · intro hlt
    have hdiv : (40 * oid.a0 + oid.a1) / 40 = oid.a0 := by omega
    have hmod : (40 * oid.a0 + oid.a1) % 40 = oid.a1 := by omega
    rw [hdiv, hmod]
    exact ⟨Nat.mod_eq_of_lt (by omega), rfl⟩

/-- `2.999`, whose content octets are `88 37`, comes out as `26.39`. -/
theorem not_parseOID_2_999 :
    let oid : ObjectIdentifier := ⟨2, 999, [], by decide, by decide, by decide, by simp⟩
    parseOID oid.encode = "26.39" ∧ oid.dotted = "2.999" ∧ parseOID oid.encode ≠ oid.dotted := by
  intro oid
  have hparse : parseOID oid.encode = "26.39" := by
    rw [parseOID_encode]
    decide
  have hdotted : oid.dotted = "2.999" := by decide
  refine ⟨hparse, hdotted, ?_⟩
  rw [hparse, hdotted]
  decide

end V1Sig
