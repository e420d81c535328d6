/-
# Dumped values

Which static fields are dumped with the value they hold, and into a variable that can receive
it.  The variable is an `int` for every integer and every enum, and an array is taken for an
enum if its elements are one.
-/
import LiuHookWorld.DumperNumbers
import LiuHookWorld.DumperStrings

namespace Dumper

/-! ## What a field holds -/

/-- The integral types the branches name. -/
def Integral.named : Integral → Bool
  | BOOLEAN | I1 | U1 | I2 | U2 | I4 | U4 => true
  | CHAR | I8 | U8 | I | U => false

/-- The type is one of these. -/
def ManagedType.named : ManagedType → Bool
  | integral t => t.named
  | _ => false

section

variable {abi : Abi} (L : TypedLibrary abi) (field : FieldInfo)

/-- The units of the string whose address the storage holds; none at null. -/
def TypedLibrary.stringOf : Option (List UInt16) :=
  let str := littleEndian (L.held field).storage
  if str = 0 then none else some (L.lib.string_units str)

/-- A string as UTF-8. -/
def utf8Text : Option (List UInt16) → Text
  | none => []
  | some units => (Utf16.decode units).flatMap String.utf8EncodeChar

/-- What the dump should put after the name of a static field: the value of a type that the
branches name, and nothing for other types.  Floating-point values are left open. -/
def realText : Option Text :=
  let storage := (L.held field).storage
  match (L.held field).type with
  | .integral t => if t.named then some (ascii " = " ++ decimal (t.value storage)) else some []
  | .enum t | .genericEnum t => some (ascii " = " ++ decimal (t.value storage))
  | .STRING => some (ascii " = " ++ utf8Text (L.stringOf field))
  | .R4 | .R8 => none
  | _ => some []

/-- The value is dumped as it is, from a variable that was wide enough to receive it. -/
def Faithful (host : Host) : Prop :=
  (∀ store ∈ fieldStores host L.lib field, store.bytes.length ≤ store.size)
    ∧ ∀ text ∈ realText L field, c_str (fieldValue host L.lib field) = text

/-- The storage of what is taken for an enum has the width of an `int` at most. -/
def Fits (abi : Abi) (type : ManagedType) : Prop :=
  type.elementIsEnum = true → type.width abi ≤ 4

/-- An `int` receives the number unchanged, the string can be reached and has no NUL, and no
array of an enum is taken for one. -/
def Printable : Prop :=
  let storage := (L.held field).storage
  match (L.held field).type with
  | .integral t => t.named = true → IntReads t storage
  | .enum t | .genericEnum t => IntReads t storage
  | .STRING => L.lib.static_fields field = true ∧ ∀ units ∈ L.stringOf field, 0 ∉ units
  | .R4 | .R8 => True
  | type => type.elementIsEnum = false

end

/-! ## The branch taken -/

theorem code_mem_intTypes_iff (type : ManagedType) :
    type.code ∈ intTypes ↔ type.named = true := by
  cases type with
  | integral t =>
      cases t <;>
        simp [ManagedType.code, ManagedType.named, Integral.code, Integral.named, intTypes]
  | _ => simp [ManagedType.code, ManagedType.named, intTypes]

theorem code_eq_R4_iff (type : ManagedType) : type.code = 0x0c ↔ type = .R4 := by
  cases type with
  | integral t => cases t <;> simp [ManagedType.code, Integral.code]
  | _ => simp [ManagedType.code]

theorem code_eq_R8_iff (type : ManagedType) : type.code = 0x0d ↔ type = .R8 := by
  cases type with
  | integral t => cases t <;> simp [ManagedType.code, Integral.code]
  | _ => simp [ManagedType.code]

theorem code_eq_STRING_iff (type : ManagedType) : type.code = 0x0e ↔ type = .STRING := by
  cases type with
  | integral t => cases t <;> simp [ManagedType.code, Integral.code]
  | _ => simp [ManagedType.code]

section

variable {host : Host} (L : TypedLibrary host.abi) {field : FieldInfo}

/-- The branches, by the type of the field. -/
theorem valueOf_typed :
    valueOf host L.lib field =
      if (L.held field).type.elementIsEnum = true ∨ (L.held field).type.named = true then
        (some 4, intText L.lib field)
      else if (L.held field).type = .R4 then
        (some 4, ascii " = " ++ host.to_string_float (received 4 (L.held field).storage))
      else if (L.held field).type = .R8 then
        (some 8, ascii " = " ++ host.to_string_double (received 8 (L.held field).storage))
      else if (L.held field).type = .STRING ∧ L.lib.static_fields field = true then
        (some (host.abi.sizeBits / 8), stringText host L.lib field)
      else (none, []) := by
  simp only [valueOf, L.element_enum, L.type_code, L.writes, code_mem_intTypes_iff,
    code_eq_R4_iff, code_eq_R8_iff, Bool.and_eq_true, decide_eq_true_eq, code_eq_STRING_iff]

/-- The text of an `int` that received four bytes at most. -/
theorem intText_eq (hlength : (L.held field).storage.length ≤ 4) :
    c_str (intText L.lib field) = ascii " = " ++ decimal (intOf (L.held field).storage) := by
  have htext : intText L.lib field = ascii " = " ++ decimal (intOf (L.held field).storage) := by
    rw [intText, L.writes, littleEndian_received hlength]
    rfl
  rw [htext]
  apply c_str_of_not_mem
  rw [List.mem_append, not_or]
  exact ⟨by decide, zero_not_mem_decimal _⟩

/-- The number received and printed is the number held exactly when an `int` reads it. -/
theorem int_faithful_iff {t : Integral}
    (hwidth : (L.held field).storage.length = t.width host.abi) :
    ((L.held field).storage.length ≤ 4
        ∧ c_str (intText L.lib field) = ascii " = " ++ decimal (t.value (L.held field).storage))
      ↔ IntReads t (L.held field).storage := by
  by_cases hlength : (L.held field).storage.length ≤ 4
  · have hcases := t.width_cases host.abi
    have hsmall : (L.held field).storage.length = 1 ∨ (L.held field).storage.length = 2
        ∨ (L.held field).storage.length = 4 := by omega
    rw [intText_eq L hlength]
    rcases intOf_sign (t := t) hsmall with ⟨hreads, heq⟩ | ⟨hreads, hsign⟩
    · rw [heq]
      exact iff_of_true ⟨hlength, rfl⟩ hreads
    · refine iff_of_false (fun h => ?_) hreads
      -- the two numerals differ in their sign
      have hdecimal := List.append_cancel_left h.2
      have hminus := minus_mem_decimal_iff (intOf (L.held field).storage)
      rw [hdecimal, minus_mem_decimal_iff] at hminus
      omega
  · exact iff_of_false (fun h => hlength h.1) fun h => hlength h.1

/-- The text of a static string, whose address is received as it is. -/
theorem fieldValue_string (hstatic : isStatic L.lib field = true)
    (htype : (L.held field).type = .STRING) :
    fieldValue host L.lib field = if L.lib.static_fields field = true then
      ascii " = " ++ Il2CppStringToStdString (L.stringOf field) else [] := by
  have hwidth : (L.held field).storage.length = host.abi.sizeBits / 8 := by
    rw [(L.held field).length_storage, htype]
    rfl
  have hint : ¬ ((L.held field).type.elementIsEnum = true ∨ (L.held field).type.named = true) := by
    rw [htype]
    rintro (h | h) <;> cases h
  rw [fieldValue, if_pos hstatic, valueOf_typed, if_neg hint, if_neg (by rw [htype]; decide),
    if_neg (by rw [htype]; decide)]
  simp only [htype, true_and]
  split
  · rw [stringText, L.writes, littleEndian_received hwidth.le, TypedLibrary.stringOf]
  · rfl

theorem il2CppString_utf8Text (str : Option (List UInt16)) :
    Il2CppStringToStdString str = utf8Text str := by
  cases str with
  | none => rfl
  | some units => rw [Il2CppStringToStdString, utf16ToUtf8_eq, utf8Text]

/-! ## One field -/

/-- What is fetched for a static field fits when what `valueOf` says does. -/
theorem stores_fit_iff (hstatic : isStatic L.lib field = true) :
    (∀ store ∈ fieldStores host L.lib field, store.bytes.length ≤ store.size)
      ↔ ∀ size ∈ (valueOf host L.lib field).1, (L.held field).storage.length ≤ size := by
  rw [fieldStores, if_pos hstatic, L.writes]
  cases (valueOf host L.lib field).1 with
  | none => simp
  | some size => simp

/-- The types read into an `int` by their code have four bytes at most. -/
theorem width_le_of_named {type : ManagedType} (abi : Abi) (h : type.named = true) :
    type.width abi ≤ 4 := by
  cases type with
  | integral t =>
      cases t with
      | BOOLEAN | I1 | U1 => exact (by decide : 1 ≤ 4)
      | I2 | U2 => exact (by decide : 2 ≤ 4)
      | I4 | U4 => exact le_rfl
      | CHAR | I8 | U8 | I | U => cases h
  | _ => cases h

/-- What is fetched for a static field fits in its variable exactly when no type taken for an
enum is wider than an `int`. -/
theorem fits_iff (hstatic : isStatic L.lib field = true) :
    (∀ store ∈ fieldStores host L.lib field, store.bytes.length ≤ store.size)
      ↔ Fits host.abi (L.held field).type := by
  have hwidth := (L.held field).length_storage
  rw [stores_fit_iff L hstatic, valueOf_typed, hwidth, Fits]
  split
  case isTrue hint =>
    simp only [Option.mem_some_iff, forall_eq']
    constructor
    · intro h _
      exact h
    · intro h
      rcases hint with henum | hnamed
      · exact h henum
      · exact width_le_of_named host.abi hnamed
  case isFalse hint =>
    refine iff_of_true ?_ fun henum => absurd (.inl henum) hint
    split
    case isTrue hr4 =>
      rw [hr4]
      simp [ManagedType.width]
    case isFalse =>
      split
      case isTrue hr8 =>
        rw [hr8]
        simp [ManagedType.width]
      case isFalse =>
        split
        case isTrue hstring =>
          rw [hstring.1]
          simp [ManagedType.width]
        case isFalse => simp

/-- For a number fetched into an `int`. -/
theorem faithful_int_iff {t : Integral} (hstatic : isStatic L.lib field = true)
    (hint : (L.held field).type.elementIsEnum = true ∨ (L.held field).type.named = true)
    (hreal : realText L field
      = some (ascii " = " ++ decimal (t.value (L.held field).storage)))
    (hwidth : (L.held field).storage.length = t.width host.abi) :
    Faithful L field host ↔ IntReads t (L.held field).storage := by
  rw [Faithful, stores_fit_iff L hstatic, hreal, fieldValue, if_pos hstatic, valueOf_typed,
    if_pos hint]
  simp only [Option.mem_some_iff, forall_eq']
  exact int_faithful_iff L hwidth

/-- For a type that no branch names. -/
theorem faithful_none_iff (hstatic : isStatic L.lib field = true)
    (hreal : realText L field = some [])
    (hnamed : (L.held field).type.named = false)
    (hother : ∀ type ∈ [ManagedType.R4, .R8, .STRING], (L.held field).type ≠ type) :
    Faithful L field host ↔ (L.held field).type.elementIsEnum = false := by
  simp only [List.forall_mem_cons] at hother
  rw [Faithful, stores_fit_iff L hstatic, hreal, fieldValue, if_pos hstatic, valueOf_typed]
  by_cases henum : (L.held field).type.elementIsEnum = true
  · -- a number is printed
    rw [if_pos (.inl henum), henum]
    simp only [Option.mem_some_iff, forall_eq', Bool.true_eq_false, iff_false, not_and]
    intro hlength hempty
    rw [intText_eq L hlength] at hempty
    cases hempty
  · simp [henum, hnamed, hother]
    rfl

/-- For a string: its address fits, and it is printed if the class has static storage. -/
theorem faithful_string_iff (hstatic : isStatic L.lib field = true)
    (htype : (L.held field).type = .STRING) :
    Faithful L field host ↔
      L.lib.static_fields field = true ∧ ∀ units ∈ L.stringOf field, 0 ∉ units := by
  have hreal : realText L field = some (ascii " = " ++ utf8Text (L.stringOf field)) := by
    rw [realText, htype]
  have hfits : Fits host.abi (L.held field).type := by
    rw [htype]
    intro henum
    cases henum
  rw [Faithful, and_iff_right ((fits_iff L hstatic).mpr hfits), hreal,
    fieldValue_string L hstatic htype, ← il2CppString_utf8Text]
  simp only [Option.mem_some_iff, forall_eq']
  by_cases hreached : L.lib.static_fields field = true
  · rw [if_pos hreached, and_iff_right hreached, c_str_eq_self_iff, List.mem_append, not_or,
      and_iff_right (by decide), mem_il2CppString_iff (by decide)]
    push Not
    rfl
  · rw [if_neg hreached]
    refine iff_of_false (fun h => ?_) fun h => hreached h.1
    cases h

theorem faithful_iff (hstatic : isStatic L.lib field = true) :
    Faithful L field host ↔ Printable L field := by
  have hwidth := (L.held field).length_storage
  -- floating-point values are only required to fit
  have hfloat (hreal : realText L field = none)
      (hclass : (L.held field).type.elementIsEnum = false) : Faithful L field host := by
    refine ⟨(fits_iff L hstatic).mpr fun henum => ?_, fun text htext => ?_⟩
    · rw [hclass] at henum
      cases henum
    · rw [hreal] at htext
      cases htext
  rw [Printable]
  cases htype : (L.held field).type with
  | integral t =>
      rw [htype] at hwidth
      cases hnamed : t.named with
      | true =>
          refine (faithful_int_iff L hstatic ?_ ?_ hwidth).trans ⟨fun h _ => h, fun h => h hnamed⟩
          · rw [htype]
            exact .inr hnamed
          · rw [realText, htype]
            simp only [hnamed, if_true]
      | false =>
          refine (faithful_none_iff L hstatic ?_ ?_ ?_).trans ?_
          · rw [realText, htype]
            simp only [hnamed, Bool.false_eq_true, if_false]
          · rw [htype]
            exact hnamed
          · rw [htype]
            simp
          · rw [htype]
            exact iff_of_true rfl fun h => absurd (h.symm.trans hnamed) (by decide)
  | enum t =>
      rw [htype] at hwidth
      exact faithful_int_iff L hstatic (by rw [htype]; exact .inl rfl)
        (by rw [realText, htype]) hwidth
  | genericEnum t =>
      rw [htype] at hwidth
      exact faithful_int_iff L hstatic (by rw [htype]; exact .inl rfl)
        (by rw [realText, htype]) hwidth
  | STRING => exact faithful_string_iff L hstatic htype
  | R4 => exact iff_of_true (hfloat (by rw [realText, htype]) (by rw [htype]; rfl)) trivial
  | R8 => exact iff_of_true (hfloat (by rw [realText, htype]) (by rw [htype]; rfl)) trivial
  | _ =>
      refine (faithful_none_iff L hstatic ?_ ?_ ?_).trans ?_
      · rw [realText, htype]
      · rw [htype]
        rfl
      · rw [htype]
        simp
      · rw [htype]

end

/-! ## The fields of a class -/

/-- The dump of a class writes a line for every field; its static fields are dumped with the
values they hold exactly when all of them are printable. -/
theorem dumped_values_iff (host : Host) (L : TypedLibrary host.abi) (klass : Il2CppClass) :
    Yields (DumpClassFields host L.lib (resolve L.lib) klass) ()
        (ascii "    // Fields\n" ++ (L.lib.class_get_fields klass).flatMap fun field =>
          fieldStart L.lib field ++ fieldName L.lib field
            ++ fieldEnd L.lib field (c_str (fieldValue host L.lib field)) ++ ascii "\n")
        ((L.lib.class_get_fields klass).flatMap (fieldStores host L.lib))
      ∧ ((∀ field ∈ L.lib.class_get_fields klass,
            isStatic L.lib field = true → Faithful L field host)
          ↔ ∀ field ∈ L.lib.class_get_fields klass,
            isStatic L.lib field = true → Printable L field) := by
  refine ⟨yields_dumpClassFields L.exported klass, ?_⟩
  exact forall₂_congr fun field _ => forall_congr' fun hstatic => faithful_iff L hstatic

/-- A class whose one static field is an `I1` that holds -1. -/
def minusOne : TypedLibrary .arm64_v8a := typedOneField ⟨.integral .I1, [0xFF], rfl⟩ []

/-- It is dumped as 255. -/
theorem not_faithful_minusOne :
    ∃ field ∈ minusOne.lib.class_get_fields ⟨4⟩, isStatic minusOne.lib field = true
      ∧ ¬ Faithful minusOne field exampleHost := by
  refine ⟨⟨5⟩, List.mem_singleton_self _, by decide, fun h => ?_⟩
  have htext := h.2 (ascii " = -1") (by decide +kernel)
  revert htext
  decide +kernel

/-- The variables of the dump of a class are wide enough for what they receive exactly when
what is taken for an enum, an enum or an array of one, has the width of an `int` at most. -/
theorem receivers_wide_iff (host : Host) (L : TypedLibrary host.abi) (klass : Il2CppClass) :
    ∃ stores, (∀ s, ∃ s', DumpClassFields host L.lib (resolve L.lib) klass s = .ok ((), s')
          ∧ s'.stores = s.stores ++ stores)
      ∧ ((∀ store ∈ stores, store.bytes.length ≤ store.size)
          ↔ ∀ field ∈ L.lib.class_get_fields klass,
            isStatic L.lib field = true → Fits host.abi (L.held field).type) := by
  refine ⟨(L.lib.class_get_fields klass).flatMap (fieldStores host L.lib), ?_, ?_⟩
  · intro s
    exact ⟨_, yields_dumpClassFields L.exported klass s, rfl⟩
  · rw [List.forall_mem_flatMap]
    refine forall₂_congr fun field _ => ?_
    by_cases hstatic : isStatic L.lib field = true
    · rw [forall_prop_of_true hstatic]
      exact fits_iff L hstatic
    · refine iff_of_true ?_ fun h => absurd h hstatic
      rw [fieldStores, if_neg hstatic]
      exact fun store hstore => by cases hstore

/-- A class whose one static field is an enum stored in eight bytes. -/
def wideEnum : TypedLibrary .arm64_v8a := typedOneField ⟨.enum .I8, List.replicate 8 0, rfl⟩ []

/-- All of them are written to an `int`. -/
theorem not_receivers_wide_wideEnum :
    ∃ s', DumpClassFields exampleHost wideEnum.lib (resolve wideEnum.lib) ⟨4⟩
        ⟨none, 0, none, [], []⟩
        = .ok ((), s')
      ∧ ∃ store ∈ s'.stores, store.size < store.bytes.length := by
  refine ⟨_, yields_dumpClassFields wideEnum.exported ⟨4⟩ _, ⟨⟨5⟩, 4, List.replicate 8 0⟩, ?_, ?_⟩
  · decide
  · decide

end Dumper
