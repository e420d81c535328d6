/-
# Reading a dump back

When the line of a static string field is one line, from which the string can be read back.
Nothing of the text is escaped on its way into the file.
-/
import LiuHookWorld.CString
import LiuHookWorld.DumperValues

namespace Dumper

/-! ## Reading back -/

/-- The text written for a field is one line, and what it has between the first ` = ` after the
name and the last `; // 0x` is `value`. -/
def ReadsBack (written start name value : Text) : Prop :=
  ∃ after tail, written = start ++ name ++ after ++ ascii "\n"
    ∧ 0x0A ∉ start ++ name ++ after
    ∧ CString.First after (ascii " = ") (ascii " = " ++ value ++ tail)
    ∧ CString.Last (ascii " = " ++ value ++ tail) (ascii "; // 0x") tail

/-! ## The end of the line -/

/-- The digits of an offset have neither a semicolon nor a line feed. -/
theorem not_mem_percent_x {b : UInt8} (hb : b ∉ numeralBytes) (n : ℕ) : b ∉ percent_x n :=
  fun h => hb (mem_numeralBytes (by decide) (by decide) n b h)

section

variable (lib : Il2CppLibrary) (field : FieldInfo)

/-- The offset, at the end of the line. -/
def offsetText : Text :=
  ascii "; // 0x" ++ percent_x (lib.field_get_offset field).toUInt32.toNat

theorem fieldEnd_value (value : Text) :
    fieldEnd lib field (ascii " = " ++ value)
      = ascii " " ++ (ascii " = " ++ value ++ offsetText lib field) := by
  simp only [fieldEnd, offsetText, List.append_assoc]

/-- The first ` = ` is the one put there. -/
theorem first_fieldEnd (value : Text) :
    CString.First (fieldEnd lib field (ascii " = " ++ value)) (ascii " = ")
      (ascii " = " ++ value ++ offsetText lib field) := by
  rw [fieldEnd_value]
  apply CString.first_of_strstr
  rfl

/-- The last `; // 0x` is the one put there. -/
theorem last_offsetText (left : Text) :
    CString.Last (left ++ offsetText lib field) (ascii "; // 0x") (offsetText lib field) :=
  CString.Last.of_append left (by decide) (not_mem_percent_x (by decide) _)

/-- Without a value there is no ` = `. -/
theorem not_first_fieldEnd_nil (rest : Text) :
    ¬ CString.First (fieldEnd lib field []) (ascii " = ") rest := by
  intro h
  have hmem : 0x3D ∈ fieldEnd lib field [] :=
    h.suffix.subset (h.starts.subset (by decide))
  rw [fieldEnd, List.mem_append, List.mem_append] at hmem
  rcases hmem with (hmem | hmem) | hmem
  · exact absurd hmem (by decide)
  · exact absurd hmem (by decide)
  · exact not_mem_percent_x (by decide) _ hmem

end

/-! ## The start of the line -/

/-- Characters that neither the access word, nor a blank, nor a modifier has are not in the
flags. -/
theorem not_mem_buildFlags {b : UInt8} {access : String} {mods : List (Bool × String)}
    (haccess : b ∉ ascii access) (hblank : b ∉ ascii " ")
    (hmods : ∀ mod ∈ mods, b ∉ ascii mod.2) : b ∉ buildFlags access mods := by
  have happend (modifiers : Text) (mod : String) (hmodifiers : b ∉ modifiers)
      (hmod : b ∉ ascii mod) : b ∉ append_modifier modifiers mod := by
    rw [append_modifier]
    split
    · exact hmod
    · simp [hmodifiers, hblank, hmod]
  have hfold (modifiers : Text) (hmodifiers : b ∉ modifiers) :
      b ∉ mods.foldl (fun acc mod => if mod.1 then append_modifier acc mod.2 else acc)
        modifiers := by
    induction mods generalizing modifiers with
    | nil => exact hmodifiers
    | cons mod mods ih =>
        obtain ⟨applies, word⟩ := mod
        obtain ⟨hword, hrest⟩ := List.forall_mem_cons.mp hmods
        rw [List.foldl_cons]
        apply ih hrest
        cases applies with
        | true => exact happend modifiers word hmodifiers hword
        | false => exact hmodifiers
  rw [buildFlags]
  split
  · exact List.not_mem_nil
  · rw [List.mem_append, not_or]
    exact ⟨hfold _ haccess, hblank⟩

theorem newline_not_mem_access (flags : UInt32) :
    0x0A ∉ ascii ((memberAccess flags).getD "") := by
  cases haccess : memberAccess flags with
  | none => decide
  | some access =>
      obtain ⟨before, after, htable, -⟩ := List.lookup_eq_some_iff.mp haccess
      have hmem : (flags &&& 0x7, access) ∈ before ++ (flags &&& 0x7, access) :: after :=
        List.mem_append_right before List.mem_cons_self
      rw [← htable] at hmem
      simp only [List.mem_cons, Prod.mk.injEq, List.not_mem_nil, or_false] at hmem
      rcases hmem with ⟨-, rfl⟩ | ⟨-, rfl⟩ | ⟨-, rfl⟩ | ⟨-, rfl⟩ | ⟨-, rfl⟩ | ⟨-, rfl⟩ <;> decide

theorem newline_not_mem_flags (flags : UInt32) : 0x0A ∉ FieldBuildFlags flags := by
  apply not_mem_buildFlags (newline_not_mem_access flags) (by decide)
  simp only [List.forall_mem_cons]
  decide

theorem newline_not_mem_c_str {s : Text} (h : 0x0A ∉ s) : 0x0A ∉ c_str s :=
  fun hmem => h ((List.takeWhile_prefix _).subset hmem)

section

variable {host : Host} (L : TypedLibrary host.abi) {field : FieldInfo}

/-- The type of a string is printed as `string`, so there is no line feed before the name. -/
theorem newline_not_mem_start (htype : (L.held field).type = .STRING) :
    0x0A ∉ fieldStart L.lib field := by
  obtain ⟨type, htype, hname⟩ := L.string_name field htype
  have htext : typeText L.lib (L.lib.field_type field) = ascii "string" := by
    rw [typeText, htype, Option.bind_some, hname]
    decide
  have hflags := newline_not_mem_c_str (newline_not_mem_flags (L.lib.field_get_flags field))
  rw [fieldStart, htext]
  simp only [List.mem_append, not_or]
  exact ⟨⟨⟨by decide, hflags⟩, by decide⟩, by decide⟩

/-! ## A string field -/

/-- The class has static storage, neither NUL nor line feed is in the string, and no line feed in
the name of the field. -/
def Plain (L : TypedLibrary host.abi) (field : FieldInfo) : Prop :=
  L.lib.static_fields field = true
    ∧ (∀ units ∈ L.stringOf field, 0 ∉ units ∧ 0x0A ∉ units)
    ∧ 0x0A ∉ fieldName L.lib field

/-- What can be read back of the line with a value: the text of the value. -/
theorem readsBack_value_iff (field : FieldInfo) (start name printed value : Text) :
    ReadsBack (start ++ name ++ fieldEnd L.lib field (ascii " = " ++ printed) ++ ascii "\n")
        start name value
      ↔ value = printed
        ∧ 0x0A ∉ start ++ name ++ fieldEnd L.lib field (ascii " = " ++ printed) := by
  constructor
  · rintro ⟨after, tail, hwritten, hline, hfirst, hlast⟩
    obtain rfl : fieldEnd L.lib field (ascii " = " ++ printed) = after :=
      List.append_cancel_left (List.append_cancel_right hwritten)
    have hrest := hfirst.unique (first_fieldEnd L.lib field printed)
    rw [hrest] at hlast
    obtain rfl := hlast.unique (last_offsetText L.lib field (ascii " = " ++ printed))
    rw [List.append_left_inj, List.append_right_inj] at hrest
    exact ⟨hrest, hline⟩
  · rintro ⟨rfl, hline⟩
    exact ⟨_, offsetText L.lib field, rfl, hline, first_fieldEnd L.lib field value,
      last_offsetText L.lib field (ascii " = " ++ value)⟩

/-- What follows the name has a line feed only if the value has. -/
theorem newline_not_mem_fieldEnd (printed : Text) :
    0x0A ∉ fieldEnd L.lib field (ascii " = " ++ printed) ↔ 0x0A ∉ printed := by
  have hoffset : 0x0A ∉ percent_x (L.lib.field_get_offset field).toUInt32.toNat :=
    not_mem_percent_x (by decide) _
  have hblank : (0x0A : UInt8) ∉ ascii " " := by decide
  have hequals : (0x0A : UInt8) ∉ ascii " = " := by decide
  have hmarker : (0x0A : UInt8) ∉ ascii "; // 0x" := by decide
  simp only [fieldEnd, List.mem_append, hoffset, hblank, hequals, hmarker, false_or, or_false]

theorem readsBack_iff (hstatic : isStatic L.lib field = true)
    (htype : (L.held field).type = .STRING) :
    ReadsBack (fieldLine host L.lib field ++ ascii "\n") (fieldStart L.lib field)
        (fieldName L.lib field) (Il2CppStringToStdString (L.stringOf field))
      ↔ Plain L field := by
  rw [fieldLine, fieldValue_string L hstatic htype, Plain]
  by_cases hreached : L.lib.static_fields field = true
  · have hc_str (s : Text) : c_str (ascii " = " ++ s) = ascii " = " ++ c_str s := rfl
    rw [if_pos hreached, and_iff_right hreached, hc_str, readsBack_value_iff, List.mem_append,
      List.mem_append, not_or, not_or, newline_not_mem_fieldEnd,
      and_iff_right (newline_not_mem_start L htype), eq_comm]
    -- without a NUL the string is printed as a whole
    have hwhole : c_str (Il2CppStringToStdString (L.stringOf field))
        = Il2CppStringToStdString (L.stringOf field) ↔ ∀ units ∈ L.stringOf field, 0 ∉ units := by
      rw [c_str_eq_self_iff, mem_il2CppString_iff (by decide)]
      push Not
      rfl
    have hline : 0x0A ∉ Il2CppStringToStdString (L.stringOf field)
        ↔ ∀ units ∈ L.stringOf field, 0x0A ∉ units := by
      rw [mem_il2CppString_iff (by decide)]
      push Not
      rfl
    by_cases hprinted : c_str (Il2CppStringToStdString (L.stringOf field))
        = Il2CppStringToStdString (L.stringOf field)
    · rw [hprinted, hline, and_iff_right rfl, and_comm]
      exact and_congr_left' ⟨
        fun h units hunits => ⟨hwhole.mp hprinted units hunits, h units hunits⟩,
        fun h units hunits => (h units hunits).2⟩
    · refine iff_of_false (fun h => hprinted h.1) fun h => hprinted (hwhole.mpr ?_)
      exact fun units hunits => (h.1 units hunits).1
  · rw [if_neg hreached]
    refine iff_of_false (fun h => ?_) fun h => hreached h.1
    obtain ⟨after, tail, hwritten, -, hfirst, -⟩ := h
    obtain rfl : fieldEnd L.lib field (c_str []) = after :=
      List.append_cancel_left (List.append_cancel_right hwritten)
    exact not_first_fieldEnd_nil L.lib field _ hfirst

end

/-- The lines of a class are those of its fields, and those of its static strings can be read
back exactly when they are plain. -/
theorem dumped_strings_iff (host : Host) (L : TypedLibrary host.abi) (klass : Il2CppClass) :
    Yields (DumpClassFields host L.lib (resolve L.lib) klass) ()
        (ascii "    // Fields\n" ++ (L.lib.class_get_fields klass).flatMap fun field =>
          fieldLine host L.lib field ++ ascii "\n")
        ((L.lib.class_get_fields klass).flatMap (fieldStores host L.lib))
      ∧ ((∀ field ∈ L.lib.class_get_fields klass,
            isStatic L.lib field = true → (L.held field).type = .STRING →
            ReadsBack (fieldLine host L.lib field ++ ascii "\n") (fieldStart L.lib field)
              (fieldName L.lib field) (Il2CppStringToStdString (L.stringOf field)))
          ↔ ∀ field ∈ L.lib.class_get_fields klass,
            isStatic L.lib field = true → (L.held field).type = .STRING → Plain L field) := by
  refine ⟨yields_dumpClassFields L.exported klass, ?_⟩
  exact forall₂_congr fun field _ => forall_congr' fun hstatic => forall_congr' fun htype =>
    readsBack_iff L hstatic htype

/-- A string with a line feed, after which it reads like the line of another field. -/
def forgedLine : TypedLibrary .arm64_v8a :=
  typedOneField ⟨.STRING, [0x10, 0, 0, 0, 0, 0, 0, 0], rfl⟩
    ((ascii "a\n    static int G  = 1; // 0x0").map UInt8.toUInt16)

/-- Its dump is two lines. -/
theorem not_readsBack_forgedLine :
    ∃ field ∈ forgedLine.lib.class_get_fields ⟨4⟩, isStatic forgedLine.lib field = true
      ∧ (forgedLine.held field).type = .STRING
      ∧ ¬ ReadsBack (fieldLine exampleHost forgedLine.lib field ++ ascii "\n")
        (fieldStart forgedLine.lib field) (fieldName forgedLine.lib field)
        (Il2CppStringToStdString (forgedLine.stringOf field)) := by
  refine ⟨⟨5⟩, List.mem_singleton_self _, by decide, rfl, ?_⟩
  rintro ⟨after, tail, hwritten, hline, -⟩
  rw [← List.append_cancel_right hwritten] at hline
  revert hline
  decide +kernel

end Dumper
