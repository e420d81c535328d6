/-
# What the dump of a field comes to

On a library that exports every symbol the dump of a field is a function of the metadata: one
line in the file, and the values fetched for it.
-/
import LiuHookWorld.DumperResolved

namespace Dumper

/-! ## The value -/

section

variable (host : Host) (lib : Il2CppLibrary) (field : FieldInfo)

/-- What a variable of `size` bytes that holds 0 holds after `bytes` were written to it. -/
def received (size : ℕ) (bytes : List UInt8) : List UInt8 :=
  bytes.take size ++ List.replicate (size - bytes.length) 0

/-- The text made of an `int` variable. -/
def intText : Text :=
  ascii " = " ++
    percent_d (UInt32.ofNat (littleEndian (received 4 (lib.field_static_get_value field)))).toInt32

/-- The text made of a pointer to a string. -/
def stringText : Text :=
  let str := littleEndian (received (host.abi.sizeBits / 8) (lib.field_static_get_value field))
  ascii " = " ++ Il2CppStringToStdString (if str = 0 then none else some (lib.string_units str))

/-- The size of the variable that receives the value of a static field, if it is fetched, and
the text put after its name. -/
def valueOf : Option ℕ × Text :=
  let type_code := lib.type_get_type (lib.field_type field)
  let bytes := lib.field_static_get_value field
  if isEnum lib field ∨ type_code ∈ intTypes then (some 4, intText lib field)
  else if type_code = 0x0c then (some 4, ascii " = " ++ host.to_string_float (received 4 bytes))
  else if type_code = 0x0d then (some 8, ascii " = " ++ host.to_string_double (received 8 bytes))
  else if type_code = 0x0e && lib.static_fields field then
    (some (host.abi.sizeBits / 8), stringText host lib field)
  else (none, [])

/-- The values fetched for a field. -/
def fieldStores : List StaticStore :=
  if isStatic lib field then
    (valueOf host lib field).1.toList.map fun size =>
      ⟨field, size, lib.field_static_get_value field⟩
  else []

/-- `static_value_str`. -/
def fieldValue : Text := if isStatic lib field then (valueOf host lib field).2 else []

/-- What `BuildTypeName` returns. -/
def typeText (type : Option Il2CppType) : Text :=
  match type.bind lib.type_get_name with
  | none => ascii "unknown"
  | some type_name => aliasName (c_str type_name)

/-- The line of a field up to its name. -/
def fieldStart : Text :=
  ascii "    " ++ c_str (FieldBuildFlags (lib.field_get_flags field))
    ++ c_str (typeText lib (lib.field_type field)) ++ ascii " "

/-- The name of a field, as printed. -/
def fieldName : Text := percent_s (lib.field_get_name field)

/-- The line of a field from its value on. -/
def fieldEnd (value : Text) : Text :=
  ascii " " ++ value ++ ascii "; // 0x" ++ percent_x (lib.field_get_offset field).toUInt32.toNat

/-- The line of a field. -/
def fieldLine : Text :=
  fieldStart lib field ++ fieldName lib field
    ++ fieldEnd lib field (c_str (fieldValue host lib field))

end

/-! ## The computation -/

/-- The state after lines were written and values fetched. -/
def DumpState.after (s : DumpState) (written : Text) (stores : List StaticStore) : DumpState :=
  { s with
    dump_txt := if s.g_dump_fp.isSome then s.dump_txt ++ written else s.dump_txt
    stores := s.stores ++ stores }

@[simp] theorem DumpState.after_after (s : DumpState) (written written' : Text)
    (stores stores' : List StaticStore) :
    (s.after written stores).after written' stores'
      = s.after (written ++ written') (stores ++ stores') := by
  cases hfp : s.g_dump_fp with
  | none => simp [after, hfp]
  | some path => simp [after, hfp]

@[simp] theorem DumpState.after_nil (s : DumpState) : s.after [] [] = s := by
  simp [after]

theorem DumpState.after_stores (s : DumpState) (stores : List StaticStore) :
    s.after [] stores = { s with stores := s.stores ++ stores } := by
  simp [after]

/-- From every state `m` returns `a`, having written and fetched this much. -/
def Yields {α : Type} (m : Dump α) (a : α) (written : Text) (stores : List StaticStore) : Prop :=
  ∀ s, m s = .ok (a, s.after written stores)

section

variable {host : Host} {lib : Il2CppLibrary}

theorem yields_pure {α : Type} (a : α) : Yields (pure a) a [] [] := by
  intro s
  rw [DumpState.after_nil]
  rfl

theorem Yields.bind {α β : Type} {m : Dump α} {rest : α → Dump β} {a : α} {b : β}
    {written written' : Text} {stores stores' : List StaticStore}
    (hm : Yields m a written stores) (hrest : Yields (rest a) b written' stores') :
    Yields (m >>= rest) b (written ++ written') (stores ++ stores') := by
  intro s
  show (m s >>= fun r => rest r.1 r.2) = _
  rw [hm s]
  show rest a (s.after written stores) = _
  rw [hrest, DumpState.after_after]

/-- A computation that writes and fetches nothing, before one that may. -/
theorem Yields.then {α β : Type} {m : Dump α} {rest : α → Dump β} {a : α} {b : β}
    {written : Text} {stores : List StaticStore} (hm : Yields m a [] [])
    (hrest : Yields (rest a) b written stores) : Yields (m >>= rest) b written stores :=
  hm.bind hrest

theorem yields_write (line : Text) : Yields (write_dump_log line) () (line ++ ascii "\n") [] := by
  intro s
  have hwrite : write_dump_log line s = .ok ((), if s.g_dump_fp.isSome then
      { s with dump_txt := s.dump_txt ++ line ++ ascii "\n" } else s) := rfl
  rw [hwrite, DumpState.after]
  split <;> simp

section

variable (hexported : ∀ symbolName, lib.exports symbolName = true)

include hexported

/-- A call through a pointer of a library that exports everything. -/
theorem yields_call {α : Type} (symbolName : Symbol) (fn : α) :
    Yields (call (get_symbol lib symbolName fn)) fn [] [] := by
  rw [get_symbol, hexported, if_pos rfl]
  exact yields_pure fn

theorem yields_buildTypeName (type : Option Il2CppType) :
    Yields (BuildTypeName type (resolve lib)) (typeText lib type) [] [] := by
  rw [typeText]
  cases type with
  | none => exact yields_pure _
  | some type =>
      apply (yields_call hexported .il2cpp_type_get_name lib.type_get_name).then
      rw [Option.bind_some]
      cases lib.type_get_name type with
      | none => exact yields_pure _
      | some type_name => exact yields_pure _

theorem yields_isEnumClass (type_class : Option Il2CppClass) :
    Yields (isEnumClass type_class (resolve lib))
      (type_class.isSome && lib.class_is_enum type_class) [] [] := by
  cases type_class with
  | none => exact yields_pure _
  | some klass =>
      apply (yields_call hexported .il2cpp_class_is_enum lib.class_is_enum).then
      exact yields_pure _

/-- Fetching a value, and what is made of it. -/
theorem yields_fetched (field : FieldInfo) (size : ℕ) (text : List UInt8 → Text) :
    Yields (do pure (text (← field_static_get_value field size (resolve lib))))
      (text (received size (lib.field_static_get_value field))) []
      [⟨field, size, lib.field_static_get_value field⟩] := by
  let stores : List StaticStore := [⟨field, size, lib.field_static_get_value field⟩]
  have hstore : Yields (modify fun s : DumpState => { s with stores := s.stores ++ stores })
      ⟨⟩ [] stores := by
    intro s
    rw [DumpState.after_stores]
    rfl
  have hfetch : Yields (field_static_get_value field size (resolve lib))
      (received size (lib.field_static_get_value field)) [] stores := by
    apply (yields_call hexported .il2cpp_field_static_get_value lib.field_static_get_value).then
    exact hstore.bind (yields_pure _)
  exact hfetch.bind (yields_pure _)

theorem yields_static_value (field : FieldInfo) :
    Yields (static_value host lib field (resolve lib)) (valueOf host lib field).2 []
      ((valueOf host lib field).1.toList.map fun size =>
        ⟨field, size, lib.field_static_get_value field⟩) := by
  apply (yields_call hexported .il2cpp_type_get_class_or_element_class
    lib.type_get_class_or_element_class).then
  apply (yields_call hexported .il2cpp_type_get_type lib.type_get_type).then
  apply (yields_call hexported .il2cpp_class_is_enum lib.class_is_enum).then
  apply (yields_isEnumClass hexported _).then
  have hint := yields_fetched hexported field 4 fun bytes =>
    ascii " = " ++ percent_d (UInt32.ofNat (littleEndian bytes)).toInt32
  -- the branches in the order of the source; the second test of the enum repeats the first
  change Yields (if isEnum lib field = true then intValue field (resolve lib)
    else if isEnum lib field = true then intValue field (resolve lib) else _) _ _ _
  rw [valueOf]
  by_cases henum : isEnum lib field = true
  · simp only [henum, if_true, true_or]
    exact hint
  by_cases hcode : lib.type_get_type (lib.field_type field) ∈ intTypes
  · simp only [henum, hcode, if_true, or_true]
    exact hint
  by_cases hr4 : lib.type_get_type (lib.field_type field) = 0x0c
  · simp only [henum, hr4, if_true]
    exact yields_fetched hexported field 4 _
  by_cases hr8 : lib.type_get_type (lib.field_type field) = 0x0d
  · simp only [henum, hr8, if_true]
    exact yields_fetched hexported field 8 _
  by_cases hstring : (lib.type_get_type (lib.field_type field) = 0x0e
      && lib.static_fields field) = true
  · simp only [henum, hcode, hr4, hr8, hstring, if_true, if_false]
    exact yields_fetched hexported field (host.abi.sizeBits / 8) _
  · simp only [henum, hcode, hr4, hr8, hstring, if_false]
    exact yields_pure []

theorem yields_dumpField (field : FieldInfo) :
    Yields (DumpField host lib (resolve lib) field) () (fieldLine host lib field ++ ascii "\n")
      (fieldStores host lib field) := by
  apply (yields_call hexported .il2cpp_field_get_name lib.field_get_name).then
  apply (yields_call hexported .il2cpp_field_get_flags lib.field_get_flags).then
  apply (yields_buildTypeName hexported _).then
  apply (yields_call hexported .il2cpp_field_get_offset lib.field_get_offset).then
  have hvalue : Yields (static_value_str host lib field (lib.field_get_flags field) (resolve lib))
      (fieldValue host lib field) [] (fieldStores host lib field) := by
    rw [static_value_str, fieldValue, fieldStores, isStatic]
    split
    · exact yields_static_value hexported field
    · exact yields_pure []
  have hline : ascii "    " ++ c_str (FieldBuildFlags (lib.field_get_flags field))
      ++ c_str (typeText lib (lib.field_type field)) ++ ascii " "
      ++ percent_s (lib.field_get_name field) ++ ascii " " ++ c_str (fieldValue host lib field)
      ++ ascii "; // 0x" ++ percent_x (lib.field_get_offset field).toUInt32.toNat
      = fieldLine host lib field := by
    simp only [fieldLine, fieldStart, fieldName, fieldEnd, List.append_assoc]
  rw [← List.append_nil (fieldStores host lib field),
    ← List.nil_append (fieldLine host lib field ++ _), ← hline]
  exact hvalue.bind (yields_write _)

/-- The loop over an iterator: what its rounds write and fetch, one after the other. -/
theorem yields_iterate {α β : Type} (symbolName : Symbol) {next : α} {round : β → Dump Unit}
    {written : β → Text} {stores : β → List StaticStore}
    (hround : ∀ item, Yields (round item) () (written item) (stores item)) (items : List β) :
    Yields (iterate (get_symbol lib symbolName next) round items) ()
      (items.flatMap written) (items.flatMap stores) := by
  induction items with
  | nil => exact (yields_call hexported symbolName next).then (yields_pure ())
  | cons item items ih =>
      apply (yields_call hexported symbolName next).then
      exact (hround item).bind ih

/-- The dump of the fields of a class. -/
theorem yields_dumpClassFields (klass : Il2CppClass) :
    Yields (DumpClassFields host lib (resolve lib) klass) ()
      (ascii "    // Fields\n"
        ++ (lib.class_get_fields klass).flatMap fun field => fieldLine host lib field ++ ascii "\n")
      ((lib.class_get_fields klass).flatMap (fieldStores host lib)) := by
  have hhead : ascii "    // Fields\n" = ascii "    // Fields" ++ ascii "\n" := rfl
  rw [hhead]
  apply (yields_write (ascii "    // Fields")).bind
  exact yields_iterate hexported .il2cpp_class_get_fields (yields_dumpField hexported) _

end

end

end Dumper
