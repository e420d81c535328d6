/-
# The traversal

`DumpIl2CppClassesOnce` and what it calls (`UnityDumper.cpp`), with every call through a
member of `Il2CppFunctions` in the order of the source.
-/
import LiuHookWorld.DumperApi
import LiuHookWorld.Guarded

namespace Dumper

/-! ## State -/

/-- What the dump relies on outside libil2cpp. -/
structure Host where
  abi : Abi
  /-- Whether `fopen(path, "w")` succeeds. -/
  fopen : Text → Bool
  /-- `std::to_string` of the `float` that the bytes are. -/
  to_string_float : List UInt8 → Text
  /-- `std::to_string` of the `double` that the bytes are. -/
  to_string_double : List UInt8 → Text

/-- A 64-bit device that opens every file, for runs on fixed inputs. -/
def exampleHost : Host := ⟨.arm64_v8a, fun _ => true, fun _ => [], fun _ => []⟩

/-- A call of `il2cpp_field_static_get_value`: the variable whose address it is given has
`size` bytes, and `bytes` are written there. -/
structure StaticStore where
  field : FieldInfo
  size : ℕ
  bytes : List UInt8
  deriving DecidableEq

/-- The globals the dump reads and writes, and the values it fetched. -/
structure DumpState where
  apkname : Option Text
  il2cppbase : ℕ
  /-- The path of the open file. -/
  g_dump_fp : Option Text
  /-- What was written since the file was opened. -/
  dump_txt : Text
  stores : List StaticStore

/-- Calling a null function pointer. -/
inductive Crash
  | nullCall
  deriving DecidableEq, Repr

abbrev Dump := StateT DumpState (Except Crash)

/-- The function behind a pointer that is about to be called. -/
def call {α : Type} (fn : Option α) : Dump α :=
  match fn with
  | some f => pure f
  | none => throw .nullCall

/-! ## The dump file -/

/-- The path of the dump file. -/
def filepath (apknames : Text) : Text :=
  ascii "/storage/emulated/0/Android/data/" ++ c_str apknames ++ ascii "/files/dump.txt"

/-- `init_dump_log`. -/
def init_dump_log (host : Host) (apknames : Text) : Dump Unit :=
  modify fun s =>
    if (c_str apknames).isEmpty then s
    else if host.fopen (filepath apknames) then
      { s with g_dump_fp := some (filepath apknames), dump_txt := [] }
    else { s with g_dump_fp := none }

/-- `write_dump_log`. -/
def write_dump_log (line : Text) : Dump Unit :=
  modify fun s =>
    if s.g_dump_fp.isSome then { s with dump_txt := s.dump_txt ++ line ++ ascii "\n" } else s

/-- `close_dump_log`. -/
def close_dump_log : Dump Unit :=
  modify fun s => { s with g_dump_fp := none }

/-! ## Types and classes -/

/-- `BuildTypeName`. -/
def BuildTypeName (type : Option Il2CppType) (funcs : Il2CppFunctions) : Dump Text :=
  match type with
  | none => pure (ascii "unknown")
  | some type => do
      let type_name_c := (← call funcs.il2cpp_type_get_name_fn) type
      match type_name_c with
      | some type_name => pure (aliasName (c_str type_name))
      | none => pure (ascii "unknown")

/-- The two tests of `GetClassType` on the parent: `strcmp(parentname, name) == 0`. -/
def parentIsNamed (klassparent : Option Il2CppClass) (name : String)
    (funcs : Il2CppFunctions) : Dump Bool :=
  match klassparent with
  | none => pure false
  | some klassparent => do
      let parentname := (← call funcs.il2cpp_class_get_name_fn) klassparent
      pure (parentname.map c_str = some (ascii name))

/-- `GetClassType`, on a class that is not null. -/
def GetClassType (klass : Il2CppClass) (funcs : Il2CppFunctions) : Dump Text := do
  let flags := (← call funcs.il2cpp_class_get_flags_fn) klass
  let klassparent := (← call funcs.il2cpp_class_get_parent_fn) klass
  if ← parentIsNamed klassparent "Enum" funcs then pure (ascii "enum")
  else if hasFlag flags 0x20 then pure (ascii "interface")
  else if ← parentIsNamed klassparent "ValueType" funcs then pure (ascii "struct")
  else pure (ascii "class")

/-! ## Fields -/

/-- The number with the given bytes, the least significant first. -/
def littleEndian : List UInt8 → ℕ
  | [] => 0
  | b :: bs => b.toNat + 256 * littleEndian bs

/-- Fetch a static value into a variable of `size` bytes that holds 0: its bytes
afterwards.  Bytes past its end hit other memory. -/
def field_static_get_value (field : FieldInfo) (size : ℕ) (funcs : Il2CppFunctions) :
    Dump (List UInt8) := do
  let bytes := (← call funcs.il2cpp_field_static_get_value_fn) field
  modify fun s => { s with stores := s.stores ++ [⟨field, size, bytes⟩] }
  pure (bytes.take size ++ List.replicate (size - bytes.length) 0)

/-- `int val = 0; il2cpp_field_static_get_value(field, &val); std::to_string(val)`. -/
def intValue (field : FieldInfo) (funcs : Il2CppFunctions) : Dump Text := do
  let bytes ← field_static_get_value field 4 funcs
  pure (ascii " = " ++ percent_d (UInt32.ofNat (littleEndian bytes)).toInt32)

/-- The type codes read into an `int`: `I4`, `U4`, `I2`, `U2`, `I1`, `U1`, `BOOLEAN`. -/
def intTypes : List UInt8 := [0x08, 0x09, 0x06, 0x07, 0x04, 0x05, 0x02]

/-- `type_class && funcs.il2cpp_class_is_enum_fn(type_class)`. -/
def isEnumClass (type_class : Option Il2CppClass) (funcs : Il2CppFunctions) : Dump Bool :=
  match type_class with
  | none => pure false
  | some klass => do pure ((← call funcs.il2cpp_class_is_enum_fn) (some klass))

/-- The branches of `DumpClassFields` for a static field: what is put after its name. -/
def static_value (host : Host) (lib : Il2CppLibrary) (field : FieldInfo)
    (funcs : Il2CppFunctions) : Dump Text := do
  let type_class := (← call funcs.il2cpp_type_get_class_fn) (lib.field_type field)
  let type_code := (← call funcs.il2cpp_type_get_type_fn) (lib.field_type field)
  let type_emun := (← call funcs.il2cpp_class_is_enum_fn) type_class
  if ← isEnumClass type_class funcs then intValue field funcs
  -- the same test as before, on the answer that was kept
  else if type_class.isSome && type_emun then intValue field funcs
  else if type_code ∈ intTypes then intValue field funcs
  else if type_code = 0x0c then do
    -- IL2CPP_TYPE_R4
    let bytes ← field_static_get_value field 4 funcs
    pure (ascii " = " ++ host.to_string_float bytes)
  else if type_code = 0x0d then do
    -- IL2CPP_TYPE_R8
    let bytes ← field_static_get_value field 8 funcs
    pure (ascii " = " ++ host.to_string_double bytes)
  else if type_code = 0x0e && lib.static_fields field then do
    -- IL2CPP_TYPE_STRING
    let bytes ← field_static_get_value field (host.abi.sizeBits / 8) funcs
    let str := littleEndian bytes
    pure (ascii " = " ++
      Il2CppStringToStdString (if str = 0 then none else some (lib.string_units str)))
  else pure []

/-- `static_value_str` of `DumpClassFields`. -/
def static_value_str (host : Host) (lib : Il2CppLibrary) (field : FieldInfo) (flags : UInt32)
    (funcs : Il2CppFunctions) : Dump Text :=
  if hasFlag flags 0x10 then static_value host lib field funcs else pure []

/-- One round of `DumpClassFields`. -/
def DumpField (host : Host) (lib : Il2CppLibrary) (funcs : Il2CppFunctions)
    (field : FieldInfo) : Dump Unit := do
  let field_name := (← call funcs.il2cpp_field_get_name_fn) field
  let flags := (← call funcs.il2cpp_field_get_flags_fn) field
  let field_modifiers := FieldBuildFlags flags
  let field_type ← BuildTypeName (lib.field_type field) funcs
  let offset := (← call funcs.il2cpp_field_get_offset_fn) field
  let value ← static_value_str host lib field flags funcs
  write_dump_log (ascii "    " ++ c_str field_modifiers ++ c_str field_type ++ ascii " "
    ++ percent_s field_name ++ ascii " " ++ c_str value ++ ascii "; // 0x"
    ++ percent_x offset.toUInt32.toNat)

/-- The loop over an iterator of libil2cpp that still delivers `items`: `next` is called
before every round and once more to find that there is none. -/
def iterate {α β : Type} (next : Option α) (round : β → Dump Unit) (items : List β) :
    Dump Unit :=
  match items with
  | [] => do
      let _ ← call next
      pure ()
  | item :: items => do
      let _ ← call next
      round item
      iterate next round items

/-- `DumpClassFields`. -/
def DumpClassFields (host : Host) (lib : Il2CppLibrary) (funcs : Il2CppFunctions)
    (klass : Il2CppClass) : Dump Unit := do
  write_dump_log (ascii "    // Fields")
  iterate funcs.il2cpp_class_get_fields_fn (DumpField host lib funcs)
    (lib.class_get_fields klass)

/-! ## Methods -/

/-- The loop of `MethodBuildParamString` from parameter `i` on, `left` before the end. -/
def paramLoop (method : MethodInfo) (funcs : Il2CppFunctions) (i : ℕ) :
    ℕ → Text → Dump Text
  | 0, param_types_str => pure param_types_str
  | left + 1, param_types_str => do
      let param_type := (← call funcs.il2cpp_method_get_param_fn) method i
      let param_type_name ← BuildTypeName param_type funcs
      let comma := if left = 0 then [] else ascii ", "
      paramLoop method funcs (i + 1) left (param_types_str ++ param_type_name ++ comma)

/-- `MethodBuildParamString`. -/
def MethodBuildParamString (method : MethodInfo) (funcs : Il2CppFunctions) : Dump Text := do
  let param_count := (← call funcs.il2cpp_method_get_param_count_fn) method
  let params ← paramLoop method funcs 0 param_count.toInt.toNat (ascii "(")
  pure (params ++ ascii ")")

/-- The lines of a method; an extern or abstract one has no address. -/
def writeSignature (host : Host) (methodPointer : ℕ) (signature : Text) : Dump Unit :=
  if methodPointer ≠ 0 then do
    let base := (← get).il2cppbase
    write_dump_log (ascii "    // RVA:0x" ++ percent_x (host.abi.sub methodPointer base))
    write_dump_log signature
  else write_dump_log signature

/-- One round of `DumpClassMethods`. -/
def DumpMethod (host : Host) (lib : Il2CppLibrary) (funcs : Il2CppFunctions)
    (method : MethodInfo) : Dump Unit := do
  let method_name := (← call funcs.il2cpp_method_get_name_fn) method
  match method_name with
  | none => pure ()
  | some method_name => do
      let flags := (← call funcs.il2cpp_method_get_flags_fn) method
      let method_modifiers := MethodBuildFlags flags
      let return_type := (← call funcs.il2cpp_method_get_return_type_fn) method
      let return_type_name ← BuildTypeName return_type funcs
      let param_types_str ← MethodBuildParamString method funcs
      writeSignature host (lib.methodPointer method)
        (ascii "    " ++ c_str method_modifiers ++ c_str return_type_name ++ ascii " "
          ++ c_str method_name ++ c_str param_types_str ++ ascii ";")
      write_dump_log []

/-- `DumpClassMethods`. -/
def DumpClassMethods (host : Host) (lib : Il2CppLibrary) (funcs : Il2CppFunctions)
    (klass : Il2CppClass) : Dump Unit := do
  write_dump_log (ascii "    // Methods")
  iterate funcs.il2cpp_class_get_methods_fn (DumpMethod host lib funcs)
    (lib.class_get_methods klass)

/-! ## Images -/

/-- The warning lines of `DumpClassesInImage`. -/
def skipWarning (what : String) (name : Option Text) (j : ℕ) : Text :=
  ascii "  // WARNING: " ++ ascii what ++ ascii " is NULL for DLL '" ++ percent_s name
    ++ ascii "' index " ++ percent_u j ++ ascii ". Skipping."

/-- The line that opens a class; a null or empty namespace is left out. -/
def classHeader (ns : Option Text) (class_flags type_name name : Text) : Text :=
  let header := c_str class_flags ++ type_name ++ ascii " " ++ c_str name ++ ascii " \x7b"
  let ns := c_str (ns.getD [])
  if ns.isEmpty then header else ascii "// Namespace: " ++ ns ++ ascii "\n" ++ header

/-- The part of a round of `DumpClassesInImage` for a class with a name. -/
def DumpNamedClass (host : Host) (lib : Il2CppLibrary) (funcs : Il2CppFunctions)
    (klass : Il2CppClass) (ns : Option Text) (name : Text) : Dump Unit := do
  let flags := (← call funcs.il2cpp_class_get_flags_fn) klass
  let class_flags := ClassBuildFlags flags
  let type_name ← GetClassType klass funcs
  write_dump_log (classHeader ns class_flags type_name name)
  DumpClassFields host lib funcs klass
  write_dump_log []
  DumpClassMethods host lib funcs klass
  write_dump_log (ascii "\x7d\n")

/-- One round of `DumpClassesInImage`. -/
def DumpClass (host : Host) (lib : Il2CppLibrary) (funcs : Il2CppFunctions)
    (image : Il2CppImage) (j : ℕ) : Dump Unit := do
  let klass := (← call funcs.il2cpp_image_get_class_fn) image j
  match klass with
  | none => write_dump_log (skipWarning "Il2CppClass" (lib.image_name image) j)
  | some klass => do
      let ns := (← call funcs.il2cpp_class_get_namespace_fn) klass
      let name := (← call funcs.il2cpp_class_get_name_fn) klass
      match name with
      | none => write_dump_log (skipWarning "Class name" (lib.image_name image) j)
      | some name => DumpNamedClass host lib funcs klass ns name

/-- `DumpClassesInImage`. -/
def DumpClassesInImage (host : Host) (lib : Il2CppLibrary) (funcs : Il2CppFunctions)
    (image : Il2CppImage) : Dump Unit := do
  let classCount := (← call funcs.il2cpp_image_get_class_count_fn) image
  write_dump_log (ascii "// classCount: " ++ percent_d classCount.toInt32)
  (List.range classCount.toNat).forM (DumpClass host lib funcs image)

/-- One round of `DumpIl2CppAssemblyInfo`. -/
def DumpAssembly (host : Host) (lib : Il2CppLibrary) (funcs : Il2CppFunctions)
    (entry : Il2CppAssembly × ℕ) : Dump Unit :=
  match lib.image entry.1 with
  | none =>
      write_dump_log (ascii "// WARNING: Assembly at index " ++ percent_u entry.2
        ++ ascii " has a NULL image. Skipping.")
  | some image => do
      write_dump_log (ascii "// DLL: " ++ percent_s (lib.image_name image))
      DumpClassesInImage host lib funcs image

/-- `DumpIl2CppAssemblyInfo`. -/
def DumpIl2CppAssemblyInfo (host : Host) (lib : Il2CppLibrary) (funcs : Il2CppFunctions)
    (assemblies : List Il2CppAssembly) : Dump Unit :=
  assemblies.zipIdx.forM (DumpAssembly host lib funcs)

/-! ## The dump -/

/-- `GetIl2CppDomain`. -/
def GetIl2CppDomain (handle : ℕ) (funcs : Il2CppFunctions) : Dump (Option Il2CppDomain) :=
  if handle = 0 then pure none else call funcs.il2cpp_domain_get_fn

/-- `GetIl2CppAssemblies`, on a domain that is not null. -/
def GetIl2CppAssemblies (domain : Il2CppDomain) (funcs : Il2CppFunctions) :
    Dump (Option (List Il2CppAssembly)) := do
  pure ((← call funcs.il2cpp_domain_get_assemblies_fn) domain)

/-- `DumpIl2CppClassesOnce` from its third step on, with the dump file open. -/
def dumpOpened (host : Host) (lib : Il2CppLibrary) (funcs : Il2CppFunctions)
    (il2cpp_handle : ℕ) : Dump Unit := do
  match ← GetIl2CppDomain il2cpp_handle funcs with
  | none => close_dump_log
  | some domain => do
      let assemblies := (← GetIl2CppAssemblies domain funcs).getD []
      if assemblies = [] then close_dump_log
      else do
        DumpIl2CppAssemblyInfo host lib funcs assemblies
        close_dump_log

/-- `DumpIl2CppClassesOnce`. -/
def DumpIl2CppClassesOnce (host : Host) (lib : Il2CppLibrary) (il2cpp_handle : ℕ) :
    Dump Unit := do
  let (initialized, funcs) := initialize_il2cpp_functions lib
  if !initialized then pure ()
  else
    match (← get).apkname with
    | none => pure ()
    | some apkname => do
        init_dump_log host apkname
        if (← get).g_dump_fp.isNone then pure ()
        else dumpOpened host lib funcs il2cpp_handle

end Dumper
