/-
# The functions of libil2cpp

The API of `libil2cpp.so` as the dumper uses it, and `initialize_il2cpp_functions`,
which resolves it by name.  A nullable pointer is an `Option`; a list that libil2cpp
delivers through an iterator is that list.
-/
import LiuHookWorld.DumperText
import LiuHookWorld.SizeT

namespace Dumper

/-! ## Objects of libil2cpp -/

/-- The domain behind the `void*` of `il2cpp_domain_get`. -/
structure Il2CppDomain where
  addr : ℕ
  deriving DecidableEq

structure Il2CppAssembly where
  addr : ℕ
  deriving DecidableEq

structure Il2CppImage where
  addr : ℕ
  deriving DecidableEq

structure Il2CppClass where
  addr : ℕ
  deriving DecidableEq

structure FieldInfo where
  addr : ℕ
  deriving DecidableEq

structure MethodInfo where
  addr : ℕ
  deriving DecidableEq

structure Il2CppType where
  addr : ℕ
  deriving DecidableEq

/-! ## The library -/

/-- The names passed to `dlsym`. -/
inductive Symbol
  | il2cpp_domain_get
  | il2cpp_domain_get_assemblies
  | il2cpp_image_get_class
  | il2cpp_class_get_namespace
  | il2cpp_class_get_name
  | il2cpp_image_get_class_count
  | il2cpp_class_get_fields
  | il2cpp_field_get_name
  | il2cpp_field_get_offset
  | il2cpp_class_get_methods
  | il2cpp_method_get_name
  | il2cpp_method_get_flags
  | il2cpp_method_get_param_count
  | il2cpp_method_get_param
  | il2cpp_method_get_return_type
  | il2cpp_type_get_name
  | il2cpp_field_get_flags
  | il2cpp_class_get_flags
  | il2cpp_class_get_parent
  | il2cpp_field_static_get_value
  | il2cpp_type_get_class_or_element_class
  | il2cpp_type_get_type
  | il2cpp_class_is_enum
  deriving DecidableEq, Repr

/-- A `libil2cpp.so` with the metadata of a game: the symbols it exports, what its
functions return, and the members of its structures that the dumper reads. -/
structure Il2CppLibrary where
  exports : Symbol → Bool
  domain_get : Option Il2CppDomain
  /-- The array and its size; `none` is a null array. -/
  domain_get_assemblies : Il2CppDomain → Option (List Il2CppAssembly)
  image_get_class : Il2CppImage → ℕ → Option Il2CppClass
  class_get_namespace : Il2CppClass → Option Text
  class_get_name : Il2CppClass → Option Text
  image_get_class_count : Il2CppImage → UInt32
  class_get_fields : Il2CppClass → List FieldInfo
  field_get_name : FieldInfo → Option Text
  field_get_offset : FieldInfo → Int32
  class_get_methods : Il2CppClass → List MethodInfo
  method_get_name : MethodInfo → Option Text
  method_get_flags : MethodInfo → UInt32
  method_get_param_count : MethodInfo → Int32
  method_get_param : MethodInfo → ℕ → Option Il2CppType
  method_get_return_type : MethodInfo → Option Il2CppType
  type_get_name : Il2CppType → Option Text
  field_get_flags : FieldInfo → UInt32
  class_get_flags : Il2CppClass → UInt32
  class_get_parent : Il2CppClass → Option Il2CppClass
  /-- The bytes written to the address given. -/
  field_static_get_value : FieldInfo → List UInt8
  type_get_class_or_element_class : Option Il2CppType → Option Il2CppClass
  type_get_type : Option Il2CppType → UInt8
  class_is_enum : Option Il2CppClass → Bool
  /-- `assembly->image`. -/
  image : Il2CppAssembly → Option Il2CppImage
  /-- `image->name`. -/
  image_name : Il2CppImage → Option Text
  /-- `field->type`. -/
  field_type : FieldInfo → Option Il2CppType
  /-- Whether `field->parent->static_fields` is not null. -/
  static_fields : FieldInfo → Bool
  /-- `method->methodPointer`. -/
  methodPointer : MethodInfo → ℕ
  /-- The units of the managed string at an address other than null. -/
  string_units : ℕ → List UInt16

/-! ## The function pointers -/

/-- `Il2CppFunctions`. -/
structure Il2CppFunctions where
  il2cpp_domain_get_fn : Option (Option Il2CppDomain)
  il2cpp_domain_get_assemblies_fn : Option (Il2CppDomain → Option (List Il2CppAssembly))
  il2cpp_image_get_class_fn : Option (Il2CppImage → ℕ → Option Il2CppClass)
  il2cpp_class_get_namespace_fn : Option (Il2CppClass → Option Text)
  il2cpp_class_get_name_fn : Option (Il2CppClass → Option Text)
  il2cpp_image_get_class_count_fn : Option (Il2CppImage → UInt32)
  il2cpp_class_get_fields_fn : Option (Il2CppClass → List FieldInfo)
  il2cpp_field_get_name_fn : Option (FieldInfo → Option Text)
  il2cpp_field_get_offset_fn : Option (FieldInfo → Int32)
  il2cpp_class_get_methods_fn : Option (Il2CppClass → List MethodInfo)
  il2cpp_method_get_name_fn : Option (MethodInfo → Option Text)
  il2cpp_method_get_flags_fn : Option (MethodInfo → UInt32)
  il2cpp_method_get_param_count_fn : Option (MethodInfo → Int32)
  il2cpp_method_get_param_fn : Option (MethodInfo → ℕ → Option Il2CppType)
  il2cpp_method_get_return_type_fn : Option (MethodInfo → Option Il2CppType)
  il2cpp_type_get_name_fn : Option (Il2CppType → Option Text)
  il2cpp_field_get_flags_fn : Option (FieldInfo → UInt32)
  il2cpp_class_get_flags_fn : Option (Il2CppClass → UInt32)
  il2cpp_class_get_parent_fn : Option (Il2CppClass → Option Il2CppClass)
  il2cpp_field_static_get_value_fn : Option (FieldInfo → List UInt8)
  il2cpp_type_get_class_fn : Option (Option Il2CppType → Option Il2CppClass)
  il2cpp_type_get_type_fn : Option (Option Il2CppType → UInt8)
  il2cpp_class_is_enum_fn : Option (Option Il2CppClass → Bool)

/-- `get_symbol`: the function, or null if `dlsym` does not find the name. -/
def get_symbol {α : Type} (lib : Il2CppLibrary) (symbolName : Symbol) (fn : α) : Option α :=
  if lib.exports symbolName then some fn else none

/-- The assignments of `initialize_il2cpp_functions`. -/
def resolve (lib : Il2CppLibrary) : Il2CppFunctions where
  il2cpp_domain_get_fn := get_symbol lib .il2cpp_domain_get lib.domain_get
  il2cpp_domain_get_assemblies_fn :=
    get_symbol lib .il2cpp_domain_get_assemblies lib.domain_get_assemblies
  il2cpp_image_get_class_fn := get_symbol lib .il2cpp_image_get_class lib.image_get_class
  il2cpp_class_get_namespace_fn :=
    get_symbol lib .il2cpp_class_get_namespace lib.class_get_namespace
  il2cpp_class_get_name_fn := get_symbol lib .il2cpp_class_get_name lib.class_get_name
  il2cpp_image_get_class_count_fn :=
    get_symbol lib .il2cpp_image_get_class_count lib.image_get_class_count
  il2cpp_class_get_fields_fn := get_symbol lib .il2cpp_class_get_fields lib.class_get_fields
  il2cpp_field_get_name_fn := get_symbol lib .il2cpp_field_get_name lib.field_get_name
  il2cpp_field_get_offset_fn := get_symbol lib .il2cpp_field_get_offset lib.field_get_offset
  il2cpp_class_get_methods_fn := get_symbol lib .il2cpp_class_get_methods lib.class_get_methods
  il2cpp_method_get_name_fn := get_symbol lib .il2cpp_method_get_name lib.method_get_name
  il2cpp_method_get_flags_fn := get_symbol lib .il2cpp_method_get_flags lib.method_get_flags
  il2cpp_method_get_param_count_fn :=
    get_symbol lib .il2cpp_method_get_param_count lib.method_get_param_count
  il2cpp_method_get_param_fn := get_symbol lib .il2cpp_method_get_param lib.method_get_param
  il2cpp_method_get_return_type_fn :=
    get_symbol lib .il2cpp_method_get_return_type lib.method_get_return_type
  il2cpp_type_get_name_fn := get_symbol lib .il2cpp_type_get_name lib.type_get_name
  il2cpp_field_get_flags_fn := get_symbol lib .il2cpp_field_get_flags lib.field_get_flags
  il2cpp_class_get_flags_fn := get_symbol lib .il2cpp_class_get_flags lib.class_get_flags
  il2cpp_class_get_parent_fn := get_symbol lib .il2cpp_class_get_parent lib.class_get_parent
  il2cpp_field_static_get_value_fn :=
    get_symbol lib .il2cpp_field_static_get_value lib.field_static_get_value
  il2cpp_type_get_class_fn :=
    get_symbol lib .il2cpp_type_get_class_or_element_class lib.type_get_class_or_element_class
  il2cpp_type_get_type_fn := get_symbol lib .il2cpp_type_get_type lib.type_get_type
  il2cpp_class_is_enum_fn := get_symbol lib .il2cpp_class_is_enum lib.class_is_enum

/-- `initialize_il2cpp_functions`: the pointers, and whether the critical ones are there. -/
def initialize_il2cpp_functions (lib : Il2CppLibrary) : Bool × Il2CppFunctions :=
  let funcs := resolve lib
  let missing :=
    funcs.il2cpp_domain_get_fn.isNone || funcs.il2cpp_domain_get_assemblies_fn.isNone ||
      funcs.il2cpp_image_get_class_fn.isNone || funcs.il2cpp_class_get_namespace_fn.isNone ||
      funcs.il2cpp_class_get_name_fn.isNone || funcs.il2cpp_image_get_class_count_fn.isNone
  (!missing, funcs)

/-- The symbols whose absence makes `initialize_il2cpp_functions` return false. -/
def criticalSymbols : List Symbol :=
  [.il2cpp_domain_get, .il2cpp_domain_get_assemblies, .il2cpp_image_get_class,
   .il2cpp_class_get_namespace, .il2cpp_class_get_name, .il2cpp_image_get_class_count]

theorem get_symbol_isNone {α : Type} (lib : Il2CppLibrary) (symbolName : Symbol) (fn : α) :
    (get_symbol lib symbolName fn).isNone = !lib.exports symbolName := by
  rw [get_symbol]
  cases lib.exports symbolName <;> rfl

/-- Initialisation succeeds exactly when every critical symbol is exported. -/
theorem initialize_iff (lib : Il2CppLibrary) :
    (initialize_il2cpp_functions lib).1 = true ↔ ∀ a ∈ criticalSymbols, lib.exports a = true := by
  simp [initialize_il2cpp_functions, resolve, get_symbol_isNone, criticalSymbols, and_assoc]

end Dumper
