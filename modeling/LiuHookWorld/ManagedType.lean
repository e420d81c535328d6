/-
# Types of static fields

The types a static field can have, what a variable of each takes up, and what the accessors
of libil2cpp report of it (`vm/Type.cpp`, `vm/Class.cpp`, `vm/Field.cpp`).  A `TypedLibrary`
is a library that behaves so.
-/
import LiuHookWorld.DumperResolved

namespace Dumper

/-! ## Integers -/

/-- The integral types; each can also be what an enum is stored as. -/
inductive Integral
  | BOOLEAN | CHAR | I1 | U1 | I2 | U2 | I4 | U4 | I8 | U8 | I | U
  deriving DecidableEq, Repr

namespace Integral

/-- The `IL2CPP_TYPE` code. -/
def code : Integral → UInt8
  | BOOLEAN => 0x02
  | CHAR => 0x03
  | I1 => 0x04
  | U1 => 0x05
  | I2 => 0x06
  | U2 => 0x07
  | I4 => 0x08
  | U4 => 0x09
  | I8 => 0x0a
  | U8 => 0x0b
  | I => 0x18
  | U => 0x19

/-- The bytes of storage. -/
def width (abi : Abi) : Integral → ℕ
  | BOOLEAN | I1 | U1 => 1
  | CHAR | I2 | U2 => 2
  | I4 | U4 => 4
  | I8 | U8 => 8
  | I | U => abi.sizeBits / 8

def signed : Integral → Bool
  | I1 | I2 | I4 | I8 | I => true
  | BOOLEAN | CHAR | U1 | U2 | U4 | U8 | U => false

/-- The number in the storage, the least significant byte first, in two's complement where the
type is signed. -/
def value (t : Integral) (storage : List UInt8) : ℤ :=
  if t.signed then (BitVec.ofNat (8 * storage.length) (littleEndian storage)).toInt
  else littleEndian storage

end Integral

/-! ## Types -/

/-- The types.  A struct has the size of its fields, a generic parameter that of what it
stands for; every other type that is not integral or floating is a pointer. -/
inductive ManagedType
  | integral (t : Integral)
  | R4
  | R8
  | STRING
  /-- An enum, and one nested in a generic class. -/
  | enum (underlying : Integral)
  | genericEnum (underlying : Integral)
  | struct (size : ℕ)
  | genericStruct (size : ℕ)
  | klass
  | genericKlass
  | OBJECT
  | PTR
  | FNPTR
  | VAR (size : ℕ)
  | SZARRAY (element : ManagedType)
  | ARRAY (element : ManagedType)
  deriving DecidableEq, Repr

namespace ManagedType

/-- `il2cpp_type_get_type`. -/
def code : ManagedType → UInt8
  | integral t => t.code
  | R4 => 0x0c
  | R8 => 0x0d
  | STRING => 0x0e
  | PTR => 0x0f
  | enum _ | struct _ => 0x11
  | klass => 0x12
  | VAR _ => 0x13
  | ARRAY _ => 0x14
  | genericEnum _ | genericStruct _ | genericKlass => 0x15
  | FNPTR => 0x1b
  | OBJECT => 0x1c
  | SZARRAY _ => 0x1d

/-- What an enum is stored as. -/
def underlying : ManagedType → Option Integral
  | enum t | genericEnum t => some t
  | _ => none

/-- The `enumtype` of the class of the type. -/
def isEnum (type : ManagedType) : Bool := type.underlying.isSome

/-- The `enumtype` of `il2cpp_type_get_class_or_element_class`: of an array that of its
elements. -/
def elementIsEnum : ManagedType → Bool
  | SZARRAY element | ARRAY element => element.isEnum
  | type => type.isEnum

/-- The bytes of storage. -/
def width (abi : Abi) : ManagedType → ℕ
  | integral t | enum t | genericEnum t => t.width abi
  | R4 => 4
  | R8 => 8
  | struct size | genericStruct size | VAR size => size
  | STRING | klass | genericKlass | OBJECT | PTR | FNPTR | SZARRAY _ | ARRAY _ =>
      abi.sizeBits / 8

end ManagedType

/-! ## Libraries -/

/-- A static field: its type, and the bytes of its storage. -/
structure Held (abi : Abi) where
  type : ManagedType
  storage : List UInt8
  length_storage : storage.length = type.width abi

/-- A library that exports what the dumper asks for, and whose accessors report the types of
the static fields and write the bytes of their storage. -/
structure TypedLibrary (abi : Abi) where
  lib : Il2CppLibrary
  held : FieldInfo → Held abi
  exported : ∀ symbolName, lib.exports symbolName = true
  type_code : ∀ field, lib.type_get_type (lib.field_type field) = (held field).type.code
  element_enum : ∀ field, Dumper.isEnum lib field = (held field).type.elementIsEnum
  writes : ∀ field, lib.field_static_get_value field = (held field).storage
  string_name : ∀ field, (held field).type = .STRING →
    ∃ type, lib.field_type field = some type ∧ lib.type_get_name type = some (ascii "System.String")

/-- A game with one class, whose one field `F` is static. -/
def oneField (type : ManagedType) (storage : List UInt8) (units : List UInt16) :
    Il2CppLibrary where
  exports _ := true
  domain_get := some ⟨1⟩
  domain_get_assemblies _ := some [⟨2⟩]
  image_get_class _ _ := some ⟨4⟩
  class_get_namespace _ := none
  class_get_name _ := some (ascii "A")
  image_get_class_count _ := 1
  class_get_fields _ := [⟨5⟩]
  field_get_name _ := some (ascii "F")
  field_get_offset _ := 0
  class_get_methods _ := []
  method_get_name _ := none
  method_get_flags _ := 0
  method_get_param_count _ := 0
  method_get_param _ _ := none
  method_get_return_type _ := none
  type_get_name _ := some (ascii "System.String")
  field_get_flags _ := 0x10
  class_get_flags _ := 0
  class_get_parent _ := none
  field_static_get_value _ := storage
  type_get_class_or_element_class _ := some ⟨7⟩
  type_get_type _ := type.code
  class_is_enum _ := type.elementIsEnum
  image _ := some ⟨3⟩
  image_name _ := some (ascii "A.dll")
  field_type _ := some ⟨6⟩
  static_fields _ := true
  methodPointer _ := 0
  string_units _ := units

/-- It is a typed one. -/
def typedOneField {abi : Abi} (held : Held abi) (units : List UInt16) : TypedLibrary abi where
  lib := oneField held.type held.storage units
  held _ := held
  exported _ := rfl
  type_code _ := rfl
  element_enum _ := rfl
  writes _ := rfl
  string_name _ _ := ⟨⟨6⟩, rfl, rfl⟩

end Dumper
