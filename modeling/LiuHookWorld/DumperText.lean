/-
# The texts of the dump

The string builders of `UnityDumper.cpp` and `unityDumper.h` that call no function of
libil2cpp.  A `std::string` is the list of its bytes, a `const char*` the list of the
bytes before its NUL.
-/
import Mathlib.Data.List.TakeWhile

namespace Dumper

/-- A `std::string`. -/
abbrev Text := List UInt8

/-- A string literal of the source. -/
def ascii (s : String) : Text := s.toList.map fun c => UInt8.ofNat c.toNat

/-! ## Conversions of `printf` -/

/-- `s.c_str()`: what a reader of a `const char*` sees of a `std::string`. -/
def c_str (s : Text) : Text := s.takeWhile (· ≠ 0)

/-- A string without a NUL is seen as a whole, and only such a string. -/
theorem c_str_eq_self_iff (s : Text) : c_str s = s ↔ 0 ∉ s := by
  rw [c_str, List.takeWhile_eq_self_iff]
  simp only [decide_eq_true_eq]
  exact ⟨fun h h0 => h 0 h0 rfl, fun h c hc h0 => h (h0 ▸ hc)⟩

theorem c_str_of_not_mem {s : Text} (h : 0 ∉ s) : c_str s = s := (c_str_eq_self_iff s).mpr h

/-- `%s`; the C library writes `(null)` for a null pointer. -/
def percent_s : Option Text → Text
  | some s => c_str s
  | none => ascii "(null)"

/-- `%d` and `std::to_string(int)`. -/
def percent_d (n : Int32) : Text := ascii (toString n.toInt)

/-- `%u`, `%zu`. -/
def percent_u (n : ℕ) : Text := ascii (toString n)

/-- `%x`, `%lx`. -/
def percent_x (n : ℕ) : Text := ascii (String.ofList (Nat.toDigits 16 n))

/-! ## Modifiers -/

/-- One call of the `append_modifier` lambda. -/
def append_modifier (modifiers : Text) (mod : String) : Text :=
  if modifiers.isEmpty then ascii mod else modifiers ++ ascii " " ++ ascii mod

/-- The access word, the further modifiers that apply, and a blank unless there are none. -/
def buildFlags (access : String) (mods : List (Bool × String)) : Text :=
  let modifiers := mods.foldl
    (fun acc (applies, mod) => if applies then append_modifier acc mod else acc) (ascii access)
  if modifiers.isEmpty then [] else modifiers ++ ascii " "

/-- `flags & mask` as a condition. -/
def hasFlag (flags mask : UInt32) : Bool := flags &&& mask ≠ 0

/-- `ClassBuildFlags`; `NESTED_FAM_AND_ASSEM` has no access word. -/
def ClassBuildFlags (flags : UInt32) : Text :=
  let access := [(0x1, "public"), (0x2, "public"), (0x3, "private"), (0x4, "protected"),
    (0x5, "internal"), (0x7, "protected internal")].lookup (flags &&& 0x7)
  let is_abstract := hasFlag flags 0x80
  let is_sealed := hasFlag flags 0x100
  let kind :=
    if is_abstract && is_sealed then [(true, "static")]
    else [(is_abstract, "abstract"), (is_sealed, "sealed")]
  buildFlags (access.getD "") (kind ++ [(hasFlag flags 0x20, "interface")])

/-- The access words of fields and methods. -/
def memberAccess (flags : UInt32) : Option String :=
  [(0x1, "private"), (0x2, "protected internal"), (0x5, "protected internal"),
    (0x3, "internal"), (0x4, "protected"), (0x6, "public")].lookup (flags &&& 0x7)

/-- `FieldBuildFlags`. -/
def FieldBuildFlags (flags : UInt32) : Text :=
  buildFlags ((memberAccess flags).getD "")
    [(hasFlag flags 0x10, "static"), (hasFlag flags 0x20, "readonly"),
      (hasFlag flags 0x40, "const"), (hasFlag flags 0x80, "nonserialized")]

/-- `MethodBuildFlags`; an abstract method is neither `virtual` nor `override`. -/
def MethodBuildFlags (flags : UInt32) : Text :=
  let is_abstract := hasFlag flags 0x400
  let overrides := hasFlag flags 0x40 && !is_abstract
  buildFlags ((memberAccess flags).getD "")
    [(hasFlag flags 0x10, "static"), (is_abstract, "abstract"), (hasFlag flags 0x20, "final"),
      (overrides && hasFlag flags 0x100, "virtual"),
      (overrides && !hasFlag flags 0x100, "override")]

/-! ## Type names -/

def type_map : List (String × String) :=
  [("Int64", "long"), ("Int64*", "long*"), ("Int32", "int"), ("Int32*", "int*"),
   ("Int16", "short"), ("Int16*", "short*"), ("Byte", "byte"), ("Byte*", "byte*"),
   ("Boolean", "bool"), ("Boolean*", "bool*"), ("String", "string"), ("String*", "string*"),
   ("Double", "double"), ("Double*", "double*"), ("Single", "float"), ("Single*", "float*"),
   ("Object", "object"), ("Object*", "object*"), ("Char", "char"), ("Char*", "char*"),
   ("UInt64", "uint64"), ("UInt64*", "uint64*"), ("UInt32", "uint"), ("UInt32*", "uint*"),
   ("UInt16", "ushort"), ("UInt16*", "ushort*"), ("SByte", "sbyte"), ("SByte*", "sbyte*"),
   ("Void", "void"), ("Void*", "void*")]

/-- The name `BuildTypeName` makes of what `il2cpp_type_get_name` returned. -/
def aliasName (type_name : Text) : Text :=
  let system_prefix := ascii "System."
  if system_prefix.isPrefixOf type_name then
    let short_name := type_name.drop system_prefix.length
    if short_name.isEmpty then type_name
    else
      match type_map.find? fun entry => ascii entry.1 = short_name with
      | some entry => ascii entry.2
      | none => type_name
  else type_name

/-! ## Managed strings -/

/-- The bytes `Il2CppStringToStdString` appends for one code point. -/
def utf8 (codepoint : ℕ) : Text :=
  if codepoint ≤ 0x7F then
    [UInt8.ofNat codepoint]
  else if codepoint ≤ 0x7FF then
    [UInt8.ofNat (0xC0 ||| ((codepoint >>> 6) &&& 0x1F)),
     UInt8.ofNat (0x80 ||| (codepoint &&& 0x3F))]
  else if codepoint ≤ 0xFFFF then
    [UInt8.ofNat (0xE0 ||| ((codepoint >>> 12) &&& 0x0F)),
     UInt8.ofNat (0x80 ||| ((codepoint >>> 6) &&& 0x3F)),
     UInt8.ofNat (0x80 ||| (codepoint &&& 0x3F))]
  else
    [UInt8.ofNat (0xF0 ||| ((codepoint >>> 18) &&& 0x07)),
     UInt8.ofNat (0x80 ||| ((codepoint >>> 12) &&& 0x3F)),
     UInt8.ofNat (0x80 ||| ((codepoint >>> 6) &&& 0x3F)),
     UInt8.ofNat (0x80 ||| (codepoint &&& 0x3F))]

/-- A high surrogate. -/
def isHigh (unit : UInt16) : Bool := 0xD800 ≤ unit.toNat && unit.toNat ≤ 0xDBFF

/-- A low surrogate. -/
def isLow (unit : UInt16) : Bool := 0xDC00 ≤ unit.toNat && unit.toNat ≤ 0xDFFF

/-- The loop of `Il2CppStringToStdString`, over the units from `i` on. -/
def utf16ToUtf8 : List UInt16 → Text
  | [] => []
  | [unit] => utf8 (if isHigh unit || isLow unit then 0xFFFD else unit.toNat)
  | unit :: low :: rest =>
      if isHigh unit then
        if isLow low then
          -- the only case in which two units are consumed
          utf8 (((unit.toNat - 0xD800) <<< 10) + (low.toNat - 0xDC00) + 0x10000)
            ++ utf16ToUtf8 rest
        else utf8 0xFFFD ++ utf16ToUtf8 (low :: rest)
      else if isLow unit then utf8 0xFFFD ++ utf16ToUtf8 (low :: rest)
      else utf8 unit.toNat ++ utf16ToUtf8 (low :: rest)

/-- `Il2CppStringToStdString`. -/
def Il2CppStringToStdString (str : Option (List UInt16)) : Text :=
  match str with
  | some units => utf16ToUtf8 units
  | none => []

end Dumper
