/-
# What each function of the traversal needs

For every function of the dump the condition, on the exported symbols and the metadata,
under which it returns.  On the pointers of `resolve` the only failure is the call of a
symbol that is not exported, so the condition names the symbols called.
-/
import LiuHookWorld.DumperTraversal
import Mathlib.Tactic.Tauto

namespace Dumper

/-! ## What the conditions ask of the metadata -/

section

variable (lib : Il2CppLibrary)

/-- What `GetIl2CppDomain` returns. -/
def domainOf (il2cpp_handle : ℕ) : Option Il2CppDomain :=
  if il2cpp_handle = 0 then none else lib.domain_get

/-- The assemblies of a domain. -/
def assembliesOf (domain : Option Il2CppDomain) : List Il2CppAssembly :=
  match domain with
  | none => []
  | some domain => (lib.domain_get_assemblies domain).getD []

/-- A static field. -/
def isStatic (field : FieldInfo) : Bool := hasFlag (lib.field_get_flags field) 0x10

/-- The class of the field's type, or of its elements, is an enum. -/
def isEnum (field : FieldInfo) : Bool :=
  let type_class := lib.type_get_class_or_element_class (lib.field_type field)
  type_class.isSome && lib.class_is_enum type_class

/-- Whether the value of a static field is fetched. -/
def readsValue (field : FieldInfo) : Bool :=
  let type_code := lib.type_get_type (lib.field_type field)
  isEnum lib field || type_code ∈ intTypes || type_code == 0x0c || type_code == 0x0d ||
    (type_code == 0x0e && lib.static_fields field)

end

/-! ## What each object needs -/

/-- The name of a type that is not null can be asked for. -/
def TypeResolved (lib : Il2CppLibrary) (type : Option Il2CppType) : Prop :=
  type.isSome → lib.exports .il2cpp_type_get_name = true

/-- What the value of a static field needs. -/
def ValueResolved (lib : Il2CppLibrary) (field : FieldInfo) : Prop :=
  lib.exports .il2cpp_type_get_class_or_element_class = true ∧
    lib.exports .il2cpp_type_get_type = true ∧ lib.exports .il2cpp_class_is_enum = true ∧
    (readsValue lib field → lib.exports .il2cpp_field_static_get_value = true)

/-- What one field needs. -/
def FieldResolved (lib : Il2CppLibrary) (field : FieldInfo) : Prop :=
  lib.exports .il2cpp_field_get_name = true ∧ lib.exports .il2cpp_field_get_flags = true ∧
    TypeResolved lib (lib.field_type field) ∧ lib.exports .il2cpp_field_get_offset = true ∧
    (isStatic lib field → ValueResolved lib field)

/-- What parameter `k` of a method needs. -/
def ParamResolved (lib : Il2CppLibrary) (method : MethodInfo) (k : ℕ) : Prop :=
  lib.exports .il2cpp_method_get_param = true ∧
    TypeResolved lib (lib.method_get_param method k)

/-- What the parameters of a method need. -/
def ParamsResolved (lib : Il2CppLibrary) (method : MethodInfo) : Prop :=
  lib.exports .il2cpp_method_get_param_count = true ∧
    ∀ k < (lib.method_get_param_count method).toInt.toNat, ParamResolved lib method k

/-- What one method needs. -/
def MethodResolved (lib : Il2CppLibrary) (method : MethodInfo) : Prop :=
  lib.exports .il2cpp_method_get_name = true ∧
    ((lib.method_get_name method).isSome →
      lib.exports .il2cpp_method_get_flags = true ∧
      lib.exports .il2cpp_method_get_return_type = true ∧
      TypeResolved lib (lib.method_get_return_type method) ∧ ParamsResolved lib method)

/-- What the fields of a class need. -/
def FieldsResolved (lib : Il2CppLibrary) (klass : Il2CppClass) : Prop :=
  lib.exports .il2cpp_class_get_fields = true ∧
    ∀ field ∈ lib.class_get_fields klass, FieldResolved lib field

/-- What the methods of a class need. -/
def MethodsResolved (lib : Il2CppLibrary) (klass : Il2CppClass) : Prop :=
  lib.exports .il2cpp_class_get_methods = true ∧
    ∀ method ∈ lib.class_get_methods klass, MethodResolved lib method

/-- What a class with a name needs, once its name and that of its parent can be asked for. -/
def ClassResolved (lib : Il2CppLibrary) (klass : Il2CppClass) : Prop :=
  lib.exports .il2cpp_class_get_flags = true ∧ lib.exports .il2cpp_class_get_parent = true ∧
    FieldsResolved lib klass ∧ MethodsResolved lib klass

/-- What one index of an image needs. -/
def IndexResolved (lib : Il2CppLibrary) (image : Il2CppImage) (j : ℕ) : Prop :=
  lib.exports .il2cpp_image_get_class = true ∧
    ∀ klass, lib.image_get_class image j = some klass →
      lib.exports .il2cpp_class_get_namespace = true ∧
      lib.exports .il2cpp_class_get_name = true ∧
      ((lib.class_get_name klass).isSome → ClassResolved lib klass)

/-- What one image needs. -/
def ImageResolved (lib : Il2CppLibrary) (image : Il2CppImage) : Prop :=
  lib.exports .il2cpp_image_get_class_count = true ∧
    ∀ j < (lib.image_get_class_count image).toNat, IndexResolved lib image j

/-- What the dump needs once its file is open. -/
def DomainResolved (lib : Il2CppLibrary) (il2cpp_handle : ℕ) : Prop :=
  (il2cpp_handle ≠ 0 → lib.exports .il2cpp_domain_get = true) ∧
    ((domainOf lib il2cpp_handle).isSome → lib.exports .il2cpp_domain_get_assemblies = true) ∧
    ∀ assembly ∈ assembliesOf lib (domainOf lib il2cpp_handle), ∀ image,
      lib.image assembly = some image → ImageResolved lib image

/-! ## The condition of each function -/

/-- A `Dump` that returns on `p`, whatever it returns. -/
abbrev Runs {α : Type} (m : Dump α) (p : Prop) : Prop := Guarded m (fun _ => True) p

section

variable {host : Host} {lib : Il2CppLibrary}

/-- The only failure: the symbol of the pointer is not exported. -/
theorem guarded_call {α : Type} (symbolName : Symbol) (fn : α) :
    Guarded (call (get_symbol lib symbolName fn)) (· = fn) (lib.exports symbolName = true) := by
  rw [get_symbol]
  split
  · rename_i hexports
    exact (Guarded.of_pure_eq fn).congr (iff_of_true trivial hexports)
  · rename_i hexports
    exact (Guarded.of_throw _ _).congr (iff_of_false id hexports)

/-- A line of the dump calls nothing. -/
theorem runs_write (line : Text) : Runs (write_dump_log line) True :=
  Guarded.of_modify _

/-- After a call of `symbolName` the rest goes on with the function's result. -/
theorem Runs.of_call {α β : Type} {symbolName : Symbol} {fn : α} {rest : α → Dump β} {q : Prop}
    (h : Runs (rest fn) q) :
    Runs (call (get_symbol lib symbolName fn) >>= rest) (lib.exports symbolName = true ∧ q) := by
  apply (guarded_call symbolName fn).bind
  intro _ f hf
  rw [hf]
  exact h

/-- Nothing more to do. -/
theorem runs_pure {α : Type} (a : α) : Runs (pure a) True := Guarded.of_pure trivial

theorem runs_buildTypeName (type : Option Il2CppType) :
    Runs (BuildTypeName type (resolve lib)) (TypeResolved lib type) := by
  rw [TypeResolved]
  cases type with
  | none => exact (runs_pure _).congr (by simp)
  | some type =>
      have hrun : Runs (BuildTypeName (some type) (resolve lib))
          (lib.exports .il2cpp_type_get_name = true) := by
        apply (guarded_call _ _).bind_last
        intro _ fn _
        cases fn type with
        | none => exact runs_pure _
        | some type_name => exact runs_pure _
      exact hrun.congr (by simp)

theorem runs_parentIsNamed (klassparent : Option Il2CppClass) (name : String) :
    Runs (parentIsNamed klassparent name (resolve lib))
      (klassparent.isSome → lib.exports .il2cpp_class_get_name = true) := by
  cases klassparent with
  | none => exact (runs_pure _).congr (by simp)
  | some klassparent =>
      have hrun : Runs (parentIsNamed (some klassparent) name (resolve lib))
          (lib.exports .il2cpp_class_get_name = true) :=
        (guarded_call _ _).bind_last fun _ _ _ => runs_pure _
      exact hrun.congr (by simp)

theorem runs_getClassType (klass : Il2CppClass) :
    Runs (GetClassType klass (resolve lib))
      (lib.exports .il2cpp_class_get_flags = true ∧ lib.exports .il2cpp_class_get_parent = true ∧
        ((lib.class_get_parent klass).isSome →
          lib.exports .il2cpp_class_get_name = true)) := by
  apply Runs.of_call
  apply Runs.of_call
  apply (runs_parentIsNamed (lib.class_get_parent klass) "Enum").bind_last
  intro hname isEnum _
  split
  · exact runs_pure _
  · split
    · exact runs_pure _
    · -- the second test on the parent calls what the first one called
      apply (runs_parentIsNamed (lib.class_get_parent klass) "ValueType").bind_of_holds hname
      intro isStruct _
      split
      · exact runs_pure _
      · exact runs_pure _

theorem runs_field_static_get_value (field : FieldInfo) (size : ℕ) :
    Runs (field_static_get_value field size (resolve lib))
      (lib.exports .il2cpp_field_static_get_value = true) := by
  apply (guarded_call _ _).bind_last
  intro _ fn _
  apply (Guarded.of_modify _).bind_of_holds trivial
  intro _ _
  exact runs_pure _

/-- Whatever is made of the bytes, fetching a value calls the one function. -/
theorem runs_fetched (field : FieldInfo) (size : ℕ) (text : List UInt8 → Text) :
    Runs (do pure (text (← field_static_get_value field size (resolve lib))))
      (lib.exports .il2cpp_field_static_get_value = true) := by
  apply (runs_field_static_get_value field size).bind_last
  intro _ bytes _
  exact runs_pure _

/-- The enum test of a static field, after the same function was called on its class. -/
theorem guarded_isEnumClass (type_class : Option Il2CppClass)
    (hexports : lib.exports .il2cpp_class_is_enum = true) :
    Guarded (isEnumClass type_class (resolve lib))
      (· = (type_class.isSome && lib.class_is_enum type_class)) True := by
  cases type_class with
  | none => exact Guarded.of_pure rfl
  | some klass =>
      apply (guarded_call .il2cpp_class_is_enum lib.class_is_enum).bind_of_holds hexports
      intro f hf
      rw [hf]
      exact Guarded.of_pure rfl

/-- The value of a static field calls what its type needs. -/
theorem runs_static_value (field : FieldInfo) :
    Runs (static_value host lib field (resolve lib)) (ValueResolved lib field) := by
  apply Runs.of_call
  apply Runs.of_call
  apply (guarded_call .il2cpp_class_is_enum lib.class_is_enum).bind
  intro hexports is_enum hfn
  rw [hfn]
  apply (guarded_isEnumClass _ hexports).bind_of_holds trivial
  intro b hb
  have hint : Runs (intValue field (resolve lib))
      (lib.exports .il2cpp_field_static_get_value = true) := runs_fetched field 4 _
  -- the branches in the order of the source; the second test of the enum repeats the first
  have hreads : (readsValue lib field →
        lib.exports .il2cpp_field_static_get_value = true) ↔
      (b ∨ b ∨ lib.type_get_type (lib.field_type field) ∈ intTypes ∨
        lib.type_get_type (lib.field_type field) = 0x0c ∨
        lib.type_get_type (lib.field_type field) = 0x0d ∨
        (lib.type_get_type (lib.field_type field) = 0x0e && lib.static_fields field) ∨ False →
        lib.exports .il2cpp_field_static_get_value = true) := by
    rw [readsValue, isEnum, ← hb]
    simp only [Bool.or_eq_true, beq_iff_eq, decide_eq_true_eq, Bool.and_eq_true]
    tauto
  rw [hreads, ← hb]
  apply hint.ite_or
  apply hint.ite_or
  apply hint.ite_or
  apply (runs_fetched field 4 _).ite_or
  apply (runs_fetched field 8 _).ite_or
  apply (runs_fetched field (host.abi.sizeBits / 8) _).ite_or
  exact (runs_pure []).congr (iff_of_true trivial False.elim)

/-- One field. -/
theorem runs_dumpField (field : FieldInfo) :
    Runs (DumpField host lib (resolve lib) field) (FieldResolved lib field) := by
  apply Runs.of_call
  apply Runs.of_call
  apply (runs_buildTypeName (lib.field_type field)).bind
  intro _ field_type _
  apply Runs.of_call
  apply ((runs_static_value field).ite_pure trivial).bind_last
  intro _ value _
  exact runs_write _

/-- The loop over an iterator: its function, and what every item needs. -/
theorem runs_iterate {α β : Type} {symbolName : Symbol} {next : α} {round : β → Dump Unit}
    {p : β → Prop} (hround : ∀ item, Runs (round item) (p item)) (items : List β) :
    Runs (iterate (get_symbol lib symbolName next) round items)
      (lib.exports symbolName = true ∧ ∀ item ∈ items, p item) := by
  induction items with
  | nil =>
      have hrun : Runs (iterate (get_symbol lib symbolName next) round [])
          (lib.exports symbolName = true) := (guarded_call _ _).bind_last fun _ _ _ => runs_pure _
      exact hrun.congr (by simp)
  | cons item items ih =>
      have hrun : Runs (iterate (get_symbol lib symbolName next) round (item :: items))
          (lib.exports symbolName = true ∧ p item ∧
            lib.exports symbolName = true ∧ ∀ item ∈ items, p item) := by
        apply Runs.of_call
        apply (hround item).bind
        intro _ _ _
        exact ih
      -- the function is called once more at the end, which asks for nothing new
      refine hrun.congr ?_
      rw [List.forall_mem_cons]
      tauto

/-- The fields of a class, until the engine gives no more. -/
theorem runs_dumpClassFields (klass : Il2CppClass) :
    Runs (DumpClassFields host lib (resolve lib) klass) (FieldsResolved lib klass) := by
  apply (runs_write _).bind_of_holds trivial
  intro _ _
  exact runs_iterate runs_dumpField _

/-- The parameters from `i` on: each needs its type, and the name of that. -/
theorem runs_paramLoop (method : MethodInfo) (i left : ℕ) (param_types_str : Text) :
    Runs (paramLoop method (resolve lib) i left param_types_str)
      (∀ k, i ≤ k → k < i + left → ParamResolved lib method k) := by
  induction left generalizing i param_types_str with
  | zero =>
      apply (runs_pure _).congr
      refine iff_of_true trivial ?_
      intro k hle hlt
      omega
  | succ left ih =>
      have hrun : Runs (paramLoop method (resolve lib) i (left + 1) param_types_str)
          (lib.exports .il2cpp_method_get_param = true ∧
            TypeResolved lib (lib.method_get_param method i) ∧
            ∀ k, i + 1 ≤ k → k < i + 1 + left → ParamResolved lib method k) := by
        apply Runs.of_call
        apply (runs_buildTypeName (lib.method_get_param method i)).bind
        intro _ name _
        exact ih (i + 1) _
      refine hrun.congr ?_
      constructor
      · intro ⟨hparam, hname, hrest⟩ k hle hlt
        -- the parameter of this round, or one of a later round
        rcases Nat.eq_or_lt_of_le hle with heq | hlt'
        · rw [← heq]
          exact ⟨hparam, hname⟩
        · exact hrest k hlt' (by omega)
      · intro h
        obtain ⟨hparam, hname⟩ := h i (by omega) (by omega)
        refine ⟨hparam, hname, ?_⟩
        intro k hle hlt
        exact h k (by omega) (by omega)

theorem runs_methodBuildParamString (method : MethodInfo) :
    Runs (MethodBuildParamString method (resolve lib)) (ParamsResolved lib method) := by
  apply Runs.of_call
  have hloop := (@runs_paramLoop lib method 0
    (lib.method_get_param_count method).toInt.toNat (ascii "(")).bind_last
    fun _ params _ => runs_pure (params ++ ascii ")")
  exact hloop.congr (by simp)

theorem runs_writeSignature (methodPointer : ℕ) (signature : Text) :
    Runs (writeSignature host methodPointer signature) True := by
  rw [writeSignature]
  split
  · apply Guarded.of_get
    intro s
    apply (runs_write _).bind_of_holds trivial
    intro _ _
    exact runs_write _
  · exact runs_write _

/-- One method. -/
theorem runs_dumpMethod (method : MethodInfo) :
    Runs (DumpMethod host lib (resolve lib) method) (MethodResolved lib method) := by
  apply Runs.of_call
  cases hname : lib.method_get_name method with
  | none => exact (runs_pure _).congr (by simp)
  | some method_name =>
      simp only [Option.isSome_some, forall_const]
      apply Runs.of_call
      apply Runs.of_call
      apply (runs_buildTypeName (lib.method_get_return_type method)).bind
      intro _ return_type_name _
      apply (runs_methodBuildParamString method).bind_last
      intro _ param_types_str _
      apply (runs_writeSignature _ _).bind_of_holds trivial
      intro _ _
      exact runs_write _

/-- The methods of a class. -/
theorem runs_dumpClassMethods (klass : Il2CppClass) :
    Runs (DumpClassMethods host lib (resolve lib) klass) (MethodsResolved lib klass) := by
  apply (runs_write _).bind_of_holds trivial
  intro _ _
  exact runs_iterate runs_dumpMethod _

theorem runs_dumpNamedClass (klass : Il2CppClass) (ns : Option Text) (name : Text)
    (hname : lib.exports .il2cpp_class_get_name = true) :
    Runs (DumpNamedClass host lib (resolve lib) klass ns name) (ClassResolved lib klass) := by
  have hrun : Runs (DumpNamedClass host lib (resolve lib) klass ns name)
      (lib.exports .il2cpp_class_get_flags = true ∧
        (lib.exports .il2cpp_class_get_flags = true ∧
          lib.exports .il2cpp_class_get_parent = true ∧
          ((lib.class_get_parent klass).isSome →
            lib.exports .il2cpp_class_get_name = true)) ∧
        FieldsResolved lib klass ∧ MethodsResolved lib klass) := by
    apply Runs.of_call
    apply (runs_getClassType klass).bind
    intro _ type_name _
    apply (runs_write _).bind_of_holds trivial
    intro _ _
    apply (runs_dumpClassFields klass).bind
    intro _ _ _
    apply (runs_write _).bind_of_holds trivial
    intro _ _
    apply (runs_dumpClassMethods klass).bind_last
    intro _ _ _
    exact runs_write _
  -- the flags are asked for twice, and the name of a parent once the name of the class was
  refine hrun.congr ?_
  rw [ClassResolved]
  tauto

/-- One class of an image. -/
theorem runs_dumpClass (image : Il2CppImage) (j : ℕ) :
    Runs (DumpClass host lib (resolve lib) image j) (IndexResolved lib image j) := by
  apply Runs.of_call
  cases hklass : lib.image_get_class image j with
  | none => exact (runs_write _).congr (by simp)
  | some klass =>
      simp only [Option.some.injEq, forall_eq']
      apply Runs.of_call
      apply (guarded_call .il2cpp_class_get_name lib.class_get_name).bind
      intro hexports fn hfn
      rw [hfn]
      cases hname : lib.class_get_name klass with
      | none => exact (runs_write _).congr (by simp)
      | some name => exact (runs_dumpNamedClass klass _ name hexports).congr (by simp)

/-- The classes of an image. -/
theorem runs_dumpClassesInImage (image : Il2CppImage) :
    Runs (DumpClassesInImage host lib (resolve lib) image) (ImageResolved lib image) := by
  apply Runs.of_call
  apply (runs_write _).bind_of_holds trivial
  intro _ _
  refine (Guarded.forM _ (runs_dumpClass image)).congr ?_
  simp only [List.mem_range]

theorem runs_dumpIl2CppAssemblyInfo (assemblies : List Il2CppAssembly) :
    Runs (DumpIl2CppAssemblyInfo host lib (resolve lib) assemblies)
      (∀ assembly ∈ assemblies, ∀ image, lib.image assembly = some image →
        ImageResolved lib image) := by
  have hassembly : ∀ entry, Runs (DumpAssembly host lib (resolve lib) entry)
      (∀ image, lib.image entry.1 = some image → ImageResolved lib image) := by
    intro entry
    rw [DumpAssembly]
    cases lib.image entry.1 with
    | none => exact (runs_write _).congr (by simp)
    | some image =>
        simp only [Option.some.injEq, forall_eq']
        apply (runs_write _).bind_of_holds trivial
        intro _ _
        exact runs_dumpClassesInImage image
  refine (Guarded.forM _ hassembly).congr ?_
  -- the indices only serve the warnings
  conv_rhs => rw [← List.zipIdx_map_fst 0 assemblies]
  rw [List.forall_mem_map]

/-- The pointer is called only with a handle. -/
theorem guarded_getIl2CppDomain (il2cpp_handle : ℕ) :
    Guarded (GetIl2CppDomain il2cpp_handle (resolve lib)) (· = domainOf lib il2cpp_handle)
      (il2cpp_handle ≠ 0 → lib.exports .il2cpp_domain_get = true) := by
  rw [GetIl2CppDomain, domainOf]
  by_cases hhandle : il2cpp_handle = 0
  · rw [if_pos hhandle, if_pos hhandle]
    refine (Guarded.of_pure_eq none).congr ?_
    simp [hhandle]
  · rw [if_neg hhandle, if_neg hhandle]
    refine (guarded_call _ _).congr ?_
    simp [hhandle]

theorem guarded_getIl2CppAssemblies (domain : Il2CppDomain) :
    Guarded (GetIl2CppAssemblies domain (resolve lib)) (· = lib.domain_get_assemblies domain)
      (lib.exports .il2cpp_domain_get_assemblies = true) := by
  apply (guarded_call .il2cpp_domain_get_assemblies lib.domain_get_assemblies).bind_last
  intro _ fn hfn
  rw [hfn]
  exact Guarded.of_pure rfl

theorem runs_close : Runs close_dump_log True := Guarded.of_modify _

/-- The dump, after its file was opened. -/
theorem runs_dumpOpened (il2cpp_handle : ℕ) :
    Runs (dumpOpened host lib (resolve lib) il2cpp_handle)
      (DomainResolved lib il2cpp_handle) := by
  apply (guarded_getIl2CppDomain il2cpp_handle).bind
  intro _ domain hdomain
  rw [← hdomain]
  cases domain with
  | none => exact runs_close.congr (by simp [assembliesOf])
  | some domain =>
      simp only [Option.isSome_some, forall_const]
      apply (guarded_getIl2CppAssemblies domain).bind
      intro _ assemblies hassemblies
      rw [hassemblies, assembliesOf]
      -- a null array and an empty one end the dump alike
      split
      · rename_i hempty
        exact runs_close.congr (by simp [hempty])
      · apply (runs_dumpIl2CppAssemblyInfo _).bind_last
        intro _ _ _
        exact runs_close

end

end Dumper
