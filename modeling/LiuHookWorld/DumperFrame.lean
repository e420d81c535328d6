/-
# What the dump leaves alone

Of the globals that the hooks set, the traversal reads the name of the application and the
base address, and changes neither.
-/
import LiuHookWorld.DumperTraversal
import LiuHookWorld.Frame

namespace Dumper

/-- The globals that belong to the hooks. -/
def hookGlobals (s : DumpState) : Option Text × ℕ := (s.apkname, s.il2cppbase)

/-- A `Dump` that leaves them alone. -/
abbrev Keeps {α : Type} (m : Dump α) : Prop := Frame hookGlobals m

section

variable {host : Host} {lib : Il2CppLibrary} {funcs : Il2CppFunctions}

/-- A null pointer ends the dump, and nothing is changed before. -/
theorem keeps_call {α : Type} (fn : Option α) : Keeps (call fn) := by
  cases fn with
  | none => exact Frame.of_throw _
  | some f => exact Frame.of_pure f

/-- After a call the rest goes on. -/
theorem Keeps.of_call {α β : Type} {fn : Option α} {rest : α → Dump β}
    (h : ∀ f, Keeps (rest f)) : Keeps (call fn >>= rest) :=
  (keeps_call fn).bind h

/-- Only the file is opened. -/
theorem keeps_init_dump_log (apknames : Text) : Keeps (init_dump_log host apknames) := by
  apply Frame.of_modify
  intro s
  split
  · rfl
  · split <;> rfl

/-- A line goes to the file, and nowhere else. -/
theorem keeps_write (line : Text) : Keeps (write_dump_log line) := by
  apply Frame.of_modify
  intro s
  split <;> rfl

theorem keeps_close : Keeps close_dump_log :=
  Frame.of_modify fun _ => rfl

/-- The name of a type is asked for, and nothing is stored. -/
theorem keeps_buildTypeName (type : Option Il2CppType) : Keeps (BuildTypeName type funcs) := by
  cases type with
  | none => exact Frame.of_pure _
  | some type =>
      apply Keeps.of_call
      intro fn
      cases fn type with
      | none => exact Frame.of_pure _
      | some type_name => exact Frame.of_pure _

theorem keeps_parentIsNamed (klassparent : Option Il2CppClass) (name : String) :
    Keeps (parentIsNamed klassparent name funcs) := by
  cases klassparent with
  | none => exact Frame.of_pure _
  | some klassparent => exact Keeps.of_call fun _ => Frame.of_pure _

/-- The kind of a class is asked for, and nothing is stored. -/
theorem keeps_getClassType (klass : Il2CppClass) : Keeps (GetClassType klass funcs) := by
  apply Keeps.of_call
  intro _
  apply Keeps.of_call
  intro parent
  apply (keeps_parentIsNamed (parent klass) "Enum").bind
  intro _
  apply (Frame.of_pure _).ite
  apply (Frame.of_pure _).ite
  apply (keeps_parentIsNamed (parent klass) "ValueType").bind
  intro _
  exact (Frame.of_pure _).ite (Frame.of_pure _)

/-- Whatever is made of the bytes, fetching a value only adds to the values fetched. -/
theorem keeps_fetched {α : Type} (field : FieldInfo) (size : ℕ) (text : List UInt8 → α) :
    Keeps (do pure (text (← field_static_get_value field size funcs))) := by
  have hfetch : Keeps (field_static_get_value field size funcs) := by
    apply Keeps.of_call
    intro fn
    have hstore : Keeps (modify fun s : DumpState =>
        { s with stores := s.stores ++ [⟨field, size, fn field⟩] }) :=
      Frame.of_modify fun _ => rfl
    exact hstore.bind fun _ => Frame.of_pure _
  exact hfetch.bind fun _ => Frame.of_pure _

theorem keeps_isEnumClass (type_class : Option Il2CppClass) :
    Keeps (isEnumClass type_class funcs) := by
  cases type_class with
  | none => exact Frame.of_pure _
  | some klass => exact Keeps.of_call fun _ => Frame.of_pure _

/-- A static value is read into the buffer of the dump. -/
theorem keeps_static_value (field : FieldInfo) : Keeps (static_value host lib field funcs) := by
  apply Keeps.of_call
  intro _
  apply Keeps.of_call
  intro _
  apply Keeps.of_call
  intro _
  apply (keeps_isEnumClass _).bind
  intro _
  apply (keeps_fetched field 4 _).ite
  apply (keeps_fetched field 4 _).ite
  apply (keeps_fetched field 4 _).ite
  apply (keeps_fetched field 4 _).ite
  apply (keeps_fetched field 8 _).ite
  exact (keeps_fetched field (host.abi.sizeBits / 8) _).ite (Frame.of_pure _)

/-- A field is written as one line. -/
theorem keeps_dumpField (field : FieldInfo) : Keeps (DumpField host lib funcs field) := by
  apply Keeps.of_call
  intro _
  apply Keeps.of_call
  intro _
  apply (keeps_buildTypeName _).bind
  intro _
  apply Keeps.of_call
  intro _
  apply ((keeps_static_value field).ite (Frame.of_pure _)).bind
  intro _
  exact keeps_write _

/-- The loop over an iterator. -/
theorem keeps_iterate {α β : Type} {next : Option α} {round : β → Dump Unit}
    (hround : ∀ item, Keeps (round item)) (items : List β) :
    Keeps (iterate next round items) := by
  induction items with
  | nil => exact Keeps.of_call fun _ => Frame.of_pure _
  | cons item items ih => exact Keeps.of_call fun _ => (hround item).bind fun _ => ih

theorem keeps_dumpClassFields (klass : Il2CppClass) :
    Keeps (DumpClassFields host lib funcs klass) :=
  (keeps_write _).bind fun _ => keeps_iterate keeps_dumpField _

/-- The induction is on the parameters that are left. -/
theorem keeps_paramLoop (method : MethodInfo) (i left : ℕ) (param_types_str : Text) :
    Keeps (paramLoop method funcs i left param_types_str) := by
  induction left generalizing i param_types_str with
  | zero => exact Frame.of_pure _
  | succ left ih =>
      apply Keeps.of_call
      intro _
      apply (keeps_buildTypeName _).bind
      intro _
      exact ih (i + 1) _

theorem keeps_methodBuildParamString (method : MethodInfo) :
    Keeps (MethodBuildParamString method funcs) :=
  Keeps.of_call fun _ => (keeps_paramLoop method 0 _ _).bind fun _ => Frame.of_pure _

/-- The address of a method is taken from the base, which is only read. -/
theorem keeps_writeSignature (methodPointer : ℕ) (signature : Text) :
    Keeps (writeSignature host methodPointer signature) := by
  rw [writeSignature]
  split
  · exact Frame.of_get fun _ => (keeps_write _).bind fun _ => keeps_write _
  · exact keeps_write _

/-- The parameters of a method are put together before its lines are written. -/
theorem keeps_dumpMethod (method : MethodInfo) : Keeps (DumpMethod host lib funcs method) := by
  apply Keeps.of_call
  intro name
  cases name method with
  | none => exact Frame.of_pure _
  | some method_name =>
      apply Keeps.of_call
      intro _
      apply Keeps.of_call
      intro _
      apply (keeps_buildTypeName _).bind
      intro _
      apply (keeps_methodBuildParamString method).bind
      intro _
      apply (keeps_writeSignature _ _).bind
      intro _
      exact keeps_write _

theorem keeps_dumpClassMethods (klass : Il2CppClass) :
    Keeps (DumpClassMethods host lib funcs klass) :=
  (keeps_write _).bind fun _ => keeps_iterate keeps_dumpMethod _

/-- The fields of a class are written before its methods. -/
theorem keeps_dumpNamedClass (klass : Il2CppClass) (ns : Option Text) (name : Text) :
    Keeps (DumpNamedClass host lib funcs klass ns name) := by
  apply Keeps.of_call
  intro _
  apply (keeps_getClassType klass).bind
  intro _
  apply (keeps_write _).bind
  intro _
  apply (keeps_dumpClassFields klass).bind
  intro _
  apply (keeps_write _).bind
  intro _
  apply (keeps_dumpClassMethods klass).bind
  intro _
  exact keeps_write _

/-- A class that is not there, or has no name, is a line of its own. -/
theorem keeps_dumpClass (image : Il2CppImage) (j : ℕ) :
    Keeps (DumpClass host lib funcs image j) := by
  apply Keeps.of_call
  intro get_class
  cases get_class image j with
  | none => exact keeps_write _
  | some klass =>
      apply Keeps.of_call
      intro _
      apply Keeps.of_call
      intro get_name
      cases get_name klass with
      | none => exact keeps_write _
      | some name => exact keeps_dumpNamedClass klass _ name

theorem keeps_dumpClassesInImage (image : Il2CppImage) :
    Keeps (DumpClassesInImage host lib funcs image) :=
  Keeps.of_call fun _ => (keeps_write _).bind fun _ => Frame.forM _ (keeps_dumpClass image)

/-- An assembly without an image is a line of its own. -/
theorem keeps_dumpAssembly (entry : Il2CppAssembly × ℕ) :
    Keeps (DumpAssembly host lib funcs entry) := by
  rw [DumpAssembly]
  cases lib.image entry.1 with
  | none => exact keeps_write _
  | some image => exact (keeps_write _).bind fun _ => keeps_dumpClassesInImage image

theorem keeps_dumpOpened (il2cpp_handle : ℕ) :
    Keeps (dumpOpened host lib funcs il2cpp_handle) := by
  have hdomain : Keeps (GetIl2CppDomain il2cpp_handle funcs) :=
    (Frame.of_pure _).ite (keeps_call _)
  apply hdomain.bind
  intro domain
  cases domain with
  | none => exact keeps_close
  | some domain =>
      have hassemblies : Keeps (GetIl2CppAssemblies domain funcs) :=
        Keeps.of_call fun _ => Frame.of_pure _
      apply hassemblies.bind
      intro _
      apply keeps_close.ite
      exact (Frame.forM _ keeps_dumpAssembly).bind fun _ => keeps_close

end

/-- The dump does not change the name of the application or the base address. -/
theorem keeps_dump (host : Host) (lib : Il2CppLibrary) (il2cpp_handle : ℕ) :
    Keeps (DumpIl2CppClassesOnce host lib il2cpp_handle) := by
  rw [DumpIl2CppClassesOnce]
  apply (Frame.of_pure _).ite
  apply Frame.of_get
  intro s
  cases s.apkname with
  | none => exact Frame.of_pure _
  | some apkname =>
      apply (keeps_init_dump_log apkname).bind
      intro _
      apply Frame.of_get
      intro _
      exact (Frame.of_pure _).ite (keeps_dumpOpened il2cpp_handle)

end Dumper
