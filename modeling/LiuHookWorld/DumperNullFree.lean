/-
# Calls through unresolved pointers

Which symbols the traversal of a game's metadata calls, and that it runs without calling
a null pointer exactly when these are exported.
-/
import LiuHookWorld.DumperResolved

namespace Dumper

/-! ## What the traversal comes to -/

section

variable (lib : Il2CppLibrary)

/-- The image of an assembly of the domain. -/
def DumpedImage (il2cpp_handle : ℕ) (image : Il2CppImage) : Prop :=
  ∃ assembly ∈ assembliesOf lib (domainOf lib il2cpp_handle), lib.image assembly = some image

/-- A class of such an image. -/
def FoundClass (il2cpp_handle : ℕ) (klass : Il2CppClass) : Prop :=
  ∃ image, DumpedImage lib il2cpp_handle image ∧
    ∃ j < (lib.image_get_class_count image).toNat, lib.image_get_class image j = some klass

/-- A class that is not skipped. -/
def DumpedClass (il2cpp_handle : ℕ) (klass : Il2CppClass) : Prop :=
  FoundClass lib il2cpp_handle klass ∧ (lib.class_get_name klass).isSome

def DumpedField (il2cpp_handle : ℕ) (field : FieldInfo) : Prop :=
  ∃ klass, DumpedClass lib il2cpp_handle klass ∧ field ∈ lib.class_get_fields klass

/-- A method, skipped or not. -/
def FoundMethod (il2cpp_handle : ℕ) (method : MethodInfo) : Prop :=
  ∃ klass, DumpedClass lib il2cpp_handle klass ∧ method ∈ lib.class_get_methods klass

/-- A method that is not skipped. -/
def DumpedMethod (il2cpp_handle : ℕ) (method : MethodInfo) : Prop :=
  FoundMethod lib il2cpp_handle method ∧ (lib.method_get_name method).isSome

/-- The symbols the dump of the library calls, each with what makes it do so. -/
inductive Needs (il2cpp_handle : ℕ) : Symbol → Prop
  | domain_get : il2cpp_handle ≠ 0 → Needs il2cpp_handle .il2cpp_domain_get
  | domain_get_assemblies : (domainOf lib il2cpp_handle).isSome →
      Needs il2cpp_handle .il2cpp_domain_get_assemblies
  | image_get_class_count {image} : DumpedImage lib il2cpp_handle image →
      Needs il2cpp_handle .il2cpp_image_get_class_count
  | image_get_class {image} : DumpedImage lib il2cpp_handle image →
      0 < (lib.image_get_class_count image).toNat → Needs il2cpp_handle .il2cpp_image_get_class
  | foundClass {klass a} : FoundClass lib il2cpp_handle klass →
      a ∈ [Symbol.il2cpp_class_get_namespace, .il2cpp_class_get_name] → Needs il2cpp_handle a
  | dumpedClass {klass a} : DumpedClass lib il2cpp_handle klass →
      a ∈ [Symbol.il2cpp_class_get_flags, .il2cpp_class_get_parent, .il2cpp_class_get_fields,
        .il2cpp_class_get_methods] → Needs il2cpp_handle a
  | dumpedField {field a} : DumpedField lib il2cpp_handle field →
      a ∈ [Symbol.il2cpp_field_get_name, .il2cpp_field_get_flags, .il2cpp_field_get_offset] →
      Needs il2cpp_handle a
  | fieldType {field} : DumpedField lib il2cpp_handle field → (lib.field_type field).isSome →
      Needs il2cpp_handle .il2cpp_type_get_name
  | staticField {field a} : DumpedField lib il2cpp_handle field → isStatic lib field →
      a ∈ [Symbol.il2cpp_type_get_class_or_element_class, .il2cpp_type_get_type,
        .il2cpp_class_is_enum] → Needs il2cpp_handle a
  | staticValue {field} : DumpedField lib il2cpp_handle field → isStatic lib field →
      readsValue lib field → Needs il2cpp_handle .il2cpp_field_static_get_value
  | foundMethod {method} : FoundMethod lib il2cpp_handle method →
      Needs il2cpp_handle .il2cpp_method_get_name
  | dumpedMethod {method a} : DumpedMethod lib il2cpp_handle method →
      a ∈ [Symbol.il2cpp_method_get_flags, .il2cpp_method_get_return_type,
        .il2cpp_method_get_param_count] → Needs il2cpp_handle a
  | returnType {method} : DumpedMethod lib il2cpp_handle method →
      (lib.method_get_return_type method).isSome → Needs il2cpp_handle .il2cpp_type_get_name
  | param {method} : DumpedMethod lib il2cpp_handle method →
      0 < (lib.method_get_param_count method).toInt.toNat →
      Needs il2cpp_handle .il2cpp_method_get_param
  | paramType {method i} : DumpedMethod lib il2cpp_handle method →
      i < (lib.method_get_param_count method).toInt.toNat →
      (lib.method_get_param method i).isSome → Needs il2cpp_handle .il2cpp_type_get_name

end

/-- Whether the dump file is open after `init_dump_log`. -/
def logOpens (host : Host) (s : DumpState) : Bool :=
  match s.apkname with
  | none => false
  | some apkname =>
      if (c_str apkname).isEmpty then s.g_dump_fp.isSome else host.fopen (filepath apkname)

/-- The dump started in `s` comes to its end without calling a null pointer. -/
def NullFree (host : Host) (lib : Il2CppLibrary) (il2cpp_handle : ℕ) (s : DumpState) : Prop :=
  ∃ r, DumpIl2CppClassesOnce host lib il2cpp_handle s = .ok r

section

variable {host : Host} {lib : Il2CppLibrary} {il2cpp_handle : ℕ}

/-! ## The needs as a whole -/

theorem imageResolved_of {image : Il2CppImage}
    (h : DomainResolved lib il2cpp_handle) (himage : DumpedImage lib il2cpp_handle image) :
    ImageResolved lib image := by
  obtain ⟨assembly, hmem, heq⟩ := himage
  exact h.2.2 assembly hmem image heq

theorem indexResolved_of {klass : Il2CppClass}
    (h : DomainResolved lib il2cpp_handle) (hklass : FoundClass lib il2cpp_handle klass) :
    lib.exports .il2cpp_class_get_namespace = true ∧
      lib.exports .il2cpp_class_get_name = true ∧
      ((lib.class_get_name klass).isSome → ClassResolved lib klass) := by
  obtain ⟨image, himage, j, hlt, heq⟩ := hklass
  exact ((imageResolved_of h himage).2 j hlt).2 klass heq

theorem classResolved_of {klass : Il2CppClass}
    (h : DomainResolved lib il2cpp_handle) (hklass : DumpedClass lib il2cpp_handle klass) :
    ClassResolved lib klass :=
  (indexResolved_of h hklass.1).2.2 hklass.2

theorem fieldResolved_of {field : FieldInfo}
    (h : DomainResolved lib il2cpp_handle) (hfield : DumpedField lib il2cpp_handle field) :
    FieldResolved lib field := by
  obtain ⟨klass, hklass, hmem⟩ := hfield
  obtain ⟨_, _, ⟨_, hfields⟩, _, _⟩ := classResolved_of h hklass
  exact hfields field hmem

theorem methodResolved_of {method : MethodInfo}
    (h : DomainResolved lib il2cpp_handle) (hmethod : FoundMethod lib il2cpp_handle method) :
    MethodResolved lib method := by
  obtain ⟨klass, hklass, hmem⟩ := hmethod
  obtain ⟨_, _, _, _, hmethods⟩ := classResolved_of h hklass
  exact hmethods method hmem

/-- Where the condition of the traversal holds, every symbol it needs is exported. -/
theorem exports_of_needs {a : Symbol} (h : DomainResolved lib il2cpp_handle)
    (ha : Needs lib il2cpp_handle a) : lib.exports a = true := by
  cases ha with
  | domain_get hhandle => exact h.1 hhandle
  | domain_get_assemblies hdomain => exact h.2.1 hdomain
  | image_get_class_count himage => exact (imageResolved_of h himage).1
  -- an image with a class has one at index 0
  | image_get_class himage hpos => exact ((imageResolved_of h himage).2 0 hpos).1
  | foundClass hklass hmem =>
      obtain ⟨hnamespace, hname, _⟩ := indexResolved_of h hklass
      simp only [List.mem_cons, List.not_mem_nil, or_false] at hmem
      rcases hmem with rfl | rfl
      · exact hnamespace
      · exact hname
  | dumpedClass hklass hmem =>
      obtain ⟨hflags, hparent, ⟨hfields, _⟩, hmethods, _⟩ := classResolved_of h hklass
      simp only [List.mem_cons, List.not_mem_nil, or_false] at hmem
      rcases hmem with rfl | rfl | rfl | rfl
      · exact hflags
      · exact hparent
      · exact hfields
      · exact hmethods
  | dumpedField hfield hmem =>
      obtain ⟨hname, hflags, _, hoffset, _⟩ := fieldResolved_of h hfield
      simp only [List.mem_cons, List.not_mem_nil, or_false] at hmem
      rcases hmem with rfl | rfl | rfl
      · exact hname
      · exact hflags
      · exact hoffset
  | fieldType hfield htype =>
      obtain ⟨_, _, hname, _, _⟩ := fieldResolved_of h hfield
      exact hname htype
  | staticField hfield hstatic hmem =>
      obtain ⟨_, _, _, _, hvalue⟩ := fieldResolved_of h hfield
      obtain ⟨hclass, htype, henum, _⟩ := hvalue hstatic
      simp only [List.mem_cons, List.not_mem_nil, or_false] at hmem
      rcases hmem with rfl | rfl | rfl
      · exact hclass
      · exact htype
      · exact henum
  | staticValue hfield hstatic hreads =>
      obtain ⟨_, _, _, _, hvalue⟩ := fieldResolved_of h hfield
      obtain ⟨_, _, _, hget⟩ := hvalue hstatic
      exact hget hreads
  | foundMethod hmethod => exact (methodResolved_of h hmethod).1
  | dumpedMethod hmethod hmem =>
      obtain ⟨hflags, hreturn, _, hcount, _⟩ := (methodResolved_of h hmethod.1).2 hmethod.2
      simp only [List.mem_cons, List.not_mem_nil, or_false] at hmem
      rcases hmem with rfl | rfl | rfl
      · exact hflags
      · exact hreturn
      · exact hcount
  | returnType hmethod htype =>
      obtain ⟨_, _, hname, _, _⟩ := (methodResolved_of h hmethod.1).2 hmethod.2
      exact hname htype
  | param hmethod hpos =>
      obtain ⟨_, _, _, _, hparams⟩ := (methodResolved_of h hmethod.1).2 hmethod.2
      exact (hparams 0 hpos).1
  | paramType hmethod hlt htype =>
      obtain ⟨_, _, _, _, hparams⟩ := (methodResolved_of h hmethod.1).2 hmethod.2
      exact (hparams _ hlt).2 htype

theorem fieldResolved_of_needs {field : FieldInfo}
    (h : ∀ a, Needs lib il2cpp_handle a → lib.exports a = true)
    (hfield : DumpedField lib il2cpp_handle field) : FieldResolved lib field := by
  refine ⟨h _ (.dumpedField hfield (by simp)), h _ (.dumpedField hfield (by simp)), ?_,
    h _ (.dumpedField hfield (by simp)), ?_⟩
  · intro htype
    exact h _ (.fieldType hfield htype)
  · intro hstatic
    refine ⟨h _ (.staticField hfield hstatic (by simp)),
      h _ (.staticField hfield hstatic (by simp)),
      h _ (.staticField hfield hstatic (by simp)), ?_⟩
    intro hreads
    exact h _ (.staticValue hfield hstatic hreads)

theorem methodResolved_of_needs {method : MethodInfo}
    (h : ∀ a, Needs lib il2cpp_handle a → lib.exports a = true)
    (hmethod : FoundMethod lib il2cpp_handle method) : MethodResolved lib method := by
  refine ⟨h _ (.foundMethod hmethod), ?_⟩
  intro hname
  have hdumped : DumpedMethod lib il2cpp_handle method := ⟨hmethod, hname⟩
  refine ⟨h _ (.dumpedMethod hdumped (by simp)), h _ (.dumpedMethod hdumped (by simp)), ?_,
    h _ (.dumpedMethod hdumped (by simp)), ?_⟩
  · intro htype
    exact h _ (.returnType hdumped htype)
  · intro k hlt
    refine ⟨h _ (.param hdumped (by omega)), ?_⟩
    intro htype
    exact h _ (.paramType hdumped hlt htype)

theorem classResolved_of_needs {klass : Il2CppClass}
    (h : ∀ a, Needs lib il2cpp_handle a → lib.exports a = true)
    (hklass : DumpedClass lib il2cpp_handle klass) : ClassResolved lib klass := by
  refine ⟨h _ (.dumpedClass hklass (by simp)), h _ (.dumpedClass hklass (by simp)),
    ⟨h _ (.dumpedClass hklass (by simp)), ?_⟩, h _ (.dumpedClass hklass (by simp)), ?_⟩
  · intro field hmem
    exact fieldResolved_of_needs h ⟨klass, hklass, hmem⟩
  · intro method hmem
    exact methodResolved_of_needs h ⟨klass, hklass, hmem⟩

/-- Where every symbol it needs is exported, the condition of the traversal holds. -/
theorem domainResolved_of_needs
    (h : ∀ a, Needs lib il2cpp_handle a → lib.exports a = true) :
    DomainResolved lib il2cpp_handle := by
  refine ⟨fun hhandle => h _ (.domain_get hhandle),
    fun hdomain => h _ (.domain_get_assemblies hdomain), ?_⟩
  intro assembly hassembly image heq
  have himage : DumpedImage lib il2cpp_handle image := ⟨assembly, hassembly, heq⟩
  refine ⟨h _ (.image_get_class_count himage), ?_⟩
  intro j hlt
  refine ⟨h _ (.image_get_class himage (by omega)), ?_⟩
  intro klass hklass
  have hfound : FoundClass lib il2cpp_handle klass := ⟨image, himage, j, hlt, hklass⟩
  refine ⟨h _ (.foundClass hfound (by simp)), h _ (.foundClass hfound (by simp)), ?_⟩
  intro hname
  exact classResolved_of_needs h ⟨hfound, hname⟩

/-! ## The dump -/

/-- The state after `init_dump_log`, when a package name is set. -/
def openedLog (host : Host) (s : DumpState) (apkname : Text) : DumpState :=
  if (c_str apkname).isEmpty then s
  else if host.fopen (filepath apkname) then
    { s with g_dump_fp := some (filepath apkname), dump_txt := [] }
  else { s with g_dump_fp := none }

theorem openedLog_isSome {s : DumpState} {apkname : Text} (h : s.apkname = some apkname) :
    (openedLog host s apkname).g_dump_fp.isSome = logOpens host s := by
  rw [logOpens, h, openedLog]
  show _ = if (c_str apkname).isEmpty then s.g_dump_fp.isSome else host.fopen (filepath apkname)
  split
  · rfl
  · split
    · rename_i hopen
      rw [hopen]
      rfl
    · rename_i hopen
      rw [Bool.not_eq_true] at hopen
      rw [hopen]
      rfl

theorem dump_of_not_initialized (il2cpp_handle : ℕ) (s : DumpState)
    (hinit : (initialize_il2cpp_functions lib).1 = false) :
    DumpIl2CppClassesOnce host lib il2cpp_handle s = .ok ((), s) := by
  have hpair : initialize_il2cpp_functions lib = (false, resolve lib) := Prod.ext hinit rfl
  rw [DumpIl2CppClassesOnce, hpair]
  rfl

theorem dump_of_initialized (s : DumpState)
    (hinit : (initialize_il2cpp_functions lib).1 = true) :
    DumpIl2CppClassesOnce host lib il2cpp_handle s =
      match s.apkname with
      | none => .ok ((), s)
      | some apkname =>
          (if (openedLog host s apkname).g_dump_fp.isNone then pure ()
            else dumpOpened host lib (resolve lib) il2cpp_handle : Dump Unit)
            (openedLog host s apkname) := by
  have hpair : initialize_il2cpp_functions lib = (true, resolve lib) := Prod.ext hinit rfl
  obtain ⟨apkname, il2cppbase, g_dump_fp, dump_txt, stores⟩ := s
  rw [DumpIl2CppClassesOnce, hpair]
  cases apkname with
  | none => rfl
  | some apkname => rfl

/-- Without the critical symbols, or without a dump file, nothing is called. -/
theorem nullFree_of_not_opened {s : DumpState}
    (h : (initialize_il2cpp_functions lib).1 = true → logOpens host s = false) :
    NullFree host lib il2cpp_handle s := by
  cases hinit : (initialize_il2cpp_functions lib).1 with
  | false => exact ⟨_, dump_of_not_initialized il2cpp_handle s hinit⟩
  | true =>
      cases hname : s.apkname with
      | none =>
          refine ⟨((), s), ?_⟩
          rw [dump_of_initialized s hinit, hname]
      | some apkname =>
          have hclosed : (openedLog host s apkname).g_dump_fp.isNone = true := by
            rw [← Option.not_isSome, openedLog_isSome hname, h hinit]
            rfl
          refine ⟨((), openedLog host s apkname), ?_⟩
          rw [dump_of_initialized s hinit, hname]
          show (if (openedLog host s apkname).g_dump_fp.isNone then pure ()
            else _ : Dump Unit) _ = _
          rw [if_pos hclosed]
          rfl

/-- With them, the dump is the traversal. -/
theorem nullFree_iff_of_opened {s : DumpState}
    (hinit : (initialize_il2cpp_functions lib).1 = true) (hopens : logOpens host s = true) :
    NullFree host lib il2cpp_handle s ↔ DomainResolved lib il2cpp_handle := by
  cases hname : s.apkname with
  | none =>
      rw [logOpens, hname] at hopens
      cases hopens
  | some apkname =>
      have hopened : ¬(openedLog host s apkname).g_dump_fp.isNone = true := by
        rw [← Option.not_isSome, openedLog_isSome hname, hopens]
        decide
      rw [NullFree, dump_of_initialized s hinit, hname]
      show (∃ r, (if (openedLog host s apkname).g_dump_fp.isNone then pure () else _ : Dump Unit) _
        = .ok r) ↔ _
      rw [if_neg hopened]
      exact (runs_dumpOpened il2cpp_handle).returns_iff _

/-- **Null pointers of the dump.**  The dump calls no null pointer if and only if, should it
get as far as opening the dump file, every symbol it needs for the metadata is exported.
Initialisation has seen to the critical ones. -/
theorem nullFree_iff_resolved (host : Host) (lib : Il2CppLibrary) (il2cpp_handle : ℕ)
    (s : DumpState) :
    NullFree host lib il2cpp_handle s ↔
      ((initialize_il2cpp_functions lib).1 = true → logOpens host s = true →
        ∀ a, a ∉ criticalSymbols → Needs lib il2cpp_handle a → lib.exports a = true) := by
  constructor
  · intro hfree hinit hopens a _ ha
    exact exports_of_needs ((nullFree_iff_of_opened hinit hopens).mp hfree) ha
  · intro h
    by_cases hopened : (initialize_il2cpp_functions lib).1 = true ∧ logOpens host s = true
    · obtain ⟨hinit, hopens⟩ := hopened
      apply (nullFree_iff_of_opened hinit hopens).mpr
      apply domainResolved_of_needs
      intro a ha
      -- the critical symbols are those that initialisation checked
      by_cases hcritical : a ∈ criticalSymbols
      · exact (initialize_iff lib).mp hinit a hcritical
      · exact h hinit hopens a hcritical ha
    · apply nullFree_of_not_opened
      intro hinit
      rw [← Bool.not_eq_true]
      intro hopens
      exact hopened ⟨hinit, hopens⟩

end

/-- A game with one class `A` that has neither fields nor methods, whose `libil2cpp.so` was
built without `il2cpp_class_get_flags`. -/
def strippedLib : Il2CppLibrary where
  exports a := a ≠ .il2cpp_class_get_flags
  domain_get := some ⟨1⟩
  domain_get_assemblies _ := some [⟨2⟩]
  image_get_class _ _ := some ⟨4⟩
  class_get_namespace _ := none
  class_get_name _ := some (ascii "A")
  image_get_class_count _ := 1
  class_get_fields _ := []
  field_get_name _ := none
  field_get_offset _ := 0
  class_get_methods _ := []
  method_get_name _ := none
  method_get_flags _ := 0
  method_get_param_count _ := 0
  method_get_param _ _ := none
  method_get_return_type _ := none
  type_get_name _ := none
  field_get_flags _ := 0
  class_get_flags _ := 0
  class_get_parent _ := none
  field_static_get_value _ := []
  type_get_class_or_element_class _ := none
  type_get_type _ := 0
  class_is_enum _ := false
  image _ := some ⟨3⟩
  image_name _ := some (ascii "A.dll")
  field_type _ := none
  static_fields _ := false
  methodPointer _ := 0
  string_units _ := []

/-- Its dump is started, and calls `il2cpp_class_get_flags` through a null pointer. -/
theorem not_nullFree_stripped :
    (initialize_il2cpp_functions strippedLib).1 = true ∧
      ¬NullFree ⟨.arm64_v8a, fun _ => true, fun _ => [], fun _ => []⟩ strippedLib 1
        ⟨some (ascii "com.a"), 0, none, [], []⟩ := by
  constructor
  · decide
  · intro ⟨r, hr⟩
    have hcrash : DumpIl2CppClassesOnce ⟨.arm64_v8a, fun _ => true, fun _ => [], fun _ => []⟩
        strippedLib 1 ⟨some (ascii "com.a"), 0, none, [], []⟩ = .error .nullCall := by
      rfl
    rw [hcrash] at hr
    cases hr

end Dumper
