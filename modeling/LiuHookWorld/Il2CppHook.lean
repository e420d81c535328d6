/-
# The hooks of `do_dlopen` and `il2cpp_init`

The body of `hook_do_open`, which stores what it knows of a loaded `libil2cpp.so` and hooks
`il2cpp_init`, and that of `hook_il2cpp`, which dumps what was stored (`UnityDumper.cpp`), as
a state machine over the calls they see.
-/
import LiuHookWorld.DumperFrame
import LiuHookWorld.MemoryMap

namespace Dumper

/-! ## The state machine -/

/-- What one call of `do_dlopen` for the library stored, or what one dump worked on. -/
structure Load where
  handle : ℕ
  base : ℕ
  deriving DecidableEq

/-- The globals of the dumper, and what happened so far. -/
structure HookState where
  g_il2cpp_handle : ℕ
  il2cpp_hook_flag : Bool
  /-- The globals the dump shares: among them `apkname` and `il2cppbase`. -/
  dump : DumpState
  /-- What the calls for the library stored, the latest last. -/
  loads : List Load
  /-- How often `hook_il2cpp_register` was executed. -/
  registrations : ℕ
  /-- The handle and the base of every dump. -/
  dumps : List Load
  /-- A dump called a null pointer. -/
  crashed : Bool

/-- What the hooks see. -/
inductive HookCall
  /-- `do_dlopen` of a name; its result, and `/proc/self/maps` after it. -/
  | do_dlopen (name : Option Text) (result : ℕ) (maps : Option Text)
  /-- `il2cpp_init`; its result, and the library behind the handle. -/
  | il2cpp_init (result : Int32) (lib : Il2CppLibrary)

/-- The initial values of the globals. -/
def HookState.initial : HookState where
  g_il2cpp_handle := 0
  il2cpp_hook_flag := false
  dump := ⟨none, 0, none, [], []⟩
  loads := []
  registrations := 0
  dumps := []
  crashed := false

/-- `"libil2cpp.so"`. -/
def libil2cpp : Text := ascii "libil2cpp.so"

/-- `hook_il2cpp_register`, as `SK_HOOK_FUNC` generates it. -/
def hook_il2cpp_register (s : HookState) : HookState :=
  { s with registrations := s.registrations + 1 }

/-- The assignments of `hook_do_open` for a name that contains `libil2cpp.so`. -/
def store (host : Host) (s : HookState) (name : Text) (result : ℕ) (maps : Option Text) :
    HookState :=
  let base := get_base host.abi maps libil2cpp
  { s with
    g_il2cpp_handle := result
    dump := { s.dump with
      il2cppbase := base, apkname := NameToApkName s.dump.apkname (some name) }
    loads := s.loads ++ [⟨result, base⟩] }

/-- `hook_do_open`, after the original function returned. -/
def hook_do_open (host : Host) (s : HookState) (name : Option Text) (result : ℕ)
    (maps : Option Text) : HookState :=
  match name with
  | none => s
  | some name =>
      if (CString.strstr name libil2cpp).isSome then
        let s := store host s name result maps
        if !s.il2cpp_hook_flag && s.g_il2cpp_handle ≠ 0 then hook_il2cpp_register s else s
      else s

/-- `hook_il2cpp`, after the original function returned. -/
def hook_il2cpp (host : Host) (s : HookState) (result : Int32) (lib : Il2CppLibrary) :
    HookState :=
  if result ≠ 0 then
    let s' := { s with dumps := s.dumps ++ [Load.mk s.g_il2cpp_handle s.dump.il2cppbase] }
    match DumpIl2CppClassesOnce host lib s.g_il2cpp_handle s.dump with
    | .ok (_, dump) => { s' with dump := dump }
    | .error _ => { s' with crashed := true }
  else s

/-- One call.  `il2cpp_init` reaches the hook only once it is registered. -/
def hookStep (host : Host) (s : HookState) (call : HookCall) : Option HookState :=
  if s.crashed then none
  else
    match call with
    | .do_dlopen name result maps => some (hook_do_open host s name result maps)
    | .il2cpp_init result lib =>
        if s.registrations = 0 then none else some (hook_il2cpp host s result lib)

/-- The call is one for the library: its name contains `libil2cpp.so`. -/
def ForLibrary (name : Option Text) : Prop := ∃ path, name = some path ∧ libil2cpp <:+: path

/-! ## What a call does -/

section

variable {host : Host} {s : HookState}

/-- `hook_do_open` on another name does nothing. -/
theorem hook_do_open_of_not_forLibrary {name : Option Text} (result : ℕ) (maps : Option Text)
    (h : ¬ ForLibrary name) : hook_do_open host s name result maps = s := by
  cases name with
  | none => rfl
  | some path =>
      have hnone : CString.strstr path libil2cpp = none :=
        CString.strstr_eq_none_iff.mpr fun hinfix => h ⟨path, rfl, hinfix⟩
      simp only [hook_do_open, hnone, Option.isSome_none, Bool.false_eq_true, if_false]

/-- What it does for the library, as long as the flag is not set. -/
theorem hook_do_open_of_forLibrary (host : Host) {path : Text} (result : ℕ)
    (maps : Option Text) (h : libil2cpp <:+: path) (hflag : s.il2cpp_hook_flag = false) :
    hook_do_open host s (some path) result maps =
      if result = 0 then store host s path result maps
      else hook_il2cpp_register (store host s path result maps) := by
  have hsome : (CString.strstr path libil2cpp).isSome = true := CString.strstr_isSome_iff.mpr h
  by_cases hresult : result = 0
  · simp [hook_do_open, hsome, store, hresult]
  · simp [hook_do_open, hsome, store, hflag, hresult]

/-- What a dump does to the state besides writing its file. -/
structure Dumped (s s' : HookState) : Prop where
  handle : s'.g_il2cpp_handle = s.g_il2cpp_handle
  flag : s'.il2cpp_hook_flag = s.il2cpp_hook_flag
  base : s'.dump.il2cppbase = s.dump.il2cppbase
  apkname : s'.dump.apkname = s.dump.apkname
  loads : s'.loads = s.loads
  registrations : s'.registrations = s.registrations
  dumps : ∀ d ∈ s'.dumps, d ∈ s.dumps ∨ d = ⟨s.g_il2cpp_handle, s.dump.il2cppbase⟩

theorem dumped_hook_il2cpp (result : Int32) (lib : Il2CppLibrary) :
    Dumped s (hook_il2cpp host s result lib) := by
  rw [hook_il2cpp]
  split
  case isFalse => exact ⟨rfl, rfl, rfl, rfl, rfl, rfl, fun d hd => .inl hd⟩
  case isTrue =>
    cases hdump : DumpIl2CppClassesOnce host lib s.g_il2cpp_handle s.dump with
    | error e => exact ⟨rfl, rfl, rfl, rfl, rfl, rfl, fun d hd => by simpa using hd⟩
    | ok r =>
        have hkeep := keeps_dump host lib s.g_il2cpp_handle s.dump r.1 r.2 hdump
        have hname := congrArg Prod.fst hkeep
        have hbase := congrArg Prod.snd hkeep
        exact ⟨rfl, rfl, hbase, hname, rfl, rfl, fun d hd => by simpa using hd⟩

/-- What a step can be while the flag is not set: a call for another library, one for the
library that failed or did not, or a dump. -/
theorem hookStep_cases {call : HookCall} {s' : HookState} (hflag : s.il2cpp_hook_flag = false)
    (h : hookStep host s call = some s') :
    (∃ name result maps, call = .do_dlopen name result maps ∧ ¬ ForLibrary name ∧ s' = s)
    ∨ (∃ path maps, call = .do_dlopen (some path) 0 maps ∧ libil2cpp <:+: path
        ∧ s' = store host s path 0 maps)
    ∨ (∃ path result maps, call = .do_dlopen (some path) result maps ∧ libil2cpp <:+: path
        ∧ result ≠ 0 ∧ s' = hook_il2cpp_register (store host s path result maps))
    ∨ (∃ result lib, call = .il2cpp_init result lib ∧ s.registrations ≠ 0 ∧ Dumped s s') := by
  unfold hookStep at h
  split at h
  · cases h
  cases call with
  | do_dlopen name result maps =>
      obtain rfl := Option.some.inj h
      by_cases hname : ForLibrary name
      · obtain ⟨path, rfl, hpath⟩ := hname
        have hopen := hook_do_open_of_forLibrary host result maps hpath hflag
        by_cases hresult : result = 0
        · subst hresult
          exact .inr (.inl ⟨path, maps, rfl, hpath, by rw [hopen, if_pos rfl]⟩)
        · exact .inr (.inr (.inl ⟨path, result, maps, rfl, hpath, hresult,
            by rw [hopen, if_neg hresult]⟩))
      · exact .inl ⟨name, result, maps, rfl, hname,
          hook_do_open_of_not_forLibrary result maps hname⟩
  | il2cpp_init result lib =>
      simp only at h
      split at h
      · cases h
      case isFalse hreg =>
        obtain rfl := Option.some.inj h
        exact .inr (.inr (.inr ⟨result, lib, rfl, hreg, dumped_hook_il2cpp result lib⟩))

end

end Dumper
