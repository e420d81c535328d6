/-
# Runs of the hooks

How often `il2cpp_init` is hooked, and what a dump works on, over any sequence of calls.
The flag that is to guard the registration is never set.
-/
import LiuHookWorld.Il2CppHook

namespace Dumper

variable {host : Host}

/-! ## The flag -/

theorem flag_step {s s' : HookState} {call : HookCall} (hflag : s.il2cpp_hook_flag = false)
    (h : hookStep host s call = some s') : s'.il2cpp_hook_flag = false := by
  rcases hookStep_cases hflag h with ⟨_, _, _, _, _, rfl⟩ | ⟨_, _, _, _, rfl⟩
    | ⟨_, _, _, _, _, _, rfl⟩ | ⟨_, _, _, _, hdumped⟩
  · exact hflag
  · exact hflag
  · exact hflag
  · rw [hdumped.flag, hflag]

/-! ## Registrations -/

/-- `il2cpp_init` was hooked at most once, and the flag says whether it was. -/
def HookedOnce (s : HookState) : Prop :=
  s.registrations ≤ 1 ∧ (1 ≤ s.registrations → s.il2cpp_hook_flag = true)

/-- The call does not load the library. -/
def LoadsNothing (_ : HookState) (call : HookCall) : Prop :=
  ∀ name result maps, call = .do_dlopen name result maps → ForLibrary name → result = 0

/-- `il2cpp_init` was not hooked, and the flag is not set. -/
def NotHooked (s : HookState) : Prop := s.registrations = 0 ∧ s.il2cpp_hook_flag = false

theorem notHooked_step {s s' : HookState} {call : HookCall} (hs : NotHooked s)
    (hcall : LoadsNothing s call) (h : hookStep host s call = some s') : NotHooked s' := by
  refine ⟨?_, flag_step hs.2 h⟩
  rcases hookStep_cases hs.2 h with ⟨_, _, _, _, _, rfl⟩ | ⟨_, _, _, _, rfl⟩
    | ⟨path, result, maps, rfl, hpath, hresult, rfl⟩ | ⟨_, _, _, hreg, _⟩
  · exact hs.1
  · exact hs.1
  · exact absurd (hcall _ result maps rfl ⟨path, rfl, hpath⟩) hresult
  · exact absurd hs.1 hreg

/-- A call that loads the library hooks `il2cpp_init` and leaves the flag unset. -/
theorem loadsNothing_of_hookedOnce {s s' : HookState} {call : HookCall} (hs : NotHooked s)
    (h : hookStep host s call = some s') (honce : HookedOnce s') : LoadsNothing s call := by
  intro name result maps hcall hname
  by_contra hresult
  have hflag := flag_step hs.2 h
  rcases hookStep_cases hs.2 h with ⟨_, _, _, hcall', hother, _⟩ | ⟨_, _, hcall', _, _⟩
    | ⟨_, _, _, _, _, _, rfl⟩ | ⟨_, _, hcall', _⟩
  · rw [hcall'] at hcall
    cases hcall
    exact hother hname
  · rw [hcall'] at hcall
    cases hcall
    exact hresult rfl
  · have hset := honce.2 (Nat.le_add_left 1 _)
    rw [hflag] at hset
    cases hset
  · rw [hcall'] at hcall
    cases hcall

/-- `il2cpp_init` is hooked at most once, with the flag set from then on, exactly in the runs
that never load the library. -/
theorem hookedOnce_iff_loadsNothing (host : Host) (calls : List HookCall) :
    Runs.Always (hookStep host) HookedOnce .initial calls
      ↔ Runs.Guarded (hookStep host) LoadsNothing .initial calls := by
  apply Runs.always_iff_guarded (I := NotHooked)
  · intro s hs
    refine ⟨by rw [hs.1]; exact Nat.zero_le 1, fun hreg => ?_⟩
    rw [hs.1] at hreg
    cases hreg
  · intro s call s' hs hcall hstep
    exact notHooked_step hs hcall hstep
  · intro s call s' hs hstep honce
    exact loadsNothing_of_hookedOnce hs hstep honce
  · exact ⟨rfl, rfl⟩

/-- `il2cpp_init` is hooked once for every call that loads the library. -/
theorem registrations_always (host : Host) (calls : List HookCall) :
    Runs.Always (hookStep host)
      (fun s => s.registrations = s.loads.countP fun load => load.handle ≠ 0)
      .initial calls := by
  suffices hboth : Runs.Always (hookStep host) (fun s => s.il2cpp_hook_flag = false
      ∧ s.registrations = s.loads.countP fun load => load.handle ≠ 0) .initial calls from
    hboth.mono fun s hs => hs.2
  refine Runs.always_of_preserved ?_ calls ⟨rfl, rfl⟩
  intro s call s' hs hstep
  refine ⟨flag_step hs.1 hstep, ?_⟩
  rcases hookStep_cases hs.1 hstep with ⟨_, _, _, _, _, rfl⟩ | ⟨_, _, _, _, rfl⟩
    | ⟨_, _, _, _, _, hresult, rfl⟩ | ⟨_, _, _, _, hdumped⟩
  · exact hs.2
  · rw [store, List.countP_append, ← hs.2]
    rfl
  · rw [hook_il2cpp_register, store, List.countP_append, ← hs.2]
    simp [hresult]
  · rw [hdumped.registrations, hdumped.loads, hs.2]

/-- The library loaded twice. -/
def loadedTwice : List HookCall :=
  [.do_dlopen (some libil2cpp) 1 none, .do_dlopen (some libil2cpp) 1 none]

theorem not_hookedOnce_loadedTwice :
    ¬ Runs.Always (hookStep exampleHost) HookedOnce .initial loadedTwice := by
  intro h
  exact absurd h.run.1 (by decide)

/-! ## Handle and base -/

/-- Handle and base are not null, and one call stored them. -/
def Loaded (s : HookState) (load : Load) : Prop :=
  load.handle ≠ 0 ∧ load.base ≠ 0 ∧ load ∈ s.loads

/-- Once `il2cpp_init` is hooked the globals are those of a library that was loaded, and every
dump worked on such a library. -/
def Consistent (s : HookState) : Prop :=
  (s.registrations ≠ 0 → Loaded s ⟨s.g_il2cpp_handle, s.dump.il2cppbase⟩)
    ∧ ∀ d ∈ s.dumps, Loaded s d

/-- A call for the library that loads it, or that comes after `il2cpp_init` was hooked,
returns a handle, and the map then has the library. -/
def LoadsWhole (host : Host) (s : HookState) (call : HookCall) : Prop :=
  ∀ name result maps, call = .do_dlopen name result maps → ForLibrary name →
    (result ≠ 0 ∨ s.registrations ≠ 0) →
    result ≠ 0 ∧ get_base host.abi maps libil2cpp ≠ 0

theorem Loaded.mono {s s' : HookState} {load : Load} (h : Loaded s load)
    (hloads : ∀ l ∈ s.loads, l ∈ s'.loads) : Loaded s' load :=
  ⟨h.1, h.2.1, hloads load h.2.2⟩

/-- What a call for the library stores is on record. -/
theorem mem_loads_store (s : HookState) (path : Text) (result : ℕ) (maps : Option Text) :
    ⟨result, get_base host.abi maps libil2cpp⟩ ∈ (store host s path result maps).loads :=
  List.mem_append_right _ (List.mem_singleton_self _)

theorem loads_store_mono (s : HookState) (path : Text) (result : ℕ) (maps : Option Text) :
    ∀ l ∈ s.loads, l ∈ (store host s path result maps).loads :=
  fun _ hl => List.mem_append_left _ hl

theorem consistent_step {s s' : HookState} {call : HookCall} (hflag : s.il2cpp_hook_flag = false)
    (hs : Consistent s) (hcall : LoadsWhole host s call) (h : hookStep host s call = some s') :
    Consistent s' := by
  rcases hookStep_cases hflag h with ⟨_, _, _, _, _, rfl⟩ | ⟨path, maps, rfl, hpath, rfl⟩
    | ⟨path, result, maps, rfl, hpath, hresult, rfl⟩ | ⟨_, _, _, hreg, hdumped⟩
  · exact hs
  · -- the call failed, so nothing was hooked before
    refine ⟨fun hreg => ?_, fun d hd => (hs.2 d hd).mono (loads_store_mono s path 0 maps)⟩
    exact absurd rfl (hcall _ 0 maps rfl ⟨path, rfl, hpath⟩ (.inr hreg)).1
  · have hload := hcall _ result maps rfl ⟨path, rfl, hpath⟩ (.inl hresult)
    refine ⟨fun _ => ⟨hload.1, hload.2, mem_loads_store s path result maps⟩, fun d hd => ?_⟩
    exact (hs.2 d hd).mono (loads_store_mono s path result maps)
  · have hglobals := hs.1 hreg
    have hloads : ∀ l ∈ s.loads, l ∈ s'.loads := fun l hl => by rwa [hdumped.loads]
    refine ⟨fun _ => ?_, fun d hd => ?_⟩
    · rw [hdumped.handle, hdumped.base]
      exact hglobals.mono hloads
    · rcases hdumped.dumps d hd with hold | rfl
      · exact (hs.2 d hold).mono hloads
      · exact hglobals.mono hloads

/-- A call that fails once `il2cpp_init` is hooked, or whose base is not found, is what the
globals hold afterwards. -/
theorem loadsWhole_of_consistent {s s' : HookState} {call : HookCall}
    (hflag : s.il2cpp_hook_flag = false) (h : hookStep host s call = some s')
    (hs' : Consistent s') : LoadsWhole host s call := by
  intro name result maps hcall hname hmust
  rcases hookStep_cases hflag h with ⟨_, _, _, hcall', hother, _⟩ | ⟨_, _, hcall', _, rfl⟩
    | ⟨_, _, _, hcall', _, _, rfl⟩ | ⟨_, _, hcall', _⟩
  · rw [hcall'] at hcall
    cases hcall
    exact absurd hname hother
  · rw [hcall'] at hcall
    cases hcall
    have hreg := hmust.resolve_left fun hne => hne rfl
    exact absurd rfl (hs'.1 hreg).1
  · rw [hcall'] at hcall
    cases hcall
    have hload := hs'.1 (Nat.succ_ne_zero _)
    exact ⟨hload.1, hload.2.1⟩
  · rw [hcall'] at hcall
    cases hcall

/-- Handle and base stay those of a loaded library exactly in the runs in which no call for
the library fails after the hook, and the base is found whenever the library is loaded. -/
theorem consistent_iff_loadsWhole (host : Host) (calls : List HookCall) :
    Runs.Always (hookStep host) Consistent .initial calls
      ↔ Runs.Guarded (hookStep host) (LoadsWhole host) .initial calls := by
  apply Runs.always_iff_guarded (I := fun s => Consistent s ∧ s.il2cpp_hook_flag = false)
  · intro s hs
    exact hs.1
  · intro s call s' hs hcall hstep
    exact ⟨consistent_step hs.2 hs.1 hcall hstep, flag_step hs.2 hstep⟩
  · intro s call s' hs hstep hconsistent
    exact loadsWhole_of_consistent hs.2 hstep hconsistent
  · refine ⟨⟨fun hreg => absurd rfl hreg, fun d hd => ?_⟩, rfl⟩
    cases hd

/-- The map once the library is loaded. -/
def loadedMap : Text := ascii "7a0000-7b0000 r-xp 00000000 fd:05 4711 /lib/libil2cpp.so\n"

/-- The library is loaded; a later attempt to load it by another path fails. -/
def failedReload : List HookCall :=
  [.do_dlopen (some libil2cpp) 1 (some loadedMap),
    .do_dlopen (some (ascii "/system/lib64/libil2cpp.so")) 0 (some loadedMap)]

theorem not_consistent_failedReload :
    ¬ Runs.Always (hookStep exampleHost) Consistent .initial failedReload := by
  intro h
  have hreg : (Runs.run (hookStep exampleHost) .initial failedReload).registrations ≠ 0 := by
    decide +kernel
  have hhandle : (Runs.run (hookStep exampleHost) .initial failedReload).g_il2cpp_handle = 0 := by
    decide +kernel
  exact (h.run.1 hreg).1 hhandle

end Dumper
