/-
# Callbacks for loaded libraries

The leave callback of a linker task and the callback of a `find_libraries` task are for
libraries that have been loaded, and `skModule(name)` looks at the library when it is
constructed.  `notify_user(true)` runs whatever the original function returned.  The
callbacks see loaded libraries along a run exactly when every notification after a
failed attempt finds nothing to call and no module to construct too soon
(`loadedOnly_iff_deserved`).
-/
import LiuHookWorld.WatchDogNotify

namespace WatchDog

open SkDogeTaskInfo

/-! ## The property and the guard -/

/-- A library of the module's name was loaded when the module was constructed. -/
def SkModule.Loaded (m : SkModule) : Prop := ∃ n ∈ m.born, m.name <:+: n

/-- The original function returned a handle, or `true`. -/
def Succeeded (orig : Option ℕ) : Prop := ∃ result, orig = some result ∧ result ≠ 0

/-- A task of the two hooks on the loading of libraries. -/
def SkDogeTaskInfo.Loads (t : SkDogeTaskInfo) : Prop :=
  t.type = .kTaskLinker ∨ t.type = .kTaskFind_Libraries

/-- The callbacks for a loaded library. -/
def Which.ForLoaded (which : Which) : Prop := which = .onLeave ∨ which = .onFindLibrariesLoaded

/-- The callbacks for a loaded library were called for successful attempts, with a module
constructed when the library was loaded; no task keeps a module constructed earlier, and
no flag was set for a failed attempt. -/
structure LoadedOnly (s : Sys) : Prop where
  succeeded : ∀ f ∈ s.fired, f.which.ForLoaded → Succeeded f.orig
  module : ∀ f ∈ s.fired, f.which.ForLoaded → ∃ m, f.module = some m ∧ m.Loaded
  stale : ∀ (k : ℕ) (t : SkDogeTaskInfo), s.tasks[k]? = some t → t.Loads →
    ∀ m, t.module = some m → m.name = t.name ∧ m.Loaded
  used : ∀ (k : ℕ) (t : SkDogeTaskInfo), s.tasks[k]? = some t → t.Loads → t.is_call = true →
    ∃ f ∈ s.fired, f.task = k ∧ f.which = t.leave ∧ Succeeded f.orig

/-- A notification after a successful attempt, or one that calls nothing and either finds a
module or constructs one for a library that is loaded. -/
def Deserved (s : Sys) : Act → Prop
  | .next i => ∀ c k t, s.calls[i]? = some c → c.pc = .notify true → c.task = some k →
      s.tasks[k]? = some t → t.Loads →
        Succeeded c.orig
          ∨ (¬ t.CallsLeave true ∧ (t.module ≠ none ∨ ∃ n ∈ s.loads, t.name <:+: n))
  | _ => True

/-! ## The invariant -/

theorem forLoaded_leave {t : SkDogeTaskInfo} (h : t.Loads) : t.leave.ForLoaded := by
  unfold leave Which.ForLoaded
  rcases h with h | h <;> simp [h]

theorem SkDogeTaskInfo.Loads.of_installed {t t' : SkDogeTaskInfo}
    (h : t'.installed = t.installed) (hloads : t.Loads) : t'.Loads := by
  unfold Loads
  rw [type_of_installed h]
  exact hloads

theorem loads_of_forLoaded {t : SkDogeTaskInfo} (h : t.leave.ForLoaded) : t.Loads := by
  unfold leave Which.ForLoaded at h
  unfold Loads
  cases htype : t.type <;> simp_all

theorem not_forLoaded_enter (t : SkDogeTaskInfo) : ¬ t.enter.ForLoaded := by
  unfold enter Which.ForLoaded
  cases t.type <;> simp

/-- What a successful attempt asked for is loaded; `find_libraries` notifies after the
original only; a callback that runs was called; and a task whose leave callback was called
has its module. -/
structure Attempts (s : Sys) : Prop where
  sane : Sane s
  loads : ∀ c ∈ s.calls, ∀ result, c.orig = some result → ∀ n ∈ c.hook.loaded result, n ∈ s.loads
  direct : ∀ c ∈ s.calls, c.hook.type = .kTaskFind_Libraries → c.pc ≠ .notify false
  inside : ∀ c ∈ s.calls, ∀ ori which k, c.pc = .callback ori which → c.task = some k →
    ∃ f ∈ s.fired, f.task = k ∧ f.which = which
  module : ∀ f ∈ s.fired, ∀ t : SkDogeTaskInfo, s.tasks[f.task]? = some t → f.which = t.leave →
    t.module ≠ none
  loadedOnly : LoadedOnly s

theorem attempts_start (va : Bool) : Attempts (Sys.start va) where
  sane := sane_start va
  loads := by simp [Sys.start]
  direct := by simp [Sys.start]
  inside := by simp [Sys.start]
  module := by simp [Sys.start]
  loadedOnly := ⟨by simp [Sys.start], by simp [Sys.start], by simp [Sys.start],
    by simp [Sys.start]⟩

section

variable {s s' : Sys} {a : Act} {i k : ℕ} {c d : Call} {t t' : SkDogeTaskInfo}

theorem Steps.loads_grow (h : Steps s a s') : s.loads <+: s'.loads := by
  cases h with
  | refused | checked | pushed | entered | looked | lookedAll | notified | returned
    | callbackReturned => exact List.prefix_rfl
  | originalReturned => exact List.prefix_append _ _

theorem Steps.fired_grow (h : Steps s a s') : s.fired <+: s'.fired := by
  rcases h.fired with heq | ⟨i, c, k, t, ori, inv, -, -, -, -, -, -, heq⟩
  · rw [heq]
  · rw [heq]
    exact List.prefix_append _ _

/-- The result of the original function is set when it returns. -/
theorem CallStep.orig (h : CallStep s i c a d) :
    d.orig = c.orig ∨ ∃ result, a = .originalReturns i result ∧ d.orig = some result := by
  cases h with
  | same | looked | returned => exact Or.inl rfl
  | lookedAll => exact Or.inl c.afterLook_orig
  | notified => exact Or.inl (c.notified_orig _ _)
  | callbackReturned => exact Or.inl (c.afterNotify_orig _)
  | originalReturned => exact Or.inr ⟨_, rfl, rfl⟩

/-- What a task's module is after a step. -/
theorem TaskStep.module (h : TaskStep s k t a t') : t'.module = t.module
    ∨ ∃ i c ori, s.Notifies k a i c ori ∧ t'.module = (t.with_module s.loads).module := by
  cases h with
  | same | stored => exact Or.inl rfl
  | notified hc hpc hk =>
      rw [notify_user_fst]
      split_ifs
      · exact Or.inl rfl
      · exact Or.inr ⟨_, _, _, ⟨rfl, hc, hpc, hk⟩, rfl⟩
  | @callbackReturned _ _ _ which => cases which <;> exact Or.inl rfl

theorem with_module_of_some {m : SkModule} (h : t.module = some m) (loads : List Name) :
    (t.with_module loads).module = some m := by
  rw [with_module_eq, h]
  rfl

theorem with_module_of_none (h : t.module = none) (loads : List Name) :
    (t.with_module loads).module = some ⟨t.name, loads⟩ := by
  rw [with_module_eq, h]
  rfl

/-- A module, once constructed, stays. -/
theorem TaskStep.module_stays (h : TaskStep s k t a t') {m : SkModule} (hm : t.module = some m) :
    t'.module = some m := by
  rcases h.module with heq | ⟨i, c, ori, -, heq⟩
  · rw [heq, hm]
  · rw [heq, with_module_of_some hm]

/-- After a successful attempt a library of the task's name is loaded. -/
theorem Attempts.loaded_name (h : Attempts s) (hc : c ∈ s.calls) (hk : c.task = some k)
    (ht : s.tasks[k]? = some t) (hloads : t.Loads) (hsucceeded : Succeeded c.orig) :
    ∃ n ∈ s.loads, t.name <:+: n := by
  obtain ⟨result, horig, hne⟩ := hsucceeded
  obtain ⟨u, n, hu, htype, hn, hname⟩ := h.sane.task c hc k hk
  obtain rfl : u = t := Option.some.inj (hu.symm.trans ht)
  refine ⟨n, h.loads c hc result horig n ?_, hname⟩
  unfold HookCall.loaded
  rw [if_neg]
  · exact List.mem_filterMap.mpr ⟨some n, hn, rfl⟩
  · rw [← htype]
    rintro (h | h)
    · exact hne h
    · rcases hloads with hl | hl <;> simp [hl] at h

/-- Before the original function a linker or `find_libraries` task is not left. -/
theorem Attempts.leaves_late (h : Attempts s) (hc : c ∈ s.calls) {ori : Bool}
    (hpc : c.pc = .notify ori) (hk : c.task = some k) (ht : s.tasks[k]? = some t)
    (hloads : t.Loads) (hcalls : t.CallsLeave ori) : ori = true := by
  rcases hcalls.2.2 with hori | ⟨-, hlinker⟩
  · exact hori
  · rcases hloads with hl | hl
    · exact absurd hl hlinker
    · cases ori with
      | true => rfl
      | false =>
          have htype := h.sane.type hc hk ht
          exact absurd hpc (h.direct c hc (htype.symm.trans hl))

/-- The module of a task that is notified is or becomes one of a loaded library. -/
theorem Attempts.module_loaded (h : Attempts s) (hguard : Deserved s a)
    (hn : s.Notifies k a i c ori) (ht : s.tasks[k]? = some t) (hloads : t.Loads)
    (hfst : (t.notify_user s.loads ori).1 = t.with_module s.loads) :
    ∃ m, (t.with_module s.loads).module = some m ∧ m.name = t.name ∧ m.Loaded := by
  obtain ⟨rfl, hc, hpc, hk⟩ := hn
  have hmem := List.mem_of_getElem? hc
  cases hmodule : t.module with
  | some m =>
      exact ⟨m, with_module_of_some hmodule _, h.loadedOnly.stale k t ht hloads m hmodule⟩
  | none =>
      refine ⟨⟨t.name, s.loads⟩, with_module_of_none hmodule _, rfl, ?_⟩
      show ∃ n ∈ s.loads, t.name <:+: n
      cases ori with
      | true =>
          rcases hguard c k t hc hpc hk ht hloads with hok | ⟨-, hne | hloaded⟩
          · exact h.loaded_name hmem hk ht hloads hok
          · exact absurd hmodule hne
          · exact hloaded
      | false =>
          -- then the flag is set, and the module has been there since
          exfalso
          have hlinker : t.type = .kTaskLinker := by
            rcases hloads with hl | hl
            · exact hl
            · have htype := h.sane.type hmem hk ht
              exact absurd hpc (h.direct c hmem (htype.symm.trans hl))
          rw [notify_user_fst] at hfst
          split_ifs at hfst with hcond
          · have hsome := congrArg SkDogeTaskInfo.module hfst
            rw [hmodule, with_module_of_none hmodule] at hsome
            simp at hsome
          · have hready : ¬ t.Ready := fun hready => hcond ⟨hlinker, rfl, Or.inr hready⟩
            have hcall : t.is_call = true := by
              by_contra hcall
              exact hready fun _ => by simpa using hcall
            obtain ⟨f, hf, rfl, hwhich, -⟩ := h.loadedOnly.used k t ht hloads hcall
            exact h.module f hf t ht hwhich hmodule

/-- What a step calls for a linker or `find_libraries` task. -/
theorem Attempts.fired_new (h : Attempts s) (hguard : Deserved s a) (hstep : Steps s a s')
    {f : Firing} (hf : f ∈ s'.fired) (hfor : f.which.ForLoaded) :
    f ∈ s.fired ∨ (Succeeded f.orig ∧ ∃ m, f.module = some m ∧ m.Loaded) := by
  rcases hstep.fired with heq | ⟨i, c, k, t, ori, inv, rfl, hc, hpc, hk, ht, hinv, heq⟩
  · rw [heq] at hf
    exact Or.inl hf
  · rw [heq] at hf
    rcases List.mem_append.mp hf with hf | hf
    · exact Or.inl hf
    · right
      rw [List.mem_singleton.mp hf] at hfor ⊢
      have hmem := List.mem_of_getElem? hc
      rcases calls_of_notify_user hinv with ⟨hwhich, -⟩ | ⟨hwhich, hcalls⟩
      · exact absurd (hwhich ▸ hfor) (not_forLoaded_enter t)
      · have hloads : t.Loads := loads_of_forLoaded (hwhich ▸ hfor)
        obtain rfl := h.leaves_late hmem hpc hk ht hloads hcalls
        obtain ⟨hfst, hmodule⟩ := module_of_notify_user hinv hwhich
        obtain ⟨m, hm, -, hloaded⟩ :=
          h.module_loaded hguard ⟨rfl, hc, hpc, hk⟩ ht hloads hfst
        refine ⟨?_, m, hmodule.trans hm, hloaded⟩
        rcases hguard c k t hc hpc hk ht hloads with hok | ⟨hnot, -⟩
        · exact hok
        · exact absurd hcalls hnot

/-- A module that a task has after a step was constructed when its library was loaded. -/
theorem Attempts.stale_step (h : Attempts s) (hguard : Deserved s a) (ht : s.tasks[k]? = some t)
    (htask : TaskStep s k t a t') (hloads : t.Loads) {m : SkModule} (hm : t'.module = some m) :
    m.name = t.name ∧ m.Loaded := by
  cases htask with
  | same | stored => exact h.loadedOnly.stale k t ht hloads m hm
  | @notified i c ori hc hpc hk =>
      by_cases hsame : (t.notify_user s.loads ori).1 = t.with_module s.loads
      · obtain ⟨m', hm', hname, hloaded⟩ :=
          h.module_loaded hguard ⟨rfl, hc, hpc, hk⟩ ht hloads hsame
        rw [hsame, hm'] at hm
        obtain rfl := Option.some.inj hm
        exact ⟨hname, hloaded⟩
      · have hfst := @notify_user_fst t s.loads ori
        split_ifs at hfst
        · rw [hfst] at hm
          exact h.loadedOnly.stale k t ht hloads m hm
        · exact absurd hfst hsame
  | @callbackReturned i c ori which =>
      refine h.loadedOnly.stale k t ht hloads m ?_
      rw [← hm]
      cases which <;> rfl

/-- A flag that is set after a step was set by a leave callback for a successful attempt. -/
theorem Attempts.used_step (h : Attempts s) (hstep : Steps s a s') (ht : s.tasks[k]? = some t)
    (htask : TaskStep s k t a t') (hloads : t.Loads) (hcall : t'.is_call = true) :
    ∃ f ∈ s'.fired, f.task = k ∧ f.which = t.leave ∧ Succeeded f.orig := by
  by_cases hset : t.is_call = true
  · obtain ⟨f, hf, hrest⟩ := h.loadedOnly.used k t ht hloads hset
    exact ⟨f, hstep.fired_grow.subset hf, hrest⟩
  · cases htask with
    | same | stored => exact absurd hcall hset
    | notified =>
        rw [notify_user_is_call] at hcall
        exact absurd hcall hset
    | @callbackReturned i c ori which hc hpc hk =>
        have hmem := List.mem_of_getElem? hc
        -- only the return of a leave callback sets the flag
        rcases h.sane.inside c hmem ori which hpc k t hk ht with rfl | rfl
        · rw [notify_user_return_enter] at hcall
          exact absurd hcall hset
        · obtain ⟨f, hf, hfk, hwhich⟩ := h.inside c hmem ori _ k hpc hk
          refine ⟨f, hstep.fired_grow.subset hf, hfk, hwhich, ?_⟩
          apply h.loadedOnly.succeeded f hf
          rw [hwhich]
          exact forLoaded_leave hloads

end

theorem LoadedOnly.step {s s' : Sys} {a : Act} (h : Attempts s) (hguard : Deserved s a)
    (hstep : Steps s a s') : LoadedOnly s' := by
  constructor
  · intro f hf hfor
    rcases h.fired_new hguard hstep hf hfor with hf | hnew
    · exact h.loadedOnly.succeeded f hf hfor
    · exact hnew.1
  · intro f hf hfor
    rcases h.fired_new hguard hstep hf hfor with hf | hnew
    · exact h.loadedOnly.module f hf hfor
    · exact hnew.2
  · intro k t' ht' hloads' m hm
    rcases hstep.task_cases ht' with ⟨t, ht, htask⟩ | ⟨-, p, hp, rfl⟩
    · rw [name_of_installed htask.installed_eq]
      exact h.stale_step hguard ht htask (hloads'.of_installed htask.installed_eq.symm) hm
    · rw [h.sane.pending_module hp] at hm
      simp at hm
  · intro k t' ht' hloads' hcall
    rcases hstep.task_cases ht' with ⟨t, ht, htask⟩ | ⟨-, p, hp, rfl⟩
    · rw [leave_of_installed htask.installed_eq]
      exact h.used_step hstep ht htask (hloads'.of_installed htask.installed_eq.symm) hcall
    · rw [h.sane.pending_is_call hp] at hcall
      simp at hcall

/-- Before the original function `find_libraries_replace` notifies nobody. -/
theorem direct_step {s : Sys} {a : Act} {i : ℕ} {c d : Call}
    (hc : c.hook.type = .kTaskFind_Libraries → c.pc ≠ .notify false) (hmove : CallStep s i c a d)
    (hfind : c.hook.type = .kTaskFind_Libraries) : d.pc ≠ .notify false := by
  cases hmove with
  | same => exact hc hfind
  | looked | returned => simp
  | lookedAll =>
      unfold Call.afterLook
      rw [if_pos (Or.inr hfind)]
      simp [Call.toOriginal]
  | notified =>
      rw [Call.notified_pc]
      split
      · split_ifs <;> simp
      · simp
  | callbackReturned =>
      rw [Call.afterNotify_pc]
      split_ifs <;> simp
  | originalReturned =>
      rw [Call.afterOriginal_pc]
      split_ifs <;> simp

/-- What a successful attempt asked for is loaded when its original function returns. -/
theorem loads_returned {s s' : Sys} {i result : ℕ} {c : Call}
    (hstep : Steps s (.originalReturns i result) s') (hc : s.calls[i]? = some c) :
    s'.loads = s.loads ++ c.hook.loaded result := by
  cases hstep with
  | originalReturned hc' =>
      obtain rfl := Option.some.inj (hc.symm.trans hc')
      rfl

/-- A task whose leave callback was called keeps its module. -/
theorem Attempts.module_kept {s s' : Sys} {a : Act} (h : Attempts s) (hstep : Steps s a s')
    {f : Firing} (hf : f ∈ s.fired) {t' : SkDogeTaskInfo} (ht' : s'.tasks[f.task]? = some t')
    (hwhich : f.which = t'.leave) : t'.module ≠ none := by
  obtain ⟨u, hu, htask⟩ := hstep.task_step (List.getElem?_eq_getElem (h.sane.fired f hf))
  obtain rfl : u = t' := Option.some.inj (hu.symm.trans ht')
  rw [leave_of_installed htask.installed_eq] at hwhich
  have hne := h.module f hf _ (List.getElem?_eq_getElem (h.sane.fired f hf)) hwhich
  obtain ⟨m, hm⟩ := Option.ne_none_iff_exists'.mp hne
  rw [htask.module_stays hm]
  simp

theorem Attempts.step {s s' : Sys} {a : Act} (h : Attempts s) (hguard : Deserved s a)
    (hstep : Steps s a s') : Attempts s' := by
  constructor
  · exact h.sane.step hstep
  · intro d hd result horig n hn
    rcases hstep.mem_was hd with ⟨j, c, hc, hmove⟩ | ⟨thread, hook, -, rfl⟩
    · rw [hmove.hook] at hn
      rcases hmove.orig with heq | ⟨r, rfl, heq⟩
      · rw [heq] at horig
        exact hstep.loads_grow.subset (h.loads c (List.mem_of_getElem? hc) result horig n hn)
      · obtain rfl : r = result := Option.some.inj (heq.symm.trans horig)
        rw [loads_returned hstep hc]
        exact List.mem_append_right _ hn
    · simp [Call.start] at horig
  · intro d hd hfind
    rcases hstep.mem_was hd with ⟨j, c, hc, hmove⟩ | ⟨thread, hook, -, rfl⟩
    · rw [hmove.hook] at hfind
      exact direct_step (h.direct c (List.mem_of_getElem? hc)) hmove hfind
    · simp [Call.start]
  · intro d hd ori which k hpc hk
    rcases hstep.mem_was hd with ⟨j, c, hc, hmove⟩ | ⟨thread, hook, -, rfl⟩
    · have hmem := List.mem_of_getElem? hc
      rcases hmove.inside hpc with rfl | ⟨l, t, inv, hact, hnotify, hl, ht, hinv, rfl⟩
      · obtain ⟨f, hf, hrest⟩ := h.inside d hmem ori which k hpc hk
        exact ⟨f, hstep.fired_grow.subset hf, hrest⟩
      · obtain rfl := hmove.task_of_notify hnotify hl hk
        have hn : s.Notifies l a j c ori := ⟨hact, hc, hnotify, hl⟩
        obtain ⟨-, -, hfired⟩ := hn.spec hstep ht
        refine ⟨⟨j, l, inv.which, inv.module, c.orig⟩, ?_, rfl, rfl⟩
        rw [hfired, hinv]
        simp
    · simp [Call.start] at hpc
  · intro f hf t' ht' hwhich
    rcases hstep.fired with heq | ⟨i, c, k, t, ori, inv, rfl, hc, hpc, hk, ht, hinv, heq⟩
    · rw [heq] at hf
      exact h.module_kept hstep hf ht' hwhich
    · rw [heq] at hf
      rcases List.mem_append.mp hf with hf | hf
      · exact h.module_kept hstep hf ht' hwhich
      · -- the leave callback is called just now, with the module
        rw [List.mem_singleton.mp hf] at ht' hwhich
        have hn : s.Notifies k (.next i) i c ori := ⟨rfl, hc, hpc, hk⟩
        obtain ⟨-, htask, -⟩ := hn.spec hstep ht
        obtain rfl := Option.some.inj (htask.symm.trans ht')
        rw [leave_of_installed (notify_user_installed t s.loads ori)] at hwhich
        rw [(module_of_notify_user hinv hwhich).1, with_module_eq]
        simp
  · exact LoadedOnly.step h hguard hstep

/-- A step that leaves only loaded libraries was deserved. -/
theorem deserved_of_loadedOnly {s s' : Sys} {a : Act} (hstep : Steps s a s')
    (h : LoadedOnly s') : Deserved s a := by
  cases a with
  | next i =>
      intro c k t hc hpc hk ht hloads
      have hn : s.Notifies k (.next i) i c true := ⟨rfl, hc, hpc, hk⟩
      obtain ⟨-, htask, hfired⟩ := hn.spec hstep ht
      -- what is called must be for a success, what is constructed must be loaded
      by_cases hcalls : t.CallsLeave true
      · left
        cases hinv : (t.notify_user s.loads true).2 with
        | none => exact absurd hcalls (not_calls_of_notify_user hinv).2
        | some inv =>
            have hwhich : inv.which = t.leave := by
              rcases calls_of_notify_user hinv with ⟨-, -, hori, -⟩ | ⟨hwhich, -⟩
              · simp at hori
              · exact hwhich
            rw [hinv] at hfired
            apply h.succeeded ⟨i, k, inv.which, inv.module, c.orig⟩
            · rw [hfired]
              simp
            · rw [hwhich]
              exact forLoaded_leave hloads
      · right
        refine ⟨hcalls, ?_⟩
        by_contra hnot
        push Not at hnot
        obtain ⟨hmodule, hnone⟩ := hnot
        have hfst : (t.notify_user s.loads true).1 = t.with_module s.loads := by
          rw [notify_user_fst]
          simp
        rw [hfst] at htask
        have heq := @with_module_installed t s.loads
        have hloads' : (t.with_module s.loads).Loads := by
          unfold Loads
          rw [type_of_installed heq]
          exact hloads
        obtain ⟨-, n, hn, hname⟩ := h.stale k _ htask hloads' _ (with_module_of_none hmodule _)
        exact hnone n hn hname
  | install | push | enter | callbackReturns | originalReturns => trivial

/-- **Callbacks for loaded libraries.**  Along a run the callbacks of linker and
`find_libraries` tasks see loaded libraries only, in every state, if and only if every
notification after an original function of the run is deserved. -/
theorem loadedOnly_iff_deserved (va : Bool) (acts : List Act) :
    Runs.Always step LoadedOnly (Sys.start va) acts
      ↔ Runs.Guarded step Deserved (Sys.start va) acts := by
  apply Runs.always_iff_guarded (I := Attempts)
  · intro s h
    exact h.loadedOnly
  · intro s a s' h hguard hstep
    exact h.step hguard (steps_of_step hstep)
  · intro s a s' _ hstep h
    exact deserved_of_loadedOnly (steps_of_step hstep) h
  · exact attempts_start va

/-- A load that fails: its task's `onLeave` is called all the same. -/
theorem not_loadedOnly_failed : ¬ Runs.Always step LoadedOnly (Sys.start false)
    [.install 0 (.install_linker_cb ['a'] none (some 1) true), .push 0,
      .enter 0 (.do_dlopen_2 (some ['a'])), .next 0, .next 0, .next 0, .originalReturns 0 0,
      .next 0] := by
  intro h
  have hlast := h.run.succeeded _ List.mem_cons_self (Or.inl rfl)
  obtain ⟨result, heq, hne⟩ := hlast
  exact hne (Option.some.inj heq).symm

end WatchDog
