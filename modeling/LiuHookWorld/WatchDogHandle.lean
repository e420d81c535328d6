/-
# The handle a load returns

`do_dlopen_*_replace` keeps the handle of the original `do_dlopen` in a member of the
task, runs a callback, and returns what the member holds then.  Another load with the
same task may store its own handle in between.  A load returns the handle of its own
original if no other load stores a different one (`transparent_of_unclobbered`).
-/
import LiuHookWorld.WatchDogSteps

namespace WatchDog

open SkDogeTaskInfo

/-- The original function has returned, the call has not. -/
def Pc.Stored : Pc → Prop
  | notify is_called_ori => is_called_ori = true
  | callback is_called_ori _ => is_called_ori = true
  | ret => True
  | look _ | calling | done => False

instance : DecidablePred Pc.Stored
  | .notify is_called_ori => inferInstanceAs (Decidable (is_called_ori = true))
  | .callback is_called_ori _ => inferInstanceAs (Decidable (is_called_ori = true))
  | .ret => isTrue trivial
  | .look _ | .calling | .done => isFalse id

/-- Every finished load returned the handle that the original function returned to it. -/
def Transparent (s : Sys) : Prop :=
  ∀ c ∈ s.calls, c.hook.type = .kTaskLinker → c.pc = .done → c.value = c.orig

/-- The step does not store another handle into a task under a load that has stored its own
and not returned yet. -/
def Unclobbered (s : Sys) : Act → Prop
  | .originalReturns i result => ∀ c ∈ s.calls[i]?, c.hook.type = .kTaskLinker →
      ∀ k ∈ c.task, ∀ d ∈ s.calls, d.hook.type = .kTaskLinker → d.task = some k →
        d.pc.Stored → d.orig = some result
  | _ => True

instance (s : Sys) : DecidablePred (Unclobbered s)
  | .originalReturns i result => inferInstanceAs (Decidable (∀ c ∈ s.calls[i]?,
      c.hook.type = .kTaskLinker → ∀ k ∈ c.task, ∀ d ∈ s.calls, d.hook.type = .kTaskLinker →
        d.task = some k → d.pc.Stored → d.orig = some result))
  | .install _ _ | .push _ | .enter _ _ | .next _ | .callbackReturns _ => isTrue trivial

/-! ## The stored handle -/

@[simp] theorem notify_user_hdl (t : SkDogeTaskInfo) (loads : List Name) (is_called_ori : Bool) :
    (t.notify_user loads is_called_ori).1.hdl = t.hdl := by
  rw [notify_user_fst, with_module_eq]
  split_ifs <;> rfl

@[simp] theorem notify_user_return_hdl (t : SkDogeTaskInfo) (which : Which) :
    (t.notify_user_return which).hdl = t.hdl := by
  cases which <;> rfl

/-- A task keeps its handle, or it is the task of a load whose original just returned. -/
theorem Steps.hdl {s s' : Sys} {a : Act} (h : Steps s a s') {k : ℕ} {t : SkDogeTaskInfo}
    (ht : s.tasks[k]? = some t) : ∃ t', s'.tasks[k]? = some t' ∧ (t'.hdl = t.hdl
      ∨ ∃ i result c, a = .originalReturns i result ∧ s.calls[i]? = some c
        ∧ c.hook.type = .kTaskLinker ∧ c.task = some k ∧ t'.hdl = result) := by
  obtain ⟨t', ht', htask⟩ := h.task_step ht
  refine ⟨t', ht', ?_⟩
  cases htask with
  | same => exact Or.inl rfl
  | notified => exact Or.inl (notify_user_hdl _ _ _)
  | callbackReturned => exact Or.inl (notify_user_return_hdl _ _)
  | stored hc _ hlinker htask => exact Or.inr ⟨_, _, _, rfl, hc, hlinker, htask, rfl⟩

/-! ## The invariant -/

/-- Finished loads were transparent, and a load that has not returned yet finds its own
handle in its task. -/
structure HandlesKept (s : Sys) : Prop where
  sane : Sane s
  transparent : Transparent s
  stored : ∀ c ∈ s.calls, c.hook.type = .kTaskLinker → ∀ k, c.task = some k → c.pc.Stored →
    ∃ t, s.tasks[k]? = some t ∧ c.orig = some t.hdl

theorem handlesKept_start (va : Bool) : HandlesKept (Sys.start va) := by
  constructor
  · exact sane_start va
  · intro c hc
    simp [Sys.start] at hc
  · intro c hc
    simp [Sys.start] at hc

/-- A load that has stored its handle finds it after an unclobbered step as well. -/
theorem HandlesKept.stored_stays {s s' : Sys} {a : Act} (h : HandlesKept s)
    (hguard : Unclobbered s a) (hstep : Steps s a s') {c : Call} (hc : c ∈ s.calls)
    (hlinker : c.hook.type = .kTaskLinker) {k : ℕ} (hk : c.task = some k) (hpc : c.pc.Stored) :
    ∃ t, s'.tasks[k]? = some t ∧ c.orig = some t.hdl := by
  obtain ⟨t, ht, horig⟩ := h.stored c hc hlinker k hk hpc
  obtain ⟨t', ht', heq | ⟨i, result, d, rfl, hd, hdlinker, hdtask, heq⟩⟩ := hstep.hdl ht
  · exact ⟨t', ht', by rw [heq, horig]⟩
  · -- the one step that stores, into the task of this load: the guard speaks of it
    have := hguard d hd hdlinker k hdtask c hc hlinker hk hpc
    exact ⟨t', ht', by rw [heq, this]⟩

/-- A load that returns now, returns its own handle. -/
theorem HandlesKept.returnValue {s : Sys} (h : HandlesKept s) {c : Call} (hc : c ∈ s.calls)
    (hlinker : c.hook.type = .kTaskLinker) (hpc : c.pc = .ret) : s.returnValue c = c.orig := by
  unfold Sys.returnValue
  split
  · rfl
  · rename_i k htask
    obtain ⟨t, ht, horig⟩ := h.stored c hc hlinker k htask (by rw [hpc]; trivial)
    rw [if_pos hlinker, ht, horig]
    rfl

/-- A load that is finished after a step returned its own handle, now or before. -/
theorem HandlesKept.transparent_step {s s' : Sys} {a : Act} (h : HandlesKept s)
    (hstep : Steps s a s') : Transparent s' := by
  intro d hd hlinker hdone
  rcases hstep.mem_was hd with ⟨j, c, hc, hmove⟩ | ⟨thread, hook, -, rfl⟩
  · have hmem := List.mem_of_getElem? hc
    cases hmove with
    | same => exact h.transparent d hmem hlinker hdone
    | returned hpc => exact h.returnValue hmem hlinker hpc
    | looked => simp at hdone
    | lookedAll => rcases c.afterLook_pc with hpc | hpc <;> simp [hpc] at hdone
    | notified =>
        rw [Call.notified_pc] at hdone
        split at hdone
        · split_ifs at hdone
        · simp at hdone
    | callbackReturned =>
        rw [Call.afterNotify_pc] at hdone
        split_ifs at hdone
    | originalReturned =>
        rw [Call.afterOriginal_pc] at hdone
        split_ifs at hdone
  · simp [Call.start] at hdone

/-- A load that has not returned yet finds its own handle after an unclobbered step. -/
theorem HandlesKept.stored_step {s s' : Sys} {a : Act} (h : HandlesKept s)
    (hguard : Unclobbered s a) (hstep : Steps s a s') :
    ∀ c ∈ s'.calls, c.hook.type = .kTaskLinker → ∀ k, c.task = some k → c.pc.Stored →
      ∃ t, s'.tasks[k]? = some t ∧ c.orig = some t.hdl := by
  intro d hd hlinker k hk hstored
  rcases hstep.mem_was hd with ⟨j, c, hc, hmove⟩ | ⟨thread, hook, -, rfl⟩
  · have hmem := List.mem_of_getElem? hc
    cases hmove with
    | same => exact h.stored_stays hguard hstep hmem hlinker hk hstored
    | looked => exact hstored.elim
    | lookedAll => rcases c.afterLook_pc with hpc | hpc <;> simp [hpc, Pc.Stored] at hstored
    | @notified _ t ori hpc =>
        -- `notify_user(true)` leaves the load behind its original, `notify_user()` before it
        rw [Call.notified_hook] at hlinker
        rw [Call.notified_task] at hk
        rw [Call.notified_orig]
        refine h.stored_stays hguard hstep hmem hlinker hk ?_
        rw [Call.notified_pc] at hstored
        rw [hpc]
        split at hstored
        · split_ifs at hstored with hori
          · exact hori
          · exact hstored.elim
        · exact hstored
    | returned => exact hstored.elim
    | @callbackReturned _ ori which hpc =>
        rw [Call.afterNotify_hook] at hlinker
        rw [Call.afterNotify_task] at hk
        rw [Call.afterNotify_orig]
        refine h.stored_stays hguard hstep hmem hlinker hk ?_
        rw [Call.afterNotify_pc] at hstored
        rw [hpc]
        split_ifs at hstored with hori
        · exact hori
        · exact hstored.elim
    | originalReturned =>
        -- the load stores its handle just now
        obtain ⟨t, -, ht, -⟩ := h.sane.task c hmem k hk
        cases hstep with
        | originalReturned hc' =>
            refine ⟨_, Sys.storeHandle_getElem? ht, ?_⟩
            obtain rfl := Option.some.inj (hc.symm.trans hc')
            rw [if_pos ⟨hk, hlinker⟩]
            rfl
  · simp [Call.start] at hk

theorem HandlesKept.step {s s' : Sys} {a : Act} (h : HandlesKept s) (hguard : Unclobbered s a)
    (hstep : Steps s a s') : HandlesKept s' :=
  ⟨h.sane.step hstep, h.transparent_step hstep, h.stored_step hguard hstep⟩

/-- **Transparency of the linker hook.**  Along every run in which no load stores another
handle into a task under a load that has stored its own and not returned yet, every load
returns the handle of its own original. -/
theorem transparent_of_unclobbered (va : Bool) (acts : List Act)
    (hguard : Runs.Guarded step Unclobbered (Sys.start va) acts) :
    Runs.Always step Transparent (Sys.start va) acts := by
  have hkept : Runs.Always step HandlesKept (Sys.start va) acts := by
    apply Runs.always_of_guarded ?_ acts (handlesKept_start va) hguard
    intro s a s' h hunclobbered hstep
    exact h.step hunclobbered (steps_of_step hstep)
  exact hkept.mono fun s h => h.transparent

/-- One thread: a load whose leave callback loads the library once more and gets the same
handle. -/
theorem transparent_of_unclobbered_same_handle : Runs.Always step Transparent (Sys.start false)
    [.install 0 (.install_linker_cb ['a'] none (some 1) true), .push 0,
      .enter 0 (.do_dlopen_2 (some ['a'])), .next 0, .next 0, .next 0, .originalReturns 0 7,
      .next 0, .enter 0 (.do_dlopen_3 (some ['a'])), .next 1, .next 1, .next 1,
      .originalReturns 1 7, .next 1, .callbackReturns 1, .next 1, .callbackReturns 0,
      .next 0] :=
  transparent_of_unclobbered false _ (by decide)

/-- The same with another handle for the inner load: the outer load returns that one. -/
theorem not_transparent_nested : ¬ Runs.Always step Transparent (Sys.start false)
    [.install 0 (.install_linker_cb ['a'] none (some 1) true), .push 0,
      .enter 0 (.do_dlopen_2 (some ['a'])), .next 0, .next 0, .next 0, .originalReturns 0 7,
      .next 0, .enter 0 (.do_dlopen_3 (some ['a'])), .next 1, .next 1, .next 1,
      .originalReturns 1 8, .next 1, .callbackReturns 1, .next 1, .callbackReturns 0,
      .next 0] := by
  intro h
  have hlast := h.run
  unfold Transparent at hlast
  revert hlast
  decide

end WatchDog
