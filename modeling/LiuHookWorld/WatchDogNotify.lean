/-
# Notifications of a task

What the invariants about single tasks have in common: which calls have been through their
first notification, and what a notification does.
-/
import LiuHookWorld.WatchDogSteps

namespace WatchDog

open SkDogeTaskInfo

/-- The call has been through its first notification. -/
def Pc.Entered : Pc → Prop
  | look _ => False
  | notify is_called_ori => is_called_ori = true
  | callback _ _ | calling | ret | done => True

/-- Some call with the task `k` is in such a place. -/
def Sys.InCalls (s : Sys) (k : ℕ) (place : Pc → Prop) : Prop :=
  ∃ c ∈ s.calls, c.task = some k ∧ place c.pc

/-- The step is a notification of the task `k`. -/
def Sys.Notifies (s : Sys) (k : ℕ) (a : Act) (i : ℕ) (c : Call) (is_called_ori : Bool) : Prop :=
  a = .next i ∧ s.calls[i]? = some c ∧ c.pc = .notify is_called_ori ∧ c.task = some k

section

variable {s s' : Sys} {a : Act} {k : ℕ} {t t' : SkDogeTaskInfo}

/-- A call that has been through its first notification keeps its task. -/
theorem entered_stays (hstep : Steps s a s') (h : s.InCalls k Pc.Entered) :
    s'.InCalls k Pc.Entered := by
  obtain ⟨c, hc, hk, hentered⟩ := h
  obtain ⟨i, d, hc, hd, hmove⟩ := hstep.mem_step hc
  refine ⟨d, hd, ?_⟩
  cases hmove with
  | same => exact ⟨hk, hentered⟩
  | looked hpc | lookedAll hpc =>
      rw [hpc] at hentered
      exact hentered.elim
  | @notified _ u ori hpc =>
      refine ⟨(c.notified_task _ _).trans hk, ?_⟩
      rw [Call.notified_pc]
      split
      · split_ifs <;> trivial
      · trivial
  | returned | originalReturned => exact ⟨hk, by simp [Pc.Entered] <;> split_ifs <;> trivial⟩
  | @callbackReturned _ ori =>
      refine ⟨(c.afterNotify_task ori).trans hk, ?_⟩
      rw [Call.afterNotify_pc]
      split_ifs <;> trivial

/-- Before the original function only a notification takes a call through its first one. -/
theorem entered_new (hsane : Sane s) (hstep : Steps s a s') (ht : s.tasks[k]? = some t)
    (htype : t.type ≠ .kTaskFind_Libraries) (h : s'.InCalls k Pc.Entered) :
    s.InCalls k Pc.Entered ∨ ∃ i c ori, s.Notifies k a i c ori := by
  obtain ⟨d, hd, hk, hentered⟩ := h
  rcases hstep.mem_was hd with ⟨j, c, hc, hmove⟩ | ⟨thread, hook, -, rfl⟩
  · have hmem := List.mem_of_getElem? hc
    cases hmove with
    | same => exact Or.inl ⟨_, hmem, hk, hentered⟩
    | looked => exact hentered.elim
    | lookedAll hpc =>
        -- a task of another hook than `find_libraries` is notified first
        rw [Call.afterLook_task] at hk
        have hfind : ¬ (c.task = none ∨ c.hook.type = .kTaskFind_Libraries) := by
          rw [hk, ← hsane.type hmem hk ht]
          simp [htype]
        unfold Call.afterLook at hentered
        rw [if_neg hfind] at hentered
        simp [Pc.Entered] at hentered
    | notified hpc htask =>
        rw [Call.notified_task] at hk
        exact Or.inr ⟨j, c, _, rfl, hc, hpc, hk⟩
    | returned hpc => exact Or.inl ⟨c, hmem, hk, by rw [hpc]; trivial⟩
    | callbackReturned hpc =>
        rw [Call.afterNotify_task] at hk
        exact Or.inl ⟨c, hmem, hk, by rw [hpc]; trivial⟩
    | originalReturned hpc => exact Or.inl ⟨c, hmem, hk, by rw [hpc]; trivial⟩
  · simp [Call.start] at hk

/-- A notification of the task: its call moves on, the task is notified, and what it calls
is recorded. -/
theorem Sys.Notifies.spec {i : ℕ} {c : Call} {ori : Bool} (h : s.Notifies k a i c ori)
    (hstep : Steps s a s') (ht : s.tasks[k]? = some t) :
    s'.calls = s.calls.set i (c.notified ori (t.notify_user s.loads ori).2)
      ∧ s'.tasks[k]? = some (t.notify_user s.loads ori).1
      ∧ s'.fired = s.fired ++ ((t.notify_user s.loads ori).2.map fun inv =>
        ⟨i, k, inv.which, inv.module, c.orig⟩).toList := by
  obtain ⟨rfl, hc, hpc, hk⟩ := h
  cases hstep with
  | looked hc' _ hpc' | lookedAll hc' _ hpc' | returned hc' _ hpc' =>
      obtain rfl := Option.some.inj (hc.symm.trans hc')
      rw [hpc] at hpc'
      simp at hpc'
  | notified hc' _ hpc' hk' ht' =>
      obtain rfl := Option.some.inj (hc.symm.trans hc')
      obtain rfl := Pc.notify.inj (hpc.symm.trans hpc')
      obtain rfl := Option.some.inj (hk.symm.trans hk')
      obtain rfl := Option.some.inj (ht.symm.trans ht')
      refine ⟨rfl, ?_, rfl⟩
      rw [Sys.notify_tasks, List.getElem?_set, if_pos rfl,
        if_pos (List.getElem?_eq_some_iff.mp ht).1]

/-- The notified call has been through its first notification. -/
theorem Sys.Notifies.entered {i : ℕ} {c : Call} {ori : Bool} (h : s.Notifies k a i c ori)
    (hstep : Steps s a s') (ht : s.tasks[k]? = some t) : s'.InCalls k Pc.Entered := by
  obtain ⟨hcalls, -⟩ := h.spec hstep ht
  obtain ⟨-, hc, -, hk⟩ := h
  refine ⟨c.notified ori (t.notify_user s.loads ori).2, ?_, (c.notified_task _ _).trans hk, ?_⟩
  · rw [hcalls]
    exact List.mem_set (List.getElem?_eq_some_iff.mp hc).1 _
  · rw [Call.notified_pc]
    split
    · split_ifs <;> trivial
    · trivial

end

end WatchDog
