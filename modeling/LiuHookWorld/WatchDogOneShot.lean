/-
# One-shot tasks

The flag of a one-shot task is set when its leave callback has returned.  Until then
another notification calls its callbacks again: the enter callback when an earlier call
has been through its first notification, the leave callback when another call is inside
it.  A run calls every callback of a one-shot task at most once exactly when it has no such
notification (`firesOnce_iff_spaced`).
-/
import LiuHookWorld.WatchDogNotify

namespace WatchDog

open SkDogeTaskInfo

/-! ## The property and the guard -/

/-- A task of `install_init_cb` or `install_linker_cb` with `one_shot = true`. -/
def SkDogeTaskInfo.Single (t : SkDogeTaskInfo) : Prop :=
  (t.type = .kTaskInit ∨ t.type = .kTaskLinker) ∧ t.one_shot = true

/-- How often the enter, or the leave, callback of the task `k` was called. -/
def Sys.fires (s : Sys) (k : ℕ) (enter : Bool) : ℕ :=
  s.fired.countP fun f => f.task = k ∧ f.which.isEnter = enter

/-- No one-shot task had its enter callback or its leave callback called twice. -/
def FiresOnce (s : Sys) : Prop :=
  ∀ k t, s.tasks[k]? = some t → t.Single → s.fires k true ≤ 1 ∧ s.fires k false ≤ 1

/-- The call is inside a leave callback. -/
def Pc.InLeave : Pc → Prop
  | callback _ which => which.isEnter = false
  | look _ | notify _ | calling | ret | done => False

/-- A notification that does not come too soon: it calls the enter callback only if no call
with the task has been through its first notification, and the leave callback only if
no call is inside it. -/
def Spaced (s : Sys) : Act → Prop
  | .next i => ∀ c ori k t, s.calls[i]? = some c → c.pc = .notify ori → c.task = some k →
      s.tasks[k]? = some t → t.Single →
        (t.CallsEnter ori → ¬ s.InCalls k Pc.Entered)
          ∧ (t.CallsLeave ori → ¬ s.InCalls k Pc.InLeave)
  | _ => True

theorem SkDogeTaskInfo.Single.of_installed {t t' : SkDogeTaskInfo} (h : t'.installed = t.installed)
    (hsingle : t.Single) : t'.Single := by
  unfold Single
  rw [type_of_installed h, one_shot_of_installed h]
  exact hsingle

/-- A one-shot task is ready until its flag is set. -/
theorem SkDogeTaskInfo.Single.ready_iff {t : SkDogeTaskInfo} (h : t.Single) :
    t.Ready ↔ t.is_call = false :=
  ⟨fun hready => hready h.2, fun hcall _ => hcall⟩

theorem SkDogeTaskInfo.Single.ne_find {t : SkDogeTaskInfo} (h : t.Single) :
    t.type ≠ .kTaskFind_Libraries := by
  rcases h.1 with htype | htype <;> simp [htype]

/-! ## What a step changes for one task -/

/-- A callback of the task `k` returns in the step. -/
def Sys.Leaves (s : Sys) (k : ℕ) (a : Act) (i : ℕ) (c : Call) (which : Which) : Prop :=
  a = .callbackReturns i ∧ s.calls[i]? = some c ∧ (∃ is_called_ori,
    c.pc = .callback is_called_ori which) ∧ c.task = some k

section

variable {s s' : Sys} {a : Act} {k : ℕ} {t : SkDogeTaskInfo}

theorem fires_of_not_notifies (hstep : Steps s a s') (h : ∀ i c ori, ¬ s.Notifies k a i c ori)
    (enter : Bool) : s'.fires k enter = s.fires k enter := by
  unfold Sys.fires
  rcases hstep.fired with heq | ⟨i, c, j, u, ori, inv, rfl, hc, hpc, htask, -, -, heq⟩
  · rw [heq]
  · have hjk : j ≠ k := by
      rintro rfl
      exact h i c ori ⟨rfl, hc, hpc, htask⟩
    rw [heq, List.countP_append, List.countP_singleton, if_neg (by simp [hjk])]
    rfl

/-- A call stays inside a leave callback until that returns. -/
theorem inLeave_stays (hstep : Steps s a s')
    (hno : ∀ i c which, s.Leaves k a i c which → which.isEnter = true)
    (h : s.InCalls k Pc.InLeave) : s'.InCalls k Pc.InLeave := by
  obtain ⟨c, hc, hk, hin⟩ := h
  obtain ⟨i, d, hc, hd, hmove⟩ := hstep.mem_step hc
  refine ⟨d, hd, ?_⟩
  cases hmove with
  | same => exact ⟨hk, hin⟩
  | looked hpc | lookedAll hpc | notified hpc | returned hpc | originalReturned hpc =>
      rw [hpc] at hin
      exact hin.elim
  | callbackReturned hpc =>
      have henter := hno i c _ ⟨rfl, hc, ⟨_, hpc⟩, hk⟩
      rw [hpc] at hin
      exact absurd (hin.symm.trans henter) (by simp)

theorem inLeave_new (hstep : Steps s a s') (h : s'.InCalls k Pc.InLeave) :
    s.InCalls k Pc.InLeave ∨ ∃ i c ori, s.Notifies k a i c ori := by
  obtain ⟨d, hd, hk, hin⟩ := h
  rcases hstep.mem_was hd with ⟨j, c, hc, hmove⟩ | ⟨thread, hook, -, rfl⟩
  · have hmem := List.mem_of_getElem? hc
    cases hmove with
    | same => exact Or.inl ⟨_, hmem, hk, hin⟩
    | looked | returned => exact hin.elim
    | lookedAll => rcases c.afterLook_pc with hpc | hpc <;> simp [hpc, Pc.InLeave] at hin
    | notified hpc htask =>
        rw [Call.notified_task] at hk
        exact Or.inr ⟨j, c, _, rfl, hc, hpc, hk⟩
    | callbackReturned =>
        rw [Call.afterNotify_pc] at hin
        split_ifs at hin <;> exact hin.elim
    | originalReturned =>
        rw [Call.afterOriginal_pc] at hin
        split_ifs at hin <;> exact hin.elim
  · simp [Call.start] at hk

theorem Sys.Notifies.fires_none {i : ℕ} {c : Call} {ori : Bool} (h : s.Notifies k a i c ori)
    (hstep : Steps s a s') (ht : s.tasks[k]? = some t)
    (hinv : (t.notify_user s.loads ori).2 = none) (enter : Bool) :
    s'.fires k enter = s.fires k enter := by
  obtain ⟨-, -, hfired⟩ := h.spec hstep ht
  unfold Sys.fires
  rw [hfired, hinv]
  simp

theorem Sys.Notifies.fires_some {i : ℕ} {c : Call} {ori : Bool} (h : s.Notifies k a i c ori)
    (hstep : Steps s a s') (ht : s.tasks[k]? = some t) {inv : Invocation}
    (hinv : (t.notify_user s.loads ori).2 = some inv) (enter : Bool) :
    s'.fires k enter = s.fires k enter + if inv.which.isEnter = enter then 1 else 0 := by
  obtain ⟨-, -, hfired⟩ := h.spec hstep ht
  unfold Sys.fires
  rw [hfired, hinv, List.countP_append]
  simp [List.countP_singleton]

/-- The notified call is inside a leave callback exactly if it called one. -/
theorem Sys.Notifies.inLeave_iff {i : ℕ} {c : Call} {ori : Bool} (h : s.Notifies k a i c ori)
    (hstep : Steps s a s') (ht : s.tasks[k]? = some t) : s'.InCalls k Pc.InLeave
      ↔ s.InCalls k Pc.InLeave
        ∨ ∃ inv, (t.notify_user s.loads ori).2 = some inv ∧ inv.which.isEnter = false := by
  obtain ⟨hcalls, -⟩ := h.spec hstep ht
  obtain ⟨rfl, hc, hpc, hk⟩ := h
  constructor
  · rintro ⟨d, hd, hdk, hin⟩
    rw [hcalls] at hd
    rcases List.mem_or_eq_of_mem_set hd with hd | rfl
    · exact Or.inl ⟨d, hd, hdk, hin⟩
    · rw [Call.notified_pc] at hin
      split at hin
      · split_ifs at hin <;> exact hin.elim
      · rename_i inv hinv
        exact Or.inr ⟨inv, hinv, hin⟩
  · rintro (hin | ⟨inv, hinv, hleave⟩)
    · apply inLeave_stays hstep _ hin
      rintro j d which ⟨hact, -⟩
      simp at hact
    · refine ⟨c.notified ori (t.notify_user s.loads ori).2, ?_, (c.notified_task _ _).trans hk, ?_⟩
      · rw [hcalls]
        exact List.mem_set (List.getElem?_eq_some_iff.mp hc).1 _
      · rw [Call.notified_pc, hinv]
        exact hleave

end

/-! ## The invariant -/

/-- The record of a one-shot task: its callbacks were called at most once; the enter
callback was called if and only if a call has been through its first notification, the leave
callback only if the flag is set or a call is still inside it. -/
structure Once (s : Sys) (k : ℕ) (t : SkDogeTaskInfo) : Prop where
  enter_le : s.fires k true ≤ 1
  leave_le : s.fires k false ≤ 1
  entered : 0 < s.fires k true → s.InCalls k Pc.Entered
  enters : t.enter_cb ≠ none → s.InCalls k Pc.Entered → 0 < s.fires k true ∨ t.is_call = true
  left : 0 < s.fires k false → t.is_call = true ∨ s.InCalls k Pc.InLeave
  leaves : s.InCalls k Pc.InLeave → 0 < s.fires k false

structure OnceAll (s : Sys) : Prop where
  sane : Sane s
  once : ∀ k t, s.tasks[k]? = some t → t.Single → Once s k t

theorem onceAll_start (va : Bool) : OnceAll (Sys.start va) := by
  constructor
  · exact sane_start va
  · intro k t ht
    simp [Sys.start] at ht

section

variable {s s' : Sys} {a : Act} {k : ℕ} {t t' : SkDogeTaskInfo}

/-- The task of a call that is notified keeps its flag. -/
theorem Sys.Notifies.is_call {i : ℕ} {c : Call} {ori : Bool} (h : s.Notifies k a i c ori)
    (htask : TaskStep s k t a t') : t'.is_call = t.is_call := by
  obtain ⟨rfl, -⟩ := h
  cases htask with
  | same => rfl
  | notified => exact notify_user_is_call _ _

/-- After its original function a call has been through its first notification before. -/
theorem Sys.Notifies.late {i : ℕ} {c : Call} (h : s.Notifies k a i c true) :
    s.InCalls k Pc.Entered := by
  obtain ⟨-, hc, hpc, hk⟩ := h
  exact ⟨c, List.mem_of_getElem? hc, hk, by rw [hpc]; rfl⟩

section

variable {i : ℕ} {c : Call} {ori : Bool}

/-- A notification that calls nothing. -/
theorem Once.notified_none (h : Once s k t) (hsingle : t.Single) (hstep : Steps s a s')
    (ht : s.tasks[k]? = some t) (htask : TaskStep s k t a t') (hn : s.Notifies k a i c ori)
    (hinv : (t.notify_user s.loads ori).2 = none) : Once s' k t' := by
  have hcall := hn.is_call htask
  have hcb := enter_cb_of_installed htask.installed_eq
  have hnot := not_calls_of_notify_user hinv
  have hsame := hn.fires_none hstep ht hinv
  have hin : s'.InCalls k Pc.InLeave ↔ s.InCalls k Pc.InLeave := by
    rw [hn.inLeave_iff hstep ht, hinv]
    simp
  constructor
  · rw [hsame]
    exact h.enter_le
  · rw [hsame]
    exact h.leave_le
  · intro _
    exact hn.entered hstep ht
  · intro hne _
    rw [hcb] at hne
    rw [hsame, hcall]
    cases ori with
    | true => exact h.enters hne hn.late
    | false =>
        -- not called although it is there, so the flag is set
        right
        have hready : ¬ t.Ready := fun hready => hnot.1 ⟨hready, rfl, hne⟩
        rw [hsingle.ready_iff] at hready
        simpa using hready
  · rw [hsame, hcall, hin]
    exact h.left
  · rw [hsame, hin]
    exact h.leaves

/-- A notification that calls the enter callback, which was not called before. -/
theorem Once.notified_enter (h : Once s k t) (hstep : Steps s a s')
    (ht : s.tasks[k]? = some t) (htask : TaskStep s k t a t') (hn : s.Notifies k a i c ori)
    {inv : Invocation} (hinv : (t.notify_user s.loads ori).2 = some inv)
    (hwhich : inv.which = t.enter) (henter : ¬ s.InCalls k Pc.Entered) : Once s' k t' := by
  have hcall := hn.is_call htask
  have hfires := hn.fires_some hstep ht hinv
  have hzero : s.fires k true = 0 := by
    by_contra hne
    exact henter (h.entered (Nat.pos_of_ne_zero hne))
  have htrue : s'.fires k true = 1 := by
    rw [hfires, hwhich, hzero]
    simp
  have hfalse : s'.fires k false = s.fires k false := by
    rw [hfires, hwhich]
    simp
  have hin : s'.InCalls k Pc.InLeave ↔ s.InCalls k Pc.InLeave := by
    rw [hn.inLeave_iff hstep ht, hinv]
    simp [hwhich]
  constructor
  · rw [htrue]
  · rw [hfalse]
    exact h.leave_le
  · intro _
    exact hn.entered hstep ht
  · intro _ _
    left
    omega
  · rw [hfalse, hcall, hin]
    exact h.left
  · rw [hfalse, hin]
    exact h.leaves

/-- A notification that calls the leave callback, with no call inside it. -/
theorem Once.notified_leave (h : Once s k t) (hsingle : t.Single) (hstep : Steps s a s')
    (ht : s.tasks[k]? = some t) (htask : TaskStep s k t a t') (hn : s.Notifies k a i c ori)
    {inv : Invocation} (hinv : (t.notify_user s.loads ori).2 = some inv)
    (hwhich : inv.which = t.leave) (hcalls : t.CallsLeave ori)
    (hleave : ¬ s.InCalls k Pc.InLeave) : Once s' k t' := by
  have hcall := hn.is_call htask
  have hcb := enter_cb_of_installed htask.installed_eq
  have hfires := hn.fires_some hstep ht hinv
  have hready := hsingle.ready_iff.mp hcalls.1
  -- called before, it would have set the flag or a call would still be inside it
  have hzero : s.fires k false = 0 := by
    by_contra hne
    rcases h.left (Nat.pos_of_ne_zero hne) with hset | hin
    · rw [hready] at hset
      simp at hset
    · exact hleave hin
  have htrue : s'.fires k true = s.fires k true := by
    rw [hfires, hwhich]
    simp
  have hfalse : s'.fires k false = 1 := by
    rw [hfires, hwhich, hzero]
    simp
  have hin : s'.InCalls k Pc.InLeave := by
    rw [hn.inLeave_iff hstep ht]
    exact Or.inr ⟨inv, hinv, by rw [hwhich]; exact isEnter_leave⟩
  constructor
  · rw [htrue]
    exact h.enter_le
  · rw [hfalse]
  · intro _
    exact hn.entered hstep ht
  · intro hne _
    rw [hcb] at hne
    rw [htrue, hcall]
    -- the late notification finds the enter callback called; the early one has none to call
    rcases hcalls.2.2 with rfl | hnone
    · exact h.enters hne hn.late
    · exact absurd hnone.1 hne
  · intro _
    exact Or.inr hin
  · intro _
    omega

theorem Once.notified (h : Once s k t) (hsingle : t.Single) (hstep : Steps s a s')
    (ht : s.tasks[k]? = some t) (htask : TaskStep s k t a t') (hn : s.Notifies k a i c ori)
    (henter : t.CallsEnter ori → ¬ s.InCalls k Pc.Entered)
    (hleave : t.CallsLeave ori → ¬ s.InCalls k Pc.InLeave) : Once s' k t' := by
  cases hinv : (t.notify_user s.loads ori).2 with
  | none => exact h.notified_none hsingle hstep ht htask hn hinv
  | some inv =>
      rcases calls_of_notify_user hinv with ⟨hwhich, hcalls⟩ | ⟨hwhich, hcalls⟩
      · exact h.notified_enter hstep ht htask hn hinv hwhich (henter hcalls)
      · exact h.notified_leave hsingle hstep ht htask hn hinv hwhich hcalls (hleave hcalls)

end

/-- A flag is never cleared. -/
theorem TaskStep.is_call_mono (h : TaskStep s k t a t') (hset : t.is_call = true) :
    t'.is_call = true := by
  cases h with
  | same => exact hset
  | notified => rwa [notify_user_is_call]
  | @callbackReturned i c ori which =>
      unfold is_call at hset ⊢
      cases which <;> cases htype : t.type <;> simp_all [notify_user_return]
  | stored => exact hset

/-- When a leave callback of the task returns, the flag is set. -/
theorem Sys.Leaves.is_call (hsane : Sane s) (hstep : Steps s a s') (ht : s.tasks[k]? = some t)
    (ht' : s'.tasks[k]? = some t') {i : ℕ} {c : Call} {which : Which}
    (h : s.Leaves k a i c which) (hleave : which.isEnter = false) : t'.is_call = true := by
  obtain ⟨rfl, hc, ⟨ori, hpc⟩, hk⟩ := h
  cases hstep with
  | callbackReturned hc' _ hpc' hk' =>
      obtain rfl := Option.some.inj (hc.symm.trans hc')
      obtain rfl := Option.some.inj (hk.symm.trans hk')
      obtain ⟨-, rfl⟩ := Pc.callback.inj (hpc.symm.trans hpc')
      have htask : t' = t.notify_user_return which := by
        have hmodify : (s.tasks.modify k (·.notify_user_return which))[k]? = some t' := ht'
        rw [List.getElem?_modify_eq, ht] at hmodify
        exact (Option.some.inj hmodify).symm
      rcases hsane.inside c (List.mem_of_getElem? hc) ori which hpc k t hk ht with rfl | rfl
      · rw [isEnter_enter] at hleave
        simp at hleave
      · rw [htask]
        exact notify_user_return_leave

theorem Once.of_not_notifies (h : Once s k t) (hsane : Sane s) (hsingle : t.Single)
    (hstep : Steps s a s') (ht : s.tasks[k]? = some t) (ht' : s'.tasks[k]? = some t')
    (htask : TaskStep s k t a t') (hno : ∀ i c ori, ¬ s.Notifies k a i c ori) : Once s' k t' := by
  have hfires := fires_of_not_notifies hstep hno
  have hcb := enter_cb_of_installed htask.installed_eq
  have hentered : s'.InCalls k Pc.Entered → s.InCalls k Pc.Entered := by
    intro hin
    rcases entered_new hsane hstep ht hsingle.ne_find hin with hin | ⟨i, c, ori, hn⟩
    · exact hin
    · exact absurd hn (hno i c ori)
  have hinLeave : s'.InCalls k Pc.InLeave → s.InCalls k Pc.InLeave := by
    intro hin
    rcases inLeave_new hstep hin with hin | ⟨i, c, ori, hn⟩
    · exact hin
    · exact absurd hn (hno i c ori)
  constructor
  · rw [hfires]
    exact h.enter_le
  · rw [hfires]
    exact h.leave_le
  · rw [hfires]
    intro hpos
    exact entered_stays hstep (h.entered hpos)
  · intro hne hin
    rw [hcb] at hne
    rw [hfires]
    exact (h.enters hne (hentered hin)).imp_right htask.is_call_mono
  · intro hpos
    rw [hfires] at hpos
    rcases h.left hpos with hset | hin
    · exact Or.inl (htask.is_call_mono hset)
    -- the call that is inside stays there, or it leaves and sets the flag
    · by_cases hleaves : ∃ i c which, s.Leaves k a i c which ∧ which.isEnter = false
      · obtain ⟨i, c, which, hl, hleave⟩ := hleaves
        exact Or.inl (hl.is_call hsane hstep ht ht' hleave)
      · right
        apply inLeave_stays hstep _ hin
        intro i c which hl
        by_contra henter
        exact hleaves ⟨i, c, which, hl, by simpa using henter⟩
  · intro hin
    rw [hfires]
    exact h.leaves (hinLeave hin)

/-- Nothing has happened to a task that is not there yet. -/
theorem Once.fresh (hsane : Sane s) (hstep : Steps s a s') (hk : k = s.tasks.length)
    (hfired : s'.fired = s.fired) (t : SkDogeTaskInfo) : Once s' k t := by
  have hfires : ∀ enter, s'.fires k enter = 0 := by
    intro enter
    unfold Sys.fires
    rw [hfired, List.countP_eq_zero]
    intro f hf
    have hlt := hsane.fired f hf
    have hne : f.task ≠ k := by omega
    simp [hne]
  have hnone : ∀ place, ¬ s'.InCalls k place := by
    rintro place ⟨d, hd, htask, -⟩
    rw [hk] at htask
    exact hsane.task_ne_new hstep hd htask
  constructor
  · rw [hfires]
    exact Nat.zero_le 1
  · rw [hfires]
    exact Nat.zero_le 1
  · rw [hfires]
    intro hpos
    omega
  · intro _ hin
    exact absurd hin (hnone _)
  · rw [hfires]
    intro hpos
    omega
  · intro hin
    exact absurd hin (hnone _)

end

theorem OnceAll.step {s s' : Sys} {a : Act} (h : OnceAll s) (hguard : Spaced s a)
    (hstep : Steps s a s') : OnceAll s' := by
  constructor
  · exact h.sane.step hstep
  · intro k t' ht' hsingle'
    rcases hstep.task_cases ht' with ⟨t, ht, htask⟩ | ⟨hk, p, hp, rfl⟩
    · have hsingle := hsingle'.of_installed htask.installed_eq.symm
      by_cases hn : ∃ i c ori, s.Notifies k a i c ori
      · obtain ⟨i, c, ori, hn⟩ := hn
        obtain ⟨rfl, hc, hpc, hkc⟩ := id hn
        have hspaced := hguard c ori k t hc hpc hkc ht hsingle
        exact (h.once k t ht hsingle).notified hsingle hstep ht htask hn hspaced.1 hspaced.2
      · push Not at hn
        exact (h.once k t ht hsingle).of_not_notifies h.sane hsingle hstep ht ht' htask hn
    · -- the task was inserted just now
      rcases hstep.tasks_installed with hmap | ⟨j, q, rfl, hq, -⟩
      · have hlength := congrArg List.length hmap
        rw [List.length_map, List.length_map] at hlength
        have := (List.getElem?_eq_some_iff.mp ht').1
        omega
      · have hfired : s'.fired = s.fired := by
          cases hstep
          rfl
        exact Once.fresh h.sane hstep hk hfired _

/-- A step after which nothing was called twice was spaced. -/
theorem spaced_of_firesOnce {s s' : Sys} {a : Act} (h : OnceAll s) (hstep : Steps s a s')
    (hfires : FiresOnce s') : Spaced s a := by
  cases a with
  | next i =>
      intro c ori k t hc hpc hk ht hsingle
      have hn : s.Notifies k (.next i) i c ori := ⟨rfl, hc, hpc, hk⟩
      obtain ⟨t', ht', heq⟩ := hstep.task_stays ht
      obtain ⟨htrue, hfalse⟩ := hfires k t' ht' (hsingle.of_installed heq)
      have honce := h.once k t ht hsingle
      cases hinv : (t.notify_user s.loads ori).2 with
      | none =>
          have hnot := not_calls_of_notify_user hinv
          exact ⟨fun hcalls => absurd hcalls hnot.1, fun hcalls => absurd hcalls hnot.2⟩
      | some inv =>
          rw [hn.fires_some hstep ht hinv] at htrue hfalse
          constructor
          · intro hcalls hin
            have hwhich : inv.which = t.enter := by
              rcases calls_of_notify_user hinv with ⟨hwhich, -⟩ | ⟨-, -, -, hwhen⟩
              · exact hwhich
              · rw [hcalls.2.1] at hwhen
                rcases hwhen with hwhen | hwhen
                · simp at hwhen
                · exact absurd hwhen.1 hcalls.2.2
            rw [hwhich, isEnter_enter, if_pos rfl] at htrue
            -- it was called before, or the flag is set and the task not ready
            rcases honce.enters hcalls.2.2 hin with hpos | hset
            · omega
            · rw [hsingle.ready_iff.mp hcalls.1] at hset
              simp at hset
          · intro hcalls hin
            have hwhich : inv.which = t.leave := by
              rcases calls_of_notify_user hinv with ⟨-, -, hori, hne⟩ | ⟨hwhich, -⟩
              · rcases hcalls.2.2 with hwhen | hwhen
                · rw [hori] at hwhen
                  simp at hwhen
                · exact absurd hwhen.1 hne
              · exact hwhich
            rw [hwhich, isEnter_leave, if_pos rfl] at hfalse
            have hpos := honce.leaves hin
            omega
  | install | push | enter | callbackReturns | originalReturns => trivial

/-- **One-shot tasks.**  Along a run every one-shot task has its enter callback and its leave
callback called at most once in every state if and only if every notification of the
run is spaced. -/
theorem firesOnce_iff_spaced (va : Bool) (acts : List Act) :
    Runs.Always step FiresOnce (Sys.start va) acts
      ↔ Runs.Guarded step Spaced (Sys.start va) acts := by
  apply Runs.always_iff_guarded (I := OnceAll)
  · intro s h k t ht hsingle
    exact ⟨(h.once k t ht hsingle).enter_le, (h.once k t ht hsingle).leave_le⟩
  · intro s a s' h hguard hstep
    exact h.step hguard (steps_of_step hstep)
  · intro s a s' h hstep hfires
    exact spaced_of_firesOnce h (steps_of_step hstep) hfires
  · exact onceAll_start va

/-- Two loads, one after the other, for a one-shot task without a leave callback: no flag is
ever set. -/
theorem not_firesOnce_no_leave : ¬ Runs.Always step FiresOnce (Sys.start false)
    [.install 0 (.install_linker_cb ['a'] (some 1) none true), .push 0,
      .enter 0 (.do_dlopen_2 (some ['a'])), .next 0, .next 0, .next 0, .callbackReturns 0,
      .originalReturns 0 7, .next 0, .next 0,
      .enter 0 (.do_dlopen_2 (some ['a'])), .next 1, .next 1, .next 1] := by
  intro h
  have hlast := (h.run 0 _ rfl ⟨Or.inr rfl, rfl⟩).1
  revert hlast
  decide

end WatchDog
