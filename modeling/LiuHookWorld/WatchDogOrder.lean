/-
# Enter and leave around `call_array`

The enter callback of an init task belongs before the original `call_array`, its leave
callback after it.  `notify_user` before the original function falls through to the leave
callback of an init task that has no enter callback; for the other init tasks every
invocation is in order (`ordered_iff`).
-/
import LiuHookWorld.WatchDogNotify

namespace WatchDog

open SkDogeTaskInfo

/-! ## Order -/

/-- In one invocation: `onInitEnter` only before the original is called, `onInitLeave` only
after it has returned, each at most once. -/
def Ordered (trace : List Event) : Prop :=
  .invoked .onInitEnter ∉ trace.dropWhile (· ≠ .called)
    ∧ .invoked .onInitLeave ∉ trace.takeWhile (· ≠ .returned)
    ∧ trace.count (.invoked .onInitEnter) ≤ 1 ∧ trace.count (.invoked .onInitLeave) ≤ 1

instance (trace : List Event) : Decidable (Ordered trace) :=
  inferInstanceAs (Decidable (_ ∧ _))

/-- What an invocation in order has done when it is at `pc`. -/
def InOrder (trace : List Event) : Pc → Prop
  | .look _ | .notify false => trace = []
  | .callback false _ => trace = [.invoked .onInitEnter]
  | .calling => trace = [.called] ∨ trace = [.invoked .onInitEnter, .called]
  | .notify true => trace = [.called, .returned]
      ∨ trace = [.invoked .onInitEnter, .called, .returned]
  | .callback true _ => trace = [.called, .returned, .invoked .onInitLeave]
      ∨ trace = [.invoked .onInitEnter, .called, .returned, .invoked .onInitLeave]
  | .ret | .done => trace = [.called, .returned]
      ∨ trace = [.invoked .onInitEnter, .called, .returned]
      ∨ trace = [.called, .returned, .invoked .onInitLeave]
      ∨ trace = [.invoked .onInitEnter, .called, .returned, .invoked .onInitLeave]

theorem ordered_of_inOrder {trace : List Event} {pc : Pc} (h : InOrder trace pc) :
    Ordered trace := by
  unfold InOrder at h
  split at h
  · rw [h]; decide
  · rw [h]; decide
  · rw [h]; decide
  · rcases h with h | h <;> rw [h] <;> decide
  · rcases h with h | h <;> rw [h] <;> decide
  · rcases h with h | h <;> rw [h] <;> decide
  · rcases h with h | h | h | h <;> rw [h] <;> decide
  · rcases h with h | h | h | h <;> rw [h] <;> decide

/-! ## Traces -/

/-- A trace only grows. -/
theorem CallStep.trace {s : Sys} {i : ℕ} {c d : Call} {a : Act} (h : CallStep s i c a d) :
    c.trace <+: d.trace := by
  cases h with
  | same | looked | returned => exact List.prefix_rfl
  | lookedAll =>
      unfold Call.afterLook
      split_ifs
      · exact List.prefix_append _ _
      · exact List.prefix_rfl
  | notified =>
      rw [Call.notified_trace]
      split
      · split_ifs
        · exact List.prefix_rfl
        · exact List.prefix_append _ _
      · exact List.prefix_append _ _
  | callbackReturned =>
      rw [Call.afterNotify_trace]
      split_ifs
      · exact List.prefix_rfl
      · exact List.prefix_append _ _
  | originalReturned => exact List.prefix_append _ _

/-- A leave callback that came too early stays one. -/
theorem early_of_initial {trace trace' : List Event} (h : trace <+: trace') {e : Event}
    (he : e ∈ trace.takeWhile (· ≠ .returned)) : e ∈ trace'.takeWhile (· ≠ .returned) := by
  obtain ⟨more, rfl⟩ := h
  induction trace with
  | nil => simp at he
  | cons f trace ih =>
      rw [List.cons_append]
      rw [List.takeWhile_cons] at he ⊢
      split_ifs at he ⊢ with hf
      · rcases List.mem_cons.mp he with rfl | he
        · exact List.mem_cons_self
        · exact List.mem_cons_of_mem f (ih he)
      · simp at he

/-! ## The invariant -/

/-- The leave callback of the task is called before the original function. -/
def SkDogeTaskInfo.LeavesEarly (t : SkDogeTaskInfo) : Prop :=
  t.onInitEnter = none ∧ t.onInitLeave ≠ none

theorem SkDogeTaskInfo.LeavesEarly.of_installed {t t' : SkDogeTaskInfo}
    (h : t'.installed = t.installed) (hearly : t.LeavesEarly) : t'.LeavesEarly := by
  have henter := callback_of_installed h .onInitEnter
  have hleave := callback_of_installed h .onInitLeave
  exact ⟨henter.trans hearly.1, fun hnone => hearly.2 (hleave.symm.trans hnone)⟩

/-- The leave callback was called before the original function had returned. -/
def LeftEarly (s : Sys) (k : ℕ) : Prop :=
  ∃ c ∈ s.calls, c.task = some k ∧ .invoked .onInitLeave ∈ c.trace.takeWhile (· ≠ .returned)

/-- A call before its first notification has done nothing; an invocation for an init task
that has an enter callback or no leave callback is in order; and of any other init task the
first invocation to be notified was not. -/
structure Tracked (s : Sys) : Prop where
  sane : Sane s
  fresh : ∀ c ∈ s.calls, ¬ c.pc.Entered → c.trace = []
  inOrder : ∀ c ∈ s.calls, ∀ k t, c.task = some k → s.tasks[k]? = some t →
    t.type = .kTaskInit → ¬ t.LeavesEarly → InOrder c.trace c.pc
  early : ∀ k t, s.tasks[k]? = some t → t.type = .kTaskInit → t.LeavesEarly →
    s.InCalls k Pc.Entered ∨ t.is_call = true → LeftEarly s k

theorem tracked_start (va : Bool) : Tracked (Sys.start va) := by
  constructor
  · exact sane_start va
  · intro c hc
    simp [Sys.start] at hc
  · intro c hc
    simp [Sys.start] at hc
  · intro k t ht
    simp [Sys.start] at ht

section

variable {s s' : Sys} {a : Act} {i k : ℕ} {c d : Call} {t t' : SkDogeTaskInfo}

/-- An init task's call goes from its lookups to its notification. -/
theorem afterLook_of_init (hinit : c.hook.type = .kTaskInit) (hk : c.task = some k) :
    c.afterLook = { c with pc := .notify false } := by
  unfold Call.afterLook
  rw [if_neg (by simp [hinit, hk])]

theorem enter_of_init (hinit : t.type = .kTaskInit) :
    t.enter = .onInitEnter ∧ t.enter_cb = t.onInitEnter ∧ t.leave = .onInitLeave
      ∧ t.leave_cb = t.onInitLeave := by
  unfold leave_cb leave enter enter_cb
  rw [hinit]
  exact ⟨rfl, rfl, rfl, rfl⟩

/-- A call before its first notification does nothing. -/
theorem fresh_step (hc : ¬ c.pc.Entered → c.trace = []) (hmove : CallStep s i c a d)
    (hd : ¬ d.pc.Entered) : d.trace = [] := by
  cases hmove with
  | same => exact hc hd
  | looked hpc => exact hc (by rw [hpc]; exact id)
  | lookedAll hpc =>
      unfold Call.afterLook at hd ⊢
      split_ifs at hd ⊢
      · exact absurd trivial hd
      · exact hc (by rw [hpc]; exact id)
  | notified =>
      rw [Call.notified_pc] at hd
      split at hd
      · split_ifs at hd <;> exact absurd trivial hd
      · exact absurd trivial hd
  | returned => exact absurd trivial hd
  | callbackReturned =>
      rw [Call.afterNotify_pc] at hd
      split_ifs at hd <;> exact absurd trivial hd
  | originalReturned =>
      rw [Call.afterOriginal_pc] at hd
      split_ifs at hd
      · exact absurd trivial hd
      · exact absurd rfl hd

/-- A notification keeps an invocation in order. -/
theorem inOrder_notified {ori : Bool} (hc : InOrder c.trace (.notify ori))
    (hinit : t.type = .kTaskInit) (hearly : ¬ t.LeavesEarly) (loads : List Name) :
    InOrder (c.notified ori (t.notify_user loads ori).2).trace
      (c.notified ori (t.notify_user loads ori).2).pc := by
  obtain ⟨henter, hentercb, hleave, hleavecb⟩ := enter_of_init hinit
  rw [Call.notified_trace, Call.notified_pc]
  cases hinv : (t.notify_user loads ori).2 with
  | none =>
      cases ori with
      | false =>
          have hc : c.trace = [] := hc
          left
          simp [hc]
      | true =>
          rcases hc with hc | hc
          · exact Or.inl hc
          · exact Or.inr (Or.inl hc)
  | some inv =>
      rcases calls_of_notify_user hinv with ⟨hwhich, -, rfl, -⟩ | ⟨hwhich, -, hne, hwhen⟩
      · have hc : c.trace = [] := hc
        show c.trace ++ [.invoked inv.which] = _
        rw [hc, hwhich, henter]
        rfl
      · rcases hwhen with rfl | ⟨hnone, -⟩
        · show c.trace ++ [.invoked inv.which] = _ ∨ c.trace ++ [.invoked inv.which] = _
          rw [hwhich, hleave]
          rcases hc with hc | hc
          · left
            simp [hc]
          · right
            simp [hc]
        · -- without an enter callback there is no leave callback either
          rw [hentercb] at hnone
          rw [hleavecb] at hne
          exact absurd ⟨hnone, hne⟩ hearly

/-- The moves of an invocation keep it in order. -/
theorem inOrder_step (hfresh : ¬ c.pc.Entered → c.trace = [])
    (hc : c.task = some k → InOrder c.trace c.pc) (hmove : CallStep s i c a d)
    (hk : d.task = some k) (ht : s.tasks[k]? = some t) (hinit : t.type = .kTaskInit)
    (hhook : c.hook.type = .kTaskInit) (hearly : ¬ t.LeavesEarly) : InOrder d.trace d.pc := by
  cases hmove with
  | same => exact hc hk
  | looked hpc => exact hfresh (by rw [hpc]; exact id)
  | lookedAll hpc =>
      rw [Call.afterLook_task] at hk
      rw [afterLook_of_init hhook hk]
      exact hfresh (by rw [hpc]; exact id)
  | @notified j u ori hpc hj hu =>
      rw [Call.notified_task] at hk
      obtain rfl : j = k := Option.some.inj (hj.symm.trans hk)
      obtain rfl : u = t := Option.some.inj (hu.symm.trans ht)
      have hc := hc hk
      rw [hpc] at hc
      exact inOrder_notified hc hinit hearly s.loads
  | returned hpc =>
      have hc := hc hk
      rw [hpc] at hc
      exact hc
  | @callbackReturned j ori which hpc =>
      rw [Call.afterNotify_task] at hk
      have hc := hc hk
      rw [hpc] at hc
      rw [Call.afterNotify_trace, Call.afterNotify_pc]
      cases ori with
      | false =>
          have hc : c.trace = [.invoked .onInitEnter] := hc
          right
          simp [hc]
      | true =>
          rcases hc with hc | hc
          · exact Or.inr (Or.inr (Or.inl hc))
          · exact Or.inr (Or.inr (Or.inr hc))
  | @originalReturned result hpc =>
      have htask : c.task = some k := hk
      have hc := hc htask
      rw [hpc] at hc
      rw [Call.afterOriginal_pc, if_neg (by simp [htask])]
      show c.trace ++ [.returned] = _ ∨ c.trace ++ [.returned] = _
      rcases hc with hc | hc
      · left
        simp [hc]
      · right
        simp [hc]

/-- A leave callback that was too early stays on record. -/
theorem LeftEarly.step (hfresh : ∀ c ∈ s.calls, ¬ c.pc.Entered → c.trace = [])
    (hstep : Steps s a s') (h : LeftEarly s k) : LeftEarly s' k := by
  obtain ⟨c, hc, hk, hearly⟩ := h
  obtain ⟨i, hi⟩ := List.getElem?_of_mem hc
  obtain ⟨d, hd, hmove⟩ := hstep.call_step hi
  refine ⟨d, List.mem_of_getElem? hd, ?_, early_of_initial hmove.trace hearly⟩
  rcases hmove.task with htask | ⟨name, rest, hpc, -⟩
  · rw [htask, hk]
  -- a call that still looks up names has an empty trace
  · rw [hfresh c hc (by rw [hpc]; exact id)] at hearly
    simp at hearly

/-- The first notification of an init task without an enter callback calls the leave callback. -/
theorem Sys.Notifies.leftEarly (hfresh : ∀ c ∈ s.calls, ¬ c.pc.Entered → c.trace = [])
    (h : s.Notifies k a i c false) (hstep : Steps s a s') (ht : s.tasks[k]? = some t)
    (hinit : t.type = .kTaskInit) (hearly : t.LeavesEarly) (hcall : t.is_call = false) :
    LeftEarly s' k := by
  obtain ⟨henter, hentercb, hleave, hleavecb⟩ := enter_of_init hinit
  -- the fall-through of the source: no enter callback to stop at
  have hcalls : t.CallsLeave false := by
    refine ⟨fun _ => hcall, ?_, Or.inr ⟨?_, ?_⟩⟩
    · rw [hleavecb]
      exact hearly.2
    · rw [hentercb]
      exact hearly.1
    · simp [hinit]
  obtain ⟨hset, -⟩ := h.spec hstep ht
  obtain ⟨-, hc, hpc, hk⟩ := h
  have htrace := hfresh c (List.mem_of_getElem? hc) (by rw [hpc]; simp [Pc.Entered])
  cases hinv : (t.notify_user s.loads false).2 with
  | none => exact absurd hcalls (not_calls_of_notify_user hinv).2
  | some inv =>
      have hwhich : inv.which = .onInitLeave := by
        rcases calls_of_notify_user hinv with ⟨-, -, -, hne⟩ | ⟨hwhich, -⟩
        · rw [hentercb] at hne
          exact absurd hearly.1 hne
        · rw [hwhich, hleave]
      refine ⟨c.notified false (t.notify_user s.loads false).2, ?_,
        (c.notified_task _ _).trans hk, ?_⟩
      · rw [hset]
        exact List.mem_set (List.getElem?_eq_some_iff.mp hc).1 _
      · rw [Call.notified_trace, hinv]
        show _ ∈ (c.trace ++ [Event.invoked inv.which]).takeWhile _
        rw [htrace, hwhich]
        decide

/-- The flag of a task that no call has been notified of is not set in a step. -/
theorem is_call_of_not_entered (htask : TaskStep s k t a t') (hnone : ¬ s.InCalls k Pc.Entered)
    (hcall : t.is_call = false) : t'.is_call = false := by
  cases htask with
  | same => exact hcall
  | notified => rwa [notify_user_is_call]
  | callbackReturned hc hpc hk =>
      exact absurd ⟨_, List.mem_of_getElem? hc, hk, by rw [hpc]; trivial⟩ hnone
  | stored => exact hcall

end

/-- A task that came under way in a step did so in its first notification. -/
theorem Tracked.early_step {s s' : Sys} {a : Act} {k : ℕ} {t t' : SkDogeTaskInfo}
    (h : Tracked s) (hstep : Steps s a s') (ht : s.tasks[k]? = some t)
    (htask : TaskStep s k t a t') (hinit : t.type = .kTaskInit) (hearly : t.LeavesEarly)
    (hwhen : s'.InCalls k Pc.Entered ∨ t'.is_call = true) : LeftEarly s' k := by
  by_cases hbefore : s.InCalls k Pc.Entered ∨ t.is_call = true
  · exact (h.early k t ht hinit hearly hbefore).step h.fresh hstep
  · push Not at hbefore
    have hcall : t.is_call = false := by simpa using hbefore.2
    have hnew := is_call_of_not_entered htask hbefore.1 hcall
    rcases hwhen with hwhen | hwhen
    · rcases entered_new h.sane hstep ht (by simp [hinit]) hwhen with hin | ⟨i, c, ori, hn⟩
      · exact absurd hin hbefore.1
      · cases ori with
        | false => exact hn.leftEarly h.fresh hstep ht hinit hearly hcall
        | true =>
            -- behind its original function a call was under way before
            obtain ⟨-, hc, hpc, hk⟩ := hn
            refine absurd ⟨c, List.mem_of_getElem? hc, hk, ?_⟩ hbefore.1
            rw [hpc]
            rfl
    · rw [hnew] at hwhen
      simp at hwhen

theorem Tracked.step {s s' : Sys} {a : Act} (h : Tracked s) (hstep : Steps s a s') :
    Tracked s' := by
  constructor
  · exact h.sane.step hstep
  · intro d hd hentered
    rcases hstep.mem_was hd with ⟨j, c, hc, hmove⟩ | ⟨thread, hook, -, rfl⟩
    · exact fresh_step (h.fresh c (List.mem_of_getElem? hc)) hmove hentered
    · rfl
  · intro d hd k t' hk ht' hinit hearly
    rcases hstep.mem_was hd with ⟨j, c, hc, hmove⟩ | ⟨thread, hook, -, rfl⟩
    · have hmem := List.mem_of_getElem? hc
      obtain ⟨t, n, ht, htype, -⟩ := h.sane.fits_of_move hmem hmove hk
      obtain ⟨t₁, ht₁, heq⟩ := hstep.task_stays ht
      obtain rfl : t₁ = t' := Option.some.inj (ht₁.symm.trans ht')
      have hinit₀ : t.type = .kTaskInit := (type_of_installed heq).symm.trans hinit
      have hearly₀ : ¬ t.LeavesEarly := fun he => hearly (he.of_installed heq)
      refine inOrder_step (h.fresh c hmem) ?_ hmove hk ht hinit₀ (htype.symm.trans hinit₀) hearly₀
      intro hck
      exact h.inOrder c hmem k t hck ht hinit₀ hearly₀
    · simp [Call.start] at hk
  · intro k t' ht' hinit hearly hwhen
    rcases hstep.task_cases ht' with ⟨t, ht, htask⟩ | ⟨rfl, p, hp, rfl⟩
    · have heq := htask.installed_eq
      exact h.early_step hstep ht htask ((type_of_installed heq).symm.trans hinit)
        (hearly.of_installed heq.symm) hwhen
    · -- the task was inserted just now
      rcases hwhen with ⟨d, hd, hk, -⟩ | hwhen
      · exact absurd hk (h.sane.task_ne_new hstep hd)
      · rw [h.sane.pending_is_call hp] at hwhen
        simp at hwhen

/-- The init tasks whose matching invocations have all been in order. -/
def OrderedExactly (s : Sys) : Prop :=
  ∀ k t, s.tasks[k]? = some t → t.type = .kTaskInit →
    ((∀ c ∈ s.calls, c.task = some k → Ordered c.trace)
      ↔ t.onInitEnter ≠ none ∨ t.onInitLeave = none ∨ ¬ s.InCalls k Pc.Entered)

theorem Tracked.orderedExactly {s : Sys} (h : Tracked s) : OrderedExactly s := by
  intro k t ht hinit
  constructor
  · intro hordered
    by_contra hnot
    push Not at hnot
    obtain ⟨henter, hleave, hin⟩ := hnot
    obtain ⟨c, hc, hk, hearly⟩ := h.early k t ht hinit ⟨henter, hleave⟩ (Or.inl hin)
    exact (hordered c hc hk).2.1 hearly
  · intro hwhen c hc hk
    by_cases hearly : t.LeavesEarly
    · -- no invocation has been notified
      have hentered : ¬ c.pc.Entered := by
        intro hentered
        rcases hwhen with hwhen | hwhen | hwhen
        · exact hwhen hearly.1
        · exact hearly.2 hwhen
        · exact hwhen ⟨c, hc, hk, hentered⟩
      rw [h.fresh c hc hentered]
      decide
    · exact ordered_of_inOrder (h.inOrder c hc k t hk ht hinit hearly)

/-- **Order of init callbacks.**  In every state of every run the invocations that match an
init task are in order if and only if the task has an enter callback, or no leave
callback, or none of them has been notified. -/
theorem ordered_iff (va : Bool) (acts : List Act) :
    Runs.Always step OrderedExactly (Sys.start va) acts := by
  have htracked : Runs.Always step Tracked (Sys.start va) acts := by
    apply Runs.always_of_preserved ?_ acts (tracked_start va)
    intro s a s' h hstep
    exact h.step (steps_of_step hstep)
  exact htracked.mono fun s h => h.orderedExactly

/-- One invocation for an init task that has only a leave callback. -/
theorem not_ordered_leave_only : ¬ Runs.Always step
    (fun s => ∀ k t, s.tasks[k]? = some t → t.type = .kTaskInit →
      ∀ c ∈ s.calls, c.task = some k → Ordered c.trace) (Sys.start false)
    [.install 0 (.install_init_cb ['a'] none (some 1) false), .push 0,
      .enter 0 (.call_array (some ['a'])), .next 0, .next 0, .next 0, .callbackReturns 0,
      .originalReturns 0 0, .next 0, .callbackReturns 0, .next 0] := by
  intro h
  have hlast := h.run 0 _ rfl rfl _ List.mem_cons_self rfl
  revert hlast
  decide

end WatchDog
