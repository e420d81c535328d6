/-
# What a step of the watch dog can do

`Steps` lists the steps of the system, each with what it needs and where it leads; every
result about runs is a case analysis over it.  The invariants that all of them use are
here too: installed tasks never change but for their progress, and a call holds a task of
the type of its hook whose name occurs in one of its names.
-/
import LiuHookWorld.WatchDogSystem

namespace WatchDog

open SkDogeTaskInfo

/-! ## The steps -/

inductive Steps (s : Sys) : Act → Sys → Prop
  | refused {thread : ℕ} {request : Request} : s.Idle thread →
      (∃ k, find_task s.tasks (some (request.info s.va).name) (request.info s.va).type = some k) →
      Steps s (.install thread request) s
  | checked {thread : ℕ} {request : Request} : s.Idle thread →
      find_task s.tasks (some (request.info s.va).name) (request.info s.va).type = none →
      Steps s (.install thread request)
        { s with pending := s.pending ++ [⟨thread, request.info s.va, s.tasks.length⟩] }
  | pushed {j : ℕ} {p : Pending} : s.pending[j]? = some p →
      Steps s (.push j)
        { s with tasks := s.tasks ++ [p.info], pending := s.pending.eraseIdx j }
  | entered {thread : ℕ} {hook : HookCall} : s.Idle thread →
      Steps s (.enter thread hook) { s with calls := s.calls ++ [Call.start thread hook] }
  | looked {i : ℕ} {c : Call} {name : Option Name} {rest : List (Option Name)} :
      s.calls[i]? = some c → s.OnTop i c → c.pc = .look (name :: rest) →
      Steps s (.next i) (s.setCall i
        { c with pc := .look rest, task := find_task s.tasks name c.hook.type })
  | lookedAll {i : ℕ} {c : Call} : s.calls[i]? = some c → s.OnTop i c → c.pc = .look [] →
      Steps s (.next i) (s.setCall i c.afterLook)
  | notified {i k : ℕ} {c : Call} {t : SkDogeTaskInfo} {is_called_ori : Bool} :
      s.calls[i]? = some c → s.OnTop i c → c.pc = .notify is_called_ori → c.task = some k →
      s.tasks[k]? = some t → Steps s (.next i) (s.notify i c k t is_called_ori)
  | returned {i : ℕ} {c : Call} : s.calls[i]? = some c → s.OnTop i c → c.pc = .ret →
      Steps s (.next i) (s.setCall i { c with pc := .done, value := s.returnValue c })
  | callbackReturned {i k : ℕ} {c : Call} {is_called_ori : Bool} {which : Which} :
      s.calls[i]? = some c → s.OnTop i c → c.pc = .callback is_called_ori which →
      c.task = some k →
      Steps s (.callbackReturns i)
        ({ s with tasks := s.tasks.modify k (·.notify_user_return which) }.setCall i
          (c.afterNotify is_called_ori))
  | originalReturned {i result : ℕ} {c : Call} : s.calls[i]? = some c → s.OnTop i c →
      c.pc = .calling →
      Steps s (.originalReturns i result)
        ({ s with
          tasks := s.storeHandle c result,
          loads := s.loads ++ c.hook.loaded result }.setCall i (c.afterOriginal result))

/-- A call's own step is a lookup, the end of its lookups, a notification or its return. -/
theorem steps_of_next {s s' : Sys} {i : ℕ} {c : Call} (hc : s.calls[i]? = some c)
    (htop : s.OnTop i c) (h : s.next i c = some s') : Steps s (.next i) s' := by
  unfold Sys.next at h
  cases hpc : c.pc with
  | look rest =>
      cases rest with
      | nil =>
          rw [hpc] at h
          obtain rfl := Option.some.inj h
          exact .lookedAll hc htop hpc
      | cons name rest =>
          rw [hpc] at h
          obtain rfl := Option.some.inj h
          exact .looked hc htop hpc
  | notify is_called_ori =>
      rw [hpc] at h
      cases htask : c.task with
      | none => simp [htask] at h
      | some k =>
          simp only [htask, Option.map_eq_some_iff] at h
          obtain ⟨t, ht, rfl⟩ := h
          exact .notified hc htop hpc htask ht
  | ret =>
      rw [hpc] at h
      obtain rfl := Option.some.inj h
      exact .returned hc htop hpc
  | callback is_called_ori which => simp [hpc] at h
  | calling => simp [hpc] at h
  | done => simp [hpc] at h

theorem steps_of_step {s s' : Sys} {a : Act} (h : step s a = some s') : Steps s a s' := by
  cases a with
  | install thread request =>
      rw [step] at h
      split_ifs at h with hidle
      obtain rfl := Option.some.inj h
      unfold Sys.check
      split_ifs with hfound
      · exact .refused hidle (Option.isSome_iff_exists.mp hfound)
      · exact .checked hidle (by simpa using hfound)
  | push j =>
      rw [step] at h
      obtain ⟨p, hp, rfl⟩ := Option.map_eq_some_iff.mp h
      exact .pushed hp
  | enter thread hook =>
      rw [step] at h
      split_ifs at h with hidle
      obtain rfl := Option.some.inj h
      exact .entered hidle
  | next i =>
      rw [step] at h
      cases hc : s.calls[i]? with
      | none => simp [hc] at h
      | some c =>
          simp only [hc] at h
          split_ifs at h with htop
          exact steps_of_next hc htop h
  | callbackReturns i =>
      rw [step] at h
      cases hc : s.calls[i]? with
      | none => simp [hc] at h
      | some c =>
          simp only [hc] at h
          split at h
          · rename_i is_called_ori which k hpc htask
            split_ifs at h with htop
            obtain rfl := Option.some.inj h
            exact .callbackReturned hc htop hpc htask
          · simp at h
  | originalReturns i result =>
      rw [step] at h
      cases hc : s.calls[i]? with
      | none => simp [hc] at h
      | some c =>
          simp only [hc] at h
          split_ifs at h with hready
          obtain rfl := Option.some.inj h
          exact .originalReturned hc hready.2 hready.1

/-! ## Installed tasks stay -/

/-- Where the tasks are installed alike, each has its counterpart at its position. -/
theorem getElem?_of_map_installed {tasks tasks' : List SkDogeTaskInfo}
    (h : tasks'.map installed = tasks.map installed) {k : ℕ} {t : SkDogeTaskInfo}
    (ht : tasks[k]? = some t) : ∃ t', tasks'[k]? = some t' ∧ t'.installed = t.installed := by
  have hk := congrArg (·[k]?) h
  simp only [List.getElem?_map, ht, Option.map_some, Option.map_eq_some_iff] at hk
  exact hk

theorem map_installed_set {tasks : List SkDogeTaskInfo} {k : ℕ} {t t' : SkDogeTaskInfo}
    (ht : tasks[k]? = some t) (h : t'.installed = t.installed) :
    (tasks.set k t').map installed = tasks.map installed := by
  apply List.ext_getElem?
  intro j
  rw [List.getElem?_map, List.getElem?_map, List.getElem?_set]
  split_ifs with hjk hlt
  · subst hjk
    rw [ht, Option.map_some, Option.map_some, h]
  · subst hjk
    rw [List.getElem?_eq_none (Nat.not_lt.mp hlt)]
  · rfl

theorem map_installed_modify {tasks : List SkDogeTaskInfo} {k : ℕ}
    {f : SkDogeTaskInfo → SkDogeTaskInfo} (h : ∀ t, (f t).installed = t.installed) :
    (tasks.modify k f).map installed = tasks.map installed := by
  apply List.ext_getElem?
  intro j
  rw [List.getElem?_map, List.getElem?_map, List.getElem?_modify]
  cases tasks[j]? with
  | none => rfl
  | some t =>
      show some (installed (if k = j then f t else t)) = some (installed t)
      split_ifs
      · rw [h]
      · rfl

@[simp] theorem notify_user_return_installed (t : SkDogeTaskInfo) (which : Which) :
    (t.notify_user_return which).installed = t.installed := by
  cases which <;> rfl

@[simp] theorem notify_user_installed (t : SkDogeTaskInfo) (loads : List Name)
    (is_called_ori : Bool) : (t.notify_user loads is_called_ori).1.installed = t.installed := by
  rw [notify_user_fst]
  split_ifs
  · rfl
  · exact with_module_installed

theorem storeHandle_installed (s : Sys) (c : Call) (result : ℕ) :
    (s.storeHandle c result).map installed = s.tasks.map installed := by
  unfold Sys.storeHandle
  split
  · rfl
  · split_ifs
    · exact map_installed_modify fun t => rfl
    · rfl

/-- Only an insertion changes what is installed. -/
theorem Steps.tasks_installed {s s' : Sys} {a : Act} (h : Steps s a s') :
    s'.tasks.map installed = s.tasks.map installed
      ∨ ∃ j p, a = .push j ∧ s.pending[j]? = some p ∧ s'.tasks = s.tasks ++ [p.info]
        ∧ s'.pending = s.pending.eraseIdx j := by
  cases h with
  | refused | checked | entered | looked | lookedAll | returned => exact Or.inl rfl
  | pushed hp => exact Or.inr ⟨_, _, rfl, hp, rfl, rfl⟩
  | notified _ _ _ _ ht =>
      exact Or.inl (map_installed_set ht (notify_user_installed _ _ _))
  | callbackReturned =>
      exact Or.inl (map_installed_modify fun t => notify_user_return_installed t _)
  | originalReturned => exact Or.inl (storeHandle_installed _ _ _)

/-- A task keeps its position and what it was installed with. -/
theorem Steps.task_stays {s s' : Sys} {a : Act} (h : Steps s a s') {k : ℕ} {t : SkDogeTaskInfo}
    (ht : s.tasks[k]? = some t) : ∃ t', s'.tasks[k]? = some t' ∧ t'.installed = t.installed := by
  rcases h.tasks_installed with hmap | ⟨j, p, -, -, htasks, -⟩
  · exact getElem?_of_map_installed hmap ht
  · have hlt := (List.getElem?_eq_some_iff.mp ht).1
    refine ⟨t, ?_, rfl⟩
    rw [htasks, List.getElem?_append_left hlt, ht]

/-- A task was there before the step, or it was inserted by it as it was asked for. -/
theorem Steps.task_was {s s' : Sys} {a : Act} (h : Steps s a s') {k : ℕ} {t' : SkDogeTaskInfo}
    (ht : s'.tasks[k]? = some t') : (∃ t, s.tasks[k]? = some t ∧ t'.installed = t.installed)
      ∨ k = s.tasks.length ∧ ∃ p ∈ s.pending, t' = p.info := by
  rcases h.tasks_installed with hmap | ⟨j, p, -, hp, htasks, -⟩
  · obtain ⟨t, ht, heq⟩ := getElem?_of_map_installed hmap.symm ht
    exact Or.inl ⟨t, ht, heq.symm⟩
  · rw [htasks, List.getElem?_append] at ht
    split_ifs at ht with hlt
    · exact Or.inl ⟨t', ht, rfl⟩
    -- the position is the one of the task at the end
    · have hzero : k - s.tasks.length = 0 := by
        have := (List.getElem?_eq_some_iff.mp ht).1
        rw [List.length_singleton] at this
        omega
      rw [hzero] at ht
      exact Or.inr ⟨by omega, p, List.mem_of_getElem? hp, (Option.some.inj ht).symm⟩

/-- What a step can do to the task `k`. -/
inductive TaskStep (s : Sys) (k : ℕ) (t : SkDogeTaskInfo) : Act → SkDogeTaskInfo → Prop
  | same (a : Act) : TaskStep s k t a t
  | notified {i : ℕ} {c : Call} {is_called_ori : Bool} : s.calls[i]? = some c →
      c.pc = .notify is_called_ori → c.task = some k →
      TaskStep s k t (.next i) (t.notify_user s.loads is_called_ori).1
  | callbackReturned {i : ℕ} {c : Call} {is_called_ori : Bool} {which : Which} :
      s.calls[i]? = some c → c.pc = .callback is_called_ori which → c.task = some k →
      TaskStep s k t (.callbackReturns i) (t.notify_user_return which)
  | stored {i result : ℕ} {c : Call} : s.calls[i]? = some c → c.pc = .calling →
      c.hook.type = .kTaskLinker → c.task = some k →
      TaskStep s k t (.originalReturns i result) { t with hdl := result }

theorem Steps.task_step {s s' : Sys} {a : Act} (h : Steps s a s') {k : ℕ} {t : SkDogeTaskInfo}
    (ht : s.tasks[k]? = some t) : ∃ t', s'.tasks[k]? = some t' ∧ TaskStep s k t a t' := by
  have hlt := (List.getElem?_eq_some_iff.mp ht).1
  cases h with
  | refused | checked | entered | looked | lookedAll | returned => exact ⟨t, ht, .same _⟩
  | pushed => exact ⟨t, by rw [List.getElem?_append_left hlt, ht], .same _⟩
  | @notified i j c u ori hc _ hpc htask hu =>
      rw [Sys.notify_tasks, List.getElem?_set]
      by_cases hjk : j = k
      · subst hjk
        obtain rfl : u = t := Option.some.inj (hu.symm.trans ht)
        rw [if_pos rfl, if_pos hlt]
        exact ⟨_, rfl, .notified hc hpc htask⟩
      · rw [if_neg hjk]
        exact ⟨t, ht, .same _⟩
  | @callbackReturned i j c ori which hc _ hpc htask =>
      by_cases hjk : j = k
      · subst hjk
        refine ⟨t.notify_user_return which, ?_, .callbackReturned hc hpc htask⟩
        show (s.tasks.modify j _)[j]? = _
        rw [List.getElem?_modify_eq, ht]
        rfl
      · refine ⟨t, ?_, .same _⟩
        show (s.tasks.modify j _)[k]? = _
        rw [List.getElem?_modify_ne _ _ hjk, ht]
  | @originalReturned i result c hc _ hpc =>
      refine ⟨_, Sys.storeHandle_getElem? ht, ?_⟩
      split_ifs with hstore
      · exact .stored hc hpc hstore.2 hstore.1
      · exact .same _

/-- A task was there before the step, which changed it, or is one that was inserted. -/
theorem Steps.task_cases {s s' : Sys} {a : Act} (h : Steps s a s') {k : ℕ} {t' : SkDogeTaskInfo}
    (ht' : s'.tasks[k]? = some t') : (∃ t, s.tasks[k]? = some t ∧ TaskStep s k t a t')
      ∨ k = s.tasks.length ∧ ∃ p ∈ s.pending, t' = p.info := by
  rcases h.task_was ht' with ⟨t, ht, -⟩ | hnew
  · obtain ⟨u, hu, htask⟩ := h.task_step ht
    obtain rfl : u = t' := Option.some.inj (hu.symm.trans ht')
    exact Or.inl ⟨t, ht, htask⟩
  · exact Or.inr hnew

theorem TaskStep.installed_eq {s : Sys} {k : ℕ} {t t' : SkDogeTaskInfo} {a : Act}
    (h : TaskStep s k t a t') : t'.installed = t.installed := by
  cases h with
  | same => rfl
  | notified => exact notify_user_installed _ _ _
  | callbackReturned => exact notify_user_return_installed _ _
  | stored => rfl

/-- A callback is called by a notification, and by nothing else. -/
theorem Steps.fired {s s' : Sys} {a : Act} (h : Steps s a s') : s'.fired = s.fired
    ∨ ∃ i c k t is_called_ori inv, a = .next i ∧ s.calls[i]? = some c
      ∧ c.pc = .notify is_called_ori ∧ c.task = some k ∧ s.tasks[k]? = some t
      ∧ (t.notify_user s.loads is_called_ori).2 = some inv
      ∧ s'.fired = s.fired ++ [⟨i, k, inv.which, inv.module, c.orig⟩] := by
  cases h with
  | refused | checked | pushed | entered | looked | lookedAll | returned | callbackReturned
    | originalReturned => exact Or.inl rfl
  | @notified i k c t ori hc _ hpc htask ht =>
      cases hinv : (t.notify_user s.loads ori).2 with
      | none =>
          left
          rw [Sys.notify_fired, hinv]
          exact List.append_nil _
      | some inv =>
          right
          refine ⟨i, c, k, t, ori, inv, rfl, hc, hpc, htask, ht, hinv, ?_⟩
          rw [Sys.notify_fired, hinv]
          rfl

/-! ## Calls -/

/-- What a step can do to the call `i`. -/
inductive CallStep (s : Sys) (i : ℕ) (c : Call) : Act → Call → Prop
  | same (a : Act) : CallStep s i c a c
  | looked {name : Option Name} {rest : List (Option Name)} : c.pc = .look (name :: rest) →
      CallStep s i c (.next i)
        { c with pc := .look rest, task := find_task s.tasks name c.hook.type }
  | lookedAll : c.pc = .look [] → CallStep s i c (.next i) c.afterLook
  | notified {k : ℕ} {t : SkDogeTaskInfo} {is_called_ori : Bool} : c.pc = .notify is_called_ori →
      c.task = some k → s.tasks[k]? = some t →
      CallStep s i c (.next i)
        (c.notified is_called_ori (t.notify_user s.loads is_called_ori).2)
  | returned : c.pc = .ret →
      CallStep s i c (.next i) { c with pc := .done, value := s.returnValue c }
  | callbackReturned {k : ℕ} {is_called_ori : Bool} {which : Which} :
      c.pc = .callback is_called_ori which → c.task = some k →
      CallStep s i c (.callbackReturns i) (c.afterNotify is_called_ori)
  | originalReturned {result : ℕ} : c.pc = .calling →
      CallStep s i c (.originalReturns i result) (c.afterOriginal result)

/-- One call is replaced: the calls after that, one by one. -/
theorem getElem?_set_call {calls : List Call} {i j : ℕ} {c c' d : Call}
    (hc : calls[i]? = some c) (hd : (calls.set i c')[j]? = some d) :
    (j = i ∧ d = c') ∨ (j ≠ i ∧ calls[j]? = some d) := by
  rw [List.getElem?_set] at hd
  by_cases hij : i = j
  · rw [if_pos hij, if_pos (List.getElem?_eq_some_iff.mp hc).1] at hd
    exact Or.inl ⟨hij.symm, (Option.some.inj hd).symm⟩
  · rw [if_neg hij] at hd
    exact Or.inr ⟨Ne.symm hij, hd⟩

/-- A call was there before the step and made its part of it, or the step began it. -/
theorem Steps.call_was {s s' : Sys} {a : Act} (h : Steps s a s') {j : ℕ} {d : Call}
    (hd : s'.calls[j]? = some d) : (∃ c, s.calls[j]? = some c ∧ CallStep s j c a d)
      ∨ ∃ thread hook, a = .enter thread hook ∧ d = Call.start thread hook := by
  cases h with
  | refused | checked | pushed => exact Or.inl ⟨d, hd, .same _⟩
  | @entered thread hook =>
      rw [List.getElem?_append] at hd
      split_ifs at hd
      · exact Or.inl ⟨d, hd, .same _⟩
      · have hd := List.mem_of_getElem? hd
        exact Or.inr ⟨thread, hook, rfl, List.mem_singleton.mp hd⟩
  | looked hc _ hpc =>
      rcases getElem?_set_call hc hd with ⟨rfl, rfl⟩ | ⟨-, hd⟩
      · exact Or.inl ⟨_, hc, .looked hpc⟩
      · exact Or.inl ⟨d, hd, .same _⟩
  | lookedAll hc _ hpc =>
      rcases getElem?_set_call hc hd with ⟨rfl, rfl⟩ | ⟨-, hd⟩
      · exact Or.inl ⟨_, hc, .lookedAll hpc⟩
      · exact Or.inl ⟨d, hd, .same _⟩
  | notified hc _ hpc htask ht =>
      rcases getElem?_set_call hc hd with ⟨rfl, rfl⟩ | ⟨-, hd⟩
      · exact Or.inl ⟨_, hc, .notified hpc htask ht⟩
      · exact Or.inl ⟨d, hd, .same _⟩
  | returned hc _ hpc =>
      rcases getElem?_set_call hc hd with ⟨rfl, rfl⟩ | ⟨-, hd⟩
      · exact Or.inl ⟨_, hc, .returned hpc⟩
      · exact Or.inl ⟨d, hd, .same _⟩
  | callbackReturned hc _ hpc htask =>
      rcases getElem?_set_call hc hd with ⟨rfl, rfl⟩ | ⟨-, hd⟩
      · exact Or.inl ⟨_, hc, .callbackReturned hpc htask⟩
      · exact Or.inl ⟨d, hd, .same _⟩
  | originalReturned hc _ hpc =>
      rcases getElem?_set_call hc hd with ⟨rfl, rfl⟩ | ⟨-, hd⟩
      · exact Or.inl ⟨_, hc, .originalReturned hpc⟩
      · exact Or.inl ⟨d, hd, .same _⟩

/-- A call stays in the list, at its place. -/
theorem Steps.call_stays {s s' : Sys} {a : Act} (h : Steps s a s') {j : ℕ} {c : Call}
    (hc : s.calls[j]? = some c) : ∃ d, s'.calls[j]? = some d := by
  have hlt := (List.getElem?_eq_some_iff.mp hc).1
  have hle : s.calls.length ≤ s'.calls.length := by
    cases h with
    | refused | checked | pushed => exact le_refl _
    | entered => exact List.length_append.symm ▸ Nat.le_add_right _ _
    | looked | lookedAll | notified | returned | callbackReturned | originalReturned =>
        exact List.length_set.symm ▸ le_refl _
  exact ⟨_, List.getElem?_eq_getElem (hlt.trans_le hle)⟩

theorem Steps.call_step {s s' : Sys} {a : Act} (h : Steps s a s') {j : ℕ} {c : Call}
    (hc : s.calls[j]? = some c) : ∃ d, s'.calls[j]? = some d ∧ CallStep s j c a d := by
  obtain ⟨d, hd⟩ := h.call_stays hc
  refine ⟨d, hd, ?_⟩
  rcases h.call_was hd with ⟨c', hc', hmove⟩ | ⟨thread, hook, rfl, rfl⟩
  · obtain rfl : c = c' := Option.some.inj (hc.symm.trans hc')
    exact hmove
  · -- the step appended another call
    cases h
    rw [List.getElem?_append_left (List.getElem?_eq_some_iff.mp hc).1, hc] at hd
    rw [← Option.some.inj hd]
    exact .same _

/-- The same for calls anywhere in the list. -/
theorem Steps.mem_was {s s' : Sys} {a : Act} (h : Steps s a s') {d : Call} (hd : d ∈ s'.calls) :
    (∃ j c, s.calls[j]? = some c ∧ CallStep s j c a d)
      ∨ ∃ thread hook, a = .enter thread hook ∧ d = Call.start thread hook := by
  obtain ⟨j, hd⟩ := List.getElem?_of_mem hd
  rcases h.call_was hd with ⟨c, hc, hmove⟩ | hstart
  · exact Or.inl ⟨j, c, hc, hmove⟩
  · exact Or.inr hstart

theorem Steps.mem_step {s s' : Sys} {a : Act} (h : Steps s a s') {c : Call} (hc : c ∈ s.calls) :
    ∃ i d, s.calls[i]? = some c ∧ d ∈ s'.calls ∧ CallStep s i c a d := by
  obtain ⟨i, hc⟩ := List.getElem?_of_mem hc
  obtain ⟨d, hd, hmove⟩ := h.call_step hc
  exact ⟨i, d, hc, List.mem_of_getElem? hd, hmove⟩

theorem CallStep.hook {s : Sys} {i : ℕ} {c d : Call} {a : Act} (h : CallStep s i c a d) :
    d.hook = c.hook := by
  cases h with
  | same | looked | returned | originalReturned => rfl
  | lookedAll => exact c.afterLook_hook
  | notified => exact c.notified_hook _ _
  | callbackReturned => exact c.afterNotify_hook _

/-- After its lookups a call keeps its task. -/
theorem CallStep.task {s : Sys} {i : ℕ} {c d : Call} {a : Act} (h : CallStep s i c a d) :
    d.task = c.task ∨ ∃ name rest, c.pc = .look (name :: rest) ∧ d.pc = .look rest
      ∧ d.task = find_task s.tasks name c.hook.type := by
  cases h with
  | same | returned | originalReturned => exact Or.inl rfl
  | looked hpc => exact Or.inr ⟨_, _, hpc, rfl, rfl⟩
  | lookedAll => exact Or.inl c.afterLook_task
  | notified => exact Or.inl (c.notified_task _ _)
  | callbackReturned => exact Or.inl (c.afterNotify_task _)

/-- A call keeps its task in a notification. -/
theorem CallStep.task_of_notify {s : Sys} {i : ℕ} {c d : Call} {a : Act} (h : CallStep s i c a d)
    {is_called_ori : Bool} (hpc : c.pc = .notify is_called_ori) {k l : ℕ} (hk : c.task = some k)
    (hl : d.task = some l) : k = l := by
  rcases h.task with hsame | ⟨name, rest, hlook, -⟩
  · rw [hsame, hk] at hl
    exact Option.some.inj hl
  · rw [hpc] at hlook
    simp at hlook

/-- A call that looks up names has looked up a name just now, or not moved. -/
theorem CallStep.look {s : Sys} {i : ℕ} {c d : Call} {a : Act} (h : CallStep s i c a d)
    {rest : List (Option Name)} (hd : d.pc = .look rest) :
    c.pc = .look rest ∨ ∃ name, c.pc = .look (name :: rest) := by
  cases h with
  | same => exact Or.inl hd
  | looked hpc =>
      obtain rfl := Pc.look.inj hd
      exact Or.inr ⟨_, hpc⟩
  | lookedAll => rcases c.afterLook_pc with hpc | hpc <;> simp [hpc] at hd
  | @notified k t ori =>
      rw [Call.notified_pc] at hd
      split at hd
      · split_ifs at hd
      · simp at hd
  | returned => simp at hd
  | callbackReturned =>
      rw [Call.afterNotify_pc] at hd
      split_ifs at hd
  | originalReturned =>
      rw [Call.afterOriginal_pc] at hd
      split_ifs at hd

/-- A call that is inside a callback was there before, or its notification called it. -/
theorem CallStep.inside {s : Sys} {i : ℕ} {c d : Call} {a : Act} (h : CallStep s i c a d)
    {is_called_ori : Bool} {which : Which} (hd : d.pc = .callback is_called_ori which) :
    d = c ∨ ∃ k t inv, a = .next i ∧ c.pc = .notify is_called_ori ∧ c.task = some k
      ∧ s.tasks[k]? = some t ∧ (t.notify_user s.loads is_called_ori).2 = some inv
      ∧ inv.which = which := by
  cases h with
  | same => exact Or.inl rfl
  | looked => simp at hd
  | lookedAll => rcases c.afterLook_pc with hpc | hpc <;> simp [hpc] at hd
  | @notified k t ori hpc htask ht =>
      rw [Call.notified_pc] at hd
      split at hd
      · split_ifs at hd
      · rename_i inv hinv
        obtain ⟨rfl, rfl⟩ := Pc.callback.inj hd
        exact Or.inr ⟨k, t, inv, rfl, hpc, htask, ht, hinv, rfl⟩
  | returned => simp at hd
  | callbackReturned =>
      rw [Call.afterNotify_pc] at hd
      split_ifs at hd
  | originalReturned =>
      rw [Call.afterOriginal_pc] at hd
      split_ifs at hd

/-! ## The common invariant -/

/-- The task `k` is of the type of the call's hook, and its name occurs in a name of the call. -/
def Fits (tasks : List SkDogeTaskInfo) (hook : HookCall) (k : ℕ) : Prop :=
  ∃ t n, tasks[k]? = some t ∧ t.type = hook.type ∧ some n ∈ hook.names ∧ t.name <:+: n

/-- A task that fits keeps fitting, where the tasks stay as they were installed. -/
theorem Fits.of_stays {tasks tasks' : List SkDogeTaskInfo} {hook : HookCall} {k : ℕ}
    (h : Fits tasks hook k) (hstays : ∀ t, tasks[k]? = some t →
      ∃ t', tasks'[k]? = some t' ∧ t'.installed = t.installed) : Fits tasks' hook k := by
  obtain ⟨t, n, ht, htype, hn, hname⟩ := h
  obtain ⟨t', ht', heq⟩ := hstays t ht
  refine ⟨t', n, ht', (type_of_installed heq).trans htype, hn, ?_⟩
  rwa [name_of_installed heq]

theorem Steps.fits {s s' : Sys} {a : Act} (h : Steps s a s') {hook : HookCall} {k : ℕ}
    (hfits : Fits s.tasks hook k) : Fits s'.tasks hook k :=
  hfits.of_stays fun _ ht => h.task_stays ht

/-- The task of a call fits, a call has looked up some of its names, from the front, and
the callback it is inside is its task's; callbacks were called for tasks of the list, and
nothing has happened to a task that is not inserted yet. -/
structure Sane (s : Sys) : Prop where
  task : ∀ c ∈ s.calls, ∀ k, c.task = some k → Fits s.tasks c.hook k
  look : ∀ c ∈ s.calls, ∀ rest, c.pc = .look rest → rest <:+ c.hook.names
  inside : ∀ c ∈ s.calls, ∀ is_called_ori which, c.pc = .callback is_called_ori which →
    ∀ k t, c.task = some k → s.tasks[k]? = some t → which = t.enter ∨ which = t.leave
  fired : ∀ f ∈ s.fired, f.task < s.tasks.length
  pending : ∀ p ∈ s.pending, p.info.installed = p.info

theorem sane_start (va : Bool) : Sane (Sys.start va) := by
  constructor
  · intro c hc
    simp [Sys.start] at hc
  · intro c hc
    simp [Sys.start] at hc
  · intro c hc
    simp [Sys.start] at hc
  · intro f hf
    simp [Sys.start] at hf
  · intro p hp
    simp [Sys.start] at hp

/-- The type of a call's task is that of its hook. -/
theorem Sane.type {s : Sys} (h : Sane s) {c : Call} (hc : c ∈ s.calls) {k : ℕ}
    (hk : c.task = some k) {t : SkDogeTaskInfo} (ht : s.tasks[k]? = some t) :
    t.type = c.hook.type := by
  obtain ⟨u, n, hu, htype, -⟩ := h.task c hc k hk
  obtain rfl : t = u := Option.some.inj (ht.symm.trans hu)
  exact htype

theorem Steps.tasks_length {s s' : Sys} {a : Act} (h : Steps s a s') :
    s.tasks.length ≤ s'.tasks.length := by
  rcases h.tasks_installed with hmap | ⟨j, p, -, -, htasks, -⟩
  · have hlength := congrArg List.length hmap
    rw [List.length_map, List.length_map] at hlength
    exact hlength.ge
  · rw [htasks, List.length_append]
    exact Nat.le_add_right _ _

/-- The task that a call holds after a move was there before it. -/
theorem Sane.fits_of_move {s : Sys} (h : Sane s) {j : ℕ} {c d : Call} {a : Act}
    (hc : c ∈ s.calls) (hmove : CallStep s j c a d) {k : ℕ} (hk : d.task = some k) :
    Fits s.tasks c.hook k := by
  rcases hmove.task with htask | ⟨name, rest, hpc, -, htask⟩
  · exact h.task c hc k (htask ▸ hk)
  · -- the task was found for a name of the call just now
    obtain ⟨n, t, rfl, ht, htype, hname⟩ := exists_of_find_task (htask.symm.trans hk)
    exact ⟨t, n, ht, htype, (h.look c hc _ hpc).subset List.mem_cons_self, hname⟩

theorem installed_info (va : Bool) (request : Request) :
    (request.info va).installed = request.info va := by
  cases request with
  | install_linker_cb => cases va <;> rfl
  | install_cb | install_init_cb | install_linker_find_libraries_cb => rfl

/-- Tasks that are installed alike may stand for each other. -/
theorem Sane.of_installed {s s' : Sys} (h : Sane s)
    (htasks : s'.tasks.map installed = s.tasks.map installed) (hcalls : s'.calls = s.calls)
    (hfired : s'.fired = s.fired) (hpending : s'.pending = s.pending) : Sane s' := by
  constructor
  · intro c hc k hk
    rw [hcalls] at hc
    exact (h.task c hc k hk).of_stays fun _ ht => getElem?_of_map_installed htasks ht
  · rw [hcalls]
    exact h.look
  · intro c hc ori which hpc k t' hk ht'
    rw [hcalls] at hc
    obtain ⟨t, ht, heq⟩ := getElem?_of_map_installed htasks.symm ht'
    rw [← enter_of_installed heq, ← leave_of_installed heq]
    exact h.inside c hc ori which hpc k t hk ht
  · rw [hfired]
    have hlength := congrArg List.length htasks
    rw [List.length_map, List.length_map] at hlength
    rw [hlength]
    exact h.fired
  · rw [hpending]
    exact h.pending

theorem Sane.step {s s' : Sys} {a : Act} (h : Sane s) (hstep : Steps s a s') : Sane s' := by
  constructor
  · intro d hd k hk
    rcases hstep.mem_was hd with ⟨j, c, hc, hmove⟩ | ⟨thread, hook, -, rfl⟩
    · rw [hmove.hook]
      exact hstep.fits (h.fits_of_move (List.mem_of_getElem? hc) hmove hk)
    · simp [Call.start] at hk
  · intro d hd rest hrest
    rcases hstep.mem_was hd with ⟨j, c, hc, hmove⟩ | ⟨thread, hook, -, rfl⟩
    · have hc := List.mem_of_getElem? hc
      rw [hmove.hook]
      rcases hmove.look hrest with hpc | ⟨name, hpc⟩
      · exact h.look c hc rest hpc
      · exact (List.suffix_cons name rest).trans (h.look c hc _ hpc)
    · obtain rfl := Pc.look.inj hrest
      exact List.suffix_rfl
  · intro d hd ori which hpc k t' hk ht'
    rcases hstep.mem_was hd with ⟨j, c, hc, hmove⟩ | ⟨thread, hook, -, rfl⟩
    · have hc := List.mem_of_getElem? hc
      obtain ⟨t, n, ht, -⟩ := h.fits_of_move hc hmove hk
      obtain ⟨t₁, ht₁, heq⟩ := hstep.task_stays ht
      obtain rfl : t₁ = t' := Option.some.inj (ht₁.symm.trans ht')
      rw [enter_of_installed heq, leave_of_installed heq]
      -- inside it before, or `notify_user` called it: then it is one of the two of its task
      rcases hmove.inside hpc with rfl | ⟨i, u, inv, -, hnotify, htask, hu, hinv, rfl⟩
      · exact h.inside d hc ori which hpc k t hk ht
      · obtain rfl : i = k := hmove.task_of_notify hnotify htask hk
        obtain rfl : u = t := Option.some.inj (hu.symm.trans ht)
        rcases calls_of_notify_user hinv with ⟨hwhich, -⟩ | ⟨hwhich, -⟩
        · exact Or.inl hwhich
        · exact Or.inr hwhich
    · simp [Call.start] at hpc
  · intro f hf
    apply lt_of_lt_of_le _ hstep.tasks_length
    rcases hstep.fired with heq | ⟨i, c, k, t, ori, inv, -, -, -, -, ht, -, heq⟩
    · rw [heq] at hf
      exact h.fired f hf
    · rw [heq] at hf
      rcases List.mem_append.mp hf with hf | hf
      · exact h.fired f hf
      · rw [List.mem_singleton.mp hf]
        exact (List.getElem?_eq_some_iff.mp ht).1
  · intro p hp
    cases hstep with
    | refused | entered | looked | lookedAll | notified | returned | callbackReturned
      | originalReturned => exact h.pending p hp
    | checked =>
        rcases List.mem_append.mp hp with hp | hp
        · exact h.pending p hp
        · rw [List.mem_singleton.mp hp]
          exact installed_info _ _
    | pushed => exact h.pending p (List.mem_of_mem_eraseIdx hp)

/-- A task that is about to be inserted has no flag set, -/
theorem Sane.pending_is_call {s : Sys} (h : Sane s) {p : Pending} (hp : p ∈ s.pending) :
    p.info.is_call = false := by
  rw [← h.pending p hp]
  unfold is_call installed
  split <;> rfl

/-- and no module. -/
theorem Sane.pending_module {s : Sys} (h : Sane s) {p : Pending} (hp : p ∈ s.pending) :
    p.info.module = none := by
  rw [← h.pending p hp]
  rfl

/-- After a step no call has the task that the step inserted. -/
theorem Sane.task_ne_new {s s' : Sys} {a : Act} (h : Sane s) (hstep : Steps s a s') {d : Call}
    (hd : d ∈ s'.calls) : d.task ≠ some s.tasks.length := by
  intro hk
  rcases hstep.mem_was hd with ⟨j, c, hc, hmove⟩ | ⟨thread, hook, -, rfl⟩
  · obtain ⟨u, n, hu, -⟩ := h.fits_of_move (List.mem_of_getElem? hc) hmove hk
    have hlt := (List.getElem?_eq_some_iff.mp hu).1
    omega
  · simp [Call.start] at hk

end WatchDog
