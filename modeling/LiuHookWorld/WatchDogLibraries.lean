/-
# One call of `find_libraries_replace`

The linker asks for several libraries in one call.  The replacement looks every name up,
but keeps the result in one variable, so that the task it notifies after the original
function is the one of the last name.
-/
import LiuHookWorld.WatchDogSystem

namespace WatchDog

/-! ## Notifications of a run -/

/-- The task on which a step calls `notify_user`. -/
def Sys.notifiedBy (s : Sys) : Act → Option ℕ
  | .next i =>
      match s.calls[i]? with
      | none => none
      | some c =>
          match c.pc with
          | .notify _ => c.task
          | .look _ | .callback _ _ | .calling | .ret | .done => none
  | .install _ _ | .push _ | .enter _ _ | .callbackReturns _ | .originalReturns _ _ => none

/-- The tasks on which a run calls `notify_user`, in order. -/
def notifications (s : Sys) : List Act → List ℕ
  | [] => []
  | a :: as =>
      match step s a with
      | none => []
      | some s' => (s.notifiedBy a).toList ++ notifications s' as

/-- The tasks are installed and nothing runs. -/
def Sys.installed (tasks : List SkDogeTaskInfo) : Sys := { Sys.start false with tasks := tasks }

/-- A call for these libraries: it is entered, looks the names up, calls the original, which
returns `true`, and goes on. -/
def librariesCall (library_names : List (Option Name)) : List Act :=
  .enter 0 (.find_libraries library_names) ::
    (List.replicate (library_names.length + 1) (.next 0) ++ [.originalReturns 0 1, .next 0])

/-- What the loop of lookups leaves in `task`. -/
def lastTask (tasks : List SkDogeTaskInfo) (task : Option ℕ) (names : List (Option Name)) :
    Option ℕ :=
  names.foldl (fun _ so_name => find_task tasks so_name .kTaskFind_Libraries) task

/-! ## The loop of lookups -/

/-- The state in which the call is the only one. -/
def Sys.only (tasks : List SkDogeTaskInfo) (c : Call) : Sys :=
  { Sys.installed tasks with calls := [c] }

theorem onTop_only (tasks : List SkDogeTaskInfo) (c : Call) : (Sys.only tasks c).OnTop 0 c := by
  constructor
  · simp [Sys.only]
  · simp [Sys.only, Sys.installed, Sys.start]

/-- A step of the only call. -/
theorem step_only (tasks : List SkDogeTaskInfo) (c : Call) :
    step (Sys.only tasks c) (.next 0) = (Sys.only tasks c).next 0 c := by
  show (if (Sys.only tasks c).OnTop 0 c then (Sys.only tasks c).next 0 c else none) = _
  rw [if_pos (onTop_only tasks c)]

/-- The lookups notify nobody, and the last one remains. -/
theorem notifications_look (tasks : List SkDogeTaskInfo) (as : List Act) {c : Call}
    (hhook : c.hook.type = .kTaskFind_Libraries) (names : List (Option Name)) :
    ∀ task, notifications (Sys.only tasks { c with pc := .look names, task := task })
        (List.replicate (names.length + 1) (.next 0) ++ as)
      = notifications (Sys.only tasks
          (Call.toOriginal { c with pc := .look [], task := lastTask tasks task names })) as := by
  induction names with
  | nil =>
      intro task
      rw [List.length_nil, List.replicate_one, List.singleton_append, notifications, step_only]
      show notifications (Sys.only tasks (Call.afterLook _)) as = _
      rw [Call.afterLook, if_pos (Or.inr hhook)]
      rfl
  | cons name names ih =>
      intro task
      have hnext : step (Sys.only tasks { c with pc := .look (name :: names), task := task })
          (.next 0) = some (Sys.only tasks { c with
            pc := .look names,
            task := find_task tasks name .kTaskFind_Libraries }) := by
        rw [step_only, ← hhook]
        rfl
      rw [List.length_cons, List.replicate_succ, List.cons_append, notifications, hnext]
      exact ih _

/-- After the original function only the task that is left is notified. -/
theorem notifications_after (tasks : List SkDogeTaskInfo) {c : Call}
    (hhook : c.hook.type = .kTaskFind_Libraries) (hpc : c.pc = .calling)
    (htask : ∀ k, c.task = some k → k < tasks.length) :
    notifications (Sys.only tasks c) [.originalReturns 0 1, .next 0] = c.task.toList := by
  have hstore : (Sys.only tasks c).storeHandle c 1 = tasks := by
    unfold Sys.storeHandle
    rw [hhook]
    cases c.task <;> rfl
  -- the original returns: the call is about to notify, or to return
  let s₁ : Sys := { Sys.only tasks (c.afterOriginal 1) with loads := c.hook.loaded 1 }
  have hstep : step (Sys.only tasks c) (.originalReturns 0 1) = some s₁ := by
    show (if c.pc = .calling ∧ (Sys.only tasks c).OnTop 0 c then _ else none) = _
    rw [if_pos ⟨hpc, onTop_only tasks c⟩, hstore]
    rfl
  have htop : s₁.OnTop 0 (c.afterOriginal 1) := onTop_only tasks (c.afterOriginal 1)
  have hnext : step s₁ (.next 0) = s₁.next 0 (c.afterOriginal 1) := by
    show (if s₁.OnTop 0 (c.afterOriginal 1) then s₁.next 0 (c.afterOriginal 1) else none) = _
    exact if_pos htop
  rw [notifications, hstep]
  dsimp only
  rw [notifications, hnext]
  cases hk : c.task with
  | none =>
      have hafter : s₁.next 0 (c.afterOriginal 1) = some (s₁.setCall 0
          { c.afterOriginal 1 with pc := .done, value := s₁.returnValue (c.afterOriginal 1) }) := by
        unfold Sys.next
        rw [Call.afterOriginal_pc, if_pos hk]
      rw [hafter]
      simp [notifications, Sys.notifiedBy, s₁, Sys.only, hk]
  | some k =>
      have hlt := htask k hk
      have hafter : s₁.next 0 (c.afterOriginal 1)
          = some (s₁.notify 0 (c.afterOriginal 1) k tasks[k] true) := by
        have htask₁ : (c.afterOriginal 1).task = some k := hk
        have hget : s₁.tasks[k]? = some tasks[k] := List.getElem?_eq_getElem hlt
        unfold Sys.next
        rw [Call.afterOriginal_pc, if_neg (by rw [hk]; simp), htask₁]
        dsimp only
        rw [hget]
        rfl
      rw [hafter]
      simp [notifications, Sys.notifiedBy, s₁, Sys.only, hk, Call.afterOriginal]

/-- What a loop of lookups leaves is a task of the list. -/
theorem lastTask_lt {tasks : List SkDogeTaskInfo} (names : List (Option Name)) :
    ∀ {task : Option ℕ} {k : ℕ}, (∀ j, task = some j → j < tasks.length) →
      lastTask tasks task names = some k → k < tasks.length := by
  induction names with
  | nil => intro task k htask h; exact htask k h
  | cons name names ih =>
      intro task k _ h
      refine ih ?_ h
      intro j hj
      obtain ⟨-, t, -, ht, -⟩ := exists_of_find_task hj
      exact (List.getElem?_eq_some_iff.mp ht).1

/-- **What a call notifies**: the task of the last name. -/
theorem notifications_librariesCall (tasks : List SkDogeTaskInfo)
    (library_names : List (Option Name)) :
    notifications (Sys.installed tasks) (librariesCall library_names)
      = (lastTask tasks none library_names).toList := by
  have henter : step (Sys.installed tasks) (.enter 0 (.find_libraries library_names))
      = some (Sys.only tasks (Call.start 0 (.find_libraries library_names))) := by
    show (if (Sys.installed tasks).Idle 0 then _ else none) = _
    rw [if_pos (by simp [Sys.Idle, Sys.installed, Sys.start])]
    rfl
  have hlook := notifications_look tasks [.originalReturns 0 1, .next 0]
    (c := Call.start 0 (.find_libraries library_names)) rfl library_names none
  rw [librariesCall, notifications, henter]
  show notifications (Sys.only tasks (Call.start 0 (.find_libraries library_names))) _ = _
  refine hlook.trans (notifications_after tasks rfl rfl ?_)
  intro k hk
  exact lastTask_lt library_names (by simp) hk

/-! ## Which calls notify everyone asked for -/

/-- Every task found for a name of the call is notified. -/
def NotifiesAll (tasks : List SkDogeTaskInfo) (library_names : List (Option Name)) : Prop :=
  ∀ so_name ∈ library_names, ∀ k, find_task tasks so_name .kTaskFind_Libraries = some k →
    k ∈ notifications (Sys.installed tasks) (librariesCall library_names)

/-- The same tasks are notified in whatever order the names are given. -/
def OrderFree (tasks : List SkDogeTaskInfo) (library_names : List (Option Name)) : Prop :=
  ∀ other, other.Perm library_names → ∀ k,
    k ∈ notifications (Sys.installed tasks) (librariesCall other)
      ↔ k ∈ notifications (Sys.installed tasks) (librariesCall library_names)

theorem lastTask_concat (tasks : List SkDogeTaskInfo) (task : Option ℕ)
    (names : List (Option Name)) (so_name : Option Name) :
    lastTask tasks task (names ++ [so_name]) = find_task tasks so_name .kTaskFind_Libraries := by
  rw [lastTask, List.foldl_append]
  rfl

/-- A call that notifies the same tasks in every order finds the same task for every name. -/
theorem found_eq_of_orderFree {tasks : List SkDogeTaskInfo} {library_names : List (Option Name)}
    (h : OrderFree tasks library_names) {so_name : Option Name} (hname : so_name ∈ library_names) :
    find_task tasks so_name .kTaskFind_Libraries = lastTask tasks none library_names := by
  -- the call with this name put last
  have hperm : (library_names.erase so_name ++ [so_name]).Perm library_names :=
    (List.perm_append_comm).trans (List.perm_cons_erase hname).symm
  have hsame := h _ hperm
  simp only [notifications_librariesCall, lastTask_concat, Option.mem_toList] at hsame
  exact Option.ext hsame

/-- **All libraries of a call.**  A call notifies every task that one of its names asks for,
and the same tasks in every order of the names, if and only if `find_task` returns the same
for all of them. -/
theorem notifiesAll_and_orderFree_iff (tasks : List SkDogeTaskInfo)
    (library_names : List (Option Name)) :
    NotifiesAll tasks library_names ∧ OrderFree tasks library_names
      ↔ ∀ m ∈ library_names, ∀ n ∈ library_names,
        find_task tasks m .kTaskFind_Libraries = find_task tasks n .kTaskFind_Libraries := by
  constructor
  · rintro ⟨-, horder⟩ m hm n hn
    rw [found_eq_of_orderFree horder hm, found_eq_of_orderFree horder hn]
  · intro h
    -- the last name of any order is one of the names
    have hlast : ∀ other, other.Perm library_names → ∀ n ∈ library_names,
        lastTask tasks none other = find_task tasks n .kTaskFind_Libraries := by
      intro other hperm n hn
      rcases List.eq_nil_or_concat other with rfl | ⟨init, m, rfl⟩
      · rw [List.nil_perm] at hperm
        simp [hperm] at hn
      · rw [List.concat_eq_append] at hperm ⊢
        rw [lastTask_concat]
        exact h m (hperm.subset (by simp)) n hn
    constructor
    · intro so_name hname k hk
      rw [notifications_librariesCall, hlast _ (List.Perm.refl _) so_name hname, hk]
      simp
    · intro other hperm k
      rw [notifications_librariesCall, notifications_librariesCall]
      rcases library_names with _ | ⟨n, names⟩
      · rw [List.perm_nil.mp hperm]
      · rw [hlast _ hperm n List.mem_cons_self, hlast _ (List.Perm.refl _) n List.mem_cons_self]

/-- With one task for `a` and one for `b`, a call for both notifies the second only. -/
theorem not_notifiesAll_two :
    let tasks := [SkDogeTaskInfo.find_libraries ['a'] (some 1) true,
      SkDogeTaskInfo.find_libraries ['b'] (some 2) true]
    notifications (Sys.installed tasks) (librariesCall [some ['a'], some ['b']]) = [1]
      ∧ ¬ (NotifiesAll tasks [some ['a'], some ['b']]
        ∧ OrderFree tasks [some ['a'], some ['b']]) := by
  intro tasks
  have hnotified : notifications (Sys.installed tasks) (librariesCall [some ['a'], some ['b']])
      = [1] := by
    rw [notifications_librariesCall]
    decide
  refine ⟨hnotified, ?_⟩
  rintro ⟨hall, -⟩
  have hfirst := hall (some ['a']) (by simp) 0 (by decide)
  rw [hnotified] at hfirst
  simp at hfirst

end WatchDog
