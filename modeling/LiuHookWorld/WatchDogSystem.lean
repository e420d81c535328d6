/-
# The watch dog at work

The state machine of the installs and of the replacement functions `do_dlopen_2_replace`,
`do_dlopen_3_replace`, `do_dlopen_4_replace`, `call_array_replace` and
`find_libraries_replace` in any number of threads.  An action is one step of one thread;
a lookup and an insertion, each under the lock, are one step each, and so is
`notify_user` up to its callback.  While the original function or a callback runs, its
thread may enter further replacements or installs.

All calls ever made stay in the list of calls, the later ones behind.  `trace` and
`fired` record what happened; no step depends on them.
-/
import LiuHookWorld.Runs
import LiuHookWorld.WatchDogRegistry

namespace WatchDog

/-! ## Calls -/

/-- A call of a replacement function, with the names it looks up. -/
inductive HookCall
  | do_dlopen_2 (filename : Option Name)
  | do_dlopen_3 (filename : Option Name)
  | do_dlopen_4 (filename : Option Name)
  | call_array (realpath : Option Name)
  | find_libraries (library_names : List (Option Name))
  deriving DecidableEq, Repr

namespace HookCall

/-- The type of task the replacement looks up. -/
def type : HookCall → SkLinkerTaskType
  | do_dlopen_2 _ | do_dlopen_3 _ | do_dlopen_4 _ => .kTaskLinker
  | call_array _ => .kTaskInit
  | find_libraries _ => .kTaskFind_Libraries

/-- The names it looks up, one after the other. -/
def names : HookCall → List (Option Name)
  | do_dlopen_2 filename | do_dlopen_3 filename | do_dlopen_4 filename => [filename]
  | call_array realpath => [realpath]
  | find_libraries library_names => library_names

/-- What is loaded once the original function has returned `result`: a handle other than
`NULL`, or `true`.  `call_array` loads nothing. -/
def loaded (hook : HookCall) (result : ℕ) : List Name :=
  if result = 0 ∨ hook.type = .kTaskInit then [] else hook.names.filterMap id

end HookCall

/-- Where a call is. -/
inductive Pc
  /-- Before the lookups of these names. -/
  | look (rest : List (Option Name))
  /-- Before `notify_user(is_called_ori)`. -/
  | notify (is_called_ori : Bool)
  /-- In a callback that `notify_user(is_called_ori)` called. -/
  | callback (is_called_ori : Bool) (which : Which)
  /-- In the original function. -/
  | calling
  /-- Before the return. -/
  | ret
  | done
  deriving DecidableEq, Repr

/-- Other code runs on the thread of the call, or the call is over. -/
def Pc.Outside : Pc → Prop
  | callback _ _ | calling | done => True
  | look _ | notify _ | ret => False

instance : DecidablePred Pc.Outside
  | .callback _ _ | .calling | .done => isTrue trivial
  | .look _ | .notify _ | .ret => isFalse id

/-- What a call has done so far. -/
inductive Event
  | invoked (which : Which)
  | called
  | returned
  deriving DecidableEq, Repr

/-- A call of a replacement function; `orig` is what the original returned to it, `value`
what it returned itself. -/
structure Call where
  thread : ℕ
  hook : HookCall
  pc : Pc
  task : Option ℕ
  orig : Option ℕ
  value : Option ℕ
  trace : List Event
  deriving DecidableEq, Repr

namespace Call

/-- A call begins with the search for its names. -/
def start (thread : ℕ) (hook : HookCall) : Call :=
  ⟨thread, hook, .look hook.names, none, none, none, []⟩

/-- The original function is called. -/
def toOriginal (c : Call) : Call :=
  { c with pc := .calling, trace := c.trace ++ [.called] }

/-- After the lookups: `find_libraries_replace` notifies only after the original. -/
def afterLook (c : Call) : Call :=
  if c.task = none ∨ c.hook.type = .kTaskFind_Libraries then c.toOriginal
  else { c with pc := .notify false }

/-- After `notify_user(is_called_ori)`. -/
def afterNotify (c : Call) (is_called_ori : Bool) : Call :=
  if is_called_ori then { c with pc := .ret } else c.toOriginal

/-- A callback is entered. -/
def toCallback (c : Call) (is_called_ori : Bool) (which : Which) : Call :=
  { c with pc := .callback is_called_ori which, trace := c.trace ++ [.invoked which] }

/-- What follows the first part of `notify_user(is_called_ori)`. -/
def notified (c : Call) (is_called_ori : Bool) : Option Invocation → Call
  | none => c.afterNotify is_called_ori
  | some inv => c.toCallback is_called_ori inv.which

/-- The original function has returned. -/
def afterOriginal (c : Call) (result : ℕ) : Call :=
  { c with
    -- a call without a task notifies nobody
    pc := if c.task = none then .ret else .notify true,
    orig := some result,
    trace := c.trace ++ [.returned] }

section

variable (c : Call) (is_called_ori : Bool) (inv : Option Invocation) (result : ℕ)

@[simp] theorem afterLook_hook : c.afterLook.hook = c.hook := by
  unfold afterLook
  split_ifs <;> rfl

@[simp] theorem afterLook_task : c.afterLook.task = c.task := by
  unfold afterLook
  split_ifs <;> rfl

@[simp] theorem afterLook_orig : c.afterLook.orig = c.orig := by
  unfold afterLook
  split_ifs <;> rfl

/-- A call that has found a task notifies it before the original function. -/
theorem afterLook_pc : c.afterLook.pc = .calling ∨ c.afterLook.pc = .notify false := by
  unfold afterLook
  split_ifs
  · exact Or.inl rfl
  · exact Or.inr rfl

@[simp] theorem afterNotify_hook : (c.afterNotify is_called_ori).hook = c.hook := by
  cases is_called_ori <;> rfl

@[simp] theorem afterNotify_task : (c.afterNotify is_called_ori).task = c.task := by
  cases is_called_ori <;> rfl

@[simp] theorem afterNotify_orig : (c.afterNotify is_called_ori).orig = c.orig := by
  cases is_called_ori <;> rfl

/-- After the notification the original function is called, or the call returns. -/
@[simp] theorem afterNotify_pc :
    (c.afterNotify is_called_ori).pc = if is_called_ori then .ret else .calling := by
  cases is_called_ori <;> rfl

@[simp] theorem notified_hook : (c.notified is_called_ori inv).hook = c.hook := by
  cases inv
  · exact afterNotify_hook c is_called_ori
  · rfl

@[simp] theorem notified_task : (c.notified is_called_ori inv).task = c.task := by
  cases inv
  · exact afterNotify_task c is_called_ori
  · rfl

@[simp] theorem notified_orig : (c.notified is_called_ori inv).orig = c.orig := by
  cases inv
  · exact afterNotify_orig c is_called_ori
  · rfl

/-- A notification may call the user. -/
theorem notified_pc : (c.notified is_called_ori inv).pc =
    match inv with
    | none => if is_called_ori then .ret else .calling
    | some inv => .callback is_called_ori inv.which := by
  cases inv
  · exact afterNotify_pc c is_called_ori
  · rfl

theorem afterNotify_trace : (c.afterNotify is_called_ori).trace =
    if is_called_ori then c.trace else c.trace ++ [.called] := by
  cases is_called_ori <;> rfl

theorem notified_trace : (c.notified is_called_ori inv).trace =
    match inv with
    | none => if is_called_ori then c.trace else c.trace ++ [.called]
    | some inv => c.trace ++ [.invoked inv.which] := by
  cases inv
  · exact afterNotify_trace c is_called_ori
  · rfl

@[simp] theorem afterOriginal_pc :
    (c.afterOriginal result).pc = if c.task = none then .ret else .notify true := rfl

end

end Call

/-! ## States and steps -/

/-- A callback that was called: by which call, for which task, with which module, and what
the original function had returned to the call by then. -/
structure Firing where
  call : ℕ
  task : ℕ
  which : Which
  module : Option SkModule
  orig : Option ℕ
  deriving DecidableEq, Repr

/-- An install between its duplicate check, made when the list had `seen` tasks, and its
insertion. -/
structure Pending where
  thread : ℕ
  info : SkDogeTaskInfo
  seen : ℕ
  deriving DecidableEq, Repr

/-- The tasks, the installs that are under way, and the calls of the hooks. -/
structure Sys where
  va : Bool
  tasks : List SkDogeTaskInfo
  pending : List Pending
  calls : List Call
  loads : List Name
  fired : List Firing
  deriving DecidableEq, Repr

/-- No task is installed. -/
def Sys.start (va : Bool) : Sys := ⟨va, [], [], [], [], []⟩

inductive Act
  /-- An install is called and makes its duplicate check. -/
  | install (thread : ℕ) (request : Request)
  /-- The `j`-th pending install inserts. -/
  | push (j : ℕ)
  | enter (thread : ℕ) (hook : HookCall)
  /-- The `i`-th call makes a step of its own. -/
  | next (i : ℕ)
  | callbackReturns (i : ℕ)
  | originalReturns (i : ℕ) (result : ℕ)
  deriving DecidableEq, Repr

namespace Sys

/-- The thread may begin something: it runs neither a replacement nor an install. -/
def Idle (s : Sys) (thread : ℕ) : Prop :=
  (∀ c ∈ s.calls, c.thread = thread → c.pc.Outside) ∧ ∀ p ∈ s.pending, p.thread ≠ thread

instance (s : Sys) (thread : ℕ) : Decidable (s.Idle thread) :=
  inferInstanceAs (Decidable (_ ∧ _))

/-- The call is the innermost unfinished one of its thread. -/
def OnTop (s : Sys) (i : ℕ) (c : Call) : Prop :=
  (∀ d ∈ s.calls.drop (i + 1), d.thread = c.thread → d.pc = .done)
    ∧ ∀ p ∈ s.pending, p.thread ≠ c.thread

instance (s : Sys) (i : ℕ) (c : Call) : Decidable (s.OnTop i c) :=
  inferInstanceAs (Decidable (_ ∧ _))

/-- The call `i` becomes `c`. -/
def setCall (s : Sys) (i : ℕ) (c : Call) : Sys := { s with calls := s.calls.set i c }

/-- `notify_user(is_called_ori)` on the task `k`, for the call `i`. -/
def notify (s : Sys) (i : ℕ) (c : Call) (k : ℕ) (t : SkDogeTaskInfo) (is_called_ori : Bool) :
    Sys :=
  let (t', invocation) := t.notify_user s.loads is_called_ori
  { s with
    tasks := s.tasks.set k t',
    calls := s.calls.set i (c.notified is_called_ori invocation),
    fired := s.fired ++
      (invocation.map fun inv => ⟨i, k, inv.which, inv.module, c.orig⟩).toList }

section

variable (s : Sys) (i : ℕ) (c : Call) (k : ℕ) (t : SkDogeTaskInfo) (is_called_ori : Bool)

@[simp] theorem notify_tasks : (s.notify i c k t is_called_ori).tasks
    = s.tasks.set k (t.notify_user s.loads is_called_ori).1 := rfl

@[simp] theorem notify_calls : (s.notify i c k t is_called_ori).calls
    = s.calls.set i (c.notified is_called_ori (t.notify_user s.loads is_called_ori).2) := rfl

@[simp] theorem notify_fired : (s.notify i c k t is_called_ori).fired
    = s.fired ++ ((t.notify_user s.loads is_called_ori).2.map fun inv =>
        ⟨i, k, inv.which, inv.module, c.orig⟩).toList := rfl

@[simp] theorem notify_loads : (s.notify i c k t is_called_ori).loads = s.loads := rfl

@[simp] theorem setCall_calls : (s.setCall i c).calls = s.calls.set i c := rfl

end

/-- `task->hdl = do_dlopen_implement(…)`; without a task, or in the other replacements,
the result stays local. -/
def storeHandle (s : Sys) (c : Call) (result : ℕ) : List SkDogeTaskInfo :=
  match c.task with
  | none => s.tasks
  | some k =>
      if c.hook.type = .kTaskLinker then s.tasks.modify k fun t => { t with hdl := result }
      else s.tasks

/-- Only the task of a load gets another handle. -/
theorem storeHandle_getElem? {s : Sys} {c : Call} {result k : ℕ} {t : SkDogeTaskInfo}
    (ht : s.tasks[k]? = some t) : (s.storeHandle c result)[k]? = some
      (if c.task = some k ∧ c.hook.type = .kTaskLinker then { t with hdl := result } else t) := by
  unfold storeHandle
  cases htask : c.task with
  | none => simp [ht]
  | some j =>
      by_cases hlinker : c.hook.type = .kTaskLinker
      · by_cases hjk : j = k
        · simp [hlinker, hjk, ht]
        · simp [hlinker, hjk, ht]
      · simp [hlinker, ht]

/-- What the call returns: `task->hdl` where it stored one, its own result elsewhere. -/
def returnValue (s : Sys) (c : Call) : Option ℕ :=
  match c.task with
  | none => c.orig
  | some k =>
      if c.hook.type = .kTaskLinker then s.tasks[k]?.map SkDogeTaskInfo.hdl else c.orig

/-- The next step of the call `i` itself. -/
def next (s : Sys) (i : ℕ) (c : Call) : Option Sys :=
  match c.pc with
  | .look (name :: rest) =>
      some (s.setCall i { c with pc := .look rest, task := find_task s.tasks name c.hook.type })
  | .look [] => some (s.setCall i c.afterLook)
  | .notify is_called_ori =>
      match c.task with
      | none => none
      | some k => s.tasks[k]?.map fun t => s.notify i c k t is_called_ori
  | .ret => some (s.setCall i { c with pc := .done, value := s.returnValue c })
  | .callback _ _ | .calling | .done => none

/-- The duplicate check of an install. -/
def check (s : Sys) (thread : ℕ) (info : SkDogeTaskInfo) : Sys :=
  if (find_task s.tasks (some info.name) info.type).isSome then s
  else { s with pending := s.pending ++ [⟨thread, info, s.tasks.length⟩] }

end Sys

/-- The step of each action, where it is enabled. -/
def step (s : Sys) : Act → Option Sys
  | .install thread request =>
      if s.Idle thread then some (s.check thread (request.info s.va)) else none
  | .push j =>
      s.pending[j]?.map fun p =>
        { s with tasks := s.tasks ++ [p.info], pending := s.pending.eraseIdx j }
  | .enter thread hook =>
      if s.Idle thread then some { s with calls := s.calls ++ [Call.start thread hook] } else none
  | .next i =>
      match s.calls[i]? with
      | none => none
      | some c => if s.OnTop i c then s.next i c else none
  | .callbackReturns i =>
      match s.calls[i]? with
      | none => none
      | some c =>
          match c.pc, c.task with
          | .callback is_called_ori which, some k =>
              if s.OnTop i c then
                some ({ s with tasks := s.tasks.modify k (·.notify_user_return which) }.setCall i
                  (c.afterNotify is_called_ori))
              else none
          | _, _ => none
  | .originalReturns i result =>
      match s.calls[i]? with
      | none => none
      | some c =>
          if c.pc = .calling ∧ s.OnTop i c then
            some ({ s with
              tasks := s.storeHandle c result,
              loads := s.loads ++ c.hook.loaded result }.setCall i (c.afterOriginal result))
          else none

end WatchDog
