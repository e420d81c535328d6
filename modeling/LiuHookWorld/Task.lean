/-
# Tasks that wait for a library

`sh_task.c` keeps a queue of the hooks that were asked for by name.  A hook whose library is not
loaded waits in the queue until the linker calls the constructors of the library.

A hook looks its library up first, and enters the queue afterwards, under a lock that it does
not hold in between.  The linker calls one callback at a time, and the queue does not change
while one of them goes through it.  For each task that it finishes it calls a function of the user,
which may open and close other libraries: then the linker calls a callback within this one.
-/
import LiuHookWorld.SoinfoScan
import LiuHookWorld.Switch

namespace ShadowHook

/-! ## The source -/

/-- A name without its terminating NUL. -/
abbrev LibName := List UInt8

/-- `sh_task_t`.  `lib_name` and `sym_name` are `NULL` for a hook by address. -/
structure Task where
  lib_name : Option LibName
  sym_name : Option LibName
  target_addr : ℕ
  new_addr : ℕ
  finished : Bool
  error : Bool

def sh_task_create_by_target_addr (target_addr new_addr : ℕ) : Task :=
  ⟨none, none, target_addr, new_addr, false, false⟩

def sh_task_create_by_sym_name (lib_name sym_name : LibName) (new_addr : ℕ) : Task :=
  ⟨some lib_name, some sym_name, 0, new_addr, false, false⟩

/-- A task as one of the two functions creates it. -/
inductive Task.Created : Task → Prop
  | by_target_addr {target_addr new_addr : ℕ} (ne : target_addr ≠ 0) :
      Created (sh_task_create_by_target_addr target_addr new_addr)
  | by_sym_name (lib_name sym_name : LibName) (new_addr : ℕ) :
      Created (sh_task_create_by_sym_name lib_name sym_name new_addr)

/-- What `sh_linker_get_dlinfo_by_sym_name` and `sh_linker_get_dlinfo_by_addr` return. -/
inductive Lookup where
  | ok
  | pending
  | error
deriving DecidableEq

/-- The name starts with a slash. -/
def absolute (name : LibName) : Bool := name.head? = some 0x2F

/-- The comparison of names in `sh_task_hook_pending`. -/
def names_match (dlpi_name lib_name : LibName) : Bool :=
  if absolute dlpi_name && !absolute lib_name then sh_util_ends_with dlpi_name lib_name
  else if !absolute dlpi_name && absolute lib_name then sh_util_ends_with lib_name dlpi_name
  else dlpi_name = lib_name

/-- Where a thread is in `sh_task_hook` and `sh_task_unhook`: before `sh_switch_hook`, before it
gets the lock of the queue to insert its task, or before `sh_switch_unhook`. -/
inductive TaskPc (ι : Type) where
  | idle
  | hook (self : ι)
  | insert (self : ι)
  | unhook (self : ι)

/-- The task that a thread has in its hands. -/
def TaskPc.self {ι : Type} : TaskPc ι → Option ι
  | .idle => none
  | .hook self => some self
  | .insert self => some self
  | .unhook self => some self

/-- Where a callback of the linker is: in the loop of `sh_task_hook_pending`, there before
`sh_switch_hook`, there in the function of the user that `sh_task_do_callback` calls, or between
the two parts of `sh_task_dl_fini_post`. -/
inductive TaskWalk (ι : Type) where
  | loop (dlpi_name : LibName) (rest : List ι)
  | hook (dlpi_name : LibName) (task : ι) (rest : List ι)
  | callback (dlpi_name : LibName) (rest : List ι)
  | fini (dlinfo : ExitInfo)

/-- It holds the lock of the queue. -/
def TaskWalk.locks {ι : Type} : TaskWalk ι → Bool
  | .fini _ => false
  | _ => true

/-- It is in a function of the user. -/
def TaskWalk.calling {ι : Type} : TaskWalk ι → Bool
  | .callback .. => true
  | _ => false

/-- `walks` are the callbacks of the linker that run, the innermost one first, and `called` the
libraries whose constructors were called. -/
structure TaskSystem (ι τ : Type) where
  tasks : ι → Task
  sh_tasks : List ι
  sh_tasks_unfinished_cnt : ℤ
  pc : τ → TaskPc ι
  walks : List (TaskWalk ι)
  called : List LibName

/-- The steps.  Those that call `sh_linker.c` and `sh_switch.c` have their answer.  The linker also
calls constructors and destructors without the callbacks, for example before it is probed, or
within the constructors of another library if the functions are shared. -/
inductive TaskAct (ι τ : Type) where
  | sh_task_hook (thread : τ) (self : ι) (task : Task) (lookup : Lookup) (dli_saddr : ℕ)
  | sh_switch_hook (thread : τ) (errno : Option SwitchErrno)
  | insert (thread : τ)
  | sh_task_unhook (thread : τ) (self : ι)
  | sh_switch_unhook (thread : τ) (errno : Option SwitchErrno)
  | dl_init_pre (dlpi_name : LibName)
  | look (lookup : Lookup) (dli_saddr : ℕ)
  | hook_pending (errno : Option SwitchErrno)
  | sh_task_do_callback
  | dl_fini_post (dlpi_name : LibName) (dlinfo : ExitInfo)
  | reset
  | call_constructors (dlpi_name : LibName)
  | call_destructors (dlpi_name : LibName)

namespace TaskSystem

variable {ι τ : Type} [DecidableEq ι] [DecidableEq τ]

/-- No callback holds the lock of the queue. -/
def unlocked (s : TaskSystem ι τ) : Bool := s.walks.all fun walk => !walk.locks

/-- The linker can start on a library: it is in no callback, or in a function of the user. -/
def ready (s : TaskSystem ι τ) : Bool := s.walks.head?.all TaskWalk.calling

def setPc (s : TaskSystem ι τ) (thread : τ) (pc : TaskPc ι) : TaskSystem ι τ :=
  { s with pc := Function.update s.pc thread pc }

def setTask (s : TaskSystem ι τ) (self : ι) (task : Task) : TaskSystem ι τ :=
  { s with tasks := Function.update s.tasks self task }

/-- A turn of `sh_task_hook_pending` finishes the task and calls the function of the user. -/
def finish (s : TaskSystem ι τ) (dlpi_name : LibName) (task : ι) (error : Bool)
    (rest : List ι) (walks : List (TaskWalk ι)) : TaskSystem ι τ :=
  { s.setTask task { s.tasks task with
      finished := true
      error := error || (s.tasks task).error } with
    walks := .callback dlpi_name rest :: walks }

/-- One turn of the loop of `sh_task_hook_pending`, up to `sh_switch_hook`. -/
def look (s : TaskSystem ι τ) (lookup : Lookup) (dli_saddr : ℕ) : Option (TaskSystem ι τ) :=
  match s.walks with
  | .loop _ [] :: walks => some { s with walks := walks }
  | .loop dlpi_name (task :: rest) :: walks =>
      if (s.tasks task).finished then some { s with walks := .loop dlpi_name rest :: walks }
      else
        -- a task without a name would be a null pointer
        (s.tasks task).lib_name.map fun lib_name =>
          if !names_match dlpi_name lib_name then
            { s with walks := .loop dlpi_name rest :: walks }
          else
            let s := s.setTask task { s.tasks task with target_addr := dli_saddr }
            match lookup with
            | .pending => { s with walks := .loop dlpi_name rest :: walks }
            | .ok => { s with walks := .hook dlpi_name task rest :: walks }
            | .error => s.finish dlpi_name task true rest walks
  | _ => none

/-- The function of the user returns, and the loop goes on unless the counter gets to zero. -/
def sh_task_do_callback (s : TaskSystem ι τ) : Option (TaskSystem ι τ) :=
  match s.walks with
  | .callback dlpi_name rest :: walks =>
      let unfinished_cnt := s.sh_tasks_unfinished_cnt - 1
      some { s with
        sh_tasks_unfinished_cnt := unfinished_cnt
        walks := if unfinished_cnt = 0 then walks else .loop dlpi_name rest :: walks }
  | _ => none

/-- The condition in `sh_task_dl_fini_post`. -/
def closes (dlinfo : ExitInfo) (task : Task) : Bool :=
  task.finished && task.lib_name.isSome && task.sym_name.isSome && task.target_addr ≠ 0
    && sh_util_is_in_elf_pt_load dlinfo task.target_addr

/-- The loop of `sh_task_dl_fini_post`. -/
def reset (s : TaskSystem ι τ) (dlinfo : ExitInfo) (walks : List (TaskWalk ι)) :
    TaskSystem ι τ :=
  let closed := s.sh_tasks.filter fun self => closes dlinfo (s.tasks self)
  { s with
    walks := walks
    tasks := fun self =>
      if self ∈ closed then
        { s.tasks self with target_addr := 0, error := false, finished := false }
      else s.tasks self
    sh_tasks_unfinished_cnt := s.sh_tasks_unfinished_cnt + closed.length }

def step (s : TaskSystem ι τ) : TaskAct ι τ → Option (TaskSystem ι τ)
  | .sh_task_hook thread self task lookup dli_saddr =>
      match s.pc thread, lookup with
      | .idle, .ok =>
          let task :=
            if task.target_addr = 0 then { task with target_addr := dli_saddr } else task
          some ((s.setTask self task).setPc thread (.hook self))
      | .idle, .pending =>
          -- only a lookup by name can find that the library is not loaded
          if task.target_addr = 0 then some ((s.setTask self task).setPc thread (.insert self))
          else none
      | .idle, .error => some s
      | _, _ => none
  | .sh_switch_hook thread errno =>
      match s.pc thread with
      | .hook self =>
          some ((s.setTask self { s.tasks self with finished := true }).setPc thread
            (if errno = none then .insert self else .idle))
      | _ => none
  | .insert thread =>
      match s.pc thread with
      | .insert self =>
          if s.unlocked then
            some {
              s.setPc thread .idle with
              sh_tasks := s.sh_tasks ++ [self]
              sh_tasks_unfinished_cnt :=
                if (s.tasks self).finished then s.sh_tasks_unfinished_cnt
                else s.sh_tasks_unfinished_cnt + 1 }
          else none
      | _ => none
  | .sh_task_unhook thread self =>
      match s.pc thread with
      | .idle =>
          if s.unlocked && self ∈ s.sh_tasks then
            let task := s.tasks self
            some {
              s.setPc thread (if task.error || !task.finished then .idle else .unhook self) with
              sh_tasks := s.sh_tasks.erase self
              sh_tasks_unfinished_cnt :=
                if task.finished then s.sh_tasks_unfinished_cnt
                else s.sh_tasks_unfinished_cnt - 1 }
          else none
      | _ => none
  | .sh_switch_unhook thread _ =>
      match s.pc thread with
      | .unhook _ => some (s.setPc thread .idle)
      | _ => none
  | .dl_init_pre dlpi_name =>
      if s.ready then
        -- what happens before it gets the lock could as well have happened before the step
        some {
          s with
          called := dlpi_name :: s.called
          walks :=
            if 0 < s.sh_tasks_unfinished_cnt then .loop dlpi_name s.sh_tasks :: s.walks
            else s.walks }
      else none
  | .look lookup dli_saddr => s.look lookup dli_saddr
  | .hook_pending errno =>
      match s.walks with
      | .hook dlpi_name task rest :: walks =>
          some (s.finish dlpi_name task errno.isSome rest walks)
      | _ => none
  | .sh_task_do_callback => s.sh_task_do_callback
  | .dl_fini_post dlpi_name dlinfo =>
      if s.ready then
        some {
          s with
          called := s.called.erase dlpi_name
          walks := .fini dlinfo :: s.walks }
      else none
  | .reset =>
      match s.walks with
      | .fini dlinfo :: walks => some (s.reset dlinfo walks)
      | _ => none
  | .call_constructors dlpi_name =>
      if s.ready then some { s with called := dlpi_name :: s.called } else none
  | .call_destructors dlpi_name =>
      if s.ready then some { s with called := s.called.erase dlpi_name } else none

end TaskSystem

end ShadowHook
