/-
# The tasks of the watch dog (`skDogeTaskInfo`)

Tasks, their constructors, `notify_user` and `find_task` of
`framework/sk_hook_adapter/sk_watch_dog.cpp`.

`notify_user` runs a callback, which may do anything, other loads included.  It is
split there: `notify_user` is what happens up to the call of the callback,
`notify_user_return` what happens after the callback has returned.
-/
import LiuHookWorld.CString

namespace WatchDog

/-! ## Tasks -/

/-- The characters of a C string. -/
abbrev Name := List Char

/-- A function pointer; `none` is `NULL`. -/
abbrev Callback := Option ℕ

inductive SkLinkerTaskType
  | kTaskInit
  | kTaskLinker
  | kTaskNormal
  | kTaskFind_Libraries
  deriving DecidableEq, Repr

/-- An `skModule`: its name, and which libraries were loaded when it was constructed. -/
structure SkModule where
  name : Name
  born : List Name
  deriving DecidableEq, Repr

structure SkDogeTaskInfo where
  name : Name
  type : SkLinkerTaskType
  module : Option SkModule
  is_call_init : Bool
  one_shot_init : Bool
  onInitEnter : Callback
  onInitLeave : Callback
  is_call_linker : Bool
  one_shot_linker : Bool
  onEnter : Callback
  onLeave : Callback
  hdl : ℕ
  is_call_normal : Bool
  scan_times : ℤ
  scan_limit : ℤ
  onLoaded : Callback
  one_shot_find_libraries : Bool
  is_call_find_libraries : Bool
  onFindLibrariesLoaded : Callback
  deriving DecidableEq, Repr

namespace SkDogeTaskInfo

/-- What the four constructors share: no module, no handle, nothing called. -/
def blank (n : Name) (type : SkLinkerTaskType) : SkDogeTaskInfo where
  name := n
  type := type
  module := none
  is_call_init := false
  one_shot_init := false
  onInitEnter := none
  onInitLeave := none
  is_call_linker := false
  one_shot_linker := false
  onEnter := none
  onLeave := none
  hdl := 0
  is_call_normal := false
  scan_times := 0
  scan_limit := 0
  onLoaded := none
  one_shot_find_libraries := false
  is_call_find_libraries := false
  onFindLibrariesLoaded := none

/-- `skDogeTaskInfo(n, cb, scan_limit)`. -/
def normal (n : Name) (cb : Callback) (scan_limit : ℤ) : SkDogeTaskInfo :=
  { blank n .kTaskNormal with onLoaded := cb, scan_limit := scan_limit }

/-- `skDogeTaskInfo(n, cb1, cb2, one_shot)` for `call_array`. -/
def init (n : Name) (cb1 cb2 : Callback) (one_shot : Bool) : SkDogeTaskInfo :=
  { blank n .kTaskInit with onInitEnter := cb1, onInitLeave := cb2, one_shot_init := one_shot }

/-- `skDogeTaskInfo(n, cb1, cb2, one_shot)` for `do_dlopen`. -/
def linker (n : Name) (cb1 cb2 : Callback) (one_shot : Bool) : SkDogeTaskInfo :=
  { blank n .kTaskLinker with onEnter := cb1, onLeave := cb2, one_shot_linker := one_shot }

/-- `skDogeTaskInfo(n, cb, one_shot_find_libraries)`. -/
def find_libraries (n : Name) (cb : Callback) (one_shot : Bool) : SkDogeTaskInfo :=
  { blank n .kTaskFind_Libraries with
    onFindLibrariesLoaded := cb, one_shot_find_libraries := one_shot }

/-- The task as it was when it was installed. -/
def installed (task : SkDogeTaskInfo) : SkDogeTaskInfo :=
  { task with
    module := none, is_call_init := false, is_call_linker := false, hdl := 0,
    is_call_normal := false, scan_times := 0, is_call_find_libraries := false }

end SkDogeTaskInfo

/-! ## `notify_user` -/

/-- The callback members of a task. -/
inductive Which
  | onInitEnter
  | onInitLeave
  | onEnter
  | onLeave
  | onLoaded
  | onFindLibrariesLoaded
  deriving DecidableEq, Repr

/-- The callbacks for the time before the original function runs. -/
def Which.isEnter : Which → Bool
  | onInitEnter | onEnter => true
  | onInitLeave | onLeave | onLoaded | onFindLibrariesLoaded => false

/-- A call of a callback: which one, the pointer, and the `skModule *` it receives. -/
structure Invocation where
  which : Which
  cb : ℕ
  module : Option SkModule
  deriving DecidableEq, Repr

namespace SkDogeTaskInfo

def callback (task : SkDogeTaskInfo) : Which → Callback
  | .onInitEnter => task.onInitEnter
  | .onInitLeave => task.onInitLeave
  | .onEnter => task.onEnter
  | .onLeave => task.onLeave
  | .onLoaded => task.onLoaded
  | .onFindLibrariesLoaded => task.onFindLibrariesLoaded

/-- A call of a callback member, `onEnter()` without an argument, the others with the module. -/
def invoke (task : SkDogeTaskInfo) (which : Which) : Option Invocation :=
  (task.callback which).map fun cb =>
    ⟨which, cb, if which = .onEnter then none else task.module⟩

/-- `if(module == NULL) { module = new skModule(name); }` when `loads` are loaded. -/
def with_module (task : SkDogeTaskInfo) (loads : List Name) : SkDogeTaskInfo :=
  if task.module = none then { task with module := some ⟨task.name, loads⟩ } else task

/-- `notify_user(is_called_ori)` up to the callback it calls, if it calls one. -/
def notify_user (task : SkDogeTaskInfo) (loads : List Name) (is_called_ori : Bool) :
    SkDogeTaskInfo × Option Invocation :=
  match task.type with
  | .kTaskInit =>
      let task := task.with_module loads
      if task.onInitEnter ≠ none ∧ !is_called_ori ∧ (!task.one_shot_init ∨ !task.is_call_init) then
        (task, task.invoke .onInitEnter)
      else if task.onInitLeave ≠ none ∧ (!task.one_shot_init ∨ !task.is_call_init) then
        (task, task.invoke .onInitLeave)
      else (task, none)
  | .kTaskLinker =>
      -- the guard that `kTaskInit` does not have
      if !is_called_ori ∧ task.onEnter = none then (task, none)
      else if !is_called_ori ∧ (!task.one_shot_linker ∨ !task.is_call_linker) then
        (task, task.invoke .onEnter)
      else
        let task := task.with_module loads
        if task.onLeave ≠ none ∧ (!task.one_shot_linker ∨ !task.is_call_linker) then
          (task, task.invoke .onLeave)
        else (task, none)
  | .kTaskNormal =>
      let task := task.with_module loads
      if task.onLoaded ≠ none ∧ !task.is_call_normal then (task, task.invoke .onLoaded)
      else (task, none)
  | .kTaskFind_Libraries =>
      let task := task.with_module loads
      if task.onFindLibrariesLoaded ≠ none
          ∧ (!task.one_shot_find_libraries ∨ !task.is_call_find_libraries) then
        (task, task.invoke .onFindLibrariesLoaded)
      else (task, none)

/-- The rest of `notify_user` after its callback has returned. -/
def notify_user_return (task : SkDogeTaskInfo) : Which → SkDogeTaskInfo
  | .onInitEnter | .onEnter => task
  | .onInitLeave => { task with is_call_init := true }
  | .onLeave => { task with is_call_linker := true }
  | .onLoaded => { task with is_call_normal := true }
  | .onFindLibrariesLoaded => { task with is_call_find_libraries := true }

/-! ## The same for the four types -/

/-- The callback for before the original function. -/
def enter_cb (task : SkDogeTaskInfo) : Callback :=
  match task.type with
  | .kTaskInit => task.onInitEnter
  | .kTaskLinker => task.onEnter
  | .kTaskNormal | .kTaskFind_Libraries => none

/-- The member that holds the callback for before the original function. -/
def enter (task : SkDogeTaskInfo) : Which :=
  match task.type with
  | .kTaskInit => .onInitEnter
  | .kTaskLinker | .kTaskNormal | .kTaskFind_Libraries => .onEnter

/-- The member that holds the callback for after the original function. -/
def leave (task : SkDogeTaskInfo) : Which :=
  match task.type with
  | .kTaskInit => .onInitLeave
  | .kTaskLinker => .onLeave
  | .kTaskNormal => .onLoaded
  | .kTaskFind_Libraries => .onFindLibrariesLoaded

/-- The callback for after the original function. -/
def leave_cb (task : SkDogeTaskInfo) : Callback := task.callback task.leave

/-- Whether the task is for one notification only. -/
def one_shot (task : SkDogeTaskInfo) : Bool :=
  match task.type with
  | .kTaskInit => task.one_shot_init
  | .kTaskLinker => task.one_shot_linker
  | .kTaskNormal => true
  | .kTaskFind_Libraries => task.one_shot_find_libraries

/-- The flag that a leave callback has been called. -/
def is_call (task : SkDogeTaskInfo) : Bool :=
  match task.type with
  | .kTaskInit => task.is_call_init
  | .kTaskLinker => task.is_call_linker
  | .kTaskNormal => task.is_call_normal
  | .kTaskFind_Libraries => task.is_call_find_libraries

/-- The test of the flags that stands before every callback. -/
def Ready (task : SkDogeTaskInfo) : Prop := task.one_shot = true → task.is_call = false

instance (task : SkDogeTaskInfo) : Decidable task.Ready :=
  inferInstanceAs (Decidable (_ → _))

/-! ## What stays as it was installed -/

section

variable {t t' : SkDogeTaskInfo} (h : t'.installed = t.installed)

include h

theorem name_of_installed : t'.name = t.name := by
  have := congrArg name h
  exact this

theorem type_of_installed : t'.type = t.type := by
  have := congrArg type h
  exact this

theorem callback_of_installed (which : Which) : t'.callback which = t.callback which := by
  have := congrArg (callback · which) h
  cases which <;> exact this

theorem one_shot_of_installed : t'.one_shot = t.one_shot := by
  have hshot := congrArg one_shot h
  exact hshot

theorem leave_of_installed : t'.leave = t.leave := by
  have hleave := congrArg leave h
  exact hleave

theorem enter_of_installed : t'.enter = t.enter := by
  have henter := congrArg enter h
  exact henter

theorem enter_cb_of_installed : t'.enter_cb = t.enter_cb := by
  have hcb := congrArg enter_cb h
  exact hcb

end

variable {task : SkDogeTaskInfo} {loads : List Name}

/-! ## What `notify_user` does -/

@[simp] theorem with_module_installed : (task.with_module loads).installed = task.installed := by
  unfold with_module
  split <;> rfl

theorem with_module_eq : task.with_module loads = { task with
    module := some (task.module.getD ⟨task.name, loads⟩) } := by
  unfold with_module
  cases h : task.module with
  | none => rfl
  | some m =>
      rw [if_neg (by simp)]
      show task = { task with module := some m }
      rw [← h]

@[simp] theorem isEnter_enter : task.enter.isEnter = true := by
  unfold enter
  split <;> rfl

@[simp] theorem isEnter_leave : task.leave.isEnter = false := by
  unfold leave
  split <;> rfl

theorem enter_cb_eq (h : task.enter_cb ≠ none) : task.enter_cb = task.callback task.enter := by
  unfold enter_cb at h ⊢
  unfold enter
  cases htype : task.type with
  | kTaskInit | kTaskLinker => rfl
  | kTaskNormal | kTaskFind_Libraries =>
      rw [htype] at h
      exact absurd rfl h

/-- When `notify_user` calls the enter callback. -/
def CallsEnter (task : SkDogeTaskInfo) (is_called_ori : Bool) : Prop :=
  task.Ready ∧ is_called_ori = false ∧ task.enter_cb ≠ none

/-- When `notify_user` calls the leave callback: after the original function, and before it
where there is no enter callback and no test for that. -/
def CallsLeave (task : SkDogeTaskInfo) (is_called_ori : Bool) : Prop :=
  task.Ready ∧ task.leave_cb ≠ none
    ∧ (is_called_ori = true ∨ task.enter_cb = none ∧ task.type ≠ .kTaskLinker)

instance (is_called_ori : Bool) : Decidable (task.CallsEnter is_called_ori) :=
  inferInstanceAs (Decidable (_ ∧ _))

instance (is_called_ori : Bool) : Decidable (task.CallsLeave is_called_ori) :=
  inferInstanceAs (Decidable (_ ∧ _))

/-- `notify_user` only ever constructs the module. -/
theorem notify_user_fst (loads : List Name) (is_called_ori : Bool) :
    (task.notify_user loads is_called_ori).1 =
      if task.type = .kTaskLinker ∧ is_called_ori = false ∧ (task.enter_cb = none ∨ task.Ready)
      then task else task.with_module loads := by
  cases htype : task.type with
  | kTaskInit =>
      rw [if_neg (by simp)]
      simp only [notify_user, htype]
      split_ifs <;> rfl
  | kTaskLinker =>
      simp only [notify_user, htype, enter_cb, Ready, one_shot, is_call]
      cases is_called_ori <;> cases task.onEnter <;> cases task.one_shot_linker <;>
        cases task.is_call_linker <;> simp <;> split_ifs <;> rfl
  | kTaskNormal =>
      rw [if_neg (by simp)]
      simp only [notify_user, htype]
      split_ifs <;> rfl
  | kTaskFind_Libraries =>
      rw [if_neg (by simp)]
      simp only [notify_user, htype]
      split_ifs <;> rfl

/-- `notify_user` calls the enter callback before the original function and the leave
callback otherwise, each under the same test; only the linker branch never calls the leave
callback before the original function. -/
theorem notify_user_snd (loads : List Name) (is_called_ori : Bool) :
    (task.notify_user loads is_called_ori).2 =
      if task.Ready then
        if is_called_ori = false ∧ task.enter_cb ≠ none then
          (task.notify_user loads is_called_ori).1.invoke task.enter
        else if is_called_ori = false ∧ task.type = .kTaskLinker then none
        else (task.notify_user loads is_called_ori).1.invoke task.leave
      else none := by
  cases htype : task.type with
  | kTaskInit =>
      simp only [notify_user, htype, enter_cb, Ready, one_shot, is_call, with_module_eq, enter,
        leave, invoke, callback]
      cases is_called_ori <;> cases task.onInitEnter <;> cases task.onInitLeave <;>
        cases task.one_shot_init <;> cases task.is_call_init <;> simp
  | kTaskLinker =>
      simp only [notify_user, htype, enter_cb, Ready, one_shot, is_call, with_module_eq, enter,
        leave, invoke, callback]
      cases is_called_ori <;> rcases hcb : task.onEnter with _ | f <;> cases task.onLeave <;>
        cases task.one_shot_linker <;> cases task.is_call_linker <;> simp [hcb]
  | kTaskNormal =>
      simp only [notify_user, htype, enter_cb, Ready, one_shot, is_call, with_module_eq, enter,
        leave, invoke, callback]
      cases is_called_ori <;> cases task.onLoaded <;> cases task.is_call_normal <;> simp
  | kTaskFind_Libraries =>
      simp only [notify_user, htype, enter_cb, Ready, one_shot, is_call, with_module_eq, enter,
        leave, invoke, callback]
      cases is_called_ori <;> cases task.onFindLibrariesLoaded <;>
        cases task.one_shot_find_libraries <;> cases task.is_call_find_libraries <;> simp

theorem callback_notify_user (loads : List Name) (is_called_ori : Bool) (which : Which) :
    (task.notify_user loads is_called_ori).1.callback which = task.callback which := by
  rw [notify_user_fst, with_module_eq]
  split_ifs <;> cases which <;> rfl

/-- A callback that `notify_user` calls is the enter or the leave callback. -/
theorem calls_of_notify_user {is_called_ori : Bool} {inv : Invocation}
    (h : (task.notify_user loads is_called_ori).2 = some inv) :
    (inv.which = task.enter ∧ task.CallsEnter is_called_ori)
      ∨ (inv.which = task.leave ∧ task.CallsLeave is_called_ori) := by
  rw [notify_user_snd] at h
  split_ifs at h with hready henter hlinker
  · obtain ⟨f, -, rfl⟩ := Option.map_eq_some_iff.mp h
    exact Or.inl ⟨rfl, hready, henter⟩
  · obtain ⟨f, hf, rfl⟩ := Option.map_eq_some_iff.mp h
    rw [callback_notify_user] at hf
    refine Or.inr ⟨rfl, hready, ?_, ?_⟩
    · unfold leave_cb
      rw [hf]
      simp
    · cases is_called_ori
      · exact Or.inr ⟨by simpa using henter, by simpa using hlinker⟩
      · exact Or.inl rfl

/-- Where `notify_user` calls nothing there was nothing to call. -/
theorem not_calls_of_notify_user {is_called_ori : Bool}
    (h : (task.notify_user loads is_called_ori).2 = none) :
    ¬ task.CallsEnter is_called_ori ∧ ¬ task.CallsLeave is_called_ori := by
  rw [notify_user_snd] at h
  constructor
  · rintro ⟨hready, henter⟩
    rw [if_pos hready, if_pos henter, invoke, Option.map_eq_none_iff, callback_notify_user] at h
    exact henter.2 ((enter_cb_eq henter.2).trans h)
  · rintro ⟨hready, hleave, hwhen⟩
    have henter : ¬ (is_called_ori = false ∧ task.enter_cb ≠ none) := by
      rintro ⟨rfl, hcb⟩
      rcases hwhen with hwhen | hwhen
      · simp at hwhen
      · exact hcb hwhen.1
    have hlinker : ¬ (is_called_ori = false ∧ task.type = .kTaskLinker) := by
      rintro ⟨rfl, htype⟩
      rcases hwhen with hwhen | hwhen
      · simp at hwhen
      · exact hwhen.2 htype
    rw [if_pos hready, if_neg henter, if_neg hlinker, invoke, Option.map_eq_none_iff,
      callback_notify_user] at h
    exact hleave h

/-- A leave callback receives the module, which `notify_user` has constructed if need be. -/
theorem module_of_notify_user {is_called_ori : Bool} {inv : Invocation}
    (h : (task.notify_user loads is_called_ori).2 = some inv) (hleave : inv.which = task.leave) :
    (task.notify_user loads is_called_ori).1 = task.with_module loads
      ∧ inv.module = (task.with_module loads).module := by
  rcases calls_of_notify_user h with ⟨hwhich, -⟩ | ⟨-, hready, -, hwhen⟩
  · have henter : task.enter.isEnter = false := by
      rw [← hwhich, hleave]
      exact isEnter_leave
    rw [isEnter_enter] at henter
    simp at henter
  · have hfst : (task.notify_user loads is_called_ori).1 = task.with_module loads := by
      rw [notify_user_fst, if_neg]
      rintro ⟨htype, rfl, -⟩
      rcases hwhen with hwhen | hwhen
      · simp at hwhen
      · exact hwhen.2 htype
    refine ⟨hfst, ?_⟩
    rw [notify_user_snd, if_pos hready, if_neg, if_neg, hfst] at h
    · obtain ⟨f, -, rfl⟩ := Option.map_eq_some_iff.mp h
      show (if task.leave = .onEnter then none else _) = _
      rw [if_neg]
      unfold leave
      split <;> simp
    · rintro ⟨rfl, htype⟩
      rcases hwhen with hwhen | hwhen
      · simp at hwhen
      · exact hwhen.2 htype
    · rintro ⟨rfl, hcb⟩
      rcases hwhen with hwhen | hwhen
      · simp at hwhen
      · exact hcb hwhen.1

/-- `notify_user` sets no flag before its callback has returned. -/
@[simp] theorem notify_user_is_call (loads : List Name) (is_called_ori : Bool) :
    (task.notify_user loads is_called_ori).1.is_call = task.is_call := by
  rw [notify_user_fst, with_module_eq]
  split_ifs <;> rfl

/-- The flag is set when the leave callback has returned. -/
theorem notify_user_return_leave : (task.notify_user_return task.leave).is_call = true := by
  unfold leave is_call notify_user_return
  cases task.type <;> simp

theorem notify_user_return_enter : task.notify_user_return task.enter = task := by
  unfold enter
  split <;> rfl

end SkDogeTaskInfo

end WatchDog
