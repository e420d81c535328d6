/-
# The task list of the watch dog (`find_task`, `install_*`)

A lookup takes the first task of the type whose name occurs in the given name, and an
install adds nothing if a lookup of its own name succeeds.  The list is thus a
first-match list, with occurrence for matching.

Which callbacks a sequence of installs by one thread can serve follows from that
(`exists_first_serving`, `allFound_iff_oneServes`).
-/
import LiuHookWorld.FirstMatch
import LiuHookWorld.WatchDogTask

namespace WatchDog

open SkDogeTaskInfo

/-! ## The source -/

/-- `find_task(name, type)`: the position of the task it returns. -/
def find_task (tasks : List SkDogeTaskInfo) (name : Option Name) (type : SkLinkerTaskType) :
    Option ℕ :=
  match name with
  | none => none
  | some name => tasks.findIdx? fun curr =>
      if curr.type ≠ type then false else (CString.strstr name curr.name).isSome

/-- `WATCH_DOG_SLEEP_TIME`. -/
def WATCH_DOG_SLEEP_TIME : ℤ := 5

/-- A call of one of the four install functions. -/
inductive Request
  | install_cb (n : Name) (cb : Callback) (scan_limit : ℤ)
  | install_init_cb (n : Name) (cb1 cb2 : Callback) (one_shot : Bool)
  | install_linker_cb (n : Name) (cb1 cb2 : Callback) (one_shot : Bool)
  | install_linker_find_libraries_cb (n : Name) (cb : Callback) (one_shot_find_libraries : Bool)
  deriving DecidableEq, Repr

/-- The task that a request is to add; `va` is `sk_pkg_get_is_va()`, under which linker
callbacks become scanner callbacks. -/
def Request.info (va : Bool) : Request → SkDogeTaskInfo
  | .install_cb n cb scan_limit => normal n cb scan_limit
  | .install_init_cb n cb1 cb2 one_shot => init n cb1 cb2 one_shot
  | .install_linker_cb n cb1 cb2 one_shot =>
      if va then normal n cb2 (1000 / WATCH_DOG_SLEEP_TIME * 300) else linker n cb1 cb2 one_shot
  | .install_linker_find_libraries_cb n cb one_shot => find_libraries n cb one_shot

/-- An install that nothing interrupts: the duplicate check, then the insertion. -/
def install (va : Bool) (tasks : List SkDogeTaskInfo) (request : Request) : List SkDogeTaskInfo :=
  let info := request.info va
  if (find_task tasks (some info.name) info.type).isSome then tasks else tasks ++ [info]

/-- The installs of one thread, in order. -/
def installAll (va : Bool) (requests : List Request) : List SkDogeTaskInfo :=
  requests.foldl (install va) []

/-! ## The list as a first-match list -/

/-- A task serves lookups of its type for names in which its own occurs. -/
def Serves (task : SkDogeTaskInfo) (key : Name × SkLinkerTaskType) : Prop :=
  task.type = key.2 ∧ task.name <:+: key.1

instance (task : SkDogeTaskInfo) (key : Name × SkLinkerTaskType) : Decidable (Serves task key) :=
  inferInstanceAs (Decidable (_ ∧ _))

/-- The lookup of a task's own name. -/
def ownKey (task : SkDogeTaskInfo) : Name × SkLinkerTaskType := (task.name, task.type)

theorem serves_ownKey (task : SkDogeTaskInfo) : Serves task (ownKey task) :=
  ⟨rfl, List.infix_rfl⟩

theorem Serves.trans {task other : SkDogeTaskInfo} {key : Name × SkLinkerTaskType}
    (h : Serves task (ownKey other)) (hother : Serves other key) : Serves task key :=
  ⟨h.1.trans hother.1, h.2.trans hother.2⟩

theorem find_task_eq (tasks : List SkDogeTaskInfo) (name : Name) (type : SkLinkerTaskType) :
    find_task tasks (some name) type = FirstMatch.find Serves tasks (name, type) := by
  show List.findIdx? _ tasks = List.findIdx? _ tasks
  congr 1
  funext curr
  by_cases htype : curr.type = type
  · rw [if_neg (by simpa using htype)]
    apply Bool.eq_iff_iff.mpr
    rw [CString.strstr_isSome_iff, decide_eq_true_iff]
    exact ⟨fun h => ⟨htype, h⟩, fun h => h.2⟩
  · rw [if_pos htype]
    symm
    apply decide_eq_false
    rintro ⟨h, -⟩
    exact htype h

theorem find_task_eq_none_iff {tasks : List SkDogeTaskInfo} {name : Name}
    {type : SkLinkerTaskType} :
    find_task tasks (some name) type = none ↔ ∀ t ∈ tasks, ¬ Serves t (name, type) := by
  rw [find_task_eq, FirstMatch.find_eq_none_iff]

/-- What `find_task` returns is the first task that serves the name. -/
theorem find_task_eq_some_iff {tasks : List SkDogeTaskInfo} {name : Name}
    {type : SkLinkerTaskType} {i : ℕ} :
    find_task tasks (some name) type = some i ↔ ∃ t, tasks[i]? = some t ∧ Serves t (name, type)
      ∧ ∀ j u, j < i → tasks[j]? = some u → ¬ Serves u (name, type) := by
  rw [find_task_eq, FirstMatch.find_eq_some_iff]

theorem exists_of_find_task {tasks : List SkDogeTaskInfo} {name : Option Name}
    {type : SkLinkerTaskType} {i : ℕ} (h : find_task tasks name type = some i) :
    ∃ n t, name = some n ∧ tasks[i]? = some t ∧ t.type = type ∧ t.name <:+: n := by
  cases name with
  | none => simp [find_task] at h
  | some n =>
      obtain ⟨t, ht, ⟨htype, hname⟩, -⟩ := find_task_eq_some_iff.mp h
      exact ⟨n, t, rfl, ht, htype, hname⟩

theorem install_eq_insert (va : Bool) (tasks : List SkDogeTaskInfo) (request : Request) :
    install va tasks request = FirstMatch.insert Serves ownKey tasks (request.info va) := by
  unfold install FirstMatch.insert
  dsimp only
  rw [find_task_eq]
  rfl

theorem installAll_eq_insertAll (va : Bool) (requests : List Request) :
    installAll va requests
      = FirstMatch.insertAll Serves ownKey (requests.map (Request.info va)) := by
  unfold installAll FirstMatch.insertAll
  rw [List.foldl_map]
  congr 1
  funext tasks request
  exact install_eq_insert va tasks request

/-! ## Which callbacks a sequence of installs serves -/

/-- Every callback installed under a name that occurs in the path is the one whose task
`find_task` returns for this path. -/
def AllFound (va : Bool) (requests : List Request) (type : SkLinkerTaskType) (path : Name) :
    Prop :=
  ∀ r ∈ requests, Serves (r.info va) (path, type) →
    ∃ i, find_task (installAll va requests) (some path) type = some i
      ∧ (installAll va requests)[i]? = some (r.info va)

/-- No two different callbacks are installed under names that occur in the path. -/
def OneServes (va : Bool) (requests : List Request) (type : SkLinkerTaskType) (path : Name) :
    Prop :=
  ∀ r ∈ requests, ∀ r' ∈ requests, Serves (r.info va) (path, type) →
    Serves (r'.info va) (path, type) → r.info va = r'.info va

theorem allFound_iff_oneServes (va : Bool) (requests : List Request) (type : SkLinkerTaskType)
    (path : Name) : AllFound va requests type path ↔ OneServes va requests type path := by
  have hall := FirstMatch.all_found_iff serves_ownKey (fun _ _ _ => Serves.trans)
    (requests.map (Request.info va)) (path, type)
  rw [← installAll_eq_insertAll, ← find_task_eq] at hall
  constructor
  · intro h r hr r' hr' hs hs'
    refine hall.mp ?_ _ (List.mem_map_of_mem hr) _ (List.mem_map_of_mem hr') hs hs'
    intro a ha hR
    obtain ⟨r, hr, rfl⟩ := List.mem_map.mp ha
    exact h r hr hR
  · intro h r hr hs
    refine hall.mpr ?_ _ (List.mem_map_of_mem hr) hs
    intro a ha b hb hRa hRb
    obtain ⟨r, hr, rfl⟩ := List.mem_map.mp ha
    obtain ⟨r', hr', rfl⟩ := List.mem_map.mp hb
    exact h r hr r' hr' hRa hRb

/-- An install adds its task exactly when no task that is there serves its name. -/
theorem install_adds_iff (va : Bool) (tasks : List SkDogeTaskInfo) (r : Request) :
    install va tasks r = tasks ++ [r.info va]
      ↔ ∀ t ∈ tasks, ¬ Serves t (ownKey (r.info va)) := by
  rw [install_eq_insert]
  constructor
  · intro h t ht hserves
    rw [FirstMatch.insert_of_matched ht hserves] at h
    simp at h
  · exact FirstMatch.insert_of_not_matched

/-- A name that an installed name occurs in is served: by the first task added whose name
occurs in it. -/
theorem exists_first_serving (va : Bool) {requests : List Request} {type : SkLinkerTaskType}
    {path : Name} {r : Request} (hr : r ∈ requests) (hserves : Serves (r.info va) (path, type)) :
    ∃ i t, find_task (installAll va requests) (some path) type = some i
      ∧ (installAll va requests)[i]? = some t ∧ Serves t (path, type)
      ∧ ∀ j u, j < i → (installAll va requests)[j]? = some u → ¬ Serves u (path, type) := by
  obtain ⟨i, t, hi, -, -, -⟩ := FirstMatch.find_insertAll serves_ownKey
    (fun _ _ _ => Serves.trans) (List.mem_map_of_mem (f := Request.info va) hr) hserves
  -- a task that was refused has one in the list that serves all it would have served
  rw [← installAll_eq_insertAll, ← find_task_eq] at hi
  obtain ⟨t, ht, hs, hfirst⟩ := find_task_eq_some_iff.mp hi
  exact ⟨i, t, hi, ht, hs, hfirst⟩

/-- One more install adds its task unless one that serves its name is there. -/
theorem installAll_append_iff (va : Bool) (requests : List Request) (r : Request) :
    installAll va (requests ++ [r]) = installAll va requests ++ [r.info va]
      ↔ ∀ t ∈ installAll va requests, ¬ Serves t (ownKey (r.info va)) := by
  have happend : installAll va (requests ++ [r]) = install va (installAll va requests) r := by
    unfold installAll
    rw [List.foldl_append]
    rfl
  rw [happend]
  exact install_adds_iff va _ r

end WatchDog
