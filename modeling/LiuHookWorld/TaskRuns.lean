/-
# Runs of tasks

Threads hook and unhook by name and by address, while the linker loads libraries.
-/
import LiuHookWorld.Task

namespace ShadowHook

namespace TaskSystem

variable {ι τ : Type} {s s' : TaskSystem ι τ}

/-! ## Waiting -/

/-- A task is not finished. -/
def unfinished (s : TaskSystem ι τ) (self : ι) : Bool := !(s.tasks self).finished

/-- A task is one for the library. -/
def Names (s : TaskSystem ι τ) (dlpi_name : LibName) (self : ι) : Prop :=
  ∃ lib_name, (s.tasks self).lib_name = some lib_name ∧ names_match dlpi_name lib_name

/-- A task is one for the library, and the constructors of the library were called. -/
def Called (s : TaskSystem ι τ) (dlpi_name : LibName) (self : ι) : Prop :=
  dlpi_name ∈ s.called ∧ s.Names dlpi_name self

end TaskSystem

/-- The tasks that a callback has not done yet. -/
def TaskWalk.toVisit {ι : Type} : TaskWalk ι → List ι
  | .loop _ rest => rest
  | .hook _ task rest => task :: rest
  | .callback _ rest => rest
  | .fini _ => []

/-- The library whose constructors are about to be called. -/
def TaskWalk.visiting {ι : Type} : TaskWalk ι → Option LibName
  | .loop dlpi_name _ => some dlpi_name
  | .hook dlpi_name _ _ => some dlpi_name
  | .callback dlpi_name _ => some dlpi_name
  | .fini _ => none

namespace TaskSystem

variable {ι τ : Type} {s s' : TaskSystem ι τ}

/-- A callback for the library is still to get to the task. -/
def Visits (walks : List (TaskWalk ι)) (dlpi_name : LibName) (self : ι) : Prop :=
  ∃ walk ∈ walks, walk.visiting = some dlpi_name ∧ self ∈ walk.toVisit

/-- The counter is the number of the tasks that are not finished and of those whose function of
the user is called right now; no null name is read; and a callback for the library is still to get
to every task that waits for a library whose constructors were called. -/
structure Waits (s : TaskSystem ι τ) : Prop where
  cnt : s.sh_tasks_unfinished_cnt
    = s.sh_tasks.countP s.unfinished + s.walks.countP TaskWalk.calling
  named : ∀ self ∈ s.sh_tasks, s.unfinished self → (s.tasks self).lib_name.isSome
  waits : ∀ self ∈ s.sh_tasks, s.unfinished self → ∀ dlpi_name, s.Called dlpi_name self →
    Visits s.walks dlpi_name self

/-- What holds of the callbacks: they go through the queue, all but the innermost one are in a
function of the user, and they hook what is not finished. -/
structure Walks (s : TaskSystem ι τ) : Prop where
  nodup : s.sh_tasks.Nodup
  visit : ∀ walk ∈ s.walks, walk.toVisit.Sublist s.sh_tasks
  nested : ∀ walk ∈ s.walks.tail, walk.calling
  hook : ∀ dlpi_name task rest walks, s.walks = .hook dlpi_name task rest :: walks →
    s.unfinished task

/-- What holds of the queue, and of the callbacks that go through it. -/
structure Queue (s : TaskSystem ι τ) : Prop where
  waits : s.Waits
  walks : s.Walks

/-- What holds of the threads: their tasks are in the hands of no other one, nor in the queue. -/
structure Threads (s : TaskSystem ι τ) : Prop where
  apart : ∀ thread self, (s.pc thread).self = some self → self ∉ s.sh_tasks
  one : ∀ thread thread' self, (s.pc thread).self = some self →
    (s.pc thread').self = some self → thread = thread'
  named : ∀ thread self, s.pc thread = .insert self → s.unfinished self →
    (s.tasks self).lib_name.isSome

/-! ## The callbacks -/

theorem visits_cons {walk : TaskWalk ι} {walks : List (TaskWalk ι)} {dlpi_name : LibName}
    {self : ι} : Visits (walk :: walks) dlpi_name self ↔
      (walk.visiting = some dlpi_name ∧ self ∈ walk.toVisit) ∨ Visits walks dlpi_name self :=
  List.exists_mem_cons_iff _ _ _

theorem toVisit_of_unlocked (h : s.unlocked) : ∀ walk ∈ s.walks, walk.toVisit = [] := by
  intro walk hwalk
  have hlocks := List.all_eq_true.mp h walk hwalk
  cases walk with
  | fini dlinfo => rfl
  | loop dlpi_name rest => cases hlocks
  | hook dlpi_name task rest => cases hlocks
  | callback dlpi_name rest => cases hlocks

theorem not_visits_of_unlocked (h : s.unlocked) (dlpi_name : LibName) (self : ι) :
    ¬ Visits s.walks dlpi_name self := by
  rintro ⟨walk, hwalk, -, hmem⟩
  rw [toVisit_of_unlocked h walk hwalk] at hmem
  cases hmem

theorem Walks.calling (h : Walks s) (hready : s.ready) : ∀ walk ∈ s.walks, walk.calling := by
  have hnested := h.nested
  unfold ready at hready
  cases hwalks : s.walks with
  | nil => exact fun walk hwalk => (by cases hwalk)
  | cons top walks =>
      rw [hwalks] at hready hnested
      exact List.forall_mem_cons.mpr ⟨hready, hnested⟩

/-- The innermost callback returns. -/
theorem Walks.pop (h : Walks s) {top : TaskWalk ι} {walks : List (TaskWalk ι)}
    (hwalks : s.walks = top :: walks) : Walks { s with walks := walks } := by
  have hnested : ∀ walk ∈ walks, walk.calling := by
    have hnested := h.nested
    rwa [hwalks] at hnested
  refine ⟨h.nodup, fun walk hwalk => h.visit walk (hwalks ▸ List.mem_cons_of_mem _ hwalk),
    fun walk hwalk => hnested walk (List.mem_of_mem_tail hwalk),
    fun dlpi_name task rest walks' hhook => ?_⟩
  have hcalling := hnested (.hook dlpi_name task rest) ((show walks = _ from hhook) ▸
    List.mem_cons_self ..)
  cases hcalling

/-- A callback starts, while every other one is in a function of the user. -/
theorem Walks.push (h : Walks s) (hcalling : ∀ walk ∈ s.walks, walk.calling) {walk : TaskWalk ι}
    (hvisit : walk.toVisit.Sublist s.sh_tasks)
    (hhook : ∀ dlpi_name task rest, walk = .hook dlpi_name task rest → s.unfinished task) :
    Walks { s with walks := walk :: s.walks } := by
  refine ⟨h.nodup, List.forall_mem_cons.mpr ⟨hvisit, h.visit⟩, hcalling,
    fun dlpi_name task rest walks heq => ?_⟩
  exact hhook dlpi_name task rest (List.cons.inj heq).1

/-- The innermost callback goes on. -/
theorem Walks.turn (h : Walks s) {top : TaskWalk ι} {walks : List (TaskWalk ι)}
    (hwalks : s.walks = top :: walks) (walk : TaskWalk ι)
    (hvisit : walk.toVisit.Sublist top.toVisit)
    (hhook : ∀ dlpi_name task rest, walk = .hook dlpi_name task rest → s.unfinished task) :
    Walks { s with walks := walk :: walks } := by
  refine (h.pop hwalks).push (fun other hother => h.nested other ?_) ?_ hhook
  · rw [hwalks]
    exact hother
  · exact hvisit.trans (h.visit top (hwalks ▸ List.mem_cons_self ..))

theorem Walks.congr (h : Walks s) (hqueue : s'.sh_tasks = s.sh_tasks)
    (hwalks : s'.walks = s.walks)
    (htasks : ∀ self ∈ s.sh_tasks, s'.unfinished self = s.unfinished self) : Walks s' := by
  refine ⟨hqueue ▸ h.nodup, fun walk hwalk => ?_, hwalks ▸ h.nested,
    fun dlpi_name task rest walks heq => ?_⟩
  · rw [hqueue]
    exact h.visit walk (hwalks ▸ hwalk)
  · rw [hwalks] at heq
    have hmem : task ∈ s.sh_tasks :=
      (h.visit _ (heq ▸ List.mem_cons_self ..)).subset (List.mem_cons_self ..)
    rw [htasks task hmem]
    exact h.hook _ _ _ _ heq

/-! ## The queue -/

/-- What is asked of the queue does not depend on the rest.  Destructors may be called. -/
theorem Queue.congr (h : Queue s) (hqueue : s'.sh_tasks = s.sh_tasks)
    (hcnt : s'.sh_tasks_unfinished_cnt = s.sh_tasks_unfinished_cnt) (hwalks : s'.walks = s.walks)
    (hcalled : s'.called ⊆ s.called) (htasks : ∀ self ∈ s.sh_tasks,
      (s'.tasks self).finished = (s.tasks self).finished ∧
        (s'.tasks self).lib_name = (s.tasks self).lib_name) : Queue s' := by
  have hunfinished : ∀ self ∈ s.sh_tasks, s'.unfinished self = s.unfinished self :=
    fun self hself => congrArg Bool.not (htasks self hself).1
  refine ⟨⟨?_, fun self hself hun => ?_, fun self hself hun dlpi_name hlib => ?_⟩,
    h.walks.congr hqueue hwalks hunfinished⟩
  · rw [hcnt, hqueue, hwalks, h.waits.cnt]
    congr 2
    exact List.countP_congr fun self hself => by rw [hunfinished self hself]
  · rw [hqueue] at hself
    rw [hunfinished self hself] at hun
    rw [(htasks self hself).2]
    exact h.waits.named self hself hun
  · rw [hqueue] at hself
    rw [hunfinished self hself] at hun
    rw [Called, Names, (htasks self hself).2] at hlib
    rw [hwalks]
    exact h.waits.waits self hself hun dlpi_name ⟨hcalled hlib.1, hlib.2⟩

/-- Where the callbacks are changes, and they are still to get to the same tasks. -/
theorem Waits.walk (h : Waits s) {walks : List (TaskWalk ι)}
    (hcalling : walks.countP TaskWalk.calling = s.walks.countP TaskWalk.calling)
    (hvisits : ∀ self ∈ s.sh_tasks, s.unfinished self → ∀ dlpi_name, s.Called dlpi_name self →
      Visits s.walks dlpi_name self → Visits walks dlpi_name self) :
    Waits { s with walks := walks } := by
  refine ⟨?_, h.named, fun self hself hun dlpi_name hlib =>
    hvisits self hself hun dlpi_name hlib (h.waits self hself hun dlpi_name hlib)⟩
  show s.sh_tasks_unfinished_cnt
    = s.sh_tasks.countP s.unfinished + (walks.countP TaskWalk.calling : ℕ)
  rw [hcalling]
  exact h.cnt

/-- A callback starts. -/
theorem Queue.push (h : Queue s) (hready : s.ready) (walk : TaskWalk ι)
    (hcalling : ¬ walk.calling) (hvisit : walk.toVisit.Sublist s.sh_tasks)
    (hhook : ∀ dlpi_name task rest, walk = .hook dlpi_name task rest → s.unfinished task) :
    Queue { s with walks := walk :: s.walks } :=
  ⟨h.waits.walk (List.countP_cons_of_neg hcalling) fun _ _ _ _ _ hvisits =>
    visits_cons.mpr (.inr hvisits), h.walks.push (h.walks.calling hready) hvisit hhook⟩

/-- The constructors of a library are called, and no task is left behind. -/
theorem Queue.grow (h : Queue s) {dlpi_name : LibName}
    (hvisits : ∀ self ∈ s.sh_tasks, s.unfinished self → s.Names dlpi_name self →
      Visits s.walks dlpi_name self) : Queue { s with called := dlpi_name :: s.called } := by
  refine ⟨⟨h.waits.cnt, h.waits.named, fun self hself hun name hlib => ?_⟩,
    h.walks.congr rfl rfl fun _ _ => rfl⟩
  rcases List.mem_cons.mp hlib.1 with rfl | hmem
  · exact hvisits self hself hun hlib.2
  · exact h.waits.waits self hself hun name ⟨hmem, hlib.2⟩

/-- The callback goes through the whole queue, unless nothing waits in it. -/
theorem Queue.init (h : Queue s) (dlpi_name : LibName) (hready : s.ready) :
    Queue { s with
      called := dlpi_name :: s.called
      walks := if 0 < s.sh_tasks_unfinished_cnt then .loop dlpi_name s.sh_tasks :: s.walks
        else s.walks } := by
  by_cases hpos : 0 < s.sh_tasks_unfinished_cnt
  · rw [if_pos hpos]
    have hpush := h.push hready (.loop dlpi_name s.sh_tasks) Bool.false_ne_true
      (List.Sublist.refl _) (fun _ _ _ heq => (by cases heq))
    exact hpush.grow fun self hself _ _ => visits_cons.mpr (.inl ⟨rfl, hself⟩)
  · rw [if_neg hpos]
    refine h.grow fun self hself hun _ => ?_
    have hcount := h.waits.cnt
    have hone : 0 < s.sh_tasks.countP s.unfinished := List.countP_pos_iff.mpr ⟨self, hself, hun⟩
    omega

/-- The callback goes on behind a task that is finished, whose library is another one, or that a
callback outside of it is still to get to. -/
theorem Queue.skip (h : Queue s) {dlpi_name : LibName} {task : ι} {rest : List ι}
    {walks : List (TaskWalk ι)} (hwalks : s.walks = .loop dlpi_name (task :: rest) :: walks)
    (hleft : s.unfinished task → s.Called dlpi_name task → Visits walks dlpi_name task) :
    Queue { s with walks := .loop dlpi_name rest :: walks } := by
  refine ⟨h.waits.walk ?_ fun self _ hun name hlib hvisits => ?_,
    h.walks.turn hwalks _ (List.sublist_cons_self ..) fun _ _ _ heq => (by cases heq)⟩
  · rw [hwalks]
    rfl
  · rw [hwalks] at hvisits
    rcases visits_cons.mp hvisits with ⟨hname, hmem⟩ | hvisits
    · rcases List.mem_cons.mp hmem with rfl | hmem
      · obtain rfl := Option.some.inj hname
        exact visits_cons.mpr (.inr (hleft hun hlib))
      · exact visits_cons.mpr (.inl ⟨hname, hmem⟩)
    · exact visits_cons.mpr (.inr hvisits)

/-- The callback stops at the end of the queue. -/
theorem Queue.stop (h : Queue s) {dlpi_name : LibName} {walks : List (TaskWalk ι)}
    (hwalks : s.walks = .loop dlpi_name [] :: walks) : Queue { s with walks := walks } := by
  refine ⟨h.waits.walk ?_ fun self _ _ name _ hvisits => ?_, h.walks.pop hwalks⟩
  · rw [hwalks]
    rfl
  · rw [hwalks] at hvisits
    rcases visits_cons.mp hvisits with ⟨-, hmem⟩ | hvisits
    · cases hmem
    · exact hvisits

/-- The callback is about to hook a task. -/
theorem Queue.found (h : Queue s) {dlpi_name : LibName} {task : ι} {rest : List ι}
    {walks : List (TaskWalk ι)} (hwalks : s.walks = .loop dlpi_name (task :: rest) :: walks)
    (hun : s.unfinished task) : Queue { s with walks := .hook dlpi_name task rest :: walks } := by
  refine ⟨h.waits.walk ?_ fun self _ _ name _ hvisits => ?_,
    h.walks.turn hwalks _ (List.Sublist.refl _) fun name task' rest' heq => ?_⟩
  · rw [hwalks]
    rfl
  · rw [hwalks] at hvisits
    have hvisits' := visits_cons.mp hvisits
    exact visits_cons.mpr hvisits'
  · obtain ⟨-, rfl, -⟩ := TaskWalk.hook.inj heq
    exact hun

/-- The function of the user returns.  If the callback stops then, no other task waits. -/
theorem Queue.callback (h : Queue s) (hstep : s.sh_task_do_callback = some s') : Queue s' := by
  unfold sh_task_do_callback at hstep
  split at hstep
  · rename_i dlpi_name rest walks hwalks
    obtain rfl := Option.some.inj hstep
    have hcount := h.waits.cnt
    rw [hwalks, List.countP_cons_of_pos rfl] at hcount
    by_cases hzero : s.sh_tasks_unfinished_cnt - 1 = 0
    · rw [if_pos hzero]
      refine ⟨⟨?_, h.waits.named, fun self hself hun => ?_⟩, (h.walks.pop hwalks).congr rfl rfl
        fun _ _ => rfl⟩
      · show s.sh_tasks_unfinished_cnt - 1
          = s.sh_tasks.countP s.unfinished + (walks.countP TaskWalk.calling : ℕ)
        omega
      · have hone : 0 < s.sh_tasks.countP s.unfinished :=
          List.countP_pos_iff.mpr ⟨self, hself, hun⟩
        omega
    · rw [if_neg hzero]
      refine ⟨⟨?_, h.waits.named, fun self hself hun name hlib => ?_⟩,
        (h.walks.turn hwalks (.loop dlpi_name rest) (List.Sublist.refl _)
          fun _ _ _ heq => (by cases heq)).congr rfl rfl fun _ _ => rfl⟩
      · show s.sh_tasks_unfinished_cnt - 1 = s.sh_tasks.countP s.unfinished
          + ((TaskWalk.loop dlpi_name rest :: walks).countP TaskWalk.calling : ℕ)
        rw [List.countP_cons_of_neg Bool.false_ne_true]
        omega
      · have hvisits := h.waits.waits self hself hun name hlib
        rw [hwalks] at hvisits
        have hvisits' := visits_cons.mp hvisits
        exact visits_cons.mpr hvisits'
  · cases hstep

/-- The callback does not touch the tasks of the threads. -/
theorem Threads.congr (h : Threads s) (hpc : s'.pc = s.pc) (hqueue : s'.sh_tasks = s.sh_tasks)
    (htasks : ∀ self, self ∉ s.sh_tasks → s'.tasks self = s.tasks self) : Threads s' := by
  refine ⟨fun t self ht => ?_, fun t t' self ht ht' => ?_, fun t self ht hun => ?_⟩
  · rw [hpc] at ht
    rw [hqueue]
    exact h.apart t self ht
  · rw [hpc] at ht ht'
    exact h.one t t' self ht ht'
  · rw [hpc] at ht
    have hsame := htasks self (h.apart t self (by rw [ht]; rfl))
    rw [unfinished, hsame] at hun
    rw [hsame]
    exact h.named t self ht hun

/-! ## The tasks -/

/-- What meets one of two conditions, where nothing meets both. -/
theorem countP_or {queue : List ι} {p q : ι → Bool} (h : ∀ self ∈ queue, p self → ¬ q self) :
    queue.countP (fun self => p self || q self) = queue.countP p + queue.countP q := by
  induction queue with
  | nil => rfl
  | cons head tail ih =>
      have hhead := h head (List.mem_cons_self ..)
      have htail := ih fun self hself => h self (List.mem_cons_of_mem _ hself)
      rw [List.countP_cons, List.countP_cons, List.countP_cons, htail]
      cases hp : p head with
      | false => simp only [Bool.false_or, Bool.false_eq_true, if_false]; omega
      | true =>
          have hq : q head = false := by simpa using hhead hp
          simp only [hq, Bool.or_false, Bool.false_eq_true, if_false, if_true]
          omega

section

variable [DecidableEq ι]

@[simp] theorem unfinished_setTask (self : ι) (task : Task) (other : ι) :
    (s.setTask self task).unfinished other
      = if other = self then !task.finished else s.unfinished other := by
  unfold unfinished setTask
  simp only [Function.update_apply]
  split <;> rfl

theorem setTask_tasks_of_ne {self other : ι} {task : Task} (hne : other ≠ self) :
    (s.setTask self task).tasks other = s.tasks other :=
  Function.update_of_ne hne ..

theorem Queue.setTask (h : Queue s) {self : ι} (task : Task) (hnew : self ∉ s.sh_tasks) :
    Queue (s.setTask self task) := by
  refine h.congr rfl rfl rfl (List.Subset.refl _) fun other hmem => ?_
  rw [setTask_tasks_of_ne fun heq : other = self => hnew (heq ▸ hmem)]
  exact ⟨rfl, rfl⟩

/-- A task that is finished is one less that is not. -/
theorem countP_finish (dlpi_name : LibName) {task : ι} (rest : List ι)
    (walks : List (TaskWalk ι)) (hnodup : s.sh_tasks.Nodup) (hmem : task ∈ s.sh_tasks)
    (hun : s.unfinished task) (error : Bool) : s.sh_tasks.countP s.unfinished
      = s.sh_tasks.countP (s.finish dlpi_name task error rest walks).unfinished + 1 := by
  have hunfinished : ∀ other, (s.finish dlpi_name task error rest walks).unfinished other
      = if other = task then false else s.unfinished other :=
    fun other => unfinished_setTask task _ other
  rw [← List.count_eq_one_of_mem hnodup hmem, List.count, ← countP_or]
  · refine List.countP_congr fun other _ => ?_
    rw [hunfinished]
    by_cases heq : other = task
    · simp [heq, hun]
    · simp [heq]
  · intro other _ hother heq
    rw [hunfinished, if_pos (eq_of_beq heq)] at hother
    cases hother

/-- The callback finishes the task that it is at, and calls the function of the user. -/
theorem Queue.finish (h : Queue s) {top : TaskWalk ι} {dlpi_name : LibName} {task : ι}
    {rest : List ι} {walks : List (TaskWalk ι)} (hwalks : s.walks = top :: walks)
    (hvisit : top.toVisit = task :: rest) (hname : top.visiting = some dlpi_name)
    (hcalling : ¬ top.calling) (hun : s.unfinished task) (error : Bool) :
    Queue (s.finish dlpi_name task error rest walks) := by
  have hmem : task ∈ s.sh_tasks :=
    (h.walks.visit top (hwalks ▸ List.mem_cons_self ..)).subset (hvisit ▸ List.mem_cons_self ..)
  have hother : ∀ other, (s.finish dlpi_name task error rest walks).unfinished other →
      other ≠ task ∧ s.unfinished other := by
    intro other hother
    have hset : (s.finish dlpi_name task error rest walks).unfinished other
        = if other = task then false else s.unfinished other := unfinished_setTask task _ other
    rw [hset] at hother
    split at hother
    · cases hother
    · rename_i hne
      exact ⟨hne, hother⟩
  have hlib : ∀ other, other ≠ task →
      (s.finish dlpi_name task error rest walks).tasks other = s.tasks other :=
    fun other hne => Function.update_of_ne hne _ _
  refine ⟨⟨?_, fun other hmem' hun' => ?_, fun other hmem' hun' name hcalled => ?_⟩, ?_⟩
  · have hcount := h.waits.cnt
    rw [hwalks, List.countP_cons_of_neg hcalling,
      countP_finish dlpi_name rest walks h.walks.nodup hmem hun error] at hcount
    show s.sh_tasks_unfinished_cnt
      = (s.sh_tasks.countP (s.finish dlpi_name task error rest walks).unfinished : ℕ)
        + ((TaskWalk.callback dlpi_name rest :: walks).countP TaskWalk.calling : ℕ)
    rw [List.countP_cons_of_pos rfl, hcount]
    omega
  · obtain ⟨hne, hun'⟩ := hother other hun'
    rw [hlib other hne]
    exact h.waits.named other hmem' hun'
  · obtain ⟨hne, hun'⟩ := hother other hun'
    rw [Called, Names, hlib other hne] at hcalled
    have hvisits := h.waits.waits other hmem' hun' name hcalled
    rw [hwalks] at hvisits
    rcases visits_cons.mp hvisits with ⟨hname', hin⟩ | hvisits
    · rw [hvisit] at hin
      exact visits_cons.mpr
        (.inl ⟨hname.symm.trans hname', (List.mem_cons.mp hin).resolve_left hne⟩)
    · exact visits_cons.mpr (.inr hvisits)
  · have hturn := h.walks.turn hwalks (.callback dlpi_name rest)
      (hvisit ▸ List.sublist_cons_self ..) fun _ _ _ heq => (by cases heq)
    refine ⟨hturn.nodup, hturn.visit, hturn.nested, fun _ _ _ _ heq => ?_⟩
    cases (List.cons.inj heq).1

theorem Threads.finish (h : Threads s) {dlpi_name : LibName} {task : ι} {rest : List ι}
    {walks : List (TaskWalk ι)} (hmem : task ∈ s.sh_tasks) (error : Bool) :
    Threads (s.finish dlpi_name task error rest walks) :=
  h.congr rfl rfl fun self hself =>
    Function.update_of_ne (fun heq : self = task => hself (heq ▸ hmem)) _ _

theorem reset_tasks {dlinfo : ExitInfo} {walks : List (TaskWalk ι)} {self : ι}
    (hmem : self ∈ s.sh_tasks) :
    (s.reset dlinfo walks).unfinished self = (s.unfinished self || closes dlinfo (s.tasks self)) ∧
      ((s.reset dlinfo walks).tasks self).lib_name = (s.tasks self).lib_name := by
  by_cases hcloses : closes dlinfo (s.tasks self)
  · have hin : self ∈ s.sh_tasks.filter fun self => closes dlinfo (s.tasks self) :=
      List.mem_filter.mpr ⟨hmem, hcloses⟩
    simp only [unfinished, TaskSystem.reset, if_pos hin, hcloses, Bool.not_false, Bool.or_true,
      and_self]
  · have hin : self ∉ s.sh_tasks.filter fun self => closes dlinfo (s.tasks self) :=
      fun hin => hcloses (List.mem_filter.mp hin).2
    simp only [unfinished, TaskSystem.reset, if_neg hin, hcloses, Bool.or_false, and_self]

theorem reset_called {dlinfo : ExitInfo} {walks : List (TaskWalk ι)} {dlpi_name : LibName}
    {self : ι} (hmem : self ∈ s.sh_tasks) :
    (s.reset dlinfo walks).Called dlpi_name self ↔ s.Called dlpi_name self := by
  unfold Called Names
  rw [(reset_tasks hmem).2]
  rfl

/-- Only finished tasks are reset. -/
theorem finished_of_closes {dlinfo : ExitInfo} {task : Task} (h : closes dlinfo task) :
    task.finished ∧ task.lib_name.isSome := by
  unfold closes at h
  simp only [Bool.and_eq_true] at h
  exact ⟨h.1.1.1.1, h.1.1.1.2⟩

theorem Queue.reset (h : Queue s) {dlinfo : ExitInfo} {walks : List (TaskWalk ι)}
    (hwalks : s.walks = .fini dlinfo :: walks)
    (hintime : ∀ self ∈ s.sh_tasks, closes dlinfo (s.tasks self) → ∀ dlpi_name,
      s.Called dlpi_name self → Visits walks dlpi_name self) :
    Queue (s.reset dlinfo walks) := by
  have hpop := h.walks.pop hwalks
  refine ⟨⟨?_, fun other hmem hun => ?_, fun other hmem hun name hcalled => ?_⟩,
    hpop.nodup, hpop.visit, hpop.nested, fun name task rest walks' heq => ?_⟩
  · have hor : s.sh_tasks.countP (s.reset dlinfo walks).unfinished
        = s.sh_tasks.countP s.unfinished
          + s.sh_tasks.countP fun self => closes dlinfo (s.tasks self) := by
      rw [← countP_or]
      · exact List.countP_congr fun other hmem => by rw [(reset_tasks hmem).1]
      · intro other _ hun hcloses
        rw [unfinished, (finished_of_closes hcloses).1] at hun
        cases hun
    have hcount := h.waits.cnt
    rw [hwalks, List.countP_cons_of_neg Bool.false_ne_true] at hcount
    show s.sh_tasks_unfinished_cnt
        + (s.sh_tasks.filter fun self => closes dlinfo (s.tasks self)).length
      = (s.sh_tasks.countP (s.reset dlinfo walks).unfinished : ℕ)
        + (walks.countP TaskWalk.calling : ℕ)
    rw [hor, ← List.countP_eq_length_filter, hcount]
    omega
  · have hmem' : other ∈ s.sh_tasks := hmem
    rw [(reset_tasks hmem').2]
    rw [(reset_tasks hmem').1, Bool.or_eq_true] at hun
    rcases hun with hun | hcloses
    · exact h.waits.named other hmem hun
    · exact (finished_of_closes hcloses).2
  · have hmem' : other ∈ s.sh_tasks := hmem
    rw [reset_called hmem'] at hcalled
    rw [(reset_tasks hmem').1, Bool.or_eq_true] at hun
    rcases hun with hun | hcloses
    · have hvisits := h.waits.waits other hmem hun name hcalled
      rw [hwalks] at hvisits
      exact (visits_cons.mp hvisits).resolve_left fun hfini => (by cases hfini.1)
    · exact hintime other hmem hcloses name hcalled
  · have hcalling := hpop.hook name task rest walks' heq
    have hmem : task ∈ s.sh_tasks := (hpop.visit (.hook name task rest) ((show walks = _ from heq) ▸
      List.mem_cons_self ..)).subset (List.mem_cons_self ..)
    rw [(reset_tasks hmem).1, show s.unfinished task from hcalling, Bool.true_or]

end

/-! ## The threads -/

section

variable [DecidableEq τ]

theorem Queue.setPc (h : Queue s) (thread : τ) (pc : TaskPc ι) : Queue (s.setPc thread pc) :=
  h.congr rfl rfl rfl (List.Subset.refl _) fun _ _ => ⟨rfl, rfl⟩

/-- A thread takes a task that nobody else has. -/
theorem Threads.take (h : Threads s) {thread : τ} {self : ι} {pc : TaskPc ι}
    (hpc : s'.pc = Function.update s.pc thread pc) (hself : pc.self = some self)
    (hnew : self ∉ s'.sh_tasks) (hqueue : s'.sh_tasks ⊆ s.sh_tasks)
    (hfresh : ∀ other, other ≠ thread → (s.pc other).self ≠ some self)
    (htasks : ∀ other, other ≠ self → s'.tasks other = s.tasks other)
    (hnamed : pc = .insert self → s'.unfinished self → (s'.tasks self).lib_name.isSome) :
    Threads s' := by
  have hother : ∀ other, other ≠ thread → s'.pc other = s.pc other := by
    intro other hne
    rw [hpc, Function.update_of_ne hne]
  have hthread : s'.pc thread = pc := by rw [hpc, Function.update_self]
  refine ⟨fun t self' ht => ?_, fun t t' self' ht ht' => ?_, fun t self' ht hun => ?_⟩
  · by_cases heq : t = thread
    · rw [heq, hthread, hself] at ht
      exact Option.some.inj ht ▸ hnew
    · rw [hother t heq] at ht
      exact fun hmem => h.apart t self' ht (hqueue hmem)
  · by_cases heq : t = thread
    · rw [heq, hthread, hself] at ht
      obtain rfl := Option.some.inj ht
      by_contra hne
      have hne' : t' ≠ thread := fun h => hne (heq.trans h.symm)
      rw [hother t' hne'] at ht'
      exact hfresh t' hne' ht'
    · rw [hother t heq] at ht
      by_cases heq' : t' = thread
      · rw [heq', hthread, hself] at ht'
        obtain rfl := Option.some.inj ht'
        exact absurd ht (hfresh t heq)
      · rw [hother t' heq'] at ht'
        exact h.one t t' self' ht ht'
  · by_cases heq : t = thread
    · rw [heq, hthread] at ht
      rw [ht] at hself
      obtain rfl := Option.some.inj hself
      exact hnamed ht hun
    · rw [hother t heq] at ht
      have hne : self' ≠ self := by
        rintro rfl
        exact hfresh t heq (by rw [ht]; rfl)
      rw [unfinished, htasks self' hne] at hun
      rw [htasks self' hne]
      exact h.named t self' ht hun

/-- A thread lets its task go. -/
theorem Threads.drop (h : Threads s) {thread : τ} (hpc : s'.pc = Function.update s.pc thread .idle)
    (htasks : ∀ t self, t ≠ thread → (s.pc t).self = some self → s'.tasks self = s.tasks self)
    (hqueue : ∀ t self, t ≠ thread → (s.pc t).self = some self → self ∉ s'.sh_tasks) :
    Threads s' := by
  have hother : ∀ t self, (s'.pc t).self = some self →
      t ≠ thread ∧ (s.pc t).self = some self ∧ s'.pc t = s.pc t := by
    intro t self ht
    rw [hpc, Function.update_apply] at ht
    split at ht
    · cases ht
    · rename_i hne
      refine ⟨hne, ht, ?_⟩
      rw [hpc, Function.update_of_ne hne]
  refine ⟨fun t self ht => ?_, fun t t' self ht ht' => ?_, fun t self ht hun => ?_⟩
  · obtain ⟨hne, ht, -⟩ := hother t self ht
    exact hqueue t self hne ht
  · exact h.one t t' self (hother t self ht).2.1 (hother t' self ht').2.1
  · obtain ⟨hne, hself, hsame⟩ := hother t self (by rw [ht]; rfl)
    rw [unfinished, htasks t self hne hself] at hun
    rw [htasks t self hne hself]
    exact h.named t self (hsame ▸ ht) hun

omit [DecidableEq τ] in
/-- Where no callback holds the lock, none has a task to do. -/
theorem Walks.of_unlocked (h : Walks s) (hunlocked : s.unlocked) (hwalks : s'.walks = s.walks)
    (hnodup : s'.sh_tasks.Nodup) : Walks s' := by
  refine ⟨hnodup, fun walk hwalk => ?_, hwalks ▸ h.nested, fun dlpi_name task rest walks heq => ?_⟩
  · rw [toVisit_of_unlocked hunlocked walk (hwalks ▸ hwalk)]
    exact List.nil_sublist _
  · have hnil := toVisit_of_unlocked hunlocked (.hook dlpi_name task rest)
      ((hwalks.symm.trans heq) ▸ List.mem_cons_self ..)
    cases hnil

theorem Queue.insert (h : Queue s) {self : ι} {thread : τ} (hunlocked : s.unlocked)
    (hnew : self ∉ s.sh_tasks) (hnamed : s.unfinished self → (s.tasks self).lib_name.isSome)
    (hintime : s.unfinished self → ∀ dlpi_name, ¬ s.Called dlpi_name self) {cnt : ℤ}
    (hcnt : cnt = if (s.tasks self).finished then s.sh_tasks_unfinished_cnt
      else s.sh_tasks_unfinished_cnt + 1) :
    Queue { s.setPc thread .idle with
      sh_tasks := s.sh_tasks ++ [self]
      sh_tasks_unfinished_cnt := cnt } := by
  refine ⟨⟨?_, fun other hmem hun => ?_, fun other hmem hun name hcalled => ?_⟩,
    h.walks.of_unlocked hunlocked rfl ?_⟩
  · have hone : ([self].countP s.unfinished : ℤ) = if (s.tasks self).finished then 0 else 1 := by
      rw [List.countP_singleton]
      unfold unfinished
      cases (s.tasks self).finished <;> rfl
    have hcount := h.waits.cnt
    show cnt = ((s.sh_tasks ++ [self]).countP s.unfinished : ℕ)
      + (s.walks.countP TaskWalk.calling : ℕ)
    rw [List.countP_append, Nat.cast_add, hone, hcnt, hcount]
    split <;> omega
  · rcases List.mem_append.mp hmem with hmem | hmem
    · exact h.waits.named other hmem hun
    · obtain rfl := List.mem_singleton.mp hmem
      exact hnamed hun
  · rcases List.mem_append.mp hmem with hmem | hmem
    · exact h.waits.waits other hmem hun name hcalled
    · obtain rfl := List.mem_singleton.mp hmem
      exact absurd hcalled (hintime hun name)
  · refine List.nodup_append'.mpr ⟨h.walks.nodup, List.nodup_singleton _,
      fun other hmem hmem' => ?_⟩
    obtain rfl := List.mem_singleton.mp hmem'
    exact hnew hmem

end

/-! ## Every step -/

section

variable [DecidableEq ι] [DecidableEq τ]

/-- What the callers keep to: a task is new. -/
def Disciplined (s : TaskSystem ι τ) : TaskAct ι τ → Prop
  | .sh_task_hook _ self task _ _ => task.Created ∧ self ∉ s.sh_tasks ∧
      ∀ thread, (s.pc thread).self ≠ some self
  | _ => True

/-- A task that is not finished enters the queue before the constructors of its library are
called, and they are called with the callback.  A library is found once its constructors are about
to be called.  A task whose library is closed waits for no library that is still there. -/
def InTime (s : TaskSystem ι τ) : TaskAct ι τ → Prop
  | .insert thread => ∀ self, s.pc thread = .insert self → s.unfinished self → ∀ dlpi_name,
      ¬ s.Called dlpi_name self
  | .call_constructors dlpi_name => ∀ self ∈ s.sh_tasks, s.unfinished self →
      s.Names dlpi_name self → Visits s.walks dlpi_name self
  | .look lookup _ => ∀ dlpi_name task rest walks,
      s.walks = .loop dlpi_name (task :: rest) :: walks → s.unfinished task →
        s.Called dlpi_name task → lookup = .pending → Visits walks dlpi_name task
  | .reset => ∀ dlinfo walks, s.walks = .fini dlinfo :: walks → ∀ self ∈ s.sh_tasks,
      closes dlinfo (s.tasks self) → ∀ dlpi_name, s.Called dlpi_name self →
        Visits walks dlpi_name self
  | _ => True

structure Inv (s : TaskSystem ι τ) : Prop where
  queue : Queue s
  threads : Threads s

omit [DecidableEq ι] [DecidableEq τ] in
theorem Inv.fresh (h : Inv s) {thread : τ} {self : ι} (hself : (s.pc thread).self = some self)
    {other : τ} (hne : other ≠ thread) : (s.pc other).self ≠ some self :=
  fun hother => hne (h.threads.one _ _ self hother hself)

theorem Queue.remove (h : Queue s) {self : ι} {thread : τ} {pc : TaskPc ι}
    (hunlocked : s.unlocked) (hmem : self ∈ s.sh_tasks) {cnt : ℤ}
    (hcnt : cnt = if (s.tasks self).finished then s.sh_tasks_unfinished_cnt
      else s.sh_tasks_unfinished_cnt - 1) :
    Queue { s.setPc thread pc with
      sh_tasks := s.sh_tasks.erase self
      sh_tasks_unfinished_cnt := cnt } := by
  refine ⟨⟨?_, fun other hmem' hun => ?_, fun other hmem' hun name hcalled => ?_⟩,
    h.walks.of_unlocked hunlocked rfl (h.walks.nodup.erase self)⟩
  · have hcount := h.waits.cnt
    have hperm := (List.perm_cons_erase hmem).countP_eq s.unfinished
    rw [List.countP_cons] at hperm
    show cnt = ((s.sh_tasks.erase self).countP s.unfinished : ℕ)
      + (s.walks.countP TaskWalk.calling : ℕ)
    rw [hcnt, hcount, hperm]
    unfold unfinished
    cases (s.tasks self).finished with
    | false =>
        simp only [Bool.not_false, if_true, Bool.false_eq_true, if_false]
        omega
    | true => rfl
  · exact h.waits.named other (List.mem_of_mem_erase hmem') hun
  · exact h.waits.waits other (List.mem_of_mem_erase hmem') hun name hcalled

omit [DecidableEq τ] in
/-- The address that a lookup found is stored. -/
theorem Inv.setTask (h : Inv s) {task : ι} (hmem : task ∈ s.sh_tasks) (dli_saddr : ℕ) :
    Inv (s.setTask task { s.tasks task with target_addr := dli_saddr }) := by
  refine ⟨h.queue.congr rfl rfl rfl (List.Subset.refl _) fun other _ => ?_,
    h.threads.congr rfl rfl fun self hself =>
      setTask_tasks_of_ne fun heq : self = task => hself (heq ▸ hmem)⟩
  by_cases heq : other = task
  · subst heq
    have hself : (s.setTask other { s.tasks other with target_addr := dli_saddr }).tasks other
        = { s.tasks other with target_addr := dli_saddr } := Function.update_self ..
    rw [hself]
    exact ⟨rfl, rfl⟩
  · rw [setTask_tasks_of_ne heq]
    exact ⟨rfl, rfl⟩

omit [DecidableEq τ] in
/-- A turn of the loop of the callback. -/
theorem Inv.look (h : Inv s) {lookup : Lookup} {dli_saddr : ℕ}
    (hintime : InTime s (.look lookup dli_saddr)) (hlook : s.look lookup dli_saddr = some s') :
    Inv s' := by
  unfold TaskSystem.look at hlook
  split at hlook
  · rename_i hwalks
    obtain rfl := Option.some.inj hlook
    exact ⟨h.queue.stop hwalks, h.threads.congr rfl rfl fun _ _ => rfl⟩
  · rename_i dlpi_name task rest walks hwalks
    have hmem : task ∈ s.sh_tasks :=
      (h.queue.walks.visit _ (hwalks ▸ List.mem_cons_self ..)).subset (List.mem_cons_self ..)
    split at hlook
    · rename_i hfinished
      obtain rfl := Option.some.inj hlook
      refine ⟨h.queue.skip hwalks fun hun => ?_, h.threads.congr rfl rfl fun _ _ => rfl⟩
      rw [unfinished, hfinished] at hun
      cases hun
    · rename_i hfinished
      have hun : s.unfinished task := by simpa [unfinished] using hfinished
      obtain ⟨lib_name, hlib, hout⟩ := Option.map_eq_some_iff.mp hlook
      split at hout
      · rename_i hmatch
        obtain rfl := hout
        refine ⟨h.queue.skip hwalks fun _ hcalled => ?_, h.threads.congr rfl rfl fun _ _ => rfl⟩
        obtain ⟨-, lib_name', hlib', hmatch'⟩ := hcalled
        obtain rfl := Option.some.inj (hlib.symm.trans hlib')
        rw [hmatch'] at hmatch
        cases hmatch
      · have hset := h.setTask hmem dli_saddr
        have htask : (s.setTask task { s.tasks task with target_addr := dli_saddr }).tasks task
            = { s.tasks task with target_addr := dli_saddr } := Function.update_self ..
        have hun' : (s.setTask task { s.tasks task with target_addr := dli_saddr }).unfinished
            task := by
          rw [unfinished, htask]
          exact hun
        cases lookup with
        | ok =>
            obtain rfl := hout
            exact ⟨hset.queue.found hwalks hun', hset.threads.congr rfl rfl fun _ _ => rfl⟩
        | pending =>
            obtain rfl := hout
            refine ⟨hset.queue.skip hwalks fun _ hcalled => ?_,
              hset.threads.congr rfl rfl fun _ _ => rfl⟩
            rw [Called, Names, htask] at hcalled
            exact hintime _ _ _ _ hwalks hun hcalled rfl
        | error =>
            obtain rfl := hout
            exact ⟨hset.queue.finish hwalks rfl rfl Bool.false_ne_true hun' true,
              hset.threads.finish hmem true⟩
  · cases hlook

theorem Inv.start_hook (h : Inv s) {thread : τ} {self : ι} {task : Task} {lookup : Lookup}
    {dli_saddr : ℕ} (hguard : Disciplined s (.sh_task_hook thread self task lookup dli_saddr))
    (hstep : s.step (.sh_task_hook thread self task lookup dli_saddr) = some s') : Inv s' := by
  obtain ⟨hcreated, hnew, hfresh⟩ := hguard
  have hqueue : ∀ task pc, Queue ((s.setTask self task).setPc thread pc) :=
    fun task pc => (h.queue.setTask task hnew).setPc thread pc
  simp only [TaskSystem.step] at hstep
  split at hstep
  · obtain rfl := Option.some.inj hstep
    exact ⟨hqueue _ _, h.threads.take rfl rfl hnew (List.Subset.refl _) (fun t _ => hfresh t)
      (fun _ => setTask_tasks_of_ne) nofun⟩
  · split at hstep
    · rename_i hzero
      obtain rfl := Option.some.inj hstep
      refine ⟨hqueue _ _, h.threads.take rfl rfl hnew (List.Subset.refl _) (fun t _ => hfresh t)
        (fun _ => setTask_tasks_of_ne) fun _ _ => ?_⟩
      have hself : ((s.setTask self task).setPc thread (.insert self)).tasks self = task :=
        Function.update_self ..
      rw [hself]
      cases hcreated with
      | by_target_addr ne => exact absurd hzero ne
      | by_sym_name lib_name sym_name new_addr => rfl
    · cases hstep
  · obtain rfl := Option.some.inj hstep
    exact h
  · cases hstep

theorem Inv.switch_hook (h : Inv s) {thread : τ} {errno : Option SwitchErrno}
    (hstep : s.step (.sh_switch_hook thread errno) = some s') : Inv s' := by
  simp only [TaskSystem.step] at hstep
  split at hstep
  · rename_i self hpc
    have hself : (s.pc thread).self = some self := by rw [hpc]; rfl
    have hnew := h.threads.apart thread self hself
    obtain rfl := Option.some.inj hstep
    refine ⟨(h.queue.setTask _ hnew).setPc thread _, ?_⟩
    by_cases herrno : errno = none
    · rw [if_pos herrno]
      refine h.threads.take rfl rfl hnew (List.Subset.refl _) (fun _ => h.fresh hself)
        (fun _ => setTask_tasks_of_ne) fun _ hun => ?_
      have hfinished : (s.setTask self { s.tasks self with finished := true }).unfinished self
          = false := by rw [unfinished_setTask, if_pos rfl, Bool.not_true]
      cases hfinished.symm.trans hun
    · rw [if_neg herrno]
      refine h.threads.drop rfl (fun t other hne hother => ?_) fun t other _ hother =>
        h.threads.apart t other hother
      exact setTask_tasks_of_ne fun heq : other = self => h.fresh hself hne (heq ▸ hother)
  · cases hstep

theorem Inv.insert (h : Inv s) {thread : τ} (hintime : InTime s (.insert thread))
    (hstep : s.step (.insert thread) = some s') : Inv s' := by
  simp only [TaskSystem.step] at hstep
  split at hstep
  · rename_i self hpc
    have hself : (s.pc thread).self = some self := by rw [hpc]; rfl
    have hnew := h.threads.apart thread self hself
    split at hstep
    · rename_i hunlocked
      obtain rfl := Option.some.inj hstep
      refine ⟨h.queue.insert hunlocked hnew (h.threads.named thread self hpc)
        (hintime self hpc) rfl, h.threads.drop rfl (fun _ _ _ _ => rfl)
        fun t other hne hother hmem => ?_⟩
      rcases List.mem_append.mp hmem with hmem | hmem
      · exact h.threads.apart t other hother hmem
      · obtain rfl := List.mem_singleton.mp hmem
        exact h.fresh hself hne hother
    · cases hstep
  · cases hstep

theorem Inv.start_unhook (h : Inv s) {thread : τ} {self : ι}
    (hstep : s.step (.sh_task_unhook thread self) = some s') : Inv s' := by
  simp only [TaskSystem.step] at hstep
  split at hstep
  · split at hstep
    · rename_i hcond
      simp only [Bool.and_eq_true, decide_eq_true_eq] at hcond
      obtain rfl := Option.some.inj hstep
      have herase : ∀ other, other ∈ s.sh_tasks.erase self → other ∈ s.sh_tasks :=
        fun _ => List.mem_of_mem_erase
      refine ⟨h.queue.remove hcond.1 hcond.2 rfl, ?_⟩
      by_cases hskip : ((s.tasks self).error || !(s.tasks self).finished) = true
      · rw [if_pos hskip]
        exact h.threads.drop rfl (fun _ _ _ _ => rfl)
          fun t other _ hother hmem => h.threads.apart t other hother (herase other hmem)
      · rw [if_neg hskip]
        refine h.threads.take rfl rfl (fun hmem => ?_) herase (fun t _ hother => ?_)
          (fun _ _ => rfl) nofun
        · exact (List.Nodup.mem_erase_iff h.queue.walks.nodup).mp hmem |>.1 rfl
        · exact h.threads.apart t self hother hcond.2
    · cases hstep
  · cases hstep

theorem Inv.step {a : TaskAct ι τ} (h : Inv s) (hguard : Disciplined s a) (hintime : InTime s a)
    (hstep : s.step a = some s') : Inv s' := by
  cases a with
  | sh_task_hook thread self task lookup dli_saddr => exact h.start_hook hguard hstep
  | sh_switch_hook thread errno => exact h.switch_hook hstep
  | insert thread => exact h.insert hintime hstep
  | sh_task_unhook thread self => exact h.start_unhook hstep
  | sh_switch_unhook thread errno =>
      simp only [TaskSystem.step] at hstep
      split at hstep
      · obtain rfl := Option.some.inj hstep
        exact ⟨h.queue.setPc thread _,
          h.threads.drop rfl (fun _ _ _ _ => rfl) fun t other _ => h.threads.apart t other⟩
      · cases hstep
  | dl_init_pre dlpi_name =>
      simp only [TaskSystem.step] at hstep
      split at hstep
      · rename_i hready
        obtain rfl := Option.some.inj hstep
        exact ⟨h.queue.init dlpi_name hready, h.threads.congr rfl rfl fun _ _ => rfl⟩
      · cases hstep
  | look lookup dli_saddr => exact h.look hintime hstep
  | hook_pending errno =>
      simp only [TaskSystem.step] at hstep
      split at hstep
      · rename_i dlpi_name task rest walks hwalks
        obtain rfl := Option.some.inj hstep
        have hmem : task ∈ s.sh_tasks :=
          (h.queue.walks.visit _ (hwalks ▸ List.mem_cons_self ..)).subset (List.mem_cons_self ..)
        exact ⟨h.queue.finish hwalks rfl rfl Bool.false_ne_true
          (h.queue.walks.hook _ _ _ _ hwalks) _, h.threads.finish hmem _⟩
      · cases hstep
  | sh_task_do_callback =>
      refine ⟨h.queue.callback hstep, ?_⟩
      simp only [TaskSystem.step, TaskSystem.sh_task_do_callback] at hstep
      split at hstep
      · obtain rfl := Option.some.inj hstep
        exact h.threads.congr rfl rfl fun _ _ => rfl
      · cases hstep
  | dl_fini_post dlpi_name dlinfo =>
      simp only [TaskSystem.step] at hstep
      split at hstep
      · rename_i hready
        obtain rfl := Option.some.inj hstep
        have hpush := h.queue.push hready (.fini dlinfo) Bool.false_ne_true
          (List.nil_sublist _) (fun _ _ _ heq => (by cases heq))
        exact ⟨hpush.congr rfl rfl rfl List.erase_subset fun _ _ => ⟨rfl, rfl⟩,
          h.threads.congr rfl rfl fun _ _ => rfl⟩
      · cases hstep
  | reset =>
      simp only [TaskSystem.step] at hstep
      split at hstep
      · rename_i dlinfo walks hwalks
        obtain rfl := Option.some.inj hstep
        refine ⟨h.queue.reset hwalks (hintime dlinfo walks hwalks), h.threads.congr rfl rfl
          fun self hself => if_neg fun hmem => hself (List.mem_filter.mp hmem).1⟩
      · cases hstep
  | call_constructors dlpi_name =>
      simp only [TaskSystem.step] at hstep
      split at hstep
      · obtain rfl := Option.some.inj hstep
        exact ⟨h.queue.grow hintime, h.threads.congr rfl rfl fun _ _ => rfl⟩
      · cases hstep
  | call_destructors dlpi_name =>
      simp only [TaskSystem.step] at hstep
      split at hstep
      · obtain rfl := Option.some.inj hstep
        exact ⟨h.queue.congr rfl rfl rfl List.erase_subset fun _ _ => ⟨rfl, rfl⟩,
          h.threads.congr rfl rfl fun _ _ => rfl⟩
      · cases hstep

omit [DecidableEq τ] in
/-- A task that is reset waits again. -/
theorem Waits.intime_reset {dlinfo : ExitInfo} {walks : List (TaskWalk ι)}
    (hwaits : (s.reset dlinfo walks).Waits) {self : ι} (hmem : self ∈ s.sh_tasks)
    (hcloses : closes dlinfo (s.tasks self)) {dlpi_name : LibName}
    (hcalled : s.Called dlpi_name self) : Visits walks dlpi_name self := by
  have hun : (s.reset dlinfo walks).unfinished self := by
    rw [(reset_tasks hmem).1, hcloses, Bool.or_true]
  exact hwaits.waits self hmem hun dlpi_name ((reset_called hmem).mpr hcalled)

omit [DecidableEq τ] in
/-- The callback does not find a library that is being loaded. -/
theorem look_pending {dlpi_name lib_name : LibName} {task : ι} {rest : List ι}
    {walks : List (TaskWalk ι)} {dli_saddr : ℕ}
    (hwalks : s.walks = .loop dlpi_name (task :: rest) :: walks)
    (hfinished : (s.tasks task).finished = false) (hlib : (s.tasks task).lib_name = some lib_name)
    (hmatch : names_match dlpi_name lib_name) : s.look .pending dli_saddr = some {
      s.setTask task { s.tasks task with target_addr := dli_saddr } with
      walks := .loop dlpi_name rest :: walks } := by
  simp [TaskSystem.look, hwalks, hfinished, hlib, hmatch]

omit [DecidableEq τ] in
/-- A task that is left in the queue waits for a library that the linker does not find. -/
theorem Waits.intime_look (h : Inv s) {lookup : Lookup} {dli_saddr : ℕ} (hwaits : s'.Waits)
    (hlook : s.look lookup dli_saddr = some s') : InTime s (.look lookup dli_saddr) := by
  intro dlpi_name task rest walks hwalks hun hcalled hpending
  have hsub := h.queue.walks.visit _ (hwalks ▸ List.mem_cons_self ..)
  have hmem : task ∈ s.sh_tasks := hsub.subset (List.mem_cons_self ..)
  obtain ⟨hin, lib_name, hlib, hmatch⟩ := hcalled
  have hfinished : (s.tasks task).finished = false := by simpa [unfinished] using hun
  rw [hpending, look_pending hwalks hfinished hlib hmatch] at hlook
  obtain rfl := Option.some.inj hlook
  have htask : (s.setTask task { s.tasks task with target_addr := dli_saddr }).tasks task
      = { s.tasks task with target_addr := dli_saddr } := Function.update_self ..
  have hun' : (s.setTask task { s.tasks task with target_addr := dli_saddr }).unfinished task := by
    rw [unfinished, htask]
    exact hun
  have hlib' : ((s.setTask task { s.tasks task with target_addr := dli_saddr }).tasks
      task).lib_name = some lib_name := by
    rw [htask]
    exact hlib
  have hvisits := hwaits.waits task hmem hun' dlpi_name ⟨hin, lib_name, hlib', hmatch⟩
  refine (visits_cons.mp hvisits).resolve_left fun hrest => ?_
  exact (List.nodup_cons.mp (h.queue.walks.nodup.sublist hsub)).1 hrest.2

/-- The condition is exact: where a step breaks it, a task waits in vain. -/
theorem Waits.intime (h : Inv s) {a : TaskAct ι τ} (hwaits : s'.Waits)
    (hstep : s.step a = some s') : InTime s a := by
  cases a with
  | insert thread =>
      intro self hpc hun dlpi_name hcalled
      simp only [TaskSystem.step, hpc] at hstep
      split at hstep
      · rename_i hunlocked
        obtain rfl := Option.some.inj hstep
        exact not_visits_of_unlocked hunlocked dlpi_name self (hwaits.waits self
          (List.mem_append_right _ (List.mem_singleton_self _)) hun dlpi_name hcalled)
      · cases hstep
  | look lookup dli_saddr => exact hwaits.intime_look h hstep
  | call_constructors dlpi_name =>
      intro self hmem hun hnames
      simp only [TaskSystem.step] at hstep
      split at hstep
      · obtain rfl := Option.some.inj hstep
        exact hwaits.waits self hmem hun dlpi_name ⟨List.mem_cons_self .., hnames⟩
      · cases hstep
  | reset =>
      intro dlinfo walks hwalks self hmem hcloses dlpi_name hcalled
      simp only [TaskSystem.step, hwalks] at hstep
      obtain rfl := Option.some.inj hstep
      exact hwaits.intime_reset hmem hcloses hcalled
  | _ => trivial

/-! ## Every run -/

/-- No hook was asked for yet. -/
def start (tasks : ι → Task) (called : List LibName) : TaskSystem ι τ where
  tasks := tasks
  sh_tasks := []
  sh_tasks_unfinished_cnt := 0
  pc := fun _ => .idle
  walks := []
  called := called

omit [DecidableEq ι] [DecidableEq τ] in
theorem inv_start (tasks : ι → Task) (called : List LibName) :
    Inv (start tasks called : TaskSystem ι τ) :=
  ⟨⟨⟨rfl, nofun, nofun⟩, ⟨List.nodup_nil, nofun, nofun, nofun⟩⟩, ⟨nofun, nofun, nofun⟩⟩

/-- The counter of the unfinished tasks is always right, no null name is read, and no task waits
for a library whose constructors were called, exactly if every task that is not finished enters
the queue before the constructors of its library are called, they are called with the callback,
the callback finds the library, and no task of a library that is closed names another one that is
still there. -/
theorem tasks_wait_iff (tasks : ι → Task) (called : List LibName) (acts : List (TaskAct ι τ))
    (h : Runs.Guarded step Disciplined (start tasks called) acts) :
    Runs.Always step Waits (start tasks called) acts ↔
      Runs.Guarded step InTime (start tasks called) acts :=
  Runs.always_iff_guarded_of_guarded (I := Inv) (fun _ hs => hs.queue.waits)
    (fun _ _ _ hs hguard hintime hstep => hs.step hguard hintime hstep)
    (fun _ _ _ hs _ hstep hwaits => hwaits.intime hs hstep) acts (inv_start tasks called) h

/-- The name `/a`, and the name `a`. -/
def smallTask : Task := sh_task_create_by_sym_name [0x61] [0x66] 0x70000

/-- A thread hooks a function of `a`, which waits until `/a` is loaded, and unhooks it.  The
function of the user opens `b`, whose constructors are called without the callback. -/
def smallActs : List (TaskAct Bool Bool) :=
  [.sh_task_hook true true smallTask .pending 0, .insert true, .dl_init_pre [0x2F, 0x61],
    .look .ok 0x40000, .hook_pending none, .call_constructors [0x62], .sh_task_do_callback,
    .sh_task_unhook false true, .sh_switch_unhook false none]

theorem disciplined_small :
    Runs.Guarded step Disciplined (start (fun _ => smallTask) []) smallActs :=
  .cons fun _ _ => ⟨⟨.by_sym_name _ _ _, nofun, nofun⟩, .cons fun _ _ => ⟨trivial,
    .cons fun _ _ => ⟨trivial, .cons fun _ _ => ⟨trivial, .cons fun _ _ => ⟨trivial,
    .cons fun _ _ => ⟨trivial, .cons fun _ _ => ⟨trivial, .cons fun _ _ => ⟨trivial,
    .cons fun _ _ => ⟨trivial, trivial⟩⟩⟩⟩⟩⟩⟩⟩⟩

theorem tasks_wait_small :
    Runs.Always step Waits (start (fun _ => smallTask) []) smallActs := by
  refine (tasks_wait_iff _ _ _ disciplined_small).mpr (.cons fun _ hhook => ⟨trivial,
    .cons fun _ hinsert => ⟨?_, .cons fun _ hinit => ⟨trivial, .cons fun _ hlook => ⟨?_,
    .cons fun _ hpending => ⟨trivial, .cons fun _ _ => ⟨?_, .cons fun _ _ => ⟨trivial,
    .cons fun _ _ => ⟨trivial, .cons fun _ _ => ⟨trivial, trivial⟩⟩⟩⟩⟩⟩⟩⟩⟩)
  · obtain rfl := Option.some.inj hhook
    rintro self _ _ _ ⟨hname, -⟩
    cases hname
  · rintro _ _ _ _ _ _ _ ⟨⟩
  · obtain rfl := Option.some.inj hhook
    obtain rfl := Option.some.inj hinsert
    obtain rfl := Option.some.inj hinit
    obtain rfl := Option.some.inj hlook
    obtain rfl := Option.some.inj hpending
    rintro self hmem - ⟨lib_name, hlib, hmatch⟩
    obtain rfl := List.mem_singleton.mp hmem
    obtain rfl := Option.some.inj hlib
    exact absurd hmatch (by decide)

end

end TaskSystem

end ShadowHook
