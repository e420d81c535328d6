/-
# The map scanner

`fuck_map` of `framework/sk_hook_adapter/sk_watch_dog.cpp` starts a thread that goes round the
list of tasks for ever, and notifies a normal task once the library of its name is loaded.
The scanner runs here beside the installs and the hooks; what `sk_module_details_is_load`
reports is part of its step.
-/
import LiuHookWorld.WatchDogSteps
import LiuHookWorld.WatchDogSymbols

namespace WatchDog

open SkDogeTaskInfo

/-! ## The source -/

/-- Where the scanner thread is. -/
inductive ScanPc
  | absent
  /-- Before the task at this position. -/
  | before (k : ℕ)
  /-- In a callback of the task. -/
  | callback (k : ℕ) (which : Which)
  deriving DecidableEq, Repr

/-- What the scanner can do with a task. -/
inductive Deed
  | notified
  /-- `notify_user` has constructed the module. -/
  | created
  | invoked (which : Which)
  | counted
  deriving DecidableEq, Repr

/-- The system with a scanner; no step depends on `history`. -/
structure ScanSys where
  sys : Sys
  pc : ScanPc
  history : List (ℕ × Deed)
  deriving DecidableEq, Repr

def ScanSys.start (va : Bool) : ScanSys := ⟨Sys.start va, .absent, []⟩

inductive ScanAct
  /-- A step of another thread, or of code that a callback runs. -/
  | sys (a : Act)
  | fuck_map
  /-- The scanner goes on to the next task, where these libraries are reported as loaded. -/
  | scan (loads : List Name)
  | callbackReturns
  deriving DecidableEq, Repr

namespace SkDogeTaskInfo

/-- The test of the loop: nothing is left to do for this task. -/
def Skips (curr : SkDogeTaskInfo) : Prop :=
  curr.type ≠ .kTaskNormal ∨ curr.is_call_normal = true ∨ curr.scan_times ≥ curr.scan_limit

instance (curr : SkDogeTaskInfo) : Decidable curr.Skips := inferInstanceAs (Decidable (_ ∨ _))

/-- `curr->scan_times = curr->scan_times + 1`. -/
def count (curr : SkDogeTaskInfo) : SkDogeTaskInfo :=
  { curr with scan_times := curr.scan_times + 1 }

end SkDogeTaskInfo

/-- What the scanner records of `notify_user`, before and after it. -/
def notifyDeeds (curr task : SkDogeTaskInfo) : List Deed :=
  if curr.module = none ∧ task.module ≠ none then [.notified, .created] else [.notified]

namespace ScanSys

/-- The task `k` becomes `task`, and the scanner goes to `pc`. -/
def visit (s : ScanSys) (k : ℕ) (task : SkDogeTaskInfo) (deeds : List Deed) (pc : ScanPc) :
    ScanSys where
  sys := { s.sys with tasks := s.sys.tasks.set k task }
  pc := pc
  history := s.history ++ deeds.map fun deed => (k, deed)

/-- One round of the loop: the guard, the query, `notify_user` and the counter. -/
def scan (s : ScanSys) (k : ℕ) (curr : SkDogeTaskInfo) (loads : List Name) : ScanSys :=
  if curr.Skips then { s with pc := .before (k + 1) }
  else if curr.name ∈ loads then
    let (task, invocation) := curr.notify_user loads false
    match invocation with
    | none => s.visit k task.count (notifyDeeds curr task ++ [.counted]) (.before (k + 1))
    | some inv =>
        s.visit k task (notifyDeeds curr task ++ [.invoked inv.which]) (.callback k inv.which)
  else s.visit k curr.count [.counted] (.before (k + 1))

end ScanSys

def scanStep (s : ScanSys) : ScanAct → Option ScanSys
  | .sys a => (step s.sys a).map fun sys => { s with sys := sys }
  | .fuck_map =>
      match s.pc with
      | .absent =>
          if find_task_of_type s.sys.tasks .kTaskNormal = none then some s
          else some { s with pc := .before 0 }
      | .before _ | .callback _ _ => none
  | .scan loads =>
      match s.pc with
      | .before k =>
          match s.sys.tasks[k]? with
          -- behind the last task the scanner sleeps, and begins again
          | none => some { s with pc := .before 0 }
          | some curr => some (s.scan k curr loads)
      | .absent | .callback _ _ => none
  | .callbackReturns =>
      match s.pc with
      | .callback k which => s.sys.tasks[k]?.map fun curr =>
          s.visit k (curr.notify_user_return which).count [.counted] (.before (k + 1))
      | .absent | .before _ => none

/-- What the scanner did with the task `k`, in order. -/
def ScanSys.deeds (s : ScanSys) (k : ℕ) : List Deed :=
  (s.history.filter fun e => e.1 = k).map Prod.snd

/-- A task that is called at its second scan, and not again. -/
example : (Runs.run scanStep (ScanSys.start false)
      [.sys (.install 0 (.install_cb ['a'] (some 1) 5)), .sys (.push 0), .fuck_map, .scan [],
        .scan [], .scan [['a']], .callbackReturns, .scan [['a']], .scan [['a']]]).deeds 0
    = [.counted, .notified, .created, .invoked .onLoaded, .counted] := by
  decide

/-! ## The discipline -/

/-- Every normal task is called once at most, gets one module at most, and is counted up to
its limit; no other task is notified. -/
structure Disciplined (s : ScanSys) : Prop where
  once : ∀ k which, (s.deeds k).count (.invoked which) ≤ 1
  created : ∀ k, (s.deeds k).count .created ≤ 1
  counted : ∀ (k : ℕ) (t : SkDogeTaskInfo), s.sys.tasks[k]? = some t → t.type = .kTaskNormal →
    t.scan_times = (s.deeds k).count .counted
  limit : ∀ (k : ℕ) (t : SkDogeTaskInfo), s.sys.tasks[k]? = some t → t.type = .kTaskNormal →
    t.scan_times ≤ max 0 t.scan_limit
  other : ∀ (k : ℕ) (t : SkDogeTaskInfo), s.sys.tasks[k]? = some t → t.type ≠ .kTaskNormal →
    s.deeds k = []

/-- A step that calls a callback is a scan in which the library of a normal task is reported,
with fewer scans of the task counted than its limit; a step of the scanner leaves the tasks of
the other types as they are. -/
structure Careful (s : ScanSys) (a : ScanAct) : Prop where
  invokes : ∀ s', scanStep s a = some s' → ∀ k which,
    (s'.deeds k).count (.invoked which) ≠ (s.deeds k).count (.invoked which) →
      ∃ loads t, a = .scan loads ∧ s.sys.tasks[k]? = some t ∧ t.type = .kTaskNormal
        ∧ which = .onLoaded ∧ t.name ∈ loads ∧ ((s.deeds k).count .counted : ℤ) < t.scan_limit
  untouched : (∀ b, a ≠ .sys b) → ∀ s', scanStep s a = some s' →
    ∀ (k : ℕ) (t : SkDogeTaskInfo), s.sys.tasks[k]? = some t → t.type ≠ .kTaskNormal →
      s'.sys.tasks[k]? = some t

/-! ## What the scanner did with a task -/

/-- What one visit leaves for one task; `inside` says that its callback runs. -/
structure Fair (t : SkDogeTaskInfo) (inside : Prop) (deeds : List Deed) : Prop where
  counted : t.scan_times = deeds.count .counted
  limit : t.scan_times ≤ max 0 t.scan_limit
  created : deeds.count .created = if t.module = none then 0 else 1
  invoked : ∀ which, deeds.count (.invoked which) ≤ if which = .onLoaded then 1 else 0
  uninvoked : t.is_call_normal = false → ¬ inside → deeds.count (.invoked .onLoaded) = 0
  inside : inside → t.scan_times < t.scan_limit

section

variable {t : SkDogeTaskInfo} {inside : Prop} {deeds : List Deed}

/-- A task that was just installed. -/
theorem fair_installed (h : t.installed = t) (hinside : ¬ inside) : Fair t inside [] where
  counted := by rw [← h]; rfl
  limit := by rw [← h]; exact Int.le_max_left 0 t.scan_limit
  created := by rw [← h]; rfl
  invoked := fun _ => Nat.zero_le _
  uninvoked := fun _ _ => rfl
  inside := fun hin => absurd hin hinside

/-- The counter, below the limit; a callback that has run is marked by then. -/
theorem Fair.count (h : Fair t inside deeds) (hlimit : t.scan_times < t.scan_limit)
    (hmarked : inside → t.is_call_normal = true) {p : Prop} (hp : ¬ p) :
    Fair t.count p (deeds ++ [.counted]) where
  counted := by
    rw [List.count_append, List.count_singleton_self, SkDogeTaskInfo.count, h.counted]
    push_cast
    rfl
  limit := Int.le_trans hlimit (Int.le_max_right 0 t.scan_limit)
  created := by
    rw [List.count_append, h.created]
    rfl
  invoked := by
    intro which
    rw [List.count_append]
    exact h.invoked which
  uninvoked := by
    intro hcall _
    rw [List.count_append]
    refine h.uninvoked hcall fun hin => ?_
    exact absurd (hmarked hin) (by simpa [SkDogeTaskInfo.count] using hcall)
  inside := fun hin => absurd hin hp

theorem mem_notifyDeeds {task : SkDogeTaskInfo} {deed : Deed} (h : deed ∈ notifyDeeds t task) :
    deed = .notified ∨ deed = .created := by
  unfold notifyDeeds at h
  split_ifs at h
  · simpa using h
  · exact Or.inl (List.mem_singleton.mp h)

theorem notifyDeeds_with_module (loads : List Name) : notifyDeeds t (t.with_module loads)
    = if t.module = none then [.notified, .created] else [.notified] := by
  unfold notifyDeeds
  rw [with_module_eq]
  simp

/-- The module is constructed where there is none. -/
theorem Fair.with_module (h : Fair t inside deeds) (loads : List Name) :
    Fair (t.with_module loads) inside (deeds ++ notifyDeeds t (t.with_module loads)) := by
  have hsame : ∀ deed, deed ≠ .notified → deed ≠ .created →
      (deeds ++ notifyDeeds t (t.with_module loads)).count deed = deeds.count deed := by
    intro deed hnotified hcreated
    have hnone : (notifyDeeds t (t.with_module loads)).count deed = 0 := by
      refine List.count_eq_zero_of_not_mem fun hmem => ?_
      rcases mem_notifyDeeds hmem with hdeed | hdeed
      · exact hnotified hdeed
      · exact hcreated hdeed
    rw [List.count_append, hnone, Nat.add_zero]
  constructor
  · rw [hsame .counted (by simp) (by simp), with_module_eq]
    exact h.counted
  · rw [with_module_eq]
    exact h.limit
  · rw [List.count_append, h.created, notifyDeeds_with_module, with_module_eq]
    by_cases hmodule : t.module = none <;> simp [hmodule]
  · intro which
    rw [hsame (.invoked which) (by simp) (by simp)]
    exact h.invoked which
  · rw [hsame (.invoked .onLoaded) (by simp) (by simp), with_module_eq]
    exact h.uninvoked
  · rw [with_module_eq]
    exact h.inside

/-- The callback is called for the first time. -/
theorem Fair.invoke (h : Fair t inside deeds) (hinside : ¬ inside)
    (hcall : t.is_call_normal = false) (hlimit : t.scan_times < t.scan_limit) {p : Prop} (hp : p) :
    Fair t p (deeds ++ [.invoked .onLoaded]) where
  counted := by
    rw [List.count_append]
    exact h.counted
  limit := h.limit
  created := by
    rw [List.count_append]
    exact h.created
  invoked := by
    intro which
    rw [List.count_append]
    by_cases hwhich : which = .onLoaded
    · rw [hwhich, h.uninvoked hcall hinside]
      rfl
    · have hother : [Deed.invoked .onLoaded].count (.invoked which) = 0 := by
        rw [List.count_eq_zero, List.mem_singleton]
        rintro ⟨rfl⟩
        exact hwhich rfl
      rw [hother]
      exact h.invoked which
  uninvoked := fun _ hnot => absurd hp hnot
  inside := fun _ => hlimit

/-- The callback has returned. -/
theorem Fair.notify_user_return (h : Fair t inside deeds) (hinside : inside) :
    Fair (t.notify_user_return .onLoaded) inside deeds where
  counted := h.counted
  limit := h.limit
  created := h.created
  invoked := h.invoked
  uninvoked := fun _ hnot => absurd hinside hnot
  inside := h.inside

end

/-! ## What a step can do -/

/-- A visit to the task `k`: what becomes of the task, what is recorded, where the scanner is
then. -/
inductive Visit (s : ScanSys) (k : ℕ) (t : SkDogeTaskInfo) :
    ScanAct → SkDogeTaskInfo → List Deed → ScanPc → Prop
  | unloaded {loads : List Name} : s.pc = .before k → ¬ t.Skips →
      Visit s k t (.scan loads) t.count [.counted] (.before (k + 1))
  | uncalled {loads : List Name} : s.pc = .before k → ¬ t.Skips →
      Visit s k t (.scan loads) (t.with_module loads).count
        (notifyDeeds t (t.with_module loads) ++ [.counted]) (.before (k + 1))
  | invoked {loads : List Name} : s.pc = .before k → ¬ t.Skips → t.name ∈ loads →
      Visit s k t (.scan loads) (t.with_module loads)
        (notifyDeeds t (t.with_module loads) ++ [.invoked .onLoaded]) (.callback k .onLoaded)
  | returned {which : Which} : s.pc = .callback k which →
      Visit s k t .callbackReturns (t.notify_user_return which).count [.counted] (.before (k + 1))

/-- A step of the system, a move of the scanner, or a visit. -/
inductive ScanSteps (s : ScanSys) : ScanAct → ScanSys → Prop
  | sys {a : Act} {sys : Sys} : Steps s.sys a sys → ScanSteps s (.sys a) { s with sys := sys }
  | moved {a : ScanAct} {pc : ScanPc} : (∀ b, a ≠ .sys b) → (∀ k which, s.pc ≠ .callback k which) →
      (∀ k which, pc ≠ .callback k which) → ScanSteps s a { s with pc := pc }
  | visited {a : ScanAct} {k : ℕ} {t t' : SkDogeTaskInfo} {deeds : List Deed} {pc : ScanPc} :
      s.sys.tasks[k]? = some t → Visit s k t a t' deeds pc → ScanSteps s a (s.visit k t' deeds pc)

theorem not_skips_iff {t : SkDogeTaskInfo} : ¬ t.Skips
    ↔ t.type = .kTaskNormal ∧ t.is_call_normal = false ∧ t.scan_times < t.scan_limit := by
  simp [Skips]

/-- `notify_user` on a normal task that was not called yet. -/
theorem notify_user_normal {t : SkDogeTaskInfo} (htype : t.type = .kTaskNormal)
    (hcall : t.is_call_normal = false) (loads : List Name) (is_called_ori : Bool) :
    t.notify_user loads is_called_ori
      = (t.with_module loads, (t.with_module loads).invoke .onLoaded) := by
  have hcall' : (t.with_module loads).is_call_normal = false := by
    rw [with_module_eq]
    exact hcall
  simp only [notify_user, htype]
  by_cases hcb : (t.with_module loads).onLoaded = none
  · rw [if_neg (by simp [hcb]), invoke, callback, hcb]
    rfl
  · rw [if_pos ⟨hcb, by simp [hcall']⟩]

theorem scanSteps_of_scan {s : ScanSys} {k : ℕ} {curr : SkDogeTaskInfo} (hpc : s.pc = .before k)
    (hcurr : s.sys.tasks[k]? = some curr) (loads : List Name) :
    ScanSteps s (.scan loads) (s.scan k curr loads) := by
  unfold ScanSys.scan
  split_ifs with hskips hload
  · exact .moved (by simp) (by simp [hpc]) (by simp)
  · obtain ⟨htype, hcall, -⟩ := not_skips_iff.mp hskips
    rw [notify_user_normal htype hcall]
    cases hinv : (curr.with_module loads).invoke .onLoaded with
    | none => exact .visited hcurr (.uncalled hpc hskips)
    | some inv =>
        obtain ⟨cb, -, rfl⟩ := Option.map_eq_some_iff.mp hinv
        exact .visited hcurr (.invoked hpc hskips hload)
  · exact .visited hcurr (.unloaded hpc hskips)

theorem scanSteps_of_scanStep {s s' : ScanSys} {a : ScanAct} (h : scanStep s a = some s') :
    ScanSteps s a s' := by
  unfold scanStep at h
  cases a with
  | sys a =>
      obtain ⟨sys, hstep, rfl⟩ := Option.map_eq_some_iff.mp h
      exact .sys (steps_of_step hstep)
  | fuck_map =>
      dsimp only at h
      split at h
      · rename_i hpc
        split_ifs at h
        · obtain rfl := Option.some.inj h
          exact @ScanSteps.moved s _ s.pc (by simp) (by simp [hpc]) (by simp [hpc])
        · obtain rfl := Option.some.inj h
          exact .moved (by simp) (by simp [hpc]) (by simp)
      all_goals cases h
  | scan loads =>
      dsimp only at h
      split at h
      · rename_i k hpc
        split at h
        · obtain rfl := Option.some.inj h
          exact .moved (by simp) (by simp [hpc]) (by simp)
        · rename_i curr hcurr
          obtain rfl := Option.some.inj h
          exact scanSteps_of_scan hpc hcurr loads
      all_goals cases h
  | callbackReturns =>
      dsimp only at h
      split at h
      · rename_i k which hpc
        obtain ⟨curr, hcurr, rfl⟩ := Option.map_eq_some_iff.mp h
        exact .visited hcurr (.returned hpc)
      all_goals cases h

/-! ## What a visit leaves alone -/

section

variable {s : ScanSys} {k : ℕ} {t t' : SkDogeTaskInfo} {a : ScanAct} {deeds : List Deed}
  {pc : ScanPc}

theorem deeds_visit (s : ScanSys) (k : ℕ) (t : SkDogeTaskInfo) (deeds : List Deed) (pc : ScanPc)
    (j : ℕ) : (s.visit k t deeds pc).deeds j = if j = k then s.deeds j ++ deeds else s.deeds j := by
  unfold ScanSys.deeds ScanSys.visit
  have htest : (fun e : ℕ × Deed => decide (e.1 = j)) ∘ (fun deed => (k, deed))
      = fun _ => decide (k = j) := rfl
  rw [List.filter_append, List.map_append, List.filter_map, htest]
  by_cases hjk : j = k
  · rw [if_pos hjk, decide_eq_true hjk.symm, List.filter_true, List.map_map]
    congr 1
    exact List.map_id deeds
  · rw [if_neg hjk, decide_eq_false (Ne.symm hjk), List.filter_false, List.map_nil, List.map_nil,
      List.append_nil]

theorem tasks_visit (hlt : k < s.sys.tasks.length) (j : ℕ) :
    (s.visit k t deeds pc).sys.tasks[j]? = if j = k then some t else s.sys.tasks[j]? := by
  show (s.sys.tasks.set k t)[j]? = _
  by_cases hjk : j = k
  · rw [if_pos hjk, hjk, List.getElem?_set_self hlt]
  · rw [if_neg hjk, List.getElem?_set_ne (Ne.symm hjk)]

theorem Visit.installed (h : Visit s k t a t' deeds pc) : t'.installed = t.installed := by
  cases h with
  | unloaded => rfl
  | uncalled => exact with_module_installed
  | invoked => exact with_module_installed
  | returned => exact notify_user_return_installed _ _

end

/-! ## The invariant -/

/-- The system's own invariant, and for every normal task what the visits left. -/
structure Scanning (s : ScanSys) : Prop where
  sane : Sane s.sys
  fair : ∀ (k : ℕ) (t : SkDogeTaskInfo), s.sys.tasks[k]? = some t → t.type = .kTaskNormal →
    Fair t (s.pc = .callback k .onLoaded) (s.deeds k)
  normal : ∀ k, s.deeds k ≠ [] → ∃ t, s.sys.tasks[k]? = some t ∧ t.type = .kTaskNormal
  callback : ∀ k which, s.pc = .callback k which →
    which = .onLoaded ∧ ∃ t, s.sys.tasks[k]? = some t ∧ t.type = .kTaskNormal

theorem scanning_start (va : Bool) : Scanning (ScanSys.start va) := by
  constructor
  · exact sane_start va
  · intro k t ht
    simp [ScanSys.start, Sys.start] at ht
  · intro k hk
    exact absurd rfl hk
  · intro k which hpc
    simp [ScanSys.start] at hpc

section

variable {s s' : ScanSys} {a : ScanAct} {k : ℕ} {t t' : SkDogeTaskInfo} {deeds : List Deed}
  {pc : ScanPc}

/-- No replacement looks up a normal task. -/
theorem type_ne_normal (hook : HookCall) : hook.type ≠ .kTaskNormal := by
  cases hook <;> simp [HookCall.type]

/-- The replacements leave the normal tasks alone. -/
theorem TaskStep.normal {s : Sys} (hsane : Sane s) {a : Act} (ht : s.tasks[k]? = some t)
    (htype : t.type = .kTaskNormal) (h : TaskStep s k t a t') : t' = t := by
  have hnone : ∀ {i : ℕ} {c : Call}, s.calls[i]? = some c → c.task ≠ some k := by
    intro i c hc hk
    have := hsane.type (List.mem_of_getElem? hc) hk ht
    exact type_ne_normal c.hook (this.symm.trans htype)
  cases h with
  | same => rfl
  | notified hc _ hk => exact absurd hk (hnone hc)
  | callbackReturned hc _ hk => exact absurd hk (hnone hc)
  | stored hc _ _ hk => exact absurd hk (hnone hc)

/-- One visit, seen from the task. -/
theorem Visit.fair (h : Visit s k t a t' deeds pc)
    (hcallback : ∀ which, s.pc = .callback k which → which = .onLoaded)
    (hfair : Fair t (s.pc = .callback k .onLoaded) (s.deeds k)) :
    Fair t' (pc = .callback k .onLoaded) (s.deeds k ++ deeds) := by
  cases h with
  | unloaded hpc hskips =>
      obtain ⟨-, -, hlimit⟩ := not_skips_iff.mp hskips
      exact hfair.count hlimit (by simp [hpc]) (by simp)
  | @uncalled loads hpc hskips =>
      obtain ⟨-, -, hlimit⟩ := not_skips_iff.mp hskips
      rw [← List.append_assoc]
      refine (hfair.with_module loads).count ?_ (by simp [hpc]) (by simp)
      rw [with_module_eq]
      exact hlimit
  | @invoked loads hpc hskips hload =>
      obtain ⟨-, hcall, hlimit⟩ := not_skips_iff.mp hskips
      rw [← List.append_assoc]
      refine (hfair.with_module loads).invoke (by simp [hpc]) ?_ ?_ rfl
      · rw [with_module_eq]
        exact hcall
      · rw [with_module_eq]
        exact hlimit
  | returned hpc =>
      obtain rfl := hcallback _ hpc
      exact (hfair.notify_user_return hpc).count (hfair.inside hpc) (fun _ => rfl) (by simp)

/-- A visited task is normal. -/
theorem Visit.normal (h : Visit s k t a t' deeds pc) (hs : Scanning s)
    (ht : s.sys.tasks[k]? = some t) : t.type = .kTaskNormal := by
  cases h with
  | unloaded _ hskips | uncalled _ hskips | invoked _ hskips =>
      exact (not_skips_iff.mp hskips).1
  | returned hpc =>
      obtain ⟨-, u, hu, htype⟩ := hs.callback _ _ hpc
      obtain rfl : u = t := Option.some.inj (hu.symm.trans ht)
      exact htype

/-- The scanner is not inside the callback of another task, before a visit or after it. -/
theorem Visit.pc_other (h : Visit s k t a t' deeds pc) {j : ℕ} (hjk : j ≠ k) (which : Which) :
    s.pc ≠ .callback j which ∧ pc ≠ .callback j which := by
  cases h with
  | unloaded hpc | uncalled hpc => simp [hpc]
  | invoked hpc => simp [hpc, Ne.symm hjk]
  | returned hpc => simp [hpc, Ne.symm hjk]

/-- A scanner that is inside a callback after a visit is inside the one of the task. -/
theorem Visit.inside (h : Visit s k t a t' deeds pc) {j : ℕ} {which : Which}
    (hpc : pc = .callback j which) : j = k ∧ which = .onLoaded := by
  cases h with
  | unloaded | uncalled | returned => cases hpc
  | invoked =>
      cases hpc
      exact ⟨rfl, rfl⟩

/-- A step of the other threads keeps the invariant: normal tasks stay as they are, and new
ones are as they were installed. -/
theorem Scanning.sys (h : Scanning s) {b : Act} {sys : Sys} (hstep : Steps s.sys b sys) :
    Scanning { s with sys := sys } := by
  have hkept : ∀ (k : ℕ) (t : SkDogeTaskInfo), s.sys.tasks[k]? = some t → t.type = .kTaskNormal →
      sys.tasks[k]? = some t := by
    intro k t ht htype
    obtain ⟨t', ht', htask⟩ := hstep.task_step ht
    rw [ht', htask.normal h.sane ht htype]
  constructor
  · exact h.sane.step hstep
  · intro k t' ht' htype
    rcases hstep.task_cases ht' with ⟨t, ht, htask⟩ | ⟨rfl, p, hp, rfl⟩
    · have htype : t.type = .kTaskNormal := (type_of_installed htask.installed_eq).symm.trans htype
      rw [htask.normal h.sane ht htype]
      exact h.fair k t ht htype
    · -- the scanner has not seen the position yet
      have hout : s.sys.tasks[s.sys.tasks.length]? = none := List.getElem?_eq_none le_rfl
      have hdeeds : s.deeds s.sys.tasks.length = [] := by
        by_contra hne
        obtain ⟨t, ht, -⟩ := h.normal _ hne
        rw [hout] at ht
        cases ht
      show Fair p.info _ (s.deeds s.sys.tasks.length)
      rw [hdeeds]
      refine fair_installed (h.sane.pending p hp) fun hpc => ?_
      obtain ⟨-, t, ht, -⟩ := h.callback _ _ hpc
      rw [hout] at ht
      cases ht
  · intro k hk
    obtain ⟨t, ht, htype⟩ := h.normal k hk
    exact ⟨t, hkept k t ht htype, htype⟩
  · intro k which hpc
    obtain ⟨hwhich, t, ht, htype⟩ := h.callback k which hpc
    exact ⟨hwhich, t, hkept k t ht htype, htype⟩

/-- A visit keeps the invariant. -/
theorem Scanning.visit (h : Scanning s) (ht : s.sys.tasks[k]? = some t)
    (hvisit : Visit s k t a t' deeds pc) : Scanning (s.visit k t' deeds pc) := by
  have hlt := (List.getElem?_eq_some_iff.mp ht).1
  have htype := hvisit.normal h ht
  have htype' : t'.type = .kTaskNormal := (type_of_installed hvisit.installed).trans htype
  constructor
  · exact h.sane.of_installed (map_installed_set ht hvisit.installed) rfl rfl rfl
  · intro j u hu hutype
    rw [tasks_visit hlt] at hu
    rw [deeds_visit]
    by_cases hjk : j = k
    · subst hjk
      rw [if_pos rfl] at hu ⊢
      obtain rfl := Option.some.inj hu
      exact hvisit.fair (fun which hpc => (h.callback j which hpc).1) (h.fair j t ht htype)
    · rw [if_neg hjk] at hu ⊢
      obtain ⟨hbefore, hafter⟩ := hvisit.pc_other hjk .onLoaded
      have hfair := h.fair j u hu hutype
      rw [eq_false hbefore] at hfair
      show Fair u (pc = _) _
      rw [eq_false hafter]
      exact hfair
  · intro j hj
    rw [deeds_visit] at hj
    rw [tasks_visit hlt]
    by_cases hjk : j = k
    · exact ⟨t', if_pos hjk, htype'⟩
    · rw [if_neg hjk] at hj ⊢
      exact h.normal j hj
  · intro j which hpc
    obtain ⟨rfl, rfl⟩ := hvisit.inside hpc
    exact ⟨rfl, t', by rw [tasks_visit hlt, if_pos rfl], htype'⟩

theorem Scanning.step (h : Scanning s) (hstep : ScanSteps s a s') : Scanning s' := by
  cases hstep with
  | sys hsys => exact h.sys hsys
  | @moved _ pc _ hout hout' =>
      refine ⟨h.sane, ?_, h.normal, fun k which hpc => absurd hpc (hout' k which)⟩
      intro k t ht htype
      have hfair := h.fair k t ht htype
      rw [eq_false (hout k .onLoaded)] at hfair
      show Fair t (pc = _) _
      rw [eq_false (hout' k .onLoaded)]
      exact hfair
  | visited ht hvisit => exact h.visit ht hvisit

/-! ## What follows -/

theorem Scanning.disciplined (h : Scanning s) : Disciplined s := by
  -- a task with deeds is normal
  have hdeeds : ∀ k, s.deeds k = [] ∨ ∃ t inside, Fair t inside (s.deeds k) := by
    intro k
    by_cases hk : s.deeds k = []
    · exact Or.inl hk
    · obtain ⟨t, ht, htype⟩ := h.normal k hk
      exact Or.inr ⟨t, _, h.fair k t ht htype⟩
  constructor
  · intro k which
    rcases hdeeds k with hnil | ⟨t, inside, hfair⟩
    · rw [hnil]
      exact Nat.zero_le _
    · refine (hfair.invoked which).trans ?_
      split_ifs <;> simp
  · intro k
    rcases hdeeds k with hnil | ⟨t, inside, hfair⟩
    · rw [hnil]
      exact Nat.zero_le _
    · rw [hfair.created]
      split_ifs <;> simp
  · intro k t ht htype
    exact (h.fair k t ht htype).counted
  · intro k t ht htype
    exact (h.fair k t ht htype).limit
  · intro k t ht htype
    by_contra hne
    obtain ⟨u, hu, hutype⟩ := h.normal k hne
    obtain rfl := Option.some.inj (ht.symm.trans hu)
    exact htype hutype

/-- A visit that calls a callback is a scan that deserves it. -/
theorem Visit.invokes (h : Visit s k t a t' deeds pc) {which : Which}
    (hmem : Deed.invoked which ∈ deeds) : ∃ loads, a = .scan loads ∧ t.type = .kTaskNormal
      ∧ which = .onLoaded ∧ t.name ∈ loads ∧ t.scan_times < t.scan_limit := by
  have hnotify : ∀ task, Deed.invoked which ∉ notifyDeeds t task := by
    intro task hdeed
    simpa using mem_notifyDeeds hdeed
  cases h with
  | unloaded | returned => simp at hmem
  | uncalled => simp [hnotify] at hmem
  | @invoked loads _ hskips hload =>
      obtain ⟨htype, -, hlimit⟩ := not_skips_iff.mp hskips
      refine ⟨loads, rfl, htype, ?_, hload, hlimit⟩
      simpa [hnotify] using hmem

theorem Scanning.careful (h : Scanning s) (a : ScanAct) : Careful s a := by
  constructor
  · intro s' hstep k which hcount
    cases scanSteps_of_scanStep hstep with
    | sys | moved => exact absurd rfl hcount
    | @visited _ j t _ deeds _ ht hvisit =>
        rw [deeds_visit] at hcount
        by_cases hkj : k = j
        · subst hkj
          rw [if_pos rfl, List.count_append] at hcount
          have hmem : Deed.invoked which ∈ deeds := by
            by_contra hout
            rw [List.count_eq_zero_of_not_mem hout] at hcount
            exact hcount rfl
          obtain ⟨loads, rfl, htype, hwhich, hload, hlimit⟩ := hvisit.invokes hmem
          refine ⟨loads, t, rfl, ht, htype, hwhich, hload, ?_⟩
          rw [← (h.fair k t ht htype).counted]
          exact hlimit
        · rw [if_neg hkj] at hcount
          exact absurd rfl hcount
  · intro hscanner s' hstep k t ht htype
    cases scanSteps_of_scanStep hstep with
    | sys => exact absurd rfl (hscanner _)
    | moved => exact ht
    | @visited _ j u _ _ _ hu hvisit =>
        have hkj : k ≠ j := by
          rintro rfl
          obtain rfl := Option.some.inj (hu.symm.trans ht)
          exact htype (hvisit.normal h hu)
        rw [tasks_visit (List.getElem?_eq_some_iff.mp hu).1, if_neg hkj]
        exact ht

end

/-- **The discipline of the map scanner.**  Along every run of installs, hooks and one scanner,
whatever is reported as loaded, the scanner is disciplined in every state and careful in every
step. -/
theorem scanner_disciplined (va : Bool) (acts : List ScanAct) :
    Runs.Always scanStep Disciplined (ScanSys.start va) acts
      ∧ Runs.Guarded scanStep Careful (ScanSys.start va) acts := by
  have hkeep : ∀ s a s', Scanning s → scanStep s a = some s' → Scanning s' := by
    intro s a s' h hstep
    exact h.step (scanSteps_of_scanStep hstep)
  constructor
  · exact (Runs.always_of_preserved hkeep acts (scanning_start va)).mono fun _ h => h.disciplined
  · refine Runs.guarded_of_preserved ?_ acts (scanning_start va)
    intro s a s' h hstep
    exact ⟨hkeep s a s' h hstep, h.careful a⟩

end WatchDog
