/-
# The task that a path notifies

A call of `do_dlopen_*_replace` or `call_array_replace` looks one name up, and so does one of
`find_libraries_replace` for one library.  In every run, with any number of threads and with
nested calls, a call for one path that has returned has notified the first task installed for
its type whose name occurs in the path, and no other (`installAll_first_match`).
-/
import LiuHookWorld.WatchDogLibraries
import LiuHookWorld.WatchDogSteps

namespace WatchDog

open SkDogeTaskInfo

/-! ## What a call notifies -/

/-- The tasks on which the call `i` of a run calls `notify_user`, in order. -/
def notifiedIn (s : Sys) (i : ℕ) (acts : List Act) : List ℕ :=
  Runs.trace step (fun s a => if a = .next i then s.notifiedBy a else none) s acts

/-- The state after a sequence of installs, in which nothing runs. -/
def Sys.afterInstalls (va : Bool) (requests : List Request) : Sys :=
  { Sys.start va with tasks := installAll va requests }

/-- A step that belongs to no install. -/
def Act.NoInstall : Act → Prop
  | .install _ _ | .push _ => False
  | .enter _ _ | .next _ | .callbackReturns _ | .originalReturns _ _ => True

instance : DecidablePred Act.NoInstall
  | .install _ _ | .push _ => isFalse id
  | .enter _ _ | .next _ | .callbackReturns _ | .originalReturns _ _ => isTrue trivial

/-- The task `k` is the first one that serves the key. -/
def FirstServing (tasks : List SkDogeTaskInfo) (key : Name × SkLinkerTaskType) (k : ℕ) : Prop :=
  ∃ t, tasks[k]? = some t ∧ Serves t key
    ∧ ∀ j u, j < k → tasks[j]? = some u → ¬ Serves u key

/-- Every callback that is installed for the call under a name that occurs in the path is among
those whose tasks the call notifies. -/
def NoneLost (va : Bool) (requests : List Request) (i : ℕ) (type : SkLinkerTaskType)
    (path : Name) (acts : List Act) : Prop :=
  ∀ r ∈ requests, Serves (r.info va) (path, type) →
    ∃ k ∈ notifiedIn (Sys.afterInstalls va requests) i acts,
      (installAll va requests)[k]? = some (r.info va)

/-! ## The invariant -/

/-- A lookup finds the same where the tasks are installed alike. -/
theorem find_task_of_installed {tasks tasks' : List SkDogeTaskInfo}
    (h : tasks'.map installed = tasks.map installed) (name : Name) (type : SkLinkerTaskType) :
    find_task tasks' (some name) type = find_task tasks (some name) type := by
  have hmap : ∀ tasks : List SkDogeTaskInfo, FirstMatch.find Serves tasks (name, type)
      = FirstMatch.find Serves (tasks.map installed) (name, type) := by
    intro tasks
    unfold FirstMatch.find
    rw [List.findIdx?_map]
    rfl
  rw [find_task_eq, find_task_eq, hmap tasks', h, ← hmap tasks]

/-- A call for one name, in such a place, with such a task, has notified these: nobody before the
lookup and, once it goes to return or is in a callback, what the lookup found. -/
inductive Told (found : Option ℕ) (name : Name) (pc : Pc) (task : Option ℕ) (ks : List ℕ) : Prop
  | before (hpc : pc = .look [some name]) (hks : ks = [])
  | looked (hpc : pc = .look [] ∨ pc = .calling ∨ ∃ ori, pc = .notify ori) (htask : task = found)
      (hks : ∀ k ∈ ks, found = some k)
  | told (hpc : pc = .ret ∨ pc = .done ∨ ∃ ori which, pc = .callback ori which)
      (htask : task = found) (hks : ∀ k, k ∈ ks ↔ found = some k)

/-- What holds along a run of the tasks, and of the call `i` and what it has notified. -/
structure Heard (tasks : List SkDogeTaskInfo) (i : ℕ) (s : Sys) (ks : List ℕ) : Prop where
  same : s.tasks.map installed = tasks.map installed
  pending : s.pending = []
  absent : s.calls[i]? = none → ks = []
  told : ∀ c, s.calls[i]? = some c → ∀ path, c.hook.names = [some path] →
    Told (find_task tasks (some path) c.hook.type) path c.pc c.task ks

section

variable {found : Option ℕ} {path : Name} {pc : Pc} {task : Option ℕ} {ks : List ℕ}

/-- Before the lookup a call has notified nobody. -/
theorem Told.of_look {name : Option Name} {rest : List (Option Name)}
    (h : Told found path pc task ks) (hpc : pc = .look (name :: rest)) :
    name = some path ∧ rest = [] ∧ ks = [] := by
  subst hpc
  cases h with
  | before hlook hks =>
      obtain ⟨rfl, rfl⟩ := List.cons.inj (Pc.look.inj hlook)
      exact ⟨rfl, rfl, hks⟩
  | looked hpc => rcases hpc with hpc | hpc | ⟨ori, hpc⟩ <;> cases hpc
  | told hpc => rcases hpc with hpc | hpc | ⟨ori, which, hpc⟩ <;> cases hpc

/-- A call that goes to return, or is in a callback, has notified exactly what it found. -/
theorem Told.of_told (h : Told found path pc task ks)
    (hpc : pc = .ret ∨ pc = .done ∨ ∃ ori which, pc = .callback ori which) :
    task = found ∧ ∀ k, k ∈ ks ↔ found = some k := by
  cases h with
  | before hlook =>
      rw [hlook] at hpc
      rcases hpc with hpc | hpc | ⟨ori, which, hpc⟩ <;> cases hpc
  | looked hlooked =>
      rcases hpc with rfl | rfl | ⟨ori, which, rfl⟩ <;>
        rcases hlooked with hpc | hpc | ⟨ori, hpc⟩ <;> cases hpc
  | told _ htask hks => exact ⟨htask, hks⟩

/-- After the lookup a call holds what it found, and has notified nothing else. -/
theorem Told.task_eq (h : Told found path pc task ks)
    (hpc : ∀ name rest, pc ≠ .look (name :: rest)) : task = found ∧ ∀ k ∈ ks, found = some k := by
  cases h with
  | before hlook => exact absurd hlook (hpc _ _)
  | looked _ htask hks => exact ⟨htask, hks⟩
  | told _ htask hks => exact ⟨htask, fun k hk => (hks k).mp hk⟩

variable {s s' : Sys} {i : ℕ} {c d : Call}

theorem afterNotify_told (htask : c.task = found) (hks : ∀ k, k ∈ ks ↔ found = some k)
    (ori : Bool) : Told found path (c.afterNotify ori).pc (c.afterNotify ori).task ks := by
  rw [Call.afterNotify_pc, Call.afterNotify_task]
  cases ori with
  | false => exact .looked (.inr (.inl rfl)) htask fun k hk => (hks k).mp hk
  | true => exact .told (.inl rfl) htask hks

theorem notified_told (htask : c.task = found) (hks : ∀ k, k ∈ ks ↔ found = some k) (ori : Bool)
    (inv : Option Invocation) :
    Told found path (c.notified ori inv).pc (c.notified ori inv).task ks := by
  cases inv with
  | none => exact afterNotify_told htask hks ori
  | some inv => exact .told (.inr (.inr ⟨ori, inv.which, rfl⟩)) htask hks

/-- A step of the call itself. -/
theorem Told.next (h : Told found path c.pc c.task ks) (hstep : Steps s (.next i) s')
    (hc : s.calls[i]? = some c) (hd : s'.calls[i]? = some d)
    (hfound : find_task s.tasks (some path) c.hook.type = found) :
    Told found path d.pc d.task (ks ++ (s.notifiedBy (.next i)).toList) := by
  have hset : ∀ (s : Sys) (d' : Call), s.calls[i]? = some c → (s.calls.set i d')[i]? = some d →
      d = d' := by
    intro s d' hc hd
    rw [List.getElem?_set_self (List.getElem?_eq_some_iff.mp hc).1] at hd
    exact (Option.some.inj hd).symm
  have hquiet : (∀ ori, c.pc ≠ .notify ori) → ks ++ (s.notifiedBy (.next i)).toList = ks := by
    intro hpc
    have hnone : s.notifiedBy (.next i) = none := by
      simp only [Sys.notifiedBy, hc]
      cases hplace : c.pc with
      | notify ori => exact absurd hplace (hpc ori)
      | look | callback | calling | ret | done => rfl
    rw [hnone, Option.toList_none, List.append_nil]
  cases hstep with
  | @looked _ c' name rest hc' _ hpc =>
      obtain rfl := Option.some.inj (hc.symm.trans hc')
      obtain rfl := hset s _ hc hd
      rw [hquiet (by rw [hpc]; rintro _ ⟨⟩)]
      obtain ⟨rfl, rfl, rfl⟩ := h.of_look hpc
      exact .looked (.inl rfl) hfound (by rintro _ ⟨⟩)
  | @lookedAll _ c' hc' _ hpc =>
      obtain rfl := Option.some.inj (hc.symm.trans hc')
      obtain rfl := hset s _ hc hd
      rw [hquiet (by rw [hpc]; rintro _ ⟨⟩)]
      obtain ⟨htask, hks⟩ := h.task_eq (by rw [hpc]; rintro _ _ ⟨⟩)
      refine .looked ?_ (c.afterLook_task.trans htask) hks
      exact c.afterLook_pc.elim (fun hpc => .inr (.inl hpc)) fun hpc => .inr (.inr ⟨_, hpc⟩)
  | @notified _ k c' t ori hc' _ hpc hk ht =>
      obtain rfl := Option.some.inj (hc.symm.trans hc')
      obtain rfl := hset s _ hc hd
      obtain ⟨htask, hks⟩ := h.task_eq (by rw [hpc]; rintro _ _ ⟨⟩)
      have hnotified : s.notifiedBy (.next i) = some k := by
        simp only [Sys.notifiedBy, hc, hpc, hk]
      have hall : ∀ j, j ∈ ks ++ [k] ↔ found = some j := by
        intro j
        rw [List.mem_append, List.mem_singleton]
        constructor
        · rintro (hj | rfl)
          · exact hks j hj
          · rw [← htask, hk]
        · intro hj
          rw [← htask, hk] at hj
          exact .inr (Option.some.inj hj).symm
      rw [hnotified, Option.toList_some]
      exact notified_told htask hall ori _
  | @returned _ c' hc' _ hpc =>
      obtain rfl := Option.some.inj (hc.symm.trans hc')
      obtain rfl := hset s _ hc hd
      rw [hquiet (by rw [hpc]; rintro _ ⟨⟩)]
      obtain ⟨htask, hks⟩ := h.of_told (.inl hpc)
      exact .told (.inr (.inl rfl)) htask hks

/-- Any other step. -/
theorem Told.other {a : Act} (h : Told found path c.pc c.task ks) (ha : a ≠ .next i)
    (hmove : CallStep s i c a d) : Told found path d.pc d.task ks := by
  cases hmove with
  | same => exact h
  | looked | lookedAll | notified | returned => exact absurd rfl ha
  | @callbackReturned k ori which hpc hk =>
      obtain ⟨htask, hks⟩ := h.of_told (.inr (.inr ⟨ori, which, hpc⟩))
      exact afterNotify_told htask hks ori
  | @originalReturned result hpc =>
      obtain ⟨htask, hks⟩ := h.task_eq (by rw [hpc]; rintro _ _ ⟨⟩)
      rw [Call.afterOriginal_pc]
      by_cases hnone : c.task = none
      · rw [if_pos hnone]
        refine .told (.inl rfl) htask fun k => ⟨hks k, fun hk => ?_⟩
        rw [← htask, hnone] at hk
        cases hk
      · rw [if_neg hnone]
        exact .looked (.inr (.inr ⟨true, rfl⟩)) htask hks

end

/-- What was notified, after one step. -/
theorem Heard.step {tasks : List SkDogeTaskInfo} {i : ℕ} {s s' : Sys} {ks : List ℕ} {a : Act}
    (h : Heard tasks i s ks) (ha : a.NoInstall) (hstep : Steps s a s') :
    Heard tasks i s' (ks ++ (if a = .next i then s.notifiedBy a else none).toList) := by
  refine ⟨?_, ?_, fun hnone => ?_, fun d hd path hnames => ?_⟩
  · rcases hstep.tasks_installed with hmap | ⟨j, p, rfl, -⟩
    · exact hmap.trans h.same
    · exact ha.elim
  · cases hstep with
    | refused | checked | pushed => exact ha.elim
    | entered | looked | lookedAll | notified | returned | callbackReturned | originalReturned =>
        exact h.pending
  · have hbefore : s.calls[i]? = none := by
      cases hc : s.calls[i]? with
      | none => rfl
      | some c =>
          obtain ⟨d, hd⟩ := hstep.call_stays hc
          rw [hd] at hnone
          cases hnone
    rw [h.absent hbefore, List.nil_append]
    split_ifs with hnext
    · rw [hnext]
      simp only [Sys.notifiedBy, hbefore, Option.toList_none]
    · rfl
  · rcases hstep.call_was hd with ⟨c, hc, hmove⟩ | ⟨thread, hook, rfl, rfl⟩
    · rw [hmove.hook] at hnames ⊢
      have htold := h.told c hc path hnames
      by_cases hnext : a = .next i
      · subst hnext
        rw [if_pos rfl]
        exact htold.next hstep hc hd (find_task_of_installed h.same path _)
      · rw [if_neg hnext, Option.toList_none, List.append_nil]
        exact htold.other hnext hmove
    · -- the call is a new one, or was there and did not move
      rw [if_neg Act.noConfusion, Option.toList_none, List.append_nil]
      cases hc : s.calls[i]? with
      | none => exact .before (congrArg Pc.look hnames) (h.absent hc)
      | some c =>
          obtain ⟨d, hd', hmove⟩ := hstep.call_step hc
          obtain rfl := Option.some.inj (hd'.symm.trans hd)
          have htold := h.told c hc path (hmove.hook ▸ hnames)
          rw [hmove.hook]
          exact htold.other Act.noConfusion hmove

theorem heard_start (va : Bool) (requests : List Request) (i : ℕ) :
    Heard (installAll va requests) i (Sys.afterInstalls va requests) [] :=
  ⟨rfl, rfl, fun _ => rfl, nofun⟩

/-! ## What is notified for a path -/

section

variable {va : Bool} {requests : List Request} {acts : List Act} {i : ℕ} {c : Call} {path : Name}

/-- A call for one path that has returned has notified what `find_task` returns. -/
theorem mem_notifiedIn_iff (hacts : ∀ a ∈ acts, a.NoInstall)
    (hc : (Runs.run step (Sys.afterInstalls va requests) acts).calls[i]? = some c)
    (hdone : c.pc = .done) (hnames : c.hook.names = [some path]) (k : ℕ) :
    k ∈ notifiedIn (Sys.afterInstalls va requests) i acts
      ↔ find_task (installAll va requests) (some path) c.hook.type = some k := by
  have hheard := Runs.run_of_trace (I := Heard (installAll va requests) i) (H := Act.NoInstall)
    (fun s a s' ks h ha hstep => h.step ha (steps_of_step hstep)) acts hacts
    (heard_start va requests i)
  rw [List.nil_append] at hheard
  exact ((hheard.told c hc path hnames).of_told (.inr (.inl hdone))).2 k

/-- A callback installed for the path is notified exactly if its task is the one found. -/
theorem noneLost_iff_allFound (hacts : ∀ a ∈ acts, a.NoInstall)
    (hc : (Runs.run step (Sys.afterInstalls va requests) acts).calls[i]? = some c)
    (hdone : c.pc = .done) (hnames : c.hook.names = [some path]) :
    NoneLost va requests i c.hook.type path acts ↔ AllFound va requests c.hook.type path := by
  have hmem := mem_notifiedIn_iff hacts hc hdone hnames
  constructor
  · intro h r hr hserves
    obtain ⟨k, hk, htask⟩ := h r hr hserves
    exact ⟨k, (hmem k).mp hk, htask⟩
  · intro h r hr hserves
    obtain ⟨k, hk, htask⟩ := h r hr hserves
    exact ⟨k, (hmem k).mpr hk, htask⟩

end

/-- **First match.**  For every sequence of installs: one more adds its task unless a task
that serves its name is there.  In every run after it, a call for one path that has returned has
notified the first task added for its type whose name occurs in the path, which is there as soon
as any installed name occurs in it, and no other; and every callback installed for the path is
among those notified if and only if there is only one. -/
theorem installAll_first_match (va : Bool) (requests : List Request) :
    (∀ r, installAll va (requests ++ [r]) = installAll va requests ++ [r.info va]
        ↔ ∀ t ∈ installAll va requests, ¬ Serves t (ownKey (r.info va)))
      ∧ ∀ acts, (∀ a ∈ acts, Act.NoInstall a) → ∀ i c path,
        (Runs.run step (Sys.afterInstalls va requests) acts).calls[i]? = some c →
        c.pc = .done → c.hook.names = [some path] →
        (∀ k, k ∈ notifiedIn (Sys.afterInstalls va requests) i acts
            ↔ FirstServing (installAll va requests) (path, c.hook.type) k)
          ∧ ((∃ r ∈ requests, Serves (r.info va) (path, c.hook.type)) →
            ∃ k, FirstServing (installAll va requests) (path, c.hook.type) k)
          ∧ (NoneLost va requests i c.hook.type path acts
            ↔ OneServes va requests c.hook.type path) := by
  refine ⟨installAll_append_iff va requests, fun acts hacts i c path hc hdone hnames => ?_⟩
  refine ⟨fun k => ?_, ?_, ?_⟩
  · rw [mem_notifiedIn_iff hacts hc hdone hnames, find_task_eq_some_iff]
    rfl
  · rintro ⟨r, hr, hserves⟩
    obtain ⟨k, t, -, hfirst⟩ := exists_first_serving va hr hserves
    exact ⟨k, t, hfirst⟩
  · exact (noneLost_iff_allFound hacts hc hdone hnames).trans
      (allFound_iff_oneServes va requests _ _)

/-- The installs of `a` and then of `ab`. -/
def prefixRequests : List Request :=
  [.install_linker_cb ['a'] none (some 1) true, .install_linker_cb ['a', 'b'] none (some 2) true]

/-- A load of `/ab` from its beginning to its end. -/
def prefixActs : List Act :=
  [.enter 0 (.do_dlopen_2 (some ['/', 'a', 'b'])), .next 0, .next 0, .next 0,
    .originalReturns 0 1, .next 0, .callbackReturns 0, .next 0]

theorem installAll_first_match_prefix : ∀ k,
    k ∈ notifiedIn (Sys.afterInstalls false prefixRequests) 0 prefixActs
      ↔ FirstServing (installAll false prefixRequests) (['/', 'a', 'b'], .kTaskLinker) k :=
  ((installAll_first_match false prefixRequests).2 prefixActs (by decide) 0 _ ['/', 'a', 'b']
    rfl rfl rfl).1

/-- `ab` is asked for after `a`: it is not even added, and the call notifies `a` for it. -/
theorem not_noneLost_prefix :
    (∀ a ∈ prefixActs, Act.NoInstall a)
      ∧ ((Runs.run step (Sys.afterInstalls false prefixRequests) prefixActs).calls[0]?.map
        Call.pc) = some .done
      ∧ ¬ NoneLost false prefixRequests 0 .kTaskLinker ['/', 'a', 'b'] prefixActs := by
  refine ⟨by decide, by decide, fun h => ?_⟩
  obtain ⟨k, hk, htask⟩ := h (.install_linker_cb ['a', 'b'] none (some 2) true) (by decide)
    (by decide)
  have hlist : notifiedIn (Sys.afterInstalls false prefixRequests) 0 prefixActs = [0, 0] := by
    decide
  rw [hlist] at hk
  obtain rfl : k = 0 := by simpa using hk
  revert htask
  decide

end WatchDog
