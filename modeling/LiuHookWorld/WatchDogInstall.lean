/-
# Concurrent installs

Every task of the list should be found under its own name and type.  An install checks
that before it inserts, in a critical section of its own; a task inserted in between is
not seen by the check.  Those are the only steps that hide a task
(`registered_iff_unraced`).
-/
import LiuHookWorld.WatchDogSteps

namespace WatchDog

open SkDogeTaskInfo

/-- Every task of the list is what `find_task` returns for its own name and type. -/
def Registered (s : Sys) : Prop :=
  ∀ i t, s.tasks[i]? = some t → find_task s.tasks (some t.name) t.type = some i

/-- An insertion for which no task that serves its name came in after its duplicate check. -/
def Unraced (s : Sys) : Act → Prop
  | .push j => ∀ p, s.pending[j]? = some p → ∀ t ∈ s.tasks.drop p.seen, ¬ Serves t (ownKey p.info)
  | _ => True

/-! ## The list -/

theorem registered_iff_selfFinding {s : Sys} :
    Registered s ↔ FirstMatch.SelfFinding Serves ownKey s.tasks := by
  unfold Registered FirstMatch.SelfFinding
  constructor
  · intro h i t ht
    rw [← h i t ht, find_task_eq]
    rfl
  · intro h i t ht
    rw [← h i t ht, find_task_eq]
    rfl

/-- Whether tasks are found under their own names is a matter of what is installed. -/
theorem selfFinding_of_installed {tasks tasks' : List SkDogeTaskInfo}
    (h : tasks'.map installed = tasks.map installed)
    (hself : FirstMatch.SelfFinding Serves ownKey tasks) :
    FirstMatch.SelfFinding Serves ownKey tasks' := by
  rw [FirstMatch.selfFinding_iff_pairwise serves_ownKey] at hself ⊢
  have hmap : (tasks.map installed).Pairwise fun a b => ¬ Serves a (ownKey b) :=
    List.pairwise_map.mpr hself
  rw [← h] at hmap
  exact List.pairwise_map.mp hmap

theorem not_serves_of_installed {tasks tasks' : List SkDogeTaskInfo}
    (h : tasks'.map installed = tasks.map installed) {key : Name × SkLinkerTaskType}
    (hnone : ∀ t ∈ tasks, ¬ Serves t key) : ∀ t ∈ tasks', ¬ Serves t key := by
  intro t ht hserves
  have hmem : t.installed ∈ tasks.map installed := by
    rw [← h]
    exact List.mem_map_of_mem ht
  obtain ⟨u, hu, heq⟩ := List.mem_map.mp hmem
  apply hnone u hu
  show u.type = _ ∧ u.name <:+: _
  rw [type_of_installed heq, name_of_installed heq]
  exact hserves

/-! ## The invariant -/

/-- Every task is found under its own name, and the duplicate check of a pending install
still holds of the tasks that it saw. -/
structure Checked (s : Sys) : Prop where
  registered : Registered s
  seen_le : ∀ p ∈ s.pending, p.seen ≤ s.tasks.length
  unseen : ∀ p ∈ s.pending, ∀ t ∈ s.tasks.take p.seen, ¬ Serves t (ownKey p.info)

theorem checked_start (va : Bool) : Checked (Sys.start va) := by
  constructor
  · intro i t ht
    simp [Sys.start] at ht
  · intro p hp
    simp [Sys.start] at hp
  · intro p hp
    simp [Sys.start] at hp

/-- A step that leaves the installed tasks and the pending installs alone. -/
theorem Checked.of_same {s s' : Sys} (h : Checked s)
    (htasks : s'.tasks.map installed = s.tasks.map installed) (hpending : s'.pending = s.pending) :
    Checked s' := by
  have hlength : s'.tasks.length = s.tasks.length := by
    simpa using congrArg List.length htasks
  constructor
  · rw [registered_iff_selfFinding]
    exact selfFinding_of_installed htasks (registered_iff_selfFinding.mp h.registered)
  · rw [hpending, hlength]
    exact h.seen_le
  · rw [hpending]
    intro p hp
    refine not_serves_of_installed ?_ (h.unseen p hp)
    rw [List.map_take, htasks, ← List.map_take]

theorem Checked.step {s s' : Sys} {a : Act} (h : Checked s) (hguard : Unraced s a)
    (hstep : Steps s a s') : Checked s' := by
  cases hstep with
  | refused => exact h
  | @checked thread request _ hnone =>
      constructor
      · exact h.registered
      · intro p hp
        rcases List.mem_append.mp hp with hp | hp
        · exact h.seen_le p hp
        · rw [List.mem_singleton.mp hp]
      · intro p hp t ht
        rcases List.mem_append.mp hp with hp | hp
        · exact h.unseen p hp t ht
        · rw [List.mem_singleton.mp hp] at ht ⊢
          exact find_task_eq_none_iff.mp hnone t (List.mem_of_mem_take ht)
  | @pushed j p hp =>
      have hmem := List.mem_of_getElem? hp
      -- the check covers the tasks seen by it, the guard those that came after
      have hfree : ∀ t ∈ s.tasks, ¬ Serves t (ownKey p.info) := by
        intro t ht
        rw [← List.take_append_drop p.seen s.tasks] at ht
        rcases List.mem_append.mp ht with ht | ht
        · exact h.unseen p hmem t ht
        · exact hguard p hp t ht
      constructor
      · rw [registered_iff_selfFinding]
        apply (FirstMatch.selfFinding_append_singleton serves_ownKey).mpr
        exact ⟨registered_iff_selfFinding.mp h.registered, hfree⟩
      · intro q hq
        have hle := h.seen_le q (List.mem_of_mem_eraseIdx hq)
        show q.seen ≤ (s.tasks ++ [p.info]).length
        rw [List.length_append]
        omega
      · intro q hq t ht
        have hq := List.mem_of_mem_eraseIdx hq
        rw [List.take_append_of_le_length (h.seen_le q hq)] at ht
        exact h.unseen q hq t ht
  | entered | looked | lookedAll | returned => exact h.of_same rfl rfl
  | notified _ _ _ _ ht => exact h.of_same (map_installed_set ht (notify_user_installed _ _ _)) rfl
  | callbackReturned =>
      exact h.of_same (map_installed_modify fun t => notify_user_return_installed t _) rfl
  | originalReturned => exact h.of_same (storeHandle_installed _ _ _) rfl

/-- After an insertion every task is found under its own name only if the insertion was
not raced. -/
theorem unraced_of_registered {s s' : Sys} {a : Act} (hstep : Steps s a s')
    (h : Registered s') : Unraced s a := by
  cases hstep with
  | @pushed j p hp =>
      intro q hq t ht
      obtain rfl : p = q := Option.some.inj (hp.symm.trans hq)
      have happend := registered_iff_selfFinding.mp h
      rw [FirstMatch.selfFinding_append_singleton serves_ownKey] at happend
      exact happend.2 t (List.mem_of_mem_drop ht)
  | refused | checked | entered | looked | lookedAll | notified | returned | callbackReturned
    | originalReturned => trivial

/-- **The registry under concurrent installs.**  Along a run every task is found under its
own name and type in every state if and only if no insertion of the run is raced. -/
theorem registered_iff_unraced (va : Bool) (acts : List Act) :
    Runs.Always step Registered (Sys.start va) acts
      ↔ Runs.Guarded step Unraced (Sys.start va) acts := by
  apply Runs.always_iff_guarded (I := Checked)
  · intro s h
    exact h.registered
  · intro s a s' h hguard hstep
    exact h.step hguard (steps_of_step hstep)
  · intro s a s' _ hstep h
    exact unraced_of_registered (steps_of_step hstep) h
  · exact checked_start va

/-- Two threads install under one name: both checks pass before either inserts. -/
theorem not_registered_raced : ¬ Runs.Always step Registered (Sys.start false)
    [.install 0 (.install_init_cb ['a'] none none true),
      .install 1 (.install_init_cb ['a'] none none true), .push 0, .push 0] := by
  intro h
  have hfound := h.run 1 (.init ['a'] none none true)
  revert hfound
  decide

end WatchDog
