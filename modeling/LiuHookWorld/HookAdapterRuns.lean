/-
# Requests from several threads

The search of the list, each engine and the insertion are one step of a call of
`inline_hook_func_address` each; only the insertion takes the lock.  Between its search and
its insertion, other calls may insert the same hash.  Those are the only insertions that
duplicate an entry (`safe_iff_unraced`).
-/
import LiuHookWorld.Runs
import LiuHookWorld.HookAdapter

namespace HookAdapter

/-! ## Calls and steps -/

/-- What a call does next. -/
inductive Pc
  | search
  | sk_inline_hook
  | dft_inline_hook
  | push
  | done (answer : Answer)
  deriving DecidableEq, Repr

/-- The search found nothing, and the call has neither failed nor inserted yet. -/
def Pc.Passed : Pc → Prop
  | sk_inline_hook | dft_inline_hook | push => True
  | search | done _ => False

/-- A call on some thread; `seen` is how many entries the list had when it searched. -/
structure Call where
  request : HookRequest
  ignore_dft : Bool
  pc : Pc
  seen : ℕ
  deriving DecidableEq, Repr

/-- The list, and all calls ever made. -/
structure Sys (H : Type) where
  sk_hooks : List (SkHookInfo H)
  calls : List Call
  deriving DecidableEq, Repr

inductive Act
  | enter (request : HookRequest) (ignore_dft : Bool)
  | search (i : ℕ)
  | sk_inline_hook (i : ℕ) (ok : Bool)
  | dft_inline_hook (i : ℕ) (ok : Bool)
  | push (i : ℕ)
  deriving DecidableEq, Repr

def Sys.start (H : Type) : Sys H := ⟨[], []⟩

/-- The call `i`, if this is what it does next. -/
def Sys.callAt {H : Type} (s : Sys H) (i : ℕ) (pc : Pc) : Option Call :=
  s.calls[i]?.filter fun c => c.pc = pc

/-- The call `i` becomes `c`. -/
def Sys.setCall {H : Type} (s : Sys H) (i : ℕ) (c : Call) : Sys H :=
  { s with calls := s.calls.set i c }

namespace Call

/-- After `sk_inline_hook`. -/
def sk_answered (c : Call) (ok : Bool) : Call :=
  { c with pc := if ok then .push else if c.ignore_dft then .done .failed else .dft_inline_hook }

/-- After `dft_inline_hook`. -/
def dft_answered (c : Call) (ok : Bool) : Call :=
  { c with pc := if ok then .push else .done .failed }

/-- After the insertion. -/
def pushed (c : Call) : Call := { c with pc := .done .hooked }

end Call

section

variable {H : Type} [DecidableEq H] (sk_hash_hook_hash : List Char → H)

/-- After the test of the arguments and the search. -/
def Call.searched (c : Call) (sk_hooks : List (SkHookInfo H)) : Call where
  request := c.request
  ignore_dft := c.ignore_dft
  pc :=
    if ¬ c.request.Valid then .done .invalid
    else if has_hook sk_hooks (sk_hash_hook_hash c.request.text) then .done .duplicate
    else .sk_inline_hook
  seen := sk_hooks.length

def step (s : Sys H) : Act → Option (Sys H)
  | .enter request ignore_dft =>
      some { s with calls := s.calls ++ [⟨request, ignore_dft, .search, 0⟩] }
  | .search i =>
      (s.callAt i .search).map fun c => s.setCall i (c.searched sk_hash_hook_hash s.sk_hooks)
  | .sk_inline_hook i ok => (s.callAt i .sk_inline_hook).map fun c => s.setCall i (c.sk_answered ok)
  | .dft_inline_hook i ok =>
      (s.callAt i .dft_inline_hook).map fun c => s.setCall i (c.dft_answered ok)
  | .push i => (s.callAt i .push).map fun c =>
      { s with sk_hooks := s.sk_hooks ++ [c.request.info sk_hash_hook_hash] }.setCall i c.pushed

/-! ## The property and the guard -/

omit [DecidableEq H] in
/-- No two entries have one hash. -/
def NoDuplicates (s : Sys H) : Prop := (s.sk_hooks.map SkHookInfo.hash).Nodup

/-- The requests of the calls that have returned `true`. -/
def successes (calls : List Call) : List HookRequest :=
  (calls.filter fun c => c.pc = .done .hooked).map Call.request

/-- The entries are those of the calls that have returned `true`, one for each. -/
def OnePerSuccess (s : Sys H) : Prop :=
  s.sk_hooks.Perm ((successes s.calls).map (HookRequest.info sk_hash_hook_hash))

/-- An insertion for which no entry of its hash came in after its search. -/
def Unraced (s : Sys H) : Act → Prop
  | .push i => ∀ c, s.calls[i]? = some c →
      ∀ v ∈ s.sk_hooks.drop c.seen, v.hash ≠ sk_hash_hook_hash c.request.text
  | _ => True

end

/-! ## What a step can do -/

section

variable {H : Type} [DecidableEq H] {sk_hash_hook_hash : List Char → H}

/-- A call is new, it searches, an engine answers it, or it inserts. -/
inductive Steps (sk_hash_hook_hash : List Char → H) (s : Sys H) : Act → Sys H → Prop
  | entered {request : HookRequest} {ignore_dft : Bool} :
      Steps sk_hash_hook_hash s (.enter request ignore_dft)
        { s with calls := s.calls ++ [⟨request, ignore_dft, .search, 0⟩] }
  | searched {i : ℕ} {c : Call} : s.calls[i]? = some c → c.pc = .search →
      Steps sk_hash_hook_hash s (.search i)
        (s.setCall i (c.searched sk_hash_hook_hash s.sk_hooks))
  | answered {a : Act} {i : ℕ} {c : Call} {pc : Pc} : s.calls[i]? = some c → c.pc.Passed →
      pc ≠ .done .hooked → (∀ j, a ≠ .push j) →
      Steps sk_hash_hook_hash s a (s.setCall i { c with pc := pc })
  | pushed {i : ℕ} {c : Call} : s.calls[i]? = some c → c.pc = .push →
      Steps sk_hash_hook_hash s (.push i)
        ({ s with sk_hooks := s.sk_hooks ++ [c.request.info sk_hash_hook_hash] }.setCall i c.pushed)

omit [DecidableEq H] in
theorem callAt_eq_some_iff {s : Sys H} {i : ℕ} {pc : Pc} {c : Call} :
    s.callAt i pc = some c ↔ s.calls[i]? = some c ∧ c.pc = pc := by
  unfold Sys.callAt
  rw [Option.filter_eq_some_iff, decide_eq_true_iff]

theorem steps_of_step {s s' : Sys H} {a : Act} (h : step sk_hash_hook_hash s a = some s') :
    Steps sk_hash_hook_hash s a s' := by
  cases a with
  | enter request ignore_dft =>
      obtain rfl := Option.some.inj h
      exact .entered
  | search i =>
      obtain ⟨c, hc, rfl⟩ := Option.map_eq_some_iff.mp h
      obtain ⟨hcall, hpc⟩ := callAt_eq_some_iff.mp hc
      exact .searched hcall hpc
  | sk_inline_hook i ok =>
      obtain ⟨c, hc, rfl⟩ := Option.map_eq_some_iff.mp h
      obtain ⟨hcall, hpc⟩ := callAt_eq_some_iff.mp hc
      refine .answered hcall (by rw [hpc]; trivial) ?_ (by simp)
      split_ifs <;> simp
  | dft_inline_hook i ok =>
      obtain ⟨c, hc, rfl⟩ := Option.map_eq_some_iff.mp h
      obtain ⟨hcall, hpc⟩ := callAt_eq_some_iff.mp hc
      refine .answered hcall (by rw [hpc]; trivial) ?_ (by simp)
      split_ifs <;> simp
  | push i =>
      obtain ⟨c, hc, rfl⟩ := Option.map_eq_some_iff.mp h
      obtain ⟨hcall, hpc⟩ := callAt_eq_some_iff.mp hc
      exact .pushed hcall hpc

/-! ## One entry for each success -/

theorem successes_append (calls others : List Call) :
    successes (calls ++ others) = successes calls ++ successes others := by
  simp [successes]

/-- A call that has not returned `true` becomes another one. -/
theorem successes_set {calls : List Call} {i : ℕ} {c : Call} (hc : calls[i]? = some c)
    (hpc : c.pc ≠ .done .hooked) (d : Call) :
    (successes (calls.set i d)).Perm (successes calls ++ successes [d]) := by
  obtain ⟨hlt, hget⟩ := List.getElem?_eq_some_iff.mp hc
  have hcalls : successes calls = successes (calls.take i) ++ successes (calls.drop (i + 1)) := by
    have hnone : successes [c] = [] := by
      simp [successes, hpc]
    calc successes calls
        = successes (calls.take i ++ [c] ++ calls.drop (i + 1)) := by
          rw [List.append_assoc, List.singleton_append, ← hget, ← List.drop_eq_getElem_cons hlt,
            List.take_append_drop]
      _ = successes (calls.take i) ++ successes (calls.drop (i + 1)) := by
          rw [successes_append, successes_append, hnone, List.append_nil]
  rw [List.set_eq_take_append_cons_drop, if_pos hlt, successes_append, hcalls, List.append_assoc,
    ← List.singleton_append, successes_append]
  exact (List.perm_append_comm).append_left _

theorem successes_of_ne {d : Call} (hpc : d.pc ≠ .done .hooked) : successes [d] = [] := by
  simp [successes, hpc]

theorem searched_pc (c : Call) (sk_hooks : List (SkHookInfo H)) :
    (c.searched sk_hash_hook_hash sk_hooks).pc ≠ .done .hooked := by
  unfold Call.searched
  dsimp only
  split_ifs <;> simp

/-- Every step keeps one entry for each call that has returned `true`. -/
theorem OnePerSuccess.step {s s' : Sys H} {a : Act} (h : OnePerSuccess sk_hash_hook_hash s)
    (hstep : Steps sk_hash_hook_hash s a s') : OnePerSuccess sk_hash_hook_hash s' := by
  unfold OnePerSuccess at h ⊢
  cases hstep with
  | entered =>
      rw [successes_append, successes_of_ne (by simp), List.append_nil]
      exact h
  | @searched i c hc hpc =>
      have hset := successes_set hc (by rw [hpc]; simp) (c.searched sk_hash_hook_hash s.sk_hooks)
      rw [successes_of_ne (searched_pc _ _), List.append_nil] at hset
      exact h.trans (hset.map _).symm
  | @answered _ i c pc hc hpassed hpc =>
      have hset := successes_set hc (by intro heq; rw [heq] at hpassed; exact hpassed)
        { c with pc := pc }
      rw [successes_of_ne hpc, List.append_nil] at hset
      exact h.trans (hset.map _).symm
  | @pushed i c hc hpc =>
      have hset := successes_set hc (by rw [hpc]; simp) c.pushed
      have hnew : successes [c.pushed] = [c.request] := rfl
      rw [hnew] at hset
      refine List.Perm.trans ?_ (hset.map _).symm
      rw [List.map_append, List.map_singleton]
      exact h.append_right _

/-! ## Duplicates -/

/-- No duplicates so far, and what a call that has passed its search saw was other hashes. -/
structure Searched (sk_hash_hook_hash : List Char → H) (s : Sys H) : Prop where
  noDuplicates : NoDuplicates s
  success : OnePerSuccess sk_hash_hook_hash s
  seen_le : ∀ c ∈ s.calls, c.pc.Passed → c.seen ≤ s.sk_hooks.length
  unseen : ∀ c ∈ s.calls, c.pc.Passed → ∀ v ∈ s.sk_hooks.take c.seen,
    v.hash ≠ sk_hash_hook_hash c.request.text

omit [DecidableEq H] in
theorem searched_start : Searched sk_hash_hook_hash (Sys.start H) where
  noDuplicates := List.nodup_nil
  success := List.Perm.refl []
  seen_le := by simp [Sys.start]
  unseen := by simp [Sys.start]

/-- The search is passed where the list has no entry of the hash. -/
theorem searched_passed {c : Call} {sk_hooks : List (SkHookInfo H)}
    (h : (c.searched sk_hash_hook_hash sk_hooks).pc.Passed) :
    ∀ v ∈ sk_hooks, v.hash ≠ sk_hash_hook_hash c.request.text := by
  unfold Call.searched at h
  dsimp only at h
  split_ifs at h with hvalid hdup
  · exact h.elim
  · intro v hv heq
    apply hdup
    rw [has_hook_iff, ← heq]
    exact List.mem_map_of_mem hv
  · exact h.elim

omit [DecidableEq H] in
/-- An insertion makes no duplicate if and only if it is unraced. -/
theorem Searched.push_iff {s : Sys H} (h : Searched sk_hash_hook_hash s) {i : ℕ} {c : Call}
    (hc : s.calls[i]? = some c) (hpc : c.pc = .push) :
    NoDuplicates ({ s with sk_hooks := s.sk_hooks ++ [c.request.info sk_hash_hook_hash] }.setCall i
      c.pushed) ↔ Unraced sk_hash_hook_hash s (.push i) := by
  have hpassed : c.pc.Passed := by
    rw [hpc]
    trivial
  refine nodup_append_info.trans ((and_iff_right h.noDuplicates).trans ?_)
  constructor
  · intro hnew d hd v hv heq
    obtain rfl := Option.some.inj (hc.symm.trans hd)
    apply hnew
    rw [← heq]
    exact List.mem_map_of_mem (List.mem_of_mem_drop hv)
  · -- the search covers the entries it saw, the guard those that came after
    intro hguard hmem
    obtain ⟨v, hv, heq⟩ := List.mem_map.mp hmem
    rw [← List.take_append_drop c.seen s.sk_hooks] at hv
    rcases List.mem_append.mp hv with hv | hv
    · exact h.unseen c (List.mem_of_getElem? hc) hpassed v hv heq
    · exact hguard c hc v hv heq

omit [DecidableEq H] in
/-- A call becomes another one, over the same entries. -/
theorem Searched.setCall {s : Sys H} (h : Searched sk_hash_hook_hash s) {i : ℕ} {d : Call}
    (hsuccess : OnePerSuccess sk_hash_hook_hash (s.setCall i d))
    (hseen : d.pc.Passed → d.seen ≤ s.sk_hooks.length)
    (hunseen : d.pc.Passed → ∀ v ∈ s.sk_hooks.take d.seen,
      v.hash ≠ sk_hash_hook_hash d.request.text) : Searched sk_hash_hook_hash (s.setCall i d) := by
  refine ⟨h.noDuplicates, hsuccess, ?_, ?_⟩
  · intro e he
    rcases List.mem_or_eq_of_mem_set he with he | rfl
    · exact h.seen_le e he
    · exact hseen
  · intro e he
    rcases List.mem_or_eq_of_mem_set he with he | rfl
    · exact h.unseen e he
    · exact hunseen

theorem Searched.step {s s' : Sys H} {a : Act} (h : Searched sk_hash_hook_hash s)
    (hguard : Unraced sk_hash_hook_hash s a) (hstep : Steps sk_hash_hook_hash s a s') :
    Searched sk_hash_hook_hash s' := by
  have hsuccess := h.success.step hstep
  cases hstep with
  | entered =>
      refine ⟨h.noDuplicates, hsuccess, ?_, ?_⟩
      · intro c hc hpassed
        rcases List.mem_append.mp hc with hc | hc
        · exact h.seen_le c hc hpassed
        · rw [List.mem_singleton.mp hc] at hpassed
          exact hpassed.elim
      · intro c hc hpassed
        rcases List.mem_append.mp hc with hc | hc
        · exact h.unseen c hc hpassed
        · rw [List.mem_singleton.mp hc] at hpassed
          exact hpassed.elim
  | searched =>
      refine h.setCall hsuccess (fun _ => Nat.le_refl _) ?_
      intro hpassed v hv
      exact searched_passed hpassed v (List.mem_of_mem_take hv)
  | @answered _ i c _ hc hpassed =>
      have hmem := List.mem_of_getElem? hc
      exact h.setCall hsuccess (fun _ => h.seen_le c hmem hpassed)
        (fun _ => h.unseen c hmem hpassed)
  | @pushed i c hc hpc =>
      refine ⟨(h.push_iff hc hpc).mpr hguard, hsuccess, ?_, ?_⟩
      · intro e he hpassed
        rcases List.mem_or_eq_of_mem_set he with he | rfl
        · refine Nat.le_trans (h.seen_le e he hpassed) ?_
          rw [Sys.setCall, List.length_append]
          exact Nat.le_add_right _ _
        · exact hpassed.elim
      · intro e he hpassed v hv
        rcases List.mem_or_eq_of_mem_set he with he | rfl
        · rw [Sys.setCall, List.take_append_of_le_length (h.seen_le e he hpassed)] at hv
          exact h.unseen e he hpassed v hv
        · exact hpassed.elim

/-- **Concurrent requests.**  In every state of a run the hashes of the list are different and
there is one entry for each call that has returned `true`, if and only if no call inserts a
hash that came in after its search. -/
theorem safe_iff_unraced (acts : List Act) :
    Runs.Always (step sk_hash_hook_hash)
        (fun s => NoDuplicates s ∧ OnePerSuccess sk_hash_hook_hash s) (Sys.start H) acts
      ↔ Runs.Guarded (step sk_hash_hook_hash) (Unraced sk_hash_hook_hash) (Sys.start H) acts := by
  refine Runs.always_iff_guarded (fun s h => ⟨h.noDuplicates, h.success⟩)
    (fun s a s' h hguard hstep => h.step hguard (steps_of_step hstep)) ?_ acts searched_start
  intro s a s' h hstep hsafe
  cases steps_of_step hstep with
  | entered | searched => trivial
  | answered _ _ _ ha =>
      cases a with
      | push j => exact absurd rfl (ha j)
      | enter | search | sk_inline_hook | dft_inline_hook => trivial
  | pushed hc hpc => exact (h.push_iff hc hpc).mp hsafe.1

end

/-- Two threads ask for the same hook, and both search before either inserts. -/
theorem not_safe_twice :
    let request : HookRequest := ⟨4096, 8192, 12288⟩
    let acts : List Act := [.enter request false, .enter request false, .search 0, .search 1,
      .sk_inline_hook 0 true, .sk_inline_hook 1 true, .push 0, .push 1]
    ¬ Runs.Always (step id) (fun s => NoDuplicates s ∧ OnePerSuccess id s) (Sys.start (List Char))
      acts := by
  intro request acts h
  have hend : ¬ ((Runs.run (step id) (Sys.start (List Char)) acts).sk_hooks.map
      SkHookInfo.hash).Nodup := by
    decide +kernel
  exact hend h.run.1

end HookAdapter
