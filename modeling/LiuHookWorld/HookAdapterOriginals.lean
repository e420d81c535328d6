/-
# The saved originals

`inline_hook_func_address` with what it stores.  An engine stores the address of the original
through `ori_cb`; `dft_inline_hook` clears `*ori_cb` first, to see afterwards whether something
was stored.  Where that engine fails, a saved original is lost (`noTrace_iff`).
-/
import Mathlib.Logic.Function.Basic
import LiuHookWorld.Runs
import LiuHookWorld.HookAdapter

namespace HookAdapter.Originals

/-! ## The source -/

/-- The pointers in memory, each at its address. -/
abbrev Memory := ℕ → ℕ

/-- What `sk_inline_hook` returns and what it stores into `*ori_cb`; nothing if it fails. -/
structure SkAnswer where
  ok : Bool
  stored : Option ℕ
  stored_none : ok = false → stored = none

/-- A call of `inline_hook_func_address`, with what the engines do. -/
structure Attempt where
  request : HookRequest
  ignore_dft : Bool
  sk : SkAnswer
  /-- What `SK_ANCIENT_HOOK_FUNC` stores into `*ori_cb`; none if it fails. -/
  ancient : Option ℕ

/-- The list of hooks, the requests that were recorded in it, and the memory. -/
structure State (H : Type) extends Adapter H where
  memory : Memory

/-- After a store at `p`, if there is one. -/
def Memory.store (memory : Memory) (p : ℕ) (stored : Option ℕ) : Memory :=
  stored.elim memory (Function.update memory p)

def sk_inline_hook (memory : Memory) (ori_cb : ℕ) (sk : SkAnswer) : Bool × Memory :=
  (sk.ok, memory.store ori_cb sk.stored)

def dft_inline_hook (memory : Memory) (ori_cb : ℕ) (ancient : Option ℕ) : Bool × Memory :=
  let memory := memory.store ori_cb (some 0)
  let memory := memory.store ori_cb ancient
  (memory ori_cb ≠ 0, memory)

section

variable {H : Type} [DecidableEq H] (sk_hash_hook_hash : List Char → H)

/-- `HOOK_SUCCEED` -/
def State.push_back (s : State H) (r : HookRequest) (memory : Memory) : State H where
  sk_hooks := s.sk_hooks ++ [r.info sk_hash_hook_hash]
  recorded := s.recorded ++ [r]
  memory := memory

def inline_hook_func_address (s : State H) (c : Attempt) : State H × Answer :=
  if ¬ c.request.Valid then (s, .invalid)
  else if has_hook s.sk_hooks (sk_hash_hook_hash c.request.text) then (s, .duplicate)
  else
    let sk := sk_inline_hook s.memory c.request.ori_cb c.sk
    if sk.1 then (s.push_back sk_hash_hook_hash c.request sk.2, .hooked)
    else if c.ignore_dft then ({ s with memory := sk.2 }, .failed)
    else
      let dft := dft_inline_hook sk.2 c.request.ori_cb c.ancient
      if dft.1 then (s.push_back sk_hash_hook_hash c.request dft.2, .hooked)
      else ({ s with memory := dft.2 }, .failed)

/-- One call after another. -/
def step (s : State H) (c : Attempt) : Option (State H) :=
  some (inline_hook_func_address sk_hash_hook_hash s c).1

/-! ## Traces of a failed call -/

/-- If the call returns `false`, the list, `*ori_cb` and the saved originals are as before. -/
def NoTrace (s : State H) (c : Attempt) : Prop :=
  let result := inline_hook_func_address sk_hash_hook_hash s c
  result.2 ≠ .hooked →
    result.1.sk_hooks = s.sk_hooks
      ∧ (c.request.ori_cb ≠ 0 →
        result.1.memory c.request.ori_cb = s.memory c.request.ori_cb)
      ∧ ∀ q ∈ s.recorded, result.1.memory q.ori_cb = s.memory q.ori_cb

/-- The call comes to `dft_inline_hook`, which fails. -/
structure DftFails (s : State H) (c : Attempt) : Prop where
  valid : c.request.Valid
  new : sk_hash_hook_hash c.request.text ∉ s.sk_hooks.map SkHookInfo.hash
  sk_failed : c.sk.ok = false
  dft : c.ignore_dft = false
  ancient_failed : c.ancient.any (· ≠ 0) = false

/-- The call does not come to a failing `dft_inline_hook`, or `*ori_cb` is `NULL`. -/
def Keeps (s : State H) (c : Attempt) : Prop :=
  DftFails sk_hash_hook_hash s c → s.memory c.request.ori_cb = 0

/-- The call is no successful one with this `ori_cb`. -/
def Spares (p : ℕ) (s : State H) (c : Attempt) : Prop :=
  (inline_hook_func_address sk_hash_hook_hash s c).2 = .hooked → c.request.ori_cb ≠ p

end

/-! ## What the engines do -/

section

variable {memory : Memory} {p : ℕ}

theorem sk_inline_hook_failed {sk : SkAnswer} (h : sk.ok = false) :
    sk_inline_hook memory p sk = (false, memory) := by
  rw [sk_inline_hook, h, sk.stored_none h]
  rfl

/-- The answer of `dft_inline_hook` is that of its engine, whatever was in the memory. -/
theorem dft_inline_hook_ok (ancient : Option ℕ) :
    (dft_inline_hook memory p ancient).1 = ancient.any (· ≠ 0) := by
  cases ancient with
  | none => simp [dft_inline_hook, Memory.store]
  | some v => simp [dft_inline_hook, Memory.store]

/-- `*ori_cb` is cleared by a `dft_inline_hook` that fails. -/
theorem dft_inline_hook_failed {ancient : Option ℕ} (h : ancient.any (· ≠ 0) = false) :
    dft_inline_hook memory p ancient = (false, Function.update memory p 0) := by
  refine Prod.ext ?_ ?_
  · rw [dft_inline_hook_ok, h]
  · cases ancient with
    | none => rfl
    | some v =>
        have hv : v = 0 := by simpa using h
        rw [hv]
        exact Function.update_idem 0 0 memory

/-- The engines store nowhere else. -/
theorem store_of_ne {q : ℕ} (h : q ≠ p) (stored : Option ℕ) :
    memory.store p stored q = memory q := by
  cases stored with
  | none => rfl
  | some v => exact Function.update_of_ne h v memory

theorem dft_inline_hook_of_ne {q : ℕ} (h : q ≠ p) (ancient : Option ℕ) :
    (dft_inline_hook memory p ancient).2 q = memory q := by
  show ((memory.store p (some 0)).store p ancient) q = memory q
  rw [store_of_ne h, store_of_ne h]

end

/-! ## What one call does -/

section

variable {H : Type} [DecidableEq H] {sk_hash_hook_hash : List Char → H}

/-- How a call ends. -/
inductive Effect (sk_hash_hook_hash : List Char → H) (s : State H) (c : Attempt) :
    State H × Answer → Prop
  /-- Nothing is stored, -/
  | kept {a : Answer} (ha : a ≠ .hooked) (hdft : ¬ DftFails sk_hash_hook_hash s c) :
      Effect sk_hash_hook_hash s c (s, a)
  /-- or `*ori_cb` is cleared, -/
  | cleared (hdft : DftFails sk_hash_hook_hash s c) :
      Effect sk_hash_hook_hash s c
        ({ s with memory := Function.update s.memory c.request.ori_cb 0 }, .failed)
  /-- or the hook is made. -/
  | hooked {memory : Memory} (hdft : ¬ DftFails sk_hash_hook_hash s c)
      (hmemory : ∀ q ≠ c.request.ori_cb, memory q = s.memory q) :
      Effect sk_hash_hook_hash s c (s.push_back sk_hash_hook_hash c.request memory, .hooked)

theorem effect (s : State H) (c : Attempt) :
    Effect sk_hash_hook_hash s c (inline_hook_func_address sk_hash_hook_hash s c) := by
  rw [inline_hook_func_address]
  by_cases hvalid : c.request.Valid
  · rw [if_neg (not_not.mpr hvalid)]
    by_cases hdup : has_hook s.sk_hooks (sk_hash_hook_hash c.request.text) = true
    · rw [if_pos hdup]
      exact .kept nofun fun h => h.new (has_hook_iff.mp hdup)
    · rw [if_neg hdup]
      cases hsk : c.sk.ok with
      | true =>
          have hok : (sk_inline_hook s.memory c.request.ori_cb c.sk).1 = true := hsk
          simp only [hok, if_true]
          refine .hooked (fun h => ?_) fun q hq => store_of_ne hq _
          rw [h.sk_failed] at hsk
          cases hsk
      | false =>
          simp only [sk_inline_hook_failed hsk, Bool.false_eq_true, if_false]
          cases hignore : c.ignore_dft with
          | true =>
              refine .kept nofun fun h => ?_
              rw [h.dft] at hignore
              cases hignore
          | false =>
              cases hancient : c.ancient.any (· ≠ 0) with
              | true =>
                  simp only [dft_inline_hook_ok, hancient, Bool.false_eq_true, if_false, if_true]
                  refine .hooked (fun h => ?_) fun q hq => dft_inline_hook_of_ne hq _
                  rw [h.ancient_failed] at hancient
                  cases hancient
              | false =>
                  simp only [dft_inline_hook_failed hancient, Bool.false_eq_true, if_false]
                  exact .cleared
                    ⟨hvalid, fun hmem => hdup (has_hook_iff.mpr hmem), hsk, hignore, hancient⟩
  · rw [if_pos hvalid]
    exact .kept nofun fun h => hvalid h.valid

/-- Without the memory, this is a call with the answers of the engines. -/
theorem inline_hook_func_address_toAdapter (s : State H) (c : Attempt) :
    let call : HookCall := ⟨c.request, c.ignore_dft, ⟨c.sk.ok, c.ancient.any (· ≠ 0)⟩⟩
    (inline_hook_func_address sk_hash_hook_hash s c).1.toAdapter
        = s.toAdapter.call sk_hash_hook_hash call
      ∧ (inline_hook_func_address sk_hash_hook_hash s c).2
        = (HookAdapter.inline_hook_func_address sk_hash_hook_hash s.sk_hooks call).2 := by
  simp only [inline_hook_func_address, Adapter.call, HookAdapter.inline_hook_func_address,
    dft_inline_hook_ok]
  by_cases hvalid : c.request.Valid
  · by_cases hdup : has_hook s.sk_hooks (sk_hash_hook_hash c.request.text) = true
    · simp [hvalid, hdup]
    · cases hsk : c.sk.ok <;> cases c.ignore_dft <;> cases c.ancient.any (· ≠ 0)
        <;> simp [hvalid, hdup, hsk, sk_inline_hook, State.push_back]
  · simp [hvalid]

omit [DecidableEq H] in
/-- Clearing a pointer that is `NULL` changes nothing. -/
theorem Keeps.update_eq {s : State H} {c : Attempt} (h : Keeps sk_hash_hook_hash s c)
    (hdft : DftFails sk_hash_hook_hash s c) :
    Function.update s.memory c.request.ori_cb 0 = s.memory := by
  rw [← h hdft, Function.update_eq_self]

/-- A call leaves a trace when it clears a pointer that is not `NULL`. -/
theorem noTrace_iff_keeps (s : State H) (c : Attempt) :
    NoTrace sk_hash_hook_hash s c ↔ Keeps sk_hash_hook_hash s c := by
  have heffect : Effect sk_hash_hook_hash s c _ := effect s c
  unfold NoTrace Keeps
  dsimp only
  generalize inline_hook_func_address sk_hash_hook_hash s c = result at heffect ⊢
  cases heffect with
  | kept ha hdft =>
      exact ⟨fun _ h => (hdft h).elim, fun _ _ => ⟨rfl, fun _ => rfl, fun _ _ => rfl⟩⟩
  | hooked hdft hmemory => exact ⟨fun _ h => (hdft h).elim, fun _ h => (h rfl).elim⟩
  | cleared hdft =>
      constructor
      · intro h _
        obtain ⟨-, hcell, -⟩ := h nofun
        have hori : c.request.ori_cb ≠ 0 := fun hzero => hdft.valid (Or.inr (Or.inr hzero))
        rw [← hcell hori]
        exact Function.update_self _ 0 s.memory
      · intro h _
        have hsame := Keeps.update_eq h hdft
        exact ⟨rfl, fun _ => congrFun hsame _, fun _ _ => congrFun hsame _⟩

/-- Where a call keeps the saved originals, a pointer changes only if a hook is made with it. -/
theorem memory_of_keeps {p : ℕ} {s : State H} {c : Attempt}
    (hkeeps : Keeps sk_hash_hook_hash s c) (hspares : Spares sk_hash_hook_hash p s c) :
    (inline_hook_func_address sk_hash_hook_hash s c).1.memory p = s.memory p := by
  have heffect : Effect sk_hash_hook_hash s c _ := effect s c
  unfold Spares at hspares
  generalize inline_hook_func_address sk_hash_hook_hash s c = result at heffect hspares ⊢
  cases heffect with
  | kept => rfl
  | hooked _ hmemory => exact hmemory p (hspares rfl).symm
  | cleared hdft => exact congrFun (hkeeps.update_eq hdft) p

theorem original_kept {p : ℕ} (s : State H) (calls : List Attempt)
    (h : Runs.Guarded (step sk_hash_hook_hash)
      (fun t c => Keeps sk_hash_hook_hash t c ∧ Spares sk_hash_hook_hash p t c) s calls) :
    Runs.Always (step sk_hash_hook_hash) (fun t => t.memory p = s.memory p) s calls := by
  refine Runs.always_of_guarded ?_ calls rfl h
  intro t c t' hmemory hguard hstep
  obtain rfl : (inline_hook_func_address sk_hash_hook_hash t c).1 = t' := Option.some.inj hstep
  rw [memory_of_keeps hguard.1 hguard.2, hmemory]

/-- **Failed calls.**  A call that fails leaves no trace if and only if it does not come to a
failing `dft_inline_hook` with a pointer that is not `NULL`; along calls of this kind, a saved
original stays until another hook is made with its `ori_cb`. -/
theorem noTrace_iff (s : State H) :
    (∀ c, NoTrace sk_hash_hook_hash s c ↔ Keeps sk_hash_hook_hash s c)
      ∧ ∀ p calls, Runs.Guarded (step sk_hash_hook_hash)
          (fun t c => Keeps sk_hash_hook_hash t c ∧ Spares sk_hash_hook_hash p t c) s calls →
        Runs.Always (step sk_hash_hook_hash) (fun t => t.memory p = s.memory p) s calls :=
  ⟨noTrace_iff_keeps s, fun _ => original_kept s⟩

end

/-- Before any call, with all pointers `NULL`. -/
def State.start (H : Type) : State H := ⟨⟨[], []⟩, fun _ => 0⟩

/-- A hook that the first engine makes. -/
def firstHook : Attempt := ⟨⟨4096, 1, 16⟩, false, ⟨true, some 77, nofun⟩, none⟩

/-- A hook of another function with the same replacement and pointer, which fails. -/
def secondHook (ignore_dft : Bool) : Attempt :=
  ⟨⟨8192, 1, 16⟩, ignore_dft, ⟨false, none, fun _ => rfl⟩, none⟩

/-- The saved original of a first hook is cleared when a second one fails. -/
theorem not_noTrace_secondHook :
    let s := Runs.run (step id) (State.start (List Char)) [firstHook]
    let result := inline_hook_func_address id s (secondHook false)
    s.recorded = [firstHook.request] ∧ s.memory firstHook.request.ori_cb = 77
      ∧ result.2 = .failed ∧ result.1.memory firstHook.request.ori_cb = 0
      ∧ ¬ NoTrace id s (secondHook false) := by
  intro s result
  obtain ⟨hrecorded, hsaved, hfailed, hcleared⟩ :
      s.recorded = [firstHook.request] ∧ s.memory firstHook.request.ori_cb = 77
        ∧ result.2 = .failed ∧ result.1.memory firstHook.request.ori_cb = 0 := by
    decide +kernel
  refine ⟨hrecorded, hsaved, hfailed, hcleared, fun h => ?_⟩
  obtain ⟨-, -, hlive⟩ := h (by rw [hfailed]; exact nofun)
  have hkept := hlive firstHook.request (by rw [hrecorded]; exact List.mem_singleton_self _)
  rw [hcleared, hsaved] at hkept
  cases hkept

/-- A second attempt at the first hook, and the second hook without `dft_inline_hook`. -/
theorem noTrace_iff_again :
    let s := Runs.run (step id) (State.start (List Char)) [firstHook]
    Runs.Always (step id) (fun t => t.memory 16 = s.memory 16) s [firstHook, secondHook true] := by
  intro s
  obtain ⟨hlisted, hdup, hfailed⟩ :
      id firstHook.request.text ∈ s.sk_hooks.map SkHookInfo.hash
        ∧ (inline_hook_func_address id s firstHook).2 = .duplicate
        ∧ (inline_hook_func_address id (inline_hook_func_address id s firstHook).1
          (secondHook true)).2 = .failed := by
    decide +kernel
  refine (noTrace_iff s).2 16 _
    ⟨⟨fun h => (h.new hlisted).elim, fun h => ?_⟩, ⟨fun h => (nomatch h.dft), fun h => ?_⟩, trivial⟩
  · rw [hdup] at h
    cases h
  · rw [hfailed] at h
    cases h

end HookAdapter.Originals
