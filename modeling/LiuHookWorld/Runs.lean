/-
# Runs of a state machine

A state machine is a partial step function: `step s a` is the state that the action `a`
leads to, `none` where `a` is not enabled.  A run is a list of actions; it ends at the
first one that is not enabled.

`Always P` says that `P` holds in every state of a run, `Guarded G` that `G` holds
before every step of it.  The rules below reduce the two to statements about one step.
`trace out` is what the steps of a run show; a `Path` of another system shows it as well if the
steps of the two simulate each other.
-/
import Mathlib.Logic.Basic

namespace Runs

variable {σ α : Type*} (step : σ → α → Option σ)

/-- The state in which a run ends. -/
def run (s : σ) : List α → σ
  | [] => s
  | a :: as =>
      match step s a with
      | none => s
      | some s' => run s' as

/-- `P` holds in every state of the run. -/
def Always (P : σ → Prop) (s : σ) : List α → Prop
  | [] => P s
  | a :: as => P s ∧
      match step s a with
      | none => True
      | some s' => Always P s' as

/-- `G` holds of the state and the action of every step of the run. -/
def Guarded (G : σ → α → Prop) (s : σ) : List α → Prop
  | [] => True
  | a :: as =>
      match step s a with
      | none => True
      | some s' => G s a ∧ Guarded G s' as

/-- What the steps of the run show. -/
def trace {β : Type*} (out : σ → α → Option β) (s : σ) : List α → List β
  | [] => []
  | a :: as =>
      match step s a with
      | none => []
      | some s' => (out s a).toList ++ trace out s' as

/-- A path of a system that is given by its labelled steps. -/
inductive Path {τ β : Type*} (R : τ → β → τ → Prop) : τ → List β → τ → Prop
  | nil (t : τ) : Path R t [] t
  | cons {t t' t'' : τ} {b : β} {bs : List β} (head : R t b t') (tail : Path R t' bs t'') :
      Path R t (b :: bs) t''

/-- A step that is shown is one of the other system, and any other step is none. -/
def Shown {τ β : Type*} (R : τ → β → τ → Prop) (t t' : τ) : Option β → Prop
  | none => t' = t
  | some b => R t b t'

section

variable {step} {P Q : σ → Prop} {G : σ → α → Prop} {s : σ}

theorem Always.head {as : List α} (h : Always step P s as) : P s := by
  cases as with
  | nil => exact h
  | cons a as => exact h.1

theorem Always.mono {as : List α} (hPQ : ∀ s, P s → Q s) :
    ∀ {s : σ}, Always step P s as → Always step Q s as := by
  induction as with
  | nil => intro s h; exact hPQ s h
  | cons a as ih =>
      intro s h
      refine ⟨hPQ s h.1, ?_⟩
      have hrest := h.2
      cases hstep : step s a with
      | none => trivial
      | some s' =>
          rw [hstep] at hrest
          exact ih hrest

/-- What holds along a run holds where it ends. -/
theorem Always.run {as : List α} : ∀ {s : σ}, Always step P s as → P (run step s as) := by
  induction as with
  | nil => intro s h; exact h
  | cons a as ih =>
      intro s h
      have hrest := h.2
      unfold Runs.run
      cases hstep : step s a with
      | none => exact h.1
      | some s' =>
          rw [hstep] at hrest
          exact ih hrest

/-- A run is guarded if its first step is, and the rest of it if the first step is enabled. -/
theorem Guarded.cons {a : α} {as : List α}
    (h : ∀ s', step s a = some s' → G s a ∧ Guarded step G s' as) :
    Guarded step G s (a :: as) := by
  unfold Guarded
  cases hstep : step s a with
  | none => trivial
  | some s' => exact h s' hstep

/-- The rule for guarded runs: what guarded steps preserve holds along guarded runs. -/
theorem always_of_guarded (hkeep : ∀ s a s', P s → G s a → step s a = some s' → P s')
    (as : List α) : ∀ {s : σ}, P s → Guarded step G s as → Always step P s as := by
  induction as with
  | nil => intro s hs _; exact hs
  | cons a as ih =>
      intro s hs hguard
      refine ⟨hs, ?_⟩
      unfold Guarded at hguard
      cases hstep : step s a with
      | none => trivial
      | some s' =>
          rw [hstep] at hguard
          exact ih (hkeep s a s' hs hguard.1 hstep) hguard.2

/-- The invariant rule: what every step preserves holds along every run. -/
theorem always_of_preserved (hkeep : ∀ s a s', P s → step s a = some s' → P s')
    (as : List α) : ∀ {s : σ}, P s → Always step P s as := by
  induction as with
  | nil => intro s hs; exact hs
  | cons a as ih =>
      intro s hs
      refine ⟨hs, ?_⟩
      cases hstep : step s a with
      | none => trivial
      | some s' => exact ih (hkeep s a s' hs hstep)

/-- What an invariant says of its steps holds of every step of a run. -/
theorem guarded_of_preserved (hkeep : ∀ s a s', P s → step s a = some s' → P s' ∧ G s a)
    (as : List α) : ∀ {s : σ}, P s → Guarded step G s as := by
  induction as with
  | nil => intro s _; trivial
  | cons a as ih =>
      intro s hs
      unfold Guarded
      cases hstep : step s a with
      | none => trivial
      | some s' =>
          obtain ⟨hs', hguard⟩ := hkeep s a s' hs hstep
          exact ⟨hguard, ih hs'⟩

/-- What an invariant of guarded runs says of their steps holds of every step. -/
theorem guarded_of_guarded {H : σ → α → Prop}
    (hkeep : ∀ s a s', P s → G s a → step s a = some s' → P s' ∧ H s a) (as : List α) :
    ∀ {s : σ}, P s → Guarded step G s as → Guarded step H s as := by
  induction as with
  | nil => intro s _ _; trivial
  | cons a as ih =>
      intro s hs hguard
      unfold Guarded at hguard ⊢
      cases hstep : step s a with
      | none => trivial
      | some s' =>
          rw [hstep] at hguard
          obtain ⟨hs', hguarded⟩ := hkeep s a s' hs hguard.1 hstep
          exact ⟨hguarded, ih hs' hguard.2⟩

/-- The rule for exact guards: if an invariant `I` that implies `P` survives exactly the
guarded steps, in that a step after which `P` still holds was guarded, then `P` holds
along a run if and only if the run is guarded. -/
theorem always_iff_guarded {I : σ → Prop} (himp : ∀ s, I s → P s)
    (hkeep : ∀ s a s', I s → G s a → step s a = some s' → I s')
    (hexact : ∀ s a s', I s → step s a = some s' → P s' → G s a) (as : List α) :
    ∀ {s : σ}, I s → (Always step P s as ↔ Guarded step G s as) := by
  intro s hs
  constructor
  · intro h
    induction as generalizing s with
    | nil => trivial
    | cons a as ih =>
        have hrest := h.2
        unfold Guarded
        cases hstep : step s a with
        | none => trivial
        | some s' =>
            rw [hstep] at hrest
            have hguard := hexact s a s' hs hstep hrest.head
            exact ⟨hguard, ih (hkeep s a s' hs hguard hstep) hrest⟩
  · intro h
    exact (always_of_guarded hkeep as hs h).mono himp

/-- The rule for exact guards, in runs whose steps meet another guard as well. -/
theorem always_iff_guarded_of_guarded {I : σ → Prop} {H : σ → α → Prop}
    (himp : ∀ s, I s → P s)
    (hkeep : ∀ s a s', I s → H s a → G s a → step s a = some s' → I s')
    (hexact : ∀ s a s', I s → H s a → step s a = some s' → P s' → G s a) (as : List α) :
    ∀ {s : σ}, I s → Guarded step H s as → (Always step P s as ↔ Guarded step G s as) := by
  induction as with
  | nil =>
      intro s hs _
      exact ⟨fun _ => trivial, fun _ => himp s hs⟩
  | cons a as ih =>
      intro s hs hguard
      unfold Always
      unfold Guarded at hguard ⊢
      cases hstep : step s a with
      | none => simp [himp s hs]
      | some s' =>
          rw [hstep] at hguard
          constructor
          · intro ⟨_, hrest⟩
            have hstepped := hexact s a s' hs hguard.1 hstep hrest.head
            have hs' := hkeep s a s' hs hguard.1 hstepped hstep
            exact ⟨hstepped, (ih hs' hguard.2).mp hrest⟩
          · intro ⟨hstepped, hrest⟩
            have hs' := hkeep s a s' hs hguard.1 hstepped hstep
            exact ⟨himp s hs, (ih hs' hguard.2).mpr hrest⟩

/-- The rule for what a run shows: what every step keeps of the state and of all that was shown
so far, a run keeps. -/
theorem run_of_trace {β : Type*} {out : σ → α → Option β} {H : α → Prop}
    {I : σ → List β → Prop} (hkeep : ∀ s a s' bs, I s bs → H a → step s a = some s' →
      I s' (bs ++ (out s a).toList)) (as : List α) :
    ∀ {s : σ} {bs : List β}, (∀ a ∈ as, H a) → I s bs →
      I (run step s as) (bs ++ trace step out s as) := by
  induction as with
  | nil =>
      intro s bs _ hs
      rw [trace, List.append_nil]
      exact hs
  | cons a as ih =>
      intro s bs hacts hs
      unfold run trace
      cases hstep : step s a with
      | none =>
          rw [List.append_nil]
          exact hs
      | some s' =>
          have hs' := hkeep s a s' bs hs (hacts a (List.mem_cons_self ..)) hstep
          rw [← List.append_assoc]
          exact ih (fun b hb => hacts b (List.mem_cons_of_mem _ hb)) hs'

/-- The rule for simulations: if every step that is shown is one of the other system, a run shows
a path of the other system. -/
theorem path_of_simulation {τ β : Type*} {out : σ → α → Option β} {R : τ → β → τ → Prop}
    {I : σ → τ → Prop}
    (hsim : ∀ s a s' t, I s t → step s a = some s' → ∃ t', I s' t' ∧ Shown R t t' (out s a))
    (as : List α) :
    ∀ {s : σ} {t : τ}, I s t →
      ∃ t', I (run step s as) t' ∧ Path R t (trace step out s as) t' := by
  induction as with
  | nil =>
      intro s t hs
      exact ⟨t, hs, .nil t⟩
  | cons a as ih =>
      intro s t hs
      unfold run trace
      cases hstep : step s a with
      | none => exact ⟨t, hs, .nil t⟩
      | some s' =>
          obtain ⟨t', hs', hshown⟩ := hsim s a s' t hs hstep
          obtain ⟨t'', hend, hpath⟩ := ih hs'
          refine ⟨t'', hend, ?_⟩
          cases hout : out s a with
          | none =>
              rw [hout] at hshown
              obtain rfl := hshown
              exact hpath
          | some b =>
              rw [hout] at hshown
              exact .cons hshown hpath

instance decidableGuarded [∀ s a, Decidable (G s a)] : ∀ s as, Decidable (Guarded step G s as)
  | _, [] => isTrue trivial
  | s, a :: as =>
      match h : step s a with
      | none => isTrue (by simp [Guarded, h])
      | some s' =>
          have := decidableGuarded s' as
          decidable_of_iff (G s a ∧ Guarded step G s' as) (by simp [Guarded, h])

end

end Runs
