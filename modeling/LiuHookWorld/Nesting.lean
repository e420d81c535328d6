/-
# Nested calls

A machine with a stack: an event enters a call and pushes its frame, leaves the call on top and
pops its frame, or does neither.  A list of events is nested if it leaves every call that it
enters, and no other.

* `Nested.stack_run` : nested events give the stack back.
* `exists_enter` : the frame on top was pushed at the last call that is not left.
-/
import Mathlib.Data.List.Basic

namespace Nesting

/-- What an event does to the nesting. -/
inductive Kind
  | enter
  | leave
  | other
  deriving DecidableEq, Repr

variable {σ ε φ : Type*}

/-- Every enter has its leave. -/
inductive Nested (kind : ε → Kind) : List ε → Prop
  | nil : Nested kind []
  | other {events : List ε} {e : ε} :
      Nested kind events → kind e = .other → Nested kind (events ++ [e])
  | call {events inner : List ε} {enter leave : ε} :
      Nested kind events → kind enter = .enter → Nested kind inner → kind leave = .leave →
      Nested kind (events ++ enter :: (inner ++ [leave]))

/-- The machine, with what an event does to its stack. -/
structure Machine (σ ε φ : Type*) where
  kind : ε → Kind
  step : σ → ε → σ
  stack : σ → List φ
  stack_enter : ∀ s e, kind e = .enter → ∃ frame, stack (step s e) = frame :: stack s
  stack_leave : ∀ s e, kind e = .leave → stack (step s e) = (stack s).tail
  stack_other : ∀ s e, kind e = .other → stack (step s e) = stack s

namespace Machine

variable (M : Machine σ ε φ)

/-- The state after a sequence of events. -/
def run (s : σ) (events : List ε) : σ := events.foldl M.step s

@[simp] theorem run_nil (s : σ) : M.run s [] = s := rfl

@[simp] theorem run_cons (s : σ) (e : ε) (events : List ε) :
    M.run s (e :: events) = M.run (M.step s e) events := rfl

@[simp] theorem run_append (s : σ) (events events' : List ε) :
    M.run s (events ++ events') = M.run (M.run s events) events' := List.foldl_append

/-- What every event keeps, a run keeps. -/
theorem run_of_step {P : σ → Prop} (hstep : ∀ s e, P s → P (M.step s e)) {s : σ} (hs : P s)
    (events : List ε) : P (M.run s events) := by
  induction events generalizing s with
  | nil => exact hs
  | cons e events ih => exact ih (hstep s e hs)

/-- What holds after a run and not before it, one step brings about. -/
theorem exists_step {P : σ → Prop} {s : σ} {events : List ε} (hs : ¬ P s)
    (h : P (M.run s events)) :
    ∃ before e rest, events = before ++ e :: rest ∧ ¬ P (M.run s before)
      ∧ P (M.step (M.run s before) e) := by
  induction events generalizing s with
  | nil => exact absurd h hs
  | cons e events ih =>
      by_cases he : P (M.step s e)
      · exact ⟨[], e, events, rfl, hs, he⟩
      · obtain ⟨before, e', rest, rfl, hbefore, hstep⟩ := ih he h
        exact ⟨e :: before, e', rest, rfl, hbefore, hstep⟩

end Machine

section

variable {M : Machine σ ε φ} {s : σ} {events : List ε}

/-- What is nested leaves the stack as it was. -/
theorem Nested.stack_run (h : Nested M.kind events) (s : σ) :
    M.stack (M.run s events) = M.stack s := by
  induction h generalizing s with
  | nil => rfl
  | other _ he ih =>
      rw [M.run_append, M.run_cons, M.run_nil, M.stack_other _ _ he]
      exact ih s
  | call _ henter _ hleave ih ihinner =>
      rw [M.run_append, M.run_cons, M.run_append, M.run_cons, M.run_nil,
        M.stack_leave _ _ hleave, ihinner]
      obtain ⟨frame, hframe⟩ := M.stack_enter _ _ henter
      rw [hframe, List.tail_cons]
      exact ih s

/-- The frame on top was pushed at a call, and all calls since were left. -/
theorem exists_enter (hs : M.stack s = []) {frame : φ} {frames : List φ}
    (h : M.stack (M.run s events) = frame :: frames) :
    ∃ before enter inner, events = before ++ enter :: inner ∧ M.kind enter = .enter
      ∧ Nested M.kind inner ∧ M.stack (M.run s before) = frames := by
  induction hn : events.length using Nat.strongRecOn generalizing events frame frames with
  | ind n ih =>
  rcases List.eq_nil_or_concat events with rfl | ⟨events, e, rfl⟩
  · rw [M.run_nil, hs] at h
    cases h
  rw [List.concat_eq_append] at h hn ⊢
  rw [M.run_append, M.run_cons, M.run_nil] at h
  rw [List.length_append, List.length_singleton] at hn
  cases hkind : M.kind e with
  | enter =>
      obtain ⟨frame', hframe⟩ := M.stack_enter (M.run s events) e hkind
      rw [hframe] at h
      exact ⟨events, e, [], rfl, hkind, .nil, (List.cons.inj h).2⟩
  | other =>
      rw [M.stack_other _ _ hkind] at h
      obtain ⟨before, enter, inner, rfl, henter, hinner, hbefore⟩ :=
        ih events.length (by omega) h rfl
      exact ⟨before, enter, inner ++ [e], by simp, henter, .other hinner hkind, hbefore⟩
  | leave =>
      -- the call that is left here was entered on top of the one that is looked for
      rw [M.stack_leave _ _ hkind] at h
      obtain ⟨left, hleft⟩ : ∃ left, M.stack (M.run s events) = left :: frame :: frames := by
        cases hstack : M.stack (M.run s events) with
        | nil => rw [hstack] at h; cases h
        | cons left rest => rw [hstack, List.tail_cons] at h; exact ⟨left, by rw [h]⟩
      obtain ⟨middle, enter', inner', rfl, henter', hinner', hmiddle⟩ :=
        ih events.length (by omega) hleft rfl
      rw [List.length_append, List.length_cons] at hn
      obtain ⟨before, enter, inner, rfl, henter, hinner, hbefore⟩ :=
        ih middle.length (by omega) hmiddle rfl
      exact ⟨before, enter, inner ++ enter' :: (inner' ++ [e]), by simp, henter,
        .call hinner henter' hinner' hkind, hbefore⟩

end

end Nesting
