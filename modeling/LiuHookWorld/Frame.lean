/-
# What a computation leaves alone

A computation with a state that may fail, and a part of the state that it does not change
when it returns.  One rule for each way to compose computations.
-/
import Mathlib.Data.List.Basic

variable {σ ε τ α β : Type}

/-- When `m` returns, the part `f` of the state is what it was. -/
def Frame (f : σ → τ) (m : StateT σ (Except ε) α) : Prop :=
  ∀ s a s', m s = .ok (a, s') → f s' = f s

namespace Frame

variable {f : σ → τ} {m : StateT σ (Except ε) α}

/-- A value alone changes nothing. -/
theorem of_pure (a : α) : Frame f (pure a : StateT σ (Except ε) α) := by
  intro s a' s' h
  cases h
  rfl

/-- A failure leaves no state. -/
theorem of_throw (e : ε) : Frame f (throw e : StateT σ (Except ε) α) := by
  intro s a s' h
  cases h

/-- An update keeps the part that it does not touch. -/
theorem of_modify {g : σ → σ} (hg : ∀ s, f (g s) = f s) :
    Frame f (modify g : StateT σ (Except ε) PUnit) := by
  intro s a s' h
  cases h
  exact hg s

/-- One computation after another, if either keeps the part. -/
theorem bind {rest : α → StateT σ (Except ε) β} (hm : Frame f m)
    (hrest : ∀ a, Frame f (rest a)) : Frame f (m >>= rest) := by
  intro s b s' h
  have hbind : (m s >>= fun r => rest r.1 r.2) = .ok (b, s') := h
  cases hs : m s with
  | error e =>
      rw [hs] at hbind
      cases hbind
  | ok r =>
      rw [hs] at hbind
      rw [hrest r.1 r.2 b s' hbind, hm s r.1 r.2 hs]

/-- Looking at the state before going on. -/
theorem of_get {rest : σ → StateT σ (Except ε) α} (hrest : ∀ s, Frame f (rest s)) :
    Frame f (get >>= rest) :=
  fun s => hrest s s

theorem ite {n : StateT σ (Except ε) α} {c : Prop} [Decidable c] (hm : Frame f m)
    (hn : Frame f n) : Frame f (if c then m else n) := by
  split
  · exact hm
  · exact hn

/-- A loop over a list. -/
theorem forM {round : β → StateT σ (Except ε) PUnit} (xs : List β)
    (hround : ∀ x, Frame f (round x)) : Frame f (xs.forM round) := by
  induction xs with
  | nil => exact of_pure _
  | cons x xs ih =>
      rw [List.forM_eq_forM, List.forM_cons]
      exact (hround x).bind fun _ => ih

end Frame
