/-
# Computations that fail on a condition

A computation with a state that, whatever the state, returns if a condition holds and
fails if it does not.  The condition of a composition is read off the conditions of its
parts; what is known of the returned value is a predicate on it.
-/
import Mathlib.Data.List.Basic

variable {σ ε α β : Type}

/-- From every state `m` returns a value with `R` if `p` holds, and fails if it does not. -/
structure Guarded (m : StateT σ (Except ε) α) (R : α → Prop) (p : Prop) : Prop where
  returns : p → ∀ s, ∃ a s', m s = .ok (a, s') ∧ R a
  fails : ¬p → ∀ s, ∃ e, m s = .error e

namespace Guarded

variable {m : StateT σ (Except ε) α} {R : α → Prop} {p q : Prop}

/-- Returning at all is the condition. -/
theorem returns_iff (h : Guarded m R p) (s : σ) : (∃ r, m s = .ok r) ↔ p := by
  constructor
  · intro ⟨r, hr⟩
    by_contra hp
    obtain ⟨e, he⟩ := h.fails hp s
    rw [hr] at he
    cases he
  · intro hp
    obtain ⟨a, s', hs', _⟩ := h.returns hp s
    exact ⟨(a, s'), hs'⟩

/-- The condition may be replaced by an equivalent one. -/
theorem congr (h : Guarded m R p) (hpq : p ↔ q) : Guarded m R q := by
  rw [← propext hpq]
  exact h

theorem of_pure {a : α} (ha : R a) : Guarded (pure a : StateT σ (Except ε) α) R True := by
  constructor
  · intro _ s
    exact ⟨a, s, rfl, ha⟩
  · intro hfalse
    exact absurd trivial hfalse

/-- The value returned is known. -/
theorem of_pure_eq (a : α) : Guarded (pure a : StateT σ (Except ε) α) (· = a) True :=
  of_pure rfl

theorem of_modify (f : σ → σ) :
    Guarded (modify f : StateT σ (Except ε) PUnit) (fun _ => True) True := by
  constructor
  · intro _ s
    exact ⟨⟨⟩, f s, rfl, trivial⟩
  · intro hfalse
    exact absurd trivial hfalse

theorem of_throw (e : ε) (R : α → Prop) :
    Guarded (throw e : StateT σ (Except ε) α) R False := by
  constructor
  · intro hfalse
    exact hfalse.elim
  · intro _ s
    exact ⟨e, rfl⟩

/-- One computation after the other returns when both do.  The second one is only reached
when the condition of the first holds. -/
theorem bind {f : α → StateT σ (Except ε) β} {R' : β → Prop} (hm : Guarded m R p)
    (hf : p → ∀ a, R a → Guarded (f a) R' q) : Guarded (m >>= f) R' (p ∧ q) := by
  constructor
  · intro ⟨hp, hq⟩ s
    obtain ⟨a, s', hs', ha⟩ := hm.returns hp s
    obtain ⟨b, s'', hs'', hb⟩ := (hf hp a ha).returns hq s'
    refine ⟨b, s'', ?_, hb⟩
    show (m s >>= fun r => f r.1 r.2) = _
    rw [hs']
    exact hs''
  · intro hpq s
    show ∃ e, (m s >>= fun r => f r.1 r.2) = .error e
    by_cases hp : p
    · obtain ⟨a, s', hs', ha⟩ := hm.returns hp s
      obtain ⟨e, he⟩ := (hf hp a ha).fails (fun hq => hpq ⟨hp, hq⟩) s'
      refine ⟨e, ?_⟩
      rw [hs']
      exact he
    · obtain ⟨e, he⟩ := hm.fails hp s
      refine ⟨e, ?_⟩
      rw [he]
      rfl

/-- After a computation that returns, the condition is that of the rest. -/
theorem bind_of_holds {f : α → StateT σ (Except ε) β} {R' : β → Prop} (hm : Guarded m R p)
    (hp : p) (hf : ∀ a, R a → Guarded (f a) R' q) : Guarded (m >>= f) R' q :=
  (hm.bind fun _ => hf).congr (and_iff_right hp)

/-- A computation followed by one that always returns. -/
theorem bind_last {f : α → StateT σ (Except ε) β} {R' : β → Prop} (hm : Guarded m R p)
    (hf : p → ∀ a, R a → Guarded (f a) R' True) : Guarded (m >>= f) R' p :=
  (hm.bind hf).congr (and_iff_left trivial)

/-- Looking at the state before going on. -/
theorem of_get {f : σ → StateT σ (Except ε) α} (hf : ∀ s, Guarded (f s) R p) :
    Guarded (get >>= f) R p :=
  ⟨fun hp s => (hf s).returns hp s, fun hp s => (hf s).fails hp s⟩

/-- A chain of branches that all need `p`, save the last: `p` is needed if one is taken. -/
theorem ite_or {n : StateT σ (Except ε) α} {c d : Prop} [Decidable c] (hm : Guarded m R p)
    (hn : Guarded n R (d → p)) : Guarded (if c then m else n) R (c ∨ d → p) := by
  by_cases hc : c
  · rw [if_pos hc]
    exact hm.congr (by simp [hc])
  · rw [if_neg hc]
    exact hn.congr (by simp [hc])

/-- A computation that is only made in one case. -/
theorem ite_pure {a : α} {c : Prop} [Decidable c] (hm : Guarded m R p) (ha : R a) :
    Guarded (if c then m else pure a) R (c → p) := by
  by_cases hc : c
  · rw [if_pos hc]
    exact hm.congr (by simp [hc])
  · rw [if_neg hc]
    exact (of_pure ha).congr (by simp [hc])

/-- A loop over a list returns when every round of it does. -/
theorem forM {f : β → StateT σ (Except ε) PUnit} {p : β → Prop} (xs : List β)
    (hf : ∀ x, Guarded (f x) (fun _ => True) (p x)) :
    Guarded (xs.forM f) (fun _ => True) (∀ x ∈ xs, p x) := by
  induction xs with
  | nil => exact (of_pure trivial).congr (by simp)
  | cons x xs ih =>
      rw [List.forM_eq_forM, List.forM_cons, List.forall_mem_cons]
      exact (hf x).bind fun _ _ _ => ih

end Guarded
