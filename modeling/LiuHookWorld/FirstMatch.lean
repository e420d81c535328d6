/-
# First-match lists

A list of entries is searched for the first one that matches a key, and an entry is
appended only if no entry already there matches the entry's own key.  What matching is
stays open: `R a k` says that the entry `a` matches the key `k`, and `self a` is the
entry's own key.  Where entries match their own keys and matching is transitive along
them, such a list is one in which no entry is hidden by an earlier one.
-/
import Mathlib.Data.List.Basic
import Mathlib.Data.List.Infix

namespace FirstMatch

variable {α κ : Type*} (R : α → κ → Prop) [∀ a k, Decidable (R a k)] (self : α → κ)

/-! ## Search -/

/-- The index of the first entry that matches `k`. -/
def find (l : List α) (k : κ) : Option ℕ :=
  l.findIdx? fun a => decide (R a k)

/-- Append an entry unless its own key is matched already. -/
def insert (l : List α) (a : α) : List α :=
  if (find R l (self a)).isSome then l else l ++ [a]

/-- Insert one entry after the other. -/
def insertAll (as : List α) : List α :=
  as.foldl (insert R self) []

/-- Every entry is found under its own key. -/
def SelfFinding (l : List α) : Prop :=
  ∀ i a, l[i]? = some a → find R l (self a) = some i

section

variable {R self} {l : List α} {k : κ} {i : ℕ}

theorem find_eq_none_iff : find R l k = none ↔ ∀ a ∈ l, ¬ R a k := by
  simp [find, List.findIdx?_eq_none_iff]

theorem find_eq_some_iff :
    find R l k = some i ↔
      ∃ a, l[i]? = some a ∧ R a k ∧ ∀ j b, j < i → l[j]? = some b → ¬ R b k := by
  rw [find, List.findIdx?_eq_some_iff_getElem]
  constructor
  · rintro ⟨hi, hmatch, hfirst⟩
    refine ⟨l[i], List.getElem?_eq_getElem hi, of_decide_eq_true hmatch, ?_⟩
    intro j b hj hb hR
    obtain ⟨hlt, rfl⟩ := List.getElem?_eq_some_iff.mp hb
    exact hfirst j hj (decide_eq_true hR)
  · rintro ⟨a, ha, hmatch, hfirst⟩
    obtain ⟨hi, rfl⟩ := List.getElem?_eq_some_iff.mp ha
    refine ⟨hi, decide_eq_true hmatch, ?_⟩
    intro j hj hR
    exact hfirst j _ hj (List.getElem?_eq_getElem (hj.trans hi)) (of_decide_eq_true hR)

/-- A key is found exactly when some entry matches it. -/
theorem find_isSome_iff : (find R l k).isSome ↔ ∃ a ∈ l, R a k := by
  rw [← not_iff_not, Bool.not_eq_true, Option.isSome_eq_false_iff, Option.isNone_iff_eq_none,
    find_eq_none_iff]
  push Not
  rfl

theorem insert_of_matched {a b : α} (hb : b ∈ l) (hR : R b (self a)) : insert R self l a = l := by
  rw [insert, if_pos (find_isSome_iff.mpr ⟨b, hb, hR⟩)]

theorem insert_of_not_matched {a : α} (h : ∀ b ∈ l, ¬ R b (self a)) :
    insert R self l a = l ++ [a] := by
  rw [insert, if_neg]
  rw [find_isSome_iff]
  rintro ⟨b, hb, hR⟩
  exact h b hb hR

/-! ## Lists without hidden entries -/

/-- An entry is found under its own key exactly when no earlier entry matches that key. -/
theorem selfFinding_iff_pairwise (hrefl : ∀ a, R a (self a)) :
    SelfFinding R self l ↔ l.Pairwise fun a b => ¬ R a (self b) := by
  rw [List.pairwise_iff_getElem]
  constructor
  · intro h i j hi hj hij hR
    obtain ⟨-, -, -, hfirst⟩ := find_eq_some_iff.mp (h j l[j] (List.getElem?_eq_getElem hj))
    exact hfirst i l[i] hij (List.getElem?_eq_getElem hi) hR
  · intro h i a ha
    obtain ⟨hi, rfl⟩ := List.getElem?_eq_some_iff.mp ha
    refine find_eq_some_iff.mpr ⟨l[i], ha, hrefl _, ?_⟩
    intro j b hj hb
    obtain ⟨hlt, rfl⟩ := List.getElem?_eq_some_iff.mp hb
    exact h j i hlt hi hj

/-- Appending keeps every entry found exactly when nothing there matches the new key. -/
theorem selfFinding_append_singleton (hrefl : ∀ a, R a (self a)) {a : α} :
    SelfFinding R self (l ++ [a]) ↔ SelfFinding R self l ∧ ∀ b ∈ l, ¬ R b (self a) := by
  rw [selfFinding_iff_pairwise hrefl, selfFinding_iff_pairwise hrefl, List.pairwise_append]
  constructor
  · rintro ⟨hl, -, hnew⟩
    exact ⟨hl, fun b hb => hnew b hb a List.mem_cons_self⟩
  · rintro ⟨hl, hnew⟩
    refine ⟨hl, List.pairwise_singleton _ _, ?_⟩
    intro b hb c hc
    rw [List.mem_singleton.mp hc]
    exact hnew b hb

/-! ## Lists built by insertion -/

theorem prefix_insert (a : α) : l <+: insert R self l a := by
  unfold insert
  split_ifs
  · exact List.prefix_rfl
  · exact List.prefix_append _ _

theorem prefix_foldl_insert (as : List α) : l <+: as.foldl (insert R self) l := by
  induction as generalizing l with
  | nil => exact List.prefix_rfl
  | cons a as ih => exact (prefix_insert a).trans ih

/-- Only inserted entries are there. -/
theorem mem_of_mem_foldl_insert {as : List α} {b : α} (h : b ∈ as.foldl (insert R self) l) :
    b ∈ l ∨ b ∈ as := by
  induction as generalizing l with
  | nil => exact Or.inl h
  | cons a as ih =>
      rcases ih h with hb | hb
      · unfold insert at hb
        split_ifs at hb
        · exact Or.inl hb
        · rcases List.mem_append.mp hb with hb | hb
          · exact Or.inl hb
          · rw [List.mem_singleton.mp hb]
            exact Or.inr List.mem_cons_self
      · exact Or.inr (List.mem_cons_of_mem a hb)

/-- For every entry offered there is one that matches its key. -/
theorem exists_matching_foldl_insert (hrefl : ∀ a, R a (self a)) {as : List α} {a : α}
    (ha : a ∈ as) : ∃ b ∈ as.foldl (insert R self) l, R b (self a) := by
  induction as generalizing l with
  | nil => simp at ha
  | cons c as ih =>
      rcases List.mem_cons.mp ha with rfl | ha
      · have hhere : ∃ b ∈ insert R self l a, R b (self a) := by
          by_cases hl : ∃ b ∈ l, R b (self a)
          · obtain ⟨b, hb, hR⟩ := hl
            exact ⟨b, (prefix_insert a).subset hb, hR⟩
          · rw [insert_of_not_matched (by simpa using hl)]
            exact ⟨a, by simp, hrefl a⟩
        obtain ⟨b, hb, hR⟩ := hhere
        exact ⟨b, (prefix_foldl_insert as).subset hb, hR⟩
      · exact ih ha

/-- A key that an offered entry matches is found, and what is found was offered. -/
theorem find_insertAll (hrefl : ∀ a, R a (self a))
    (htrans : ∀ a b k, R a (self b) → R b k → R a k) {as : List α} {a : α} (ha : a ∈ as)
    (hR : R a k) : ∃ i b, find R (insertAll R self as) k = some i
      ∧ (insertAll R self as)[i]? = some b ∧ b ∈ as ∧ R b k := by
  obtain ⟨c, hc, hca⟩ := exists_matching_foldl_insert (l := []) hrefl ha
  obtain ⟨i, hi⟩ := Option.isSome_iff_exists.mp
    (find_isSome_iff.mpr ⟨c, hc, htrans c a k hca hR⟩)
  obtain ⟨b, hb, hmatch, -⟩ := find_eq_some_iff.mp hi
  refine ⟨i, b, hi, hb, ?_, hmatch⟩
  rcases mem_of_mem_foldl_insert (List.mem_of_getElem? hb) with h | h
  · simp at h
  · exact h

/-- Every offered entry that matches the key is the one found if and only if there is
only one such entry. -/
theorem all_found_iff (hrefl : ∀ a, R a (self a))
    (htrans : ∀ a b k, R a (self b) → R b k → R a k) (as : List α) (k : κ) :
    (∀ a ∈ as, R a k → ∃ i, find R (insertAll R self as) k = some i
        ∧ (insertAll R self as)[i]? = some a)
      ↔ ∀ a ∈ as, ∀ b ∈ as, R a k → R b k → a = b := by
  constructor
  · intro h a ha b hb hRa hRb
    obtain ⟨i, hi, hfound⟩ := h a ha hRa
    obtain ⟨j, hj, hfound'⟩ := h b hb hRb
    obtain rfl : i = j := Option.some.inj (hi.symm.trans hj)
    exact Option.some.inj (hfound.symm.trans hfound')
  · intro h a ha hR
    obtain ⟨i, b, hi, hfound, hb, hmatch⟩ := find_insertAll hrefl htrans ha hR
    obtain rfl := h a ha b hb hR hmatch
    exact ⟨i, hi, hfound⟩

end

end FirstMatch
