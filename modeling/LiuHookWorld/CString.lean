/-
# C strings

A C string is the list of its characters, without the terminating NUL.  The characters
are of an arbitrary type: only equality of characters matters here.

* `strstr_eq_some_iff` : `strstr` delivers the first occurrence;
* `First.of_append`, `Last.of_append` : where the first and the last one are, for a needle whose
  first character does not recur;
* `longestRun_takeWhile` : scanning while a predicate holds is maximal munch.
-/
import Mathlib.Data.List.Infix

namespace CString

variable {α : Type*} [DecidableEq α]

/-- `strstr(haystack, needle)`: the haystack from the first occurrence of the needle on. -/
def strstr (haystack needle : List α) : Option (List α) :=
  match haystack with
  | [] => if needle = [] then some [] else none
  | c :: cs => if needle <+: c :: cs then some (c :: cs) else strstr cs needle

/-- What `strstr` returns is an end of the haystack that starts with the needle. -/
theorem strstr_eq_some {haystack needle rest : List α} (h : strstr haystack needle = some rest) :
    needle <+: rest ∧ rest <:+ haystack := by
  induction haystack with
  | nil =>
      rw [strstr] at h
      split_ifs at h with hneedle
      obtain rfl := Option.some.inj h
      rw [hneedle]
      exact ⟨List.prefix_rfl, List.suffix_rfl⟩
  | cons c cs ih =>
      rw [strstr] at h
      split_ifs at h with hneedle
      · obtain rfl := Option.some.inj h
        exact ⟨hneedle, List.suffix_rfl⟩
      · obtain ⟨hinitial, hsuffix⟩ := ih h
        exact ⟨hinitial, hsuffix.trans (List.suffix_cons c cs)⟩

/-- `strstr` finds a needle exactly when it occurs in the haystack. -/
theorem strstr_isSome_iff {haystack needle : List α} :
    (strstr haystack needle).isSome ↔ needle <:+: haystack := by
  constructor
  · intro h
    obtain ⟨rest, hrest⟩ := Option.isSome_iff_exists.mp h
    obtain ⟨hinitial, hsuffix⟩ := strstr_eq_some hrest
    exact hinitial.isInfix.trans hsuffix.isInfix
  · intro h
    induction haystack with
    | nil =>
        rw [strstr, if_pos (List.infix_nil.mp h)]
        rfl
    | cons c cs ih =>
        rw [strstr]
        split_ifs with hneedle
        · rfl
        · rcases List.infix_cons_iff.mp h with hinitial | hinfix
          · exact absurd hinitial hneedle
          · exact ih hinfix

/-! ## First occurrences -/

/-- `rest` is the haystack from the first occurrence of the needle on: no longer end of the
haystack starts with the needle. -/
structure First (haystack needle rest : List α) : Prop where
  suffix : rest <:+ haystack
  starts : needle <+: rest
  longest : ∀ rest', rest' <:+ haystack → needle <+: rest' → rest'.length ≤ rest.length

omit [DecidableEq α] in
/-- There is only one first occurrence. -/
theorem First.unique {haystack needle rest rest' : List α} (h : First haystack needle rest)
    (h' : First haystack needle rest') : rest = rest' := by
  have hle := h'.longest rest h.suffix h.starts
  have hge := h.longest rest' h'.suffix h'.starts
  exact (List.suffix_of_suffix_length_le h.suffix h'.suffix hle).eq_of_length
    (le_antisymm hle hge)

/-- `strstr` delivers the first occurrence. -/
theorem first_of_strstr {haystack needle rest : List α} (h : strstr haystack needle = some rest) :
    First haystack needle rest := by
  obtain ⟨hstarts, hsuffix⟩ := strstr_eq_some h
  refine ⟨hsuffix, hstarts, ?_⟩
  induction haystack with
  | nil =>
      intro rest' hsuffix' _
      rw [List.suffix_nil.mp hsuffix']
      exact Nat.zero_le _
  | cons c cs ih =>
      intro rest' hsuffix' hstarts'
      rw [strstr] at h
      split_ifs at h with hneedle
      · obtain rfl := Option.some.inj h
        exact hsuffix'.length_le
      · rcases List.suffix_cons_iff.mp hsuffix' with rfl | hcs
        · exact absurd hstarts' hneedle
        · exact ih h (strstr_eq_some h).2 rest' hcs hstarts'

theorem strstr_eq_some_iff {haystack needle rest : List α} :
    strstr haystack needle = some rest ↔ First haystack needle rest := by
  constructor
  · exact first_of_strstr
  · intro h
    have hinfix : needle <:+: haystack := h.starts.isInfix.trans h.suffix.isInfix
    obtain ⟨rest', hrest'⟩ := Option.isSome_iff_exists.mp (strstr_isSome_iff.mpr hinfix)
    rw [hrest', h.unique (first_of_strstr hrest')]

theorem strstr_eq_none_iff {haystack needle : List α} :
    strstr haystack needle = none ↔ ¬ needle <:+: haystack := by
  rw [← strstr_isSome_iff, Option.not_isSome_iff_eq_none]

omit [DecidableEq α] in
/-- A needle whose first character does not recur in it, at the start of `right` and nowhere
in `left`: no occurrence can straddle the two. -/
theorem First.of_append {c : α} {cs left right : List α} (hc : c ∉ cs)
    (hleft : ¬ c :: cs <:+: left) (hright : c :: cs <+: right) :
    First (left ++ right) (c :: cs) right := by
  refine ⟨List.suffix_append left right, hright, ?_⟩
  intro rest' hsuffix hstarts
  by_contra hlong
  obtain ⟨more, rfl⟩ := List.suffix_of_suffix_length_le (List.suffix_append left right) hsuffix
    (by omega)
  -- the occurrence begins in `more`, an end of `left`
  obtain ⟨before, hbefore⟩ := hsuffix
  rw [← List.append_assoc, List.append_left_inj] at hbefore
  obtain ⟨after, hafter⟩ := hright
  cases more with
  | nil => exact hlong (Nat.le_of_eq (by rw [List.nil_append]))
  | cons d more =>
      obtain ⟨rfl, hcs⟩ := List.cons_prefix_cons.mp hstarts
      have hnext : more ++ [c] <+: more ++ right := by
        rw [← hafter]
        exact (List.prefix_append_right_inj more).mpr ⟨cs ++ after, rfl⟩
      rcases List.prefix_or_prefix_of_prefix hcs hnext with hshort | hover
      · rcases List.prefix_concat_iff.mp hshort with heq | hinside
        · exact hc (heq ▸ List.mem_append_right more (List.mem_singleton_self c))
        · apply hleft
          rw [← hbefore]
          exact (List.cons_prefix_cons.mpr ⟨rfl, hinside⟩).isInfix.trans
            (List.suffix_append before (c :: more)).isInfix
      · exact hc (hover.subset (List.mem_append_right more (List.mem_singleton_self c)))

/-- `rest` is the haystack from the last occurrence of the needle on. -/
structure Last (haystack needle rest : List α) : Prop where
  suffix : rest <:+ haystack
  starts : needle <+: rest
  shortest : ∀ rest', rest' <:+ haystack → needle <+: rest' → rest.length ≤ rest'.length

omit [DecidableEq α] in
/-- There is only one last occurrence. -/
theorem Last.unique {haystack needle rest rest' : List α} (h : Last haystack needle rest)
    (h' : Last haystack needle rest') : rest = rest' := by
  have hle := h.shortest rest' h'.suffix h'.starts
  have hge := h'.shortest rest h.suffix h.starts
  exact (List.suffix_of_suffix_length_le h.suffix h'.suffix hle).eq_of_length
    (le_antisymm hle hge)

omit [DecidableEq α] in
/-- A needle after whose first character that character does not occur again. -/
theorem Last.of_append {c : α} {cs right : List α} (left : List α) (hc : c ∉ cs)
    (hright : c ∉ right) : Last (left ++ (c :: cs ++ right)) (c :: cs) (c :: cs ++ right) := by
  refine ⟨List.suffix_append left _, List.prefix_append _ right, ?_⟩
  intro rest' hsuffix hstarts
  by_contra hshort
  have hlater : rest' <:+ c :: cs ++ right :=
    List.suffix_of_suffix_length_le hsuffix (List.suffix_append left _) (by omega)
  obtain ⟨after, rfl⟩ := hstarts
  rcases List.suffix_cons_iff.mp hlater with heq | htail
  · exact hshort (Nat.le_of_eq (congrArg List.length heq).symm)
  · have hmem : c ∈ cs ++ right := htail.subset List.mem_cons_self
    exact (List.mem_append.mp hmem).elim hc hright

/-! ## Maximal munch -/

/-- The longest initial run of the text whose characters all satisfy `p`. -/
structure LongestRun (p : α → Prop) (text run : List α) : Prop where
  initial : run <+: text
  satisfies : ∀ c ∈ run, p c
  longest : ∀ run', run' <+: text → (∀ c ∈ run', p c) → run' <+: run

omit [DecidableEq α] in
theorem longestRun_takeWhile (p : α → Bool) (text : List α) :
    LongestRun (fun c => p c = true) text (text.takeWhile p) := by
  refine ⟨List.takeWhile_prefix p, List.all_eq_true.mp List.all_takeWhile, ?_⟩
  induction text with
  | nil => exact fun run' hrun' _ => hrun'
  | cons c cs ih =>
      intro run' hrun' hp
      cases run' with
      | nil => exact List.nil_prefix
      | cons d run' =>
          obtain ⟨rfl, hcs⟩ := List.cons_prefix_cons.mp hrun'
          rw [List.takeWhile_cons_of_pos (hp d List.mem_cons_self), List.cons_prefix_cons]
          exact ⟨rfl, ih run' hcs fun e he => hp e (List.mem_cons_of_mem d he)⟩

end CString
