/-
# Trampolines

`sh_trampo.c` hands out pieces of memory of one size, for code.  It takes them from pages of
`mmap`, which it never gives back, and a piece that was freed is not handed out again before
`delay_sec` seconds have passed, since a thread may still run in it.

Addresses are natural numbers: none of the sums below reaches `2 ^ 64`.
-/
import LiuHookWorld.Bitmap
import LiuHookWorld.ByteMemory
import LiuHookWorld.Runs

namespace ShadowHook

open ByteMemory

/-! ## The source -/

/-- Pointers have 64 bits. -/
def UINTPTR_MAX : ℕ := 2 ^ 64 - 1

/-- The part of `sh_trampo_mgr_t` that `sh_trampo_init_mgr` sets once and for all. -/
structure TrampoKind (trampo_page_size : ℕ) where
  trampo_size : ℕ
  delay_sec : ℤ
  pos : 0 < trampo_size
  fits : trampo_size ≤ trampo_page_size

/-- The pieces of a page. -/
def TrampoKind.count {trampo_page_size : ℕ} (mgr : TrampoKind trampo_page_size) : ℕ :=
  trampo_page_size / mgr.trampo_size

/-- `sh_trampo_page_t` -/
structure TrampoPage (count : ℕ) where
  ptr : ℕ
  flags : Bitmap count
  timestamps : ℕ → ℤ

/-- `hint` and its range, after they were clipped to the address space. -/
structure HintRange where
  hint : ℕ
  range_low : ℕ
  range_high : ℕ

/-- The range around the hint does not wrap around. -/
def HintRange.clip (hint range_low range_high : ℕ) : HintRange where
  hint := hint
  range_low := min range_low hint
  range_high := min range_high (UINTPTR_MAX - hint)

/-- The addresses from `first` to `last` all miss the range. -/
def HintRange.misses (r : HintRange) (first last : ℕ) : Bool :=
  r.hint > 0 && (last < r.hint - r.range_low || r.hint + r.range_high < first)

theorem HintRange.misses_iff {r : HintRange} {first last : ℕ} : r.misses first last ↔
    0 < r.hint ∧ (last < r.hint - r.range_low ∨ r.hint + r.range_high < first) := by
  unfold HintRange.misses
  simp only [gt_iff_lt, Bool.and_eq_true, Bool.or_eq_true, decide_eq_true_eq]

/-- An address that is hit lies in the range that the caller asked for. -/
theorem HintRange.inRange_of_clip {hint range_low range_high addr : ℕ}
    (h : (clip hint range_low range_high).misses addr addr = false) (hhint : 0 < hint) :
    hint - range_low ≤ addr ∧ addr ≤ hint + range_high := by
  have hnot : ¬ (clip hint range_low range_high).misses addr addr := by
    rw [h]
    exact Bool.false_ne_true
  rw [misses_iff] at hnot
  simp only [clip] at hnot
  omega

/-- What the system answers to an allocation: the clock, `mmap` (`none` for `MAP_FAILED`), and
whether each of the three calls of `calloc` succeeds. -/
structure TrampoAnswers where
  now : ℤ
  new_ptr : Option ℕ
  page_info : Bool
  flags : Bool
  timestamps : Bool

inductive TrampoResult where
  | trampo (addr : ℕ)
  | failed
  | aborted
deriving DecidableEq

section

variable {trampo_page_size : ℕ} (mgr : TrampoKind trampo_page_size)

abbrev TrampoKind.Page : Type := TrampoPage mgr.count

/-- The delay since a piece was freed is over. -/
def ready (page : mgr.Page) (now : ℤ) (i : ℕ) : Bool :=
  !(mgr.delay_sec > 0 &&
    (now ≤ page.timestamps i || now - page.timestamps i ≤ mgr.delay_sec))

/-- The first piece of the page that is free for long enough, in the range. -/
def find_trampo (r : HintRange) (now : ℤ) (page : mgr.Page) : Option ℕ :=
  (List.range mgr.count).find? fun i =>
    let cur := page.ptr + mgr.trampo_size * i
    !page.flags.test i && ready mgr page now i && !r.misses cur cur

/-- The search for an unused piece in the pages that are there. -/
def find_unused (r : HintRange) (now : ℤ) : List mgr.Page → Option (List mgr.Page × ℕ)
  | [] => none
  | page :: pages =>
      let page_trampo_end := page.ptr + trampo_page_size - mgr.trampo_size
      let rest := (find_unused r now pages).map fun result => (page :: result.1, result.2)
      if r.misses page.ptr page_trampo_end then rest
      else
        match find_trampo mgr r now page with
        | some i =>
            some ({ page with flags := page.flags.raise i } :: pages,
              page.ptr + mgr.trampo_size * i)
        | none => rest

def memset_zero (m : Memory) (addr n : ℕ) : Memory :=
  copy m (BitVec.ofNat 64 addr) (List.replicate n 0)

/-- What `sh_trampo_alloc` does to the memory and the pages, and what it returns. -/
structure TrampoAlloc where
  mem : Memory
  pages : List mgr.Page
  result : TrampoResult

/-- `sh_trampo_alloc` from `mmap` on. -/
def alloc_new_page (m : Memory) (pages : List mgr.Page) (r : HintRange)
    (answers : TrampoAnswers) : TrampoAlloc mgr :=
  match answers.new_ptr with
  | none => ⟨m, pages, .failed⟩
  | some new_ptr =>
      if r.hint > 0 &&
          (r.hint - r.range_low ≥ new_ptr + trampo_page_size - mgr.trampo_size
            || r.hint + r.range_high < new_ptr) then
        ⟨m, pages, .failed⟩
      else if !answers.page_info then ⟨m, pages, .failed⟩
      else
        let m := memset_zero m new_ptr trampo_page_size
        if !answers.flags || mgr.delay_sec > 0 && !answers.timestamps then ⟨m, pages, .failed⟩
        else
          let page : mgr.Page := ⟨new_ptr, .zeros _, fun _ => 0⟩
          match (List.range mgr.count).find? fun i =>
              let find := page.ptr + mgr.trampo_size * i
              !r.misses find find with
          | none => ⟨m, page :: pages, .aborted⟩
          | some i =>
              ⟨m, { page with flags := page.flags.raise i } :: pages,
                .trampo (page.ptr + mgr.trampo_size * i)⟩

def sh_trampo_alloc (m : Memory) (pages : List mgr.Page) (hint range_low range_high : ℕ)
    (answers : TrampoAnswers) : TrampoAlloc mgr :=
  let r := HintRange.clip hint range_low range_high
  match find_unused mgr r answers.now pages with
  | some (pages', trampo) => ⟨memset_zero m trampo mgr.trampo_size, pages', .trampo trampo⟩
  | none => alloc_new_page mgr m pages r answers

/-- The page of the piece gets its flag and the time. -/
def sh_trampo_free (now : ℤ) (trampo : ℕ) : List mgr.Page → List mgr.Page
  | [] => []
  | page :: pages =>
      if page.ptr ≤ trampo && trampo < page.ptr + trampo_page_size then
        let i := (trampo - page.ptr) / mgr.trampo_size
        { page with
          timestamps :=
            if mgr.delay_sec > 0 then Function.update page.timestamps i now
            else page.timestamps
          flags := page.flags.lower i } :: pages
      else page :: sh_trampo_free now trampo pages

/-! ## One call -/

variable {mgr} {r : HintRange} {now : ℤ} {page : mgr.Page} {pages pages' : List mgr.Page}
  {a b i j : ℕ}

/-- A piece ends inside its page. -/
theorem piece_end (hi : i < mgr.count) :
    mgr.trampo_size * i + mgr.trampo_size ≤ trampo_page_size := by
  have hle : mgr.trampo_size * (i + 1) ≤ mgr.trampo_size * mgr.count :=
    Nat.mul_le_mul_left _ hi
  have hcount : mgr.trampo_size * mgr.count ≤ trampo_page_size := Nat.mul_div_le _ _
  rw [Nat.mul_add, Nat.mul_one] at hle
  omega

/-- Two pieces of a page do not overlap. -/
theorem pieces_apart (hij : i ≠ j) : mgr.trampo_size * i + mgr.trampo_size ≤ mgr.trampo_size * j ∨
    mgr.trampo_size * j + mgr.trampo_size ≤ mgr.trampo_size * i := by
  rcases Nat.lt_or_gt_of_ne hij with h | h
  · exact .inl (Nat.mul_le_mul_left mgr.trampo_size h)
  · exact .inr (Nat.mul_le_mul_left mgr.trampo_size h)

theorem piece_inj (h : mgr.trampo_size * i = mgr.trampo_size * j) : i = j :=
  Nat.eq_of_mul_eq_mul_left mgr.pos h

/-- `a` is a piece in one of the pages, and its flag is raised. -/
def Taken (pages : List mgr.Page) (a : ℕ) : Prop :=
  ∃ page ∈ pages, ∃ i < mgr.count, page.flags.test i ∧ a = page.ptr + mgr.trampo_size * i

theorem taken_append_cons {before after : List mgr.Page} : Taken (before ++ page :: after) b ↔
    (∃ i < mgr.count, page.flags.test i ∧ b = page.ptr + mgr.trampo_size * i)
      ∨ Taken (before ++ after) b := by
  unfold Taken
  simp only [List.mem_append, List.mem_cons]
  constructor
  · rintro ⟨page', hmem | rfl | hmem, hpiece⟩
    · exact .inr ⟨page', .inl hmem, hpiece⟩
    · exact .inl hpiece
    · exact .inr ⟨page', .inr hmem, hpiece⟩
  · rintro (hpiece | ⟨page', hmem | hmem, hpiece⟩)
    · exact ⟨page, .inr (.inl rfl), hpiece⟩
    · exact ⟨page', .inl hmem, hpiece⟩
    · exact ⟨page', .inr (.inr hmem), hpiece⟩

/-- Raising a flag takes one piece. -/
theorem taken_raise {before after : List mgr.Page} (hi : i < mgr.count) :
    Taken (before ++ { page with flags := page.flags.raise i } :: after) b ↔
      b = page.ptr + mgr.trampo_size * i ∨ Taken (before ++ page :: after) b := by
  rw [taken_append_cons, taken_append_cons, ← or_assoc]
  apply or_congr_left
  constructor
  · rintro ⟨j, hj, htest, rfl⟩
    rw [page.flags.test_raise hi, Bool.or_eq_true, decide_eq_true_iff] at htest
    rcases htest with rfl | htest
    · exact .inl rfl
    · exact .inr ⟨j, hj, htest, rfl⟩
  · rintro (rfl | ⟨j, hj, htest, rfl⟩)
    · exact ⟨i, hi, by rw [page.flags.test_raise hi, decide_eq_true rfl, Bool.true_or], rfl⟩
    · exact ⟨j, hj, by rw [page.flags.test_raise hi, htest, Bool.or_true], rfl⟩

/-- A piece that `find_trampo` may return. -/
structure Found (r : HintRange) (now : ℤ) (page : mgr.Page) (i : ℕ) : Prop where
  lt : i < mgr.count
  unused : page.flags.test i = false
  ready : ready mgr page now i
  inRange : r.misses (page.ptr + mgr.trampo_size * i) (page.ptr + mgr.trampo_size * i) = false

theorem found_of_find_trampo (h : find_trampo mgr r now page = some i) : Found r now page i := by
  have hmem := List.mem_of_find?_eq_some h
  have hsome := List.find?_some h
  simp only [Bool.and_eq_true, Bool.not_eq_true'] at hsome
  exact ⟨List.mem_range.mp hmem, hsome.1.1, hsome.1.2, hsome.2⟩

/-- The pages after a search that found the piece `a`: one of them is changed, in its place. -/
inductive Takes (r : HintRange) (now : ℤ) : List mgr.Page → List mgr.Page → ℕ → Prop
  | at (before after : List mgr.Page) {page : mgr.Page} {i : ℕ} (found : Found r now page i) :
      Takes r now (before ++ page :: after)
        (before ++ { page with flags := page.flags.raise i } :: after)
        (page.ptr + mgr.trampo_size * i)

/-- A page before the one that is found stays. -/
theorem Takes.cons (h : Takes r now pages pages' a) (page : mgr.Page) :
    Takes r now (page :: pages) (page :: pages') a := by
  obtain ⟨before, after, found⟩ := h
  exact .at (page :: before) after found

theorem find_unused_some (h : find_unused mgr r now pages = some (pages', a)) :
    Takes r now pages pages' a := by
  induction pages generalizing pages' with
  | nil => cases h
  | cons page pages ih =>
      have hrest : (find_unused mgr r now pages).map (fun result => (page :: result.1, result.2))
          = some (pages', a) → Takes r now (page :: pages) pages' a := by
        intro hrest
        obtain ⟨⟨rest, b⟩, hfind, heq⟩ := Option.map_eq_some_iff.mp hrest
        obtain ⟨rfl, rfl⟩ := Prod.mk.inj heq
        exact (ih hfind).cons page
      unfold find_unused at h
      simp only at h
      split at h
      · exact hrest h
      · split at h
        · rename_i i hi
          obtain ⟨rfl, rfl⟩ := Prod.mk.inj (Option.some.inj h)
          exact .at [] pages (found_of_find_trampo hi)
        · exact hrest h

/-- The page that a new piece is taken from. -/
def newPage (mgr : TrampoKind trampo_page_size) (new_ptr i : ℕ) : mgr.Page where
  ptr := new_ptr
  flags := (Bitmap.zeros mgr.count).raise i
  timestamps := fun _ => 0

/-- Everything that an allocation can do. -/
inductive Allocates (mgr : TrampoKind trampo_page_size) (m : Memory) (pages : List mgr.Page)
    (r : HintRange) (answers : TrampoAnswers) : TrampoAlloc mgr → Prop
  | reused {pages' : List mgr.Page} {a : ℕ} (takes : Takes r answers.now pages pages' a) :
      Allocates mgr m pages r answers ⟨memset_zero m a mgr.trampo_size, pages', .trampo a⟩
  | fresh {new_ptr i : ℕ} (mapped : answers.new_ptr = some new_ptr) (lt : i < mgr.count)
      (inRange : r.misses (new_ptr + mgr.trampo_size * i) (new_ptr + mgr.trampo_size * i) = false) :
      Allocates mgr m pages r answers ⟨memset_zero m new_ptr trampo_page_size,
        newPage mgr new_ptr i :: pages, .trampo (new_ptr + mgr.trampo_size * i)⟩
  | failed : Allocates mgr m pages r answers ⟨m, pages, .failed⟩
  | unmapped {new_ptr : ℕ} (mapped : answers.new_ptr = some new_ptr) :
      Allocates mgr m pages r answers ⟨memset_zero m new_ptr trampo_page_size, pages, .failed⟩
  | aborted {new_ptr : ℕ} {m' : Memory} {pages' : List mgr.Page}
      (mapped : answers.new_ptr = some new_ptr)
      (reached : r.hint > 0 → r.hint - r.range_low < new_ptr + trampo_page_size - mgr.trampo_size
        ∧ new_ptr ≤ r.hint + r.range_high)
      (missed : ∀ i < mgr.count,
        r.misses (new_ptr + mgr.trampo_size * i) (new_ptr + mgr.trampo_size * i)) :
      Allocates mgr m pages r answers ⟨m', pages', .aborted⟩

theorem newPage_taken {new_ptr : ℕ} (hi : i < mgr.count) :
    Taken (newPage mgr new_ptr i :: pages) b ↔
      b = new_ptr + mgr.trampo_size * i ∨ Taken pages b := by
  rw [← List.nil_append (newPage mgr new_ptr i :: pages), taken_append_cons]
  apply or_congr_left
  constructor
  · rintro ⟨j, hj, htest, rfl⟩
    have hsame : j = i := by
      simpa [newPage, Bitmap.test_raise _ hi] using htest
    rw [hsame]
    rfl
  · rintro rfl
    refine ⟨i, hi, ?_, rfl⟩
    simp [newPage, Bitmap.test_raise _ hi]

theorem alloc_new_page_cases (m : Memory) (pages : List mgr.Page) (r : HintRange)
    (answers : TrampoAnswers) :
    Allocates mgr m pages r answers (alloc_new_page mgr m pages r answers) := by
  unfold alloc_new_page
  split
  · exact .failed
  · rename_i new_ptr hmapped
    split
    · exact .failed
    · rename_i hreached
      split
      · exact .failed
      · simp only
        split
        · exact .unmapped hmapped
        · split
          · rename_i hfind
            have hmissed := List.find?_eq_none.mp hfind
            refine .aborted hmapped ?_ ?_
            · intro hhint
              simp only [hhint, decide_true, Bool.true_and, Bool.or_eq_true, decide_eq_true_iff,
                not_or] at hreached
              omega
            · intro i hi
              simpa using hmissed i (List.mem_range.mpr hi)
          · rename_i i hfind
            have hmem := List.mem_of_find?_eq_some hfind
            have hsome := List.find?_some hfind
            exact .fresh hmapped (List.mem_range.mp hmem) (by simpa using hsome)

/-- What `sh_trampo_alloc` can do. -/
theorem alloc_cases (m : Memory) (pages : List mgr.Page) (hint range_low range_high : ℕ)
    (answers : TrampoAnswers) :
    Allocates mgr m pages (.clip hint range_low range_high) answers
      (sh_trampo_alloc mgr m pages hint range_low range_high answers) := by
  unfold sh_trampo_alloc
  simp only
  split
  · rename_i pages' a hfind
    exact .reused (find_unused_some hfind)
  · exact alloc_new_page_cases m pages _ answers

theorem Takes.map_ptr (h : Takes r now pages pages' a) :
    pages'.map TrampoPage.ptr = pages.map TrampoPage.ptr := by
  obtain ⟨before, after, -⟩ := h
  simp

/-- One piece more is taken. -/
theorem Takes.taken_iff (h : Takes r now pages pages' a) :
    Taken pages' b ↔ b = a ∨ Taken pages b := by
  obtain ⟨before, after, found⟩ := h
  exact taken_raise found.lt

theorem Takes.exists_page (h : Takes r now pages pages' a) : ∃ page ∈ pages, ∃ i,
    Found r now page i ∧ a = page.ptr + mgr.trampo_size * i := by
  obtain ⟨before, after, found⟩ := h
  exact ⟨_, List.mem_append_right _ (List.mem_cons_self ..), _, found, rfl⟩

/-- The time stamps stay with the pages. -/
theorem Takes.timestamps (h : Takes r now pages pages' a) {page : mgr.Page}
    (hpage : page ∈ pages') :
    ∃ page' ∈ pages, page'.ptr = page.ptr ∧ page'.timestamps = page.timestamps := by
  obtain ⟨before, after, -⟩ := h
  rcases List.mem_append.mp hpage with hmem | hmem
  · exact ⟨page, List.mem_append_left _ hmem, rfl, rfl⟩
  · rcases List.mem_cons.mp hmem with rfl | hmem
    · exact ⟨_, List.mem_append_right _ (List.mem_cons_self ..), rfl, rfl⟩
    · exact ⟨page, List.mem_append_right _ (List.mem_cons_of_mem _ hmem), rfl, rfl⟩

/-- The pages after the piece `a` was freed. -/
inductive Frees (now : ℤ) : List mgr.Page → List mgr.Page → ℕ → Prop
  | at (before after : List mgr.Page) {page : mgr.Page} {i : ℕ} (lt : i < mgr.count) :
      Frees now (before ++ page :: after)
        (before ++ { page with
          timestamps :=
            if mgr.delay_sec > 0 then Function.update page.timestamps i now
            else page.timestamps
          flags := page.flags.lower i } :: after)
        (page.ptr + mgr.trampo_size * i)

theorem Frees.cons (h : Frees now pages pages' a) (page : mgr.Page) :
    Frees now (page :: pages) (page :: pages') a := by
  obtain ⟨before, after, lt⟩ := h
  exact .at (page :: before) after lt

section

variable (hpages : pages.Pairwise fun p q =>
  p.ptr + trampo_page_size ≤ q.ptr ∨ q.ptr + trampo_page_size ≤ p.ptr)

theorem Frees.map_ptr (h : Frees now pages pages' a) :
    pages'.map TrampoPage.ptr = pages.map TrampoPage.ptr := by
  obtain ⟨before, after, -⟩ := h
  simp

include hpages

/-- No other page has the piece. -/
theorem piece_elsewhere {before after : List mgr.Page} (heq : pages = before ++ page :: after)
    {page' : mgr.Page} (hpage' : page' ∈ before ++ after) (hi : i < mgr.count)
    (hj : j < mgr.count) :
    page'.ptr + mgr.trampo_size * j ≠ page.ptr + mgr.trampo_size * i := by
  have hend := piece_end hi
  have hend' := piece_end hj
  have hpos := mgr.pos
  rw [heq, List.pairwise_middle fun h => Or.symm h] at hpages
  have happ := (List.pairwise_cons.mp hpages).1 page' hpage'
  omega

/-- Freeing lowers one flag. -/
theorem Frees.taken_iff (h : Frees now pages pages' a) :
    Taken pages' b ↔ Taken pages b ∧ b ≠ a := by
  obtain ⟨before, after, hi⟩ := h
  rename_i page i
  rw [taken_append_cons, taken_append_cons, or_and_right]
  apply or_congr
  · constructor
    · rintro ⟨j, hj, htest, rfl⟩
      rw [page.flags.test_lower hi, Bool.and_eq_true, decide_eq_true_iff] at htest
      exact ⟨⟨j, hj, htest.2, rfl⟩, fun heq => htest.1 (piece_inj (Nat.add_left_cancel heq))⟩
    · rintro ⟨⟨j, hj, htest, rfl⟩, hne⟩
      refine ⟨j, hj, ?_, rfl⟩
      have hji : j ≠ i := by
        rintro rfl
        exact hne rfl
      rw [page.flags.test_lower hi, htest, Bool.and_true, decide_eq_true_iff]
      exact hji
  · refine ⟨fun htaken => ⟨htaken, ?_⟩, And.left⟩
    obtain ⟨page', hpage', j, hj, -, rfl⟩ := htaken
    exact piece_elsewhere hpages rfl hpage' hi hj

/-- Freeing sets one time stamp. -/
theorem Frees.stamped (hdelay : 0 < mgr.delay_sec) (h : Frees now pages pages' a)
    {page' : mgr.Page} (hpage' : page' ∈ pages') (hj : j < mgr.count) :
    ∃ page ∈ pages, page'.ptr = page.ptr ∧ page'.timestamps j =
      if page'.ptr + mgr.trampo_size * j = a then now else page.timestamps j := by
  obtain ⟨before, after, hi⟩ := h
  rename_i page i
  rcases List.mem_append.mp hpage' with hmem | hmem
  · have hne := piece_elsewhere hpages rfl (List.mem_append_left after hmem) hi hj
    exact ⟨page', List.mem_append_left _ hmem, rfl, (if_neg hne).symm⟩
  · rcases List.mem_cons.mp hmem with rfl | hmem
    · refine ⟨page, List.mem_append_right _ (List.mem_cons_self ..), rfl, ?_⟩
      have hiff : page.ptr + mgr.trampo_size * j = page.ptr + mgr.trampo_size * i ↔ j = i :=
        ⟨fun heq => piece_inj (Nat.add_left_cancel heq), fun heq => by rw [heq]⟩
      simp only [gt_iff_lt, hdelay, if_true, Function.update_apply, hiff]
    · have hne := piece_elsewhere hpages rfl (List.mem_append_right before hmem) hi hj
      exact ⟨page', List.mem_append_right _ (List.mem_cons_of_mem _ hmem), rfl,
        (if_neg hne).symm⟩

end

/-- What `sh_trampo_free` does to a piece of a page, when no page overlaps another one. -/
theorem free_cases (now : ℤ) (hpages : pages.Pairwise fun p q =>
      p.ptr + trampo_page_size ≤ q.ptr ∨ q.ptr + trampo_page_size ≤ p.ptr)
    (hpage : page ∈ pages) (hi : i < mgr.count) :
    Frees now pages (sh_trampo_free mgr now (page.ptr + mgr.trampo_size * i) pages)
      (page.ptr + mgr.trampo_size * i) := by
  have hend := piece_end hi
  have hpos := mgr.pos
  induction pages with
  | nil => cases hpage
  | cons head pages ih =>
      obtain ⟨hhead, htail⟩ := List.pairwise_cons.mp hpages
      unfold sh_trampo_free
      rcases List.mem_cons.mp hpage with rfl | hmem
      · have hinside : (decide (page.ptr ≤ page.ptr + mgr.trampo_size * i) &&
            decide (page.ptr + mgr.trampo_size * i < page.ptr + trampo_page_size)) = true := by
          simp only [Bool.and_eq_true, decide_eq_true_eq]
          omega
        rw [if_pos hinside, Nat.add_sub_cancel_left, Nat.mul_div_cancel_left _ hpos]
        exact .at [] pages hi
      · have hoff := hhead page hmem
        have houtside : ¬ (decide (head.ptr ≤ page.ptr + mgr.trampo_size * i) &&
            decide (page.ptr + mgr.trampo_size * i < head.ptr + trampo_page_size)) = true := by
          simp only [Bool.and_eq_true, decide_eq_true_eq]
          omega
        rw [if_neg houtside]
        exact (ih htail hmem).cons head

/-- The search in the new page succeeds, so that `abort` is not reached: without a hint, and
where the pieces fill the page and the range is not narrower than one of them. -/
theorem not_aborted (m : Memory) (pages : List mgr.Page) (hint range_low range_high : ℕ)
    (answers : TrampoAnswers)
    (h : hint = 0 ∨ mgr.trampo_size ∣ trampo_page_size ∧ mgr.trampo_size ≤ range_low) :
    (sh_trampo_alloc mgr m pages hint range_low range_high answers).result ≠ .aborted := by
  have hcases := alloc_cases m pages hint range_low range_high answers
  generalize sh_trampo_alloc mgr m pages hint range_low range_high answers = out at hcases ⊢
  intro haborted
  cases hcases
  case aborted new_ptr m' pages' hmapped hreached hmissed =>
    have hpos := mgr.pos
    have hcount : 0 < mgr.count := Nat.div_pos mgr.fits hpos
    have hall : ∀ i < mgr.count, 0 < hint ∧
        (new_ptr + mgr.trampo_size * i < hint - min range_low hint
          ∨ hint + min range_high (UINTPTR_MAX - hint) < new_ptr + mgr.trampo_size * i) := by
      intro i hi
      exact HintRange.misses_iff.mp (hmissed i hi)
    obtain ⟨hhint, hfirst⟩ := hall 0 hcount
    obtain ⟨hbelow, habove⟩ := hreached hhint
    simp only [HintRange.clip] at hbelow habove
    rcases h with h | ⟨⟨count, hfill⟩, hwide⟩
    · omega
    · have hcount' : mgr.count = count := Nat.div_eq_of_eq_mul_right hpos hfill
      -- the first piece that is not below the range
      have hdiv := Nat.div_add_mod (hint - range_low - new_ptr + mgr.trampo_size - 1)
        mgr.trampo_size
      have hmod := Nat.mod_lt (hint - range_low - new_ptr + mgr.trampo_size - 1) hpos
      generalize (hint - range_low - new_ptr + mgr.trampo_size - 1) / mgr.trampo_size = i at hdiv
      generalize (hint - range_low - new_ptr + mgr.trampo_size - 1) % mgr.trampo_size = rest
        at hdiv hmod
      have hlt : i < mgr.count := by
        rw [hcount']
        refine Nat.lt_of_mul_lt_mul_left (a := mgr.trampo_size) ?_
        omega
      have hi := (hall i hlt).2
      omega
  all_goals cases haborted

theorem not_aborted_exit :
    (sh_trampo_alloc (⟨16, 2, by decide, by decide⟩ : TrampoKind 4096) (fun _ => 0) []
      0x20000 0x8000 0x8000 ⟨100, some 0x18000, true, true, true⟩).result ≠ .aborted :=
  not_aborted _ _ _ _ _ _ (.inr ⟨by decide, by decide⟩)

end

end ShadowHook
