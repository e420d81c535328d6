/-
# Exits in the gaps of a library

An exit is the code that leads from a hooked function to its new one.  `B` has to reach it, so
that it must lie near the function.  If there is no page near by, `sh_exit.c` puts it into the
library of the function, behind the end of a segment.  Such a place is free if it has zeros.

Addresses are natural numbers: none of the sums below reaches `2 ^ 64`.
-/
import LiuHookWorld.TrampoRuns

namespace ShadowHook

open ByteMemory

/-! ## The source -/

/-- The room for gaps on the stack of `sh_exit_alloc_in_library`. -/
def SH_EXIT_GAPS_CAP : ℕ := 16

/-- `BRK #0`, twice. -/
def SH_EXIT_CLEAR_FLAG : ℕ := 0xD4200000D4200000

/-- Down to a multiple. -/
def SH_UTIL_ALIGN_START (x align : ℕ) : ℕ := x - x % align

/-- Up to a multiple. -/
def SH_UTIL_ALIGN_END (x align : ℕ) : ℕ := SH_UTIL_ALIGN_START (x + align - 1) align

/-- The part of `ElfW(Phdr)` that is used: whether it is a `PT_LOAD`, and the flags `PF_X` and
`PF_R`. -/
structure ExitPhdr where
  load : Bool
  p_vaddr : ℕ
  p_filesz : ℕ
  p_memsz : ℕ
  executable : Bool
  readable : Bool

/-- What `xdl_info_t` says of a library. -/
structure ExitInfo where
  dli_fbase : ℕ
  dlpi_phdr : List ExitPhdr

/-- `sh_exit_gap_t` -/
structure ExitGap where
  start : ℕ
  stop : ℕ
  need_fill_zero : Bool
  readable : Bool
deriving DecidableEq

section

variable (page_size : ℕ)

def sh_util_page_start (x : ℕ) : ℕ := SH_UTIL_ALIGN_START x page_size

def sh_util_page_end (x : ℕ) : ℕ := sh_util_page_start page_size (x + page_size - 1)

variable (dli_fbase : ℕ)

/-- Where a segment ends. -/
def ExitPhdr.stop (phdr : ExitPhdr) : ℕ := dli_fbase + phdr.p_vaddr + phdr.p_memsz

/-- Where the next segment starts, or the last page ends. -/
def next_page_start (cur_phdr : ExitPhdr) : Option ExitPhdr → ℕ
  | none => sh_util_page_end page_size (cur_phdr.stop dli_fbase)
  | some next_phdr => sh_util_page_start page_size (dli_fbase + next_phdr.p_vaddr)

/-- The gap behind a segment. -/
def exit_gap (cur_phdr : ExitPhdr) (next_phdr : Option ExitPhdr) : ExitGap :=
  let cur_end := cur_phdr.stop dli_fbase
  let cur_page_end := sh_util_page_end page_size cur_end
  let cur_file_end := dli_fbase + cur_phdr.p_vaddr + cur_phdr.p_filesz
  let cur_file_page_end := sh_util_page_end page_size cur_file_end
  let next_page_start := next_page_start page_size dli_fbase cur_phdr next_phdr
  if cur_phdr.executable then
    -- the rest of the last page
    ⟨SH_UTIL_ALIGN_END cur_end 0x10, next_page_start, true,
      cur_phdr.readable && cur_page_end = next_page_start⟩
  else if cur_page_end > cur_file_page_end then
    -- the rest of the last page of `.bss`, which is not one of the file
    ⟨SH_UTIL_ALIGN_END cur_end 0x10, next_page_start, false,
      cur_phdr.readable && cur_page_end = next_page_start⟩
  else if next_page_start > cur_page_end then
    -- whole pages
    ⟨cur_page_end, next_page_start, true, false⟩
  else ⟨0, 0, false, false⟩

/-- A gap that is filled with zeros needs room for its flag as well. -/
def ExitGap.usable (gap : ExitGap) : Bool :=
  gap.need_fill_zero && gap.stop > gap.start + 0x10
    || !gap.need_fill_zero && gap.stop > gap.start

variable (elf_loaded_by_kernel : Bool)

/-- The next `PT_LOAD` segment. -/
def next_load (phdrs : List ExitPhdr) : Option ExitPhdr :=
  if elf_loaded_by_kernel then none else phdrs.find? ExitPhdr.load

/-- The loop of `sh_exit_get_gaps`, with the number of gaps that there is room for. -/
def get_gaps : ℕ → List ExitPhdr → List ExitGap
  | 0, _ => []
  | _, [] => []
  | room + 1, cur_phdr :: phdrs =>
      if !cur_phdr.load then get_gaps (room + 1) phdrs
      else
        let gap := exit_gap page_size dli_fbase cur_phdr (next_load elf_loaded_by_kernel phdrs)
        if gap.usable then gap :: get_gaps room phdrs else get_gaps (room + 1) phdrs

/-- The gaps behind the segments, in their order. -/
def sh_exit_get_gaps (dlpi_phdr : List ExitPhdr) : List ExitGap :=
  get_gaps page_size dli_fbase elf_loaded_by_kernel SH_EXIT_GAPS_CAP dlpi_phdr

end

/-- What the system answers: whether a place cannot be read, whether `mprotect` makes it writable,
and how far `memset` gets in a gap if it faults there. -/
structure ExitAnswers where
  faults : ℕ → Bool
  mprotect : ℕ → Bool
  memset : ℕ → Option ℕ

inductive ExitResult where
  | exit (exit_addr : ℕ)
  | failed
  | crashed
deriving DecidableEq

/-- The words of a place are all zero. -/
def sh_exit_is_zero (m : Memory) (buf buf_len : ℕ) : Bool :=
  (List.range (buf_len / 8)).all fun i => read m (BitVec.ofNat 64 (buf + 8 * i)) 8 = 0

/-- How `sh_exit_fill_zero` ends.  It is `refused` where it returns -1. -/
inductive FillZero where
  | filled (m : Memory)
  | refused
  | crashed (m : Memory)

/-- A gap that has the flag was filled before. -/
def sh_exit_fill_zero (m : Memory) (gap : ExitGap) (answers : ExitAnswers) : FillZero :=
  let start := BitVec.ofNat 64 gap.start
  let size := gap.stop - gap.start
  if !gap.readable && !answers.mprotect gap.start then .refused
  else if answers.faults gap.start then .crashed m
  else if read m start 8 ≠ SH_EXIT_CLEAR_FLAG then
    if gap.readable && !answers.mprotect gap.start then .refused
    else
      match answers.memset gap.start with
      | some n => .crashed (memset_zero m gap.start (min n size))
      | none => .filled (write (memset_zero m gap.start size) start 8 SH_EXIT_CLEAR_FLAG)
  else .filled m

/-- The loop of `sh_exit_try_alloc_in_library`, with the number of places that are left. -/
def try_alloc (m : Memory) (exit : List (BitVec 8)) (answers : ExitAnswers) :
    ℕ → ℕ → Memory × ExitResult
  | 0, _ => (m, .failed)
  | places + 1, cur =>
      if answers.faults cur then (m, .crashed)
      else if !sh_exit_is_zero m cur exit.length then
        try_alloc m exit answers places (cur + exit.length)
      else if !answers.mprotect cur then (m, .failed)
      else (copy m (BitVec.ofNat 64 cur) exit, .exit cur)

/-- The places of a gap that the branch can get to are tried. -/
def sh_exit_try_alloc_in_library (m : Memory) (pc : ℕ) (exit : List (BitVec 8))
    (range_low range_high start stop : ℕ) (answers : ExitAnswers) : Memory × ExitResult :=
  let start := if pc ≥ range_low then max start (pc - range_low) else start
  let start := SH_UTIL_ALIGN_END start exit.length
  let stop :=
    if range_high ≤ UINTPTR_MAX - pc then min (stop - exit.length) (pc + range_high) else stop
  let stop := SH_UTIL_ALIGN_START stop exit.length
  if stop < start then (m, .failed)
  else try_alloc m exit answers ((stop - start) / exit.length + 1) start

/-- What `sh_exit_alloc_in_library` does to the memory, what it returns, and whether it gives
the lock back. -/
structure LibraryAlloc where
  mem : Memory
  result : ExitResult
  unlocked : Bool

/-- The loop of `sh_exit_alloc_in_library`. -/
def alloc_in_gaps (m : Memory) (pc : ℕ) (exit : List (BitVec 8)) (range_low range_high : ℕ)
    (answers : ExitAnswers) : List ExitGap → LibraryAlloc
  | [] => ⟨m, .failed, true⟩
  | gap :: gaps =>
      match if gap.need_fill_zero then sh_exit_fill_zero m gap answers else .filled m with
      | .refused => ⟨m, .failed, false⟩
      | .crashed m => ⟨m, .crashed, true⟩
      | .filled m =>
          match sh_exit_try_alloc_in_library m pc exit range_low range_high gap.start gap.stop
            answers with
          | (m, .failed) => alloc_in_gaps m pc exit range_low range_high answers gaps
          | (m, result) => ⟨m, result, true⟩

def sh_exit_alloc_in_library (page_size : ℕ) (m : Memory) (pc : ℕ) (dlinfo : ExitInfo)
    (elf_loaded_by_kernel : Bool) (exit : List (BitVec 8)) (range_low range_high : ℕ)
    (answers : ExitAnswers) : LibraryAlloc :=
  alloc_in_gaps m pc exit range_low range_high answers
    (sh_exit_get_gaps page_size dlinfo.dli_fbase elf_loaded_by_kernel dlinfo.dlpi_phdr)

inductive ExitFree where
  | ok
  | UNHOOK_EXIT_MISMATCH
  | MPROT
  | UNHOOK_EXIT_CRASH
deriving DecidableEq

/-- The code of the exit has to be there still. -/
def sh_exit_free_in_library (m : Memory) (exit_addr : ℕ) (exit : List (BitVec 8))
    (answers : ExitAnswers) : Memory × ExitFree :=
  if answers.faults exit_addr then (m, .UNHOOK_EXIT_CRASH)
  else if load m (BitVec.ofNat 64 exit_addr) exit.length ≠ exit then (m, .UNHOOK_EXIT_MISMATCH)
  else if !answers.mprotect exit_addr then (m, .MPROT)
  else (memset_zero m exit_addr exit.length, .ok)

/-! ## Alignment -/

theorem align_start_le (x align : ℕ) : SH_UTIL_ALIGN_START x align ≤ x := Nat.sub_le x _

theorem dvd_align_start (x align : ℕ) : align ∣ SH_UTIL_ALIGN_START x align :=
  Nat.dvd_sub_mod x

theorem dvd_align_end (x align : ℕ) : align ∣ SH_UTIL_ALIGN_END x align :=
  dvd_align_start _ align

theorem le_align_end {align : ℕ} (x : ℕ) (hpos : 0 < align) : x ≤ SH_UTIL_ALIGN_END x align := by
  have hmod := Nat.mod_lt (x + align - 1) hpos
  unfold SH_UTIL_ALIGN_END SH_UTIL_ALIGN_START
  omega

/-! ## One search -/

/-- What the loop over the places of a gap can do. -/
inductive TriesAlloc (m : Memory) (exit : List (BitVec 8)) (places start : ℕ) :
    Memory × ExitResult → Prop
  | exit {i : ℕ} (lt : i < places)
      (zero : sh_exit_is_zero m (start + exit.length * i) exit.length) :
      TriesAlloc m exit places start (copy m (BitVec.ofNat 64 (start + exit.length * i)) exit,
        .exit (start + exit.length * i))
  | failed : TriesAlloc m exit places start (m, .failed)
  | crashed : TriesAlloc m exit places start (m, .crashed)

theorem try_alloc_cases (m : Memory) (exit : List (BitVec 8)) (answers : ExitAnswers)
    (places start : ℕ) :
    TriesAlloc m exit places start (try_alloc m exit answers places start) := by
  induction places generalizing start with
  | zero => exact .failed
  | succ places ih =>
      unfold try_alloc
      split
      · exact .crashed
      · split
        · have hrest := ih (start + exit.length)
          generalize try_alloc m exit answers places (start + exit.length) = result at hrest ⊢
          cases hrest with
          | exit hlt hzero =>
              rename_i i
              have hplace : start + exit.length + exit.length * i
                  = start + exit.length * (i + 1) := by
                rw [Nat.mul_add, Nat.mul_one]
                omega
              rw [hplace] at hzero ⊢
              exact .exit (Nat.succ_lt_succ hlt) hzero
          | failed => exact .failed
          | crashed => exact .crashed
        · rename_i hzero
          split
          · exact .failed
          · have hhere : TriesAlloc m exit (places + 1) start
                (copy m (BitVec.ofNat 64 (start + exit.length * 0)) exit,
                  .exit (start + exit.length * 0)) :=
              .exit (Nat.succ_pos places) (by simpa using hzero)
            rw [Nat.mul_zero, Nat.add_zero] at hhere
            exact hhere

/-- What an attempt to put an exit into a gap can do. -/
inductive Puts (m : Memory) (pc : ℕ) (exit : List (BitVec 8)) (range_low range_high start
    stop : ℕ) : Memory × ExitResult → Prop
  | exit {cur : ℕ} (low : start ≤ cur) (high : cur + exit.length ≤ stop)
      (aligned : exit.length ∣ cur) (near : pc - range_low ≤ cur ∧ cur ≤ pc + range_high)
      (zero : sh_exit_is_zero m cur exit.length) :
      Puts m pc exit range_low range_high start stop
        (copy m (BitVec.ofNat 64 cur) exit, .exit cur)
  | failed : Puts m pc exit range_low range_high start stop (m, .failed)
  | crashed : Puts m pc exit range_low range_high start stop (m, .crashed)

theorem try_alloc_in_library_cases (m : Memory) {pc : ℕ} {exit : List (BitVec 8)}
    (range_low : ℕ) {range_high : ℕ} (start : ℕ) {stop : ℕ} (answers : ExitAnswers)
    (hpos : 0 < exit.length) (hroom : exit.length ≤ stop) (hhigh : range_high ≤ UINTPTR_MAX - pc) :
    Puts m pc exit range_low range_high start stop
      (sh_exit_try_alloc_in_library m pc exit range_low range_high start stop answers) := by
  unfold sh_exit_try_alloc_in_library
  simp only [if_pos hhigh]
  generalize hfirst : (if pc ≥ range_low then max start (pc - range_low) else start) = first
  have hmax : start ≤ first ∧ pc - range_low ≤ first := by
    split at hfirst
    all_goals omega
  have hlow := le_align_end first hpos
  have hdvd := dvd_align_end first exit.length
  have hlast := align_start_le (min (stop - exit.length) (pc + range_high)) exit.length
  have hdvd' := dvd_align_start (min (stop - exit.length) (pc + range_high)) exit.length
  generalize SH_UTIL_ALIGN_END first exit.length = low at hlow hdvd ⊢
  generalize SH_UTIL_ALIGN_START (min (stop - exit.length) (pc + range_high)) exit.length = last
    at hlast hdvd' ⊢
  split
  · exact .failed
  · rename_i hle
    have htries := try_alloc_cases m exit answers ((last - low) / exit.length + 1) low
    generalize try_alloc m exit answers ((last - low) / exit.length + 1) low = result at htries ⊢
    cases htries with
    | exit hi hzero =>
        rename_i i
        have hmul : exit.length * i ≤ last - low :=
          Nat.le_trans (Nat.mul_le_mul_left _ (Nat.le_of_lt_succ hi)) (Nat.mul_div_le _ _)
        exact .exit (by omega) (by omega)
          (Nat.dvd_add hdvd (Nat.dvd_mul_right _ _)) (by omega) hzero
    | failed => exact .failed
    | crashed => exact .crashed

/-! ## The gaps -/

section

variable {page_size dli_fbase : ℕ} {elf_loaded_by_kernel : Bool}

/-- Every segment ends on a page before the one on which the next one starts. -/
def Ascending (page_size dli_fbase : ℕ) (phdrs : List ExitPhdr) : Prop :=
  (phdrs.filter ExitPhdr.load).Pairwise fun phdr phdr' =>
    sh_util_page_end page_size (phdr.stop dli_fbase)
      ≤ sh_util_page_start page_size (dli_fbase + phdr'.p_vaddr)

/-- A gap between two addresses. -/
structure ExitGap.Between (gap : ExitGap) (low high : ℕ) : Prop where
  low : low ≤ gap.start
  lt : gap.start < gap.stop
  high : gap.stop ≤ high
  aligned : 0x10 ∣ gap.start
  room : gap.need_fill_zero → gap.start + 0x10 < gap.stop

/-- The gap behind a segment starts behind it and ends before the next one. -/
theorem exit_gap_between {cur_phdr : ExitPhdr} {next_phdr : Option ExitPhdr}
    (hpos : 0 < page_size) (hpage : 0x10 ∣ page_size)
    (husable : (exit_gap page_size dli_fbase cur_phdr next_phdr).usable) :
    (exit_gap page_size dli_fbase cur_phdr next_phdr).Between (cur_phdr.stop dli_fbase)
      (next_page_start page_size dli_fbase cur_phdr next_phdr) := by
  have hstart := le_align_end (cur_phdr.stop dli_fbase) (show 0 < 0x10 by omega)
  have halign := dvd_align_end (cur_phdr.stop dli_fbase) 0x10
  have hpages : cur_phdr.stop dli_fbase ≤ sh_util_page_end page_size (cur_phdr.stop dli_fbase) :=
    le_align_end _ hpos
  have hpages' : 0x10 ∣ sh_util_page_end page_size (cur_phdr.stop dli_fbase) :=
    Nat.dvd_trans hpage (dvd_align_end _ page_size)
  revert husable
  unfold ExitGap.usable exit_gap
  simp only [Bool.or_eq_true, Bool.and_eq_true, decide_eq_true_eq, Bool.not_eq_true']
  split
  · rintro (⟨-, hlt⟩ | ⟨h, -⟩)
    · exact ⟨hstart, Nat.lt_of_add_right_lt hlt, Nat.le_refl _, halign, fun _ => hlt⟩
    · cases h
  · split
    · rintro (⟨h, -⟩ | ⟨-, hlt⟩)
      · cases h
      · exact ⟨hstart, hlt, Nat.le_refl _, halign, fun h => (by cases h)⟩
    · split
      · rintro (⟨-, hlt⟩ | ⟨h, -⟩)
        · exact ⟨hpages, Nat.lt_of_add_right_lt hlt, Nat.le_refl _, hpages', fun _ => hlt⟩
        · cases h
      · rintro (⟨h, -⟩ | ⟨-, h⟩)
        · cases h
        · exact absurd h (Nat.lt_irrefl 0)

theorem Ascending.tail {phdr : ExitPhdr} {phdrs : List ExitPhdr}
    (h : Ascending page_size dli_fbase (phdr :: phdrs)) : Ascending page_size dli_fbase phdrs :=
  h.sublist ((List.sublist_cons_self phdr phdrs).filter _)

/-- Every segment lies behind the first one. -/
theorem Ascending.head {phdr phdr' : ExitPhdr} {phdrs : List ExitPhdr}
    (h : Ascending page_size dli_fbase (phdr :: phdrs)) (hload : phdr.load) (hmem : phdr' ∈ phdrs)
    (hload' : phdr'.load) : sh_util_page_end page_size (phdr.stop dli_fbase)
      ≤ sh_util_page_start page_size (dli_fbase + phdr'.p_vaddr) := by
  unfold Ascending at h
  rw [List.filter_cons_of_pos hload] at h
  exact (List.pairwise_cons.mp h).1 phdr' (List.mem_filter.mpr ⟨hmem, hload'⟩)

/-- A segment starts and ends on the pages from its start to its end. -/
theorem segment_pages (dli_fbase : ℕ) (hpos : 0 < page_size) (phdr : ExitPhdr) :
    sh_util_page_start page_size (dli_fbase + phdr.p_vaddr) ≤ dli_fbase + phdr.p_vaddr ∧
      phdr.stop dli_fbase ≤ sh_util_page_end page_size (phdr.stop dli_fbase) :=
  ⟨align_start_le _ _, le_align_end _ hpos⟩

/-- Nothing behind a segment starts before the next one. -/
theorem next_page_start_le (hpos : 0 < page_size) {cur_phdr phdr : ExitPhdr}
    {phdrs : List ExitPhdr} (h : Ascending page_size dli_fbase (cur_phdr :: phdrs))
    (hcur : cur_phdr.load) (hmem : phdr ∈ phdrs) (hload : phdr.load) :
    next_page_start page_size dli_fbase cur_phdr (next_load elf_loaded_by_kernel phdrs)
      ≤ sh_util_page_start page_size (dli_fbase + phdr.p_vaddr) := by
  have hnone := h.head hcur hmem hload
  unfold next_load
  split
  · exact hnone
  · clear hcur
    replace h := h.tail
    induction phdrs with
    | nil => cases hmem
    | cons head phdrs ih =>
        by_cases hhead : head.load
        · rw [List.find?_cons_of_pos hhead]
          rcases List.mem_cons.mp hmem with rfl | hmem
          · exact Nat.le_refl _
          · have hnext := h.head hhead hmem hload
            have hpages := segment_pages dli_fbase hpos head
            have hstop : dli_fbase + head.p_vaddr ≤ head.stop dli_fbase := Nat.le_add_right _ _
            unfold next_page_start
            simp only
            omega
        · rw [List.find?_cons_of_neg hhead]
          rcases List.mem_cons.mp hmem with rfl | hmem
          · exact absurd hload hhead
          · exact ih hmem h.tail

/-- What `get_gaps` finds: each gap is behind a segment and before all that follow it. -/
inductive Gapped (page_size dli_fbase : ℕ) : List ExitPhdr → List ExitGap → Prop
  | done (phdrs : List ExitPhdr) : Gapped page_size dli_fbase phdrs []
  | skip {phdrs : List ExitPhdr} {gaps : List ExitGap} (phdr : ExitPhdr)
      (rest : Gapped page_size dli_fbase phdrs gaps) :
      Gapped page_size dli_fbase (phdr :: phdrs) gaps
  | gap {phdr : ExitPhdr} {phdrs : List ExitPhdr} {gap : ExitGap} {gaps : List ExitGap}
      {high : ℕ} (load : phdr.load) (between : gap.Between (phdr.stop dli_fbase) high)
      (last : high = sh_util_page_end page_size (phdr.stop dli_fbase) ∨
        ∃ next ∈ phdrs, next.load ∧ high = sh_util_page_start page_size (dli_fbase + next.p_vaddr))
      (before : ∀ phdr' ∈ phdrs, phdr'.load →
        high ≤ sh_util_page_start page_size (dli_fbase + phdr'.p_vaddr))
      (rest : Gapped page_size dli_fbase phdrs gaps) :
      Gapped page_size dli_fbase (phdr :: phdrs) (gap :: gaps)

theorem gapped (hpos : 0 < page_size) (hpage : 0x10 ∣ page_size) {phdrs : List ExitPhdr}
    (h : Ascending page_size dli_fbase phdrs) (room : ℕ) : Gapped page_size dli_fbase phdrs
      (get_gaps page_size dli_fbase elf_loaded_by_kernel room phdrs) := by
  induction phdrs generalizing room with
  | nil => cases room <;> exact .done []
  | cons cur_phdr phdrs ih =>
      cases room with
      | zero => exact .done _
      | succ room =>
          unfold get_gaps
          simp only
          split
          · exact .skip cur_phdr (ih h.tail (room + 1))
          · rename_i hload
            have hcur : cur_phdr.load := by simpa using hload
            split
            · rename_i husable
              refine .gap hcur (exit_gap_between hpos hpage husable) ?_
                (fun phdr' hmem hload' => next_page_start_le hpos h hcur hmem hload')
                (ih h.tail room)
              unfold next_load
              split
              · exact .inl rfl
              · cases hfind : phdrs.find? ExitPhdr.load with
                | none => exact .inl rfl
                | some next =>
                    exact .inr ⟨next, List.mem_of_find?_eq_some hfind, List.find?_some hfind, rfl⟩
            · exact .skip cur_phdr (ih h.tail (room + 1))

section

variable {phdrs : List ExitPhdr} {gaps : List ExitGap} {gap : ExitGap}

/-- A gap begins behind a segment. -/
theorem Gapped.behind (h : Gapped page_size dli_fbase phdrs gaps) (hgap : gap ∈ gaps) :
    ∃ phdr ∈ phdrs, phdr.load ∧ phdr.stop dli_fbase ≤ gap.start := by
  induction h with
  | done => cases hgap
  | skip phdr _ ih =>
      obtain ⟨phdr', hmem, hbehind⟩ := ih hgap
      exact ⟨phdr', List.mem_cons_of_mem phdr hmem, hbehind⟩
  | gap hload hbetween _ _ _ ih =>
      rcases List.mem_cons.mp hgap with rfl | hgap
      · exact ⟨_, List.mem_cons_self .., hload, hbetween.low⟩
      · obtain ⟨phdr', hmem, hbehind⟩ := ih hgap
        exact ⟨phdr', List.mem_cons_of_mem _ hmem, hbehind⟩

/-- Gaps are in the order of the segments. -/
theorem Gapped.pairwise (h : Gapped page_size dli_fbase phdrs gaps) :
    gaps.Pairwise fun gap gap' => gap.stop ≤ gap'.start := by
  induction h with
  | done => exact .nil
  | skip _ _ ih => exact ih
  | gap _ hbetween _ hbefore hrest ih =>
      refine .cons (fun gap' hgap' => ?_) ih
      obtain ⟨phdr', hmem, hload', hbehind⟩ := hrest.behind hgap'
      have hstart := align_start_le (dli_fbase + phdr'.p_vaddr) page_size
      have hnext := hbefore phdr' hmem hload'
      have hhigh := hbetween.high
      unfold sh_util_page_start at hnext
      unfold ExitPhdr.stop at hbehind
      omega

/-- A gap has no byte of a segment. -/
theorem Gapped.apart (hpos : 0 < page_size) (hascending : Ascending page_size dli_fbase phdrs)
    (h : Gapped page_size dli_fbase phdrs gaps) (hgap : gap ∈ gaps) {phdr : ExitPhdr}
    (hmem : phdr ∈ phdrs) (hload : phdr.load) :
    gap.stop ≤ dli_fbase + phdr.p_vaddr ∨ phdr.stop dli_fbase ≤ gap.start := by
  induction h with
  | done => cases hgap
  | skip head hrest ih =>
      rcases List.mem_cons.mp hmem with rfl | hmem
      · right
        obtain ⟨phdr', hmem', hload', hbehind⟩ := hrest.behind hgap
        have hhead := hascending.head hload hmem' hload'
        have hpages := segment_pages dli_fbase hpos phdr
        have hpages' := segment_pages dli_fbase hpos phdr'
        unfold ExitPhdr.stop at *
        omega
      · exact ih hascending.tail hgap hmem
  | gap hload' hbetween _ hbefore hrest ih =>
      rcases List.mem_cons.mp hgap with rfl | hgap
      · rcases List.mem_cons.mp hmem with rfl | hmem
        · exact .inr hbetween.low
        · have hnext := hbefore phdr hmem hload
          have hpages := segment_pages dli_fbase hpos phdr
          have hhigh := hbetween.high
          left
          omega
      · rcases List.mem_cons.mp hmem with rfl | hmem
        · right
          obtain ⟨phdr', hmem', hload'', hbehind⟩ := hrest.behind hgap
          have hhead := hascending.head hload hmem' hload''
          have hpages := segment_pages dli_fbase hpos phdr
          have hpages' := segment_pages dli_fbase hpos phdr'
          unfold ExitPhdr.stop at *
          omega
        · exact ih hascending.tail hgap hmem

theorem Gapped.between (hpos : 0 < page_size) (h : Gapped page_size dli_fbase phdrs gaps)
    {low high : ℕ} (hinside : ∀ phdr ∈ phdrs, phdr.load → low ≤ dli_fbase + phdr.p_vaddr ∧
      sh_util_page_end page_size (phdr.stop dli_fbase) ≤ high) (hgap : gap ∈ gaps) :
    gap.Between low high := by
  induction h with
  | done => cases hgap
  | skip phdr _ ih =>
      exact ih (fun phdr' hmem => hinside phdr' (List.mem_cons_of_mem phdr hmem)) hgap
  | gap hload hbetween hlast hbefore hrest ih =>
      rename_i phdr _ _ _ _
      rcases List.mem_cons.mp hgap with rfl | hgap
      · have hlow := (hinside phdr (List.mem_cons_self ..) hload).1
        have hstop : dli_fbase + phdr.p_vaddr ≤ phdr.stop dli_fbase := Nat.le_add_right _ _
        refine ⟨by have := hbetween.low; omega, hbetween.lt, ?_, hbetween.aligned, hbetween.room⟩
        have hhigh := hbetween.high
        rcases hlast with rfl | ⟨next, hmem, hnext, rfl⟩
        · exact Nat.le_trans hhigh (hinside phdr (List.mem_cons_self ..) hload).2
        · have hend := (hinside next (List.mem_cons_of_mem phdr hmem) hnext).2
          have hpages := segment_pages dli_fbase hpos next
          unfold ExitPhdr.stop at *
          omega
      · exact ih (fun phdr' hmem => hinside phdr' (List.mem_cons_of_mem _ hmem)) hgap

end

end

/-- A library, and the addresses that it takes up.  Its segments are in ascending order, as ELF has
it, and no two share a page: else a gap of one could cover another. -/
structure ExitLibrary (page_size : ℕ) extends ExitInfo where
  elf_loaded_by_kernel : Bool
  low : ℕ
  high : ℕ
  low_pos : 0 < low
  high_le : high ≤ 2 ^ 64
  ascending : Ascending page_size dli_fbase dlpi_phdr
  inside : ∀ phdr ∈ dlpi_phdr, phdr.load → low ≤ dli_fbase + phdr.p_vaddr ∧
    sh_util_page_end page_size (phdr.stop dli_fbase) ≤ high

def ExitLibrary.gaps {page_size : ℕ} (lib : ExitLibrary page_size) : List ExitGap :=
  sh_exit_get_gaps page_size lib.dli_fbase lib.elf_loaded_by_kernel lib.dlpi_phdr

/-- The gaps of a library whose segments ascend page by page have no byte of them, do not overlap,
and do not leave the pages of the library. -/
theorem gaps_apart {page_size : ℕ} (hpos : 0 < page_size) (hpage : 0x10 ∣ page_size)
    (lib : ExitLibrary page_size) :
    (∀ gap ∈ lib.gaps, gap.Between lib.low lib.high ∧ ∀ phdr ∈ lib.dlpi_phdr, phdr.load →
      gap.stop ≤ lib.dli_fbase + phdr.p_vaddr ∨ phdr.stop lib.dli_fbase ≤ gap.start) ∧
    lib.gaps.Pairwise fun gap gap' => gap.stop ≤ gap'.start := by
  have h : Gapped page_size lib.dli_fbase lib.dlpi_phdr lib.gaps :=
    gapped hpos hpage lib.ascending SH_EXIT_GAPS_CAP
  exact ⟨fun gap hgap => ⟨h.between hpos lib.inside hgap, fun phdr hmem hload =>
    h.apart hpos lib.ascending hgap hmem hload⟩, h.pairwise⟩

end ShadowHook
