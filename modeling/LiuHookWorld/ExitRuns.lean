/-
# Runs of the exits in libraries

Exits are put into the gaps of several libraries and taken out again, while the program writes
to the rest of the memory.  Nothing but the memory itself says which places are in use: a place
is if it does not have zeros, and a gap was filled with zeros if it starts with the flag.
-/
import Mathlib.Data.List.Nodup
import LiuHookWorld.ExitGaps

namespace ShadowHook

open ByteMemory

/-! ## The system -/

/-- The memory, the exits that were allocated, with their code, and the lock `sh_exit_lock`. -/
structure Exits where
  mem : Memory
  held : List (ℕ × List (BitVec 8))
  locked : Bool

inductive ExitAct (page_size : ℕ) where
  | alloc (lib : ExitLibrary page_size) (pc : ℕ) (exit : List (BitVec 8))
      (range_low range_high : ℕ) (answers : ExitAnswers)
  | free (exit_addr : ℕ) (exit : List (BitVec 8)) (answers : ExitAnswers)
  | store (a : ℕ) (bytes : List (BitVec 8))

namespace Exits

variable {page_size : ℕ}

/-- A call waits for the lock. -/
def step (s : Exits) : ExitAct page_size → Option Exits
  | .alloc lib pc exit range_low range_high answers =>
      if s.locked then none
      else
        let out := sh_exit_alloc_in_library page_size s.mem pc lib.toExitInfo
          lib.elf_loaded_by_kernel exit range_low range_high answers
        some {
          mem := out.mem
          held :=
            match out.result with
            | .exit exit_addr => (exit_addr, exit) :: s.held
            | _ => s.held
          locked := !out.unlocked }
  | .free exit_addr exit answers =>
      if s.locked then none
      else
        let out := sh_exit_free_in_library s.mem exit_addr exit answers
        some { s with
          mem := out.1
          held := if out.2 = .ok then s.held.erase (exit_addr, exit) else s.held }
  | .store a bytes => some { s with mem := copy s.mem (BitVec.ofNat 64 a) bytes }

def start (m : Memory) : Exits := ⟨m, [], false⟩

/-- Libraries do not overlap. -/
def LibrariesApart (libs : List (ExitLibrary page_size)) : Prop :=
  libs.Pairwise fun lib lib' => lib.high ≤ lib'.low ∨ lib'.high ≤ lib.low

/-- The exits are of 16 bytes, not all of them zero, and go to the libraries; only exits that
are held are freed, and nobody else writes to a gap. -/
def Disciplined (libs : List (ExitLibrary page_size)) (s : Exits) : ExitAct page_size → Prop
  | .alloc lib pc exit _ range_high _ => lib ∈ libs ∧ exit.length = 16 ∧
      exit ≠ List.replicate 16 0 ∧ range_high ≤ UINTPTR_MAX - pc
  | .free exit_addr exit _ => (exit_addr, exit) ∈ s.held
  | .store a bytes => a + bytes.length ≤ 2 ^ 64 ∧ ∀ lib ∈ libs, ∀ gap ∈ lib.gaps,
      Separate a bytes.length gap.start (gap.stop - gap.start)

/-- The exits lie apart from each other and from all segments, and each has its code. -/
structure Isolated (libs : List (ExitLibrary page_size)) (s : Exits) : Prop where
  apart : s.held.Pairwise fun x y => Separate x.1 16 y.1 16
  segments : ∀ x ∈ s.held, ∀ lib ∈ libs, ∀ phdr ∈ lib.dlpi_phdr, phdr.load →
    Separate x.1 16 (lib.dli_fbase + phdr.p_vaddr) phdr.p_memsz
  content : ∀ x ∈ s.held, load s.mem (BitVec.ofNat 64 x.1) 16 = x.2

/-- An exit that is allocated lies near the function, and nobody holds a part of it. -/
def Answers (s : Exits) : ExitAct page_size → Prop
  | .alloc lib pc exit range_low range_high answers => ∀ exit_addr,
      (sh_exit_alloc_in_library page_size s.mem pc lib.toExitInfo lib.elf_loaded_by_kernel exit
        range_low range_high answers).result = .exit exit_addr →
      (pc - range_low ≤ exit_addr ∧ exit_addr ≤ pc + range_high) ∧
        ∀ x ∈ s.held, Separate exit_addr 16 x.1 16
  | _ => True

/-- The gap has to be filled with zeros, and `mprotect` does not let it be written. -/
def Refuses (m : Memory) (gap : ExitGap) (answers : ExitAnswers) : Prop :=
  gap.need_fill_zero ∧ answers.mprotect gap.start = false ∧
    (gap.readable → answers.faults gap.start = false ∧
      read m (BitVec.ofNat 64 gap.start) 8 ≠ SH_EXIT_CLEAR_FLAG)

/-- No gap that is reached refuses. -/
def NoneRefuses (s : Exits) : ExitAct page_size → Prop
  | .alloc lib pc exit range_low range_high answers => ∀ before gap after m,
      lib.gaps = before ++ gap :: after →
      alloc_in_gaps s.mem pc exit range_low range_high answers before = ⟨m, .failed, true⟩ →
        ¬ Refuses m gap answers
  | _ => True

end Exits

/-! ## Zeros -/

section

variable {m : Memory} {a : ℕ}

/-- Only zeros make up the number 0. -/
theorem load_of_read_eq_zero : ∀ {n : ℕ} {a : Address}, ByteMemory.read m a n = 0 →
    ∀ i < n, m (a + BitVec.ofNat 64 i) = 0 := by
  intro n
  induction n with
  | zero => intro a _ i hi; omega
  | succ n ih =>
      intro a h i hi
      unfold ByteMemory.read at h
      cases i with
      | zero =>
          apply BitVec.eq_of_toNat_eq
          simp only [BitVec.ofNat_eq_ofNat, BitVec.add_zero, BitVec.toNat_ofNat]
          omega
      | succ i =>
          have hrest := ih (a := a + 1) (by omega) i (by omega)
          rw [BitVec.add_assoc, BitVec.add_comm 1] at hrest
          rw [BitVec.ofNat_add]
          exact hrest

/-- A place that is taken for free has zeros. -/
theorem load_of_is_zero (h : sh_exit_is_zero m a 16) :
    load m (BitVec.ofNat 64 a) 16 = List.replicate 16 0 := by
  have hwords : ∀ i < 2, ByteMemory.read m (BitVec.ofNat 64 (a + 8 * i)) 8 = 0 := by
    intro i hi
    unfold sh_exit_is_zero at h
    exact of_decide_eq_true (List.all_eq_true.mp h i (List.mem_range.mpr hi))
  apply List.ext_getElem
  · rw [length_load, length_zeros]
  · intro i hi _
    rw [length_load] at hi
    have hbyte := load_of_read_eq_zero (hwords (i / 8) (by omega)) (i % 8) (by omega)
    have hi' : a + 8 * (i / 8) + i % 8 = a + i := by omega
    rw [← BitVec.ofNat_add, hi', BitVec.ofNat_add] at hbyte
    simp only [load, List.getElem_map, List.getElem_range, List.getElem_replicate]
    exact hbyte

end

/-! ## The invariant -/

namespace Exits

/-- All gaps lie apart. -/
structure GapsApart (gaps : List ExitGap) : Prop where
  pairwise : gaps.Pairwise fun gap gap' => gap.stop ≤ gap'.start ∨ gap'.stop ≤ gap.start
  between : ∀ gap ∈ gaps, gap.Between 1 (2 ^ 64)

/-- An exit at `a` lies in a gap, behind the flag if the gap has one. -/
structure InGap (m : Memory) (gap : ExitGap) (a : ℕ) : Prop where
  low : gap.start ≤ a
  high : a + 16 ≤ gap.stop
  filled : gap.need_fill_zero →
    gap.start + 16 ≤ a ∧ read m (BitVec.ofNat 64 gap.start) 8 = SH_EXIT_CLEAR_FLAG

/-- What is known of the exits that are held. -/
structure Known (gaps : List ExitGap) (m : Memory) (held : List (ℕ × List (BitVec 8))) :
    Prop where
  nodup : (held.map Prod.fst).Nodup
  aligned : ∀ x ∈ held, 16 ∣ x.1
  inGap : ∀ x ∈ held, ∃ gap ∈ gaps, InGap m gap x.1
  length : ∀ x ∈ held, x.2.length = 16
  used : ∀ x ∈ held, x.2 ≠ List.replicate 16 0
  content : ∀ x ∈ held, load m (BitVec.ofNat 64 x.1) 16 = x.2

/-- The memory outside of the gaps is the same. -/
def SameOutside (gaps : List ExitGap) (m m' : Memory) : Prop :=
  ∀ x, (∀ gap ∈ gaps, ¬ Inside (BitVec.ofNat 64 gap.start) (gap.stop - gap.start) x) →
    m' x = m x

variable {gaps : List ExitGap} {gap gap' : ExitGap} {m m' : Memory}
  {held : List (ℕ × List (BitVec 8))} {exit : List (BitVec 8)} {a p k : ℕ}

theorem SameOutside.trans {m'' : Memory} (h : SameOutside gaps m m')
    (h' : SameOutside gaps m' m'') : SameOutside gaps m m'' :=
  fun x hx => (h' x hx).trans (h x hx)

/-- A change in a part of a gap. -/
theorem GapsApart.sameOutside (hgaps : GapsApart gaps) (hgap : gap ∈ gaps) (hlow : gap.start ≤ p)
    (hhigh : p + k ≤ gap.stop) (hsame : ∀ x, ¬ Inside (BitVec.ofNat 64 p) k x → m' x = m x) :
    SameOutside gaps m m' := by
  intro x hx
  have hlt := (hgaps.between gap hgap).lt
  have hstop := (hgaps.between gap hgap).high
  exact hsame x fun h => hx gap hgap (inside_part hlow (by omega) (by omega) h)

/-- A gap is the other one, or apart from it. -/
theorem GapsApart.eq_or_apart (hgaps : GapsApart gaps) (hgap : gap ∈ gaps) (hgap' : gap' ∈ gaps) :
    gap = gap' ∨ gap.stop ≤ gap'.start ∨ gap'.stop ≤ gap.start := by
  by_cases heq : gap = gap'
  · exact .inl heq
  · have hsymm : Std.Symm fun gap gap' : ExitGap =>
        gap.stop ≤ gap'.start ∨ gap'.stop ≤ gap.start := ⟨fun _ _ h => h.symm⟩
    exact .inr (hgaps.pairwise.forall hgap hgap' heq)

theorem Known.bound (h : Known gaps m held) (hgaps : GapsApart gaps) {x : ℕ × List (BitVec 8)}
    (hx : x ∈ held) : x.1 + 16 ≤ 2 ^ 64 := by
  obtain ⟨gap, hgap, hin⟩ := h.inGap x hx
  exact Nat.le_trans hin.high (hgaps.between gap hgap).high

/-- A change apart from the exits and the flags before them. -/
theorem Known.change (h : Known gaps m held) (hgaps : GapsApart gaps) (hbound : p + k ≤ 2 ^ 64)
    (hsame : ∀ x, ¬ Inside (BitVec.ofNat 64 p) k x → m' x = m x)
    (hapart : ∀ x ∈ held, Separate x.1 16 p k ∧
      ∀ gap ∈ gaps, InGap m gap x.1 → gap.need_fill_zero → Separate gap.start 8 p k) :
    Known gaps m' held := by
  refine { h with inGap := ?_, content := ?_ }
  · intro x hx
    obtain ⟨gap, hgap, hin⟩ := h.inGap x hx
    refine ⟨gap, hgap, hin.low, hin.high, fun hfill => ⟨(hin.filled hfill).1, ?_⟩⟩
    have hbetween := hgaps.between gap hgap
    have hroom := hbetween.room hfill
    have hhigh := hbetween.high
    rw [read_of_separate ((hapart x hx).2 gap hgap hin hfill) (by omega) hbound hsame]
    exact (hin.filled hfill).2
  · intro x hx
    rw [load_of_separate (hapart x hx).1 (h.bound hgaps hx) hbound hsame]
    exact h.content x hx

/-- Two places for exits are the same one, or apart. -/
theorem separate_of_dvd {b : ℕ} (ha : 16 ∣ a) (hb : 16 ∣ b) (hne : a ≠ b) :
    Separate a 16 b 16 := by
  unfold Separate
  omega

/-- The flag of a gap is apart from the exits in the gaps. -/
theorem GapsApart.flag_apart (hgaps : GapsApart gaps) (hgap : gap ∈ gaps) (hgap' : gap' ∈ gaps)
    (hfill : gap.need_fill_zero) (hin : InGap m gap' a) : Separate gap.start 8 a 16 := by
  have hlow := hin.low
  have hhigh := hin.high
  rcases hgaps.eq_or_apart hgap hgap' with rfl | happ
  · have hbehind := (hin.filled hfill).1
    unfold Separate
    omega
  · have hroom := (hgaps.between gap hgap).room hfill
    unfold Separate
    omega

/-! ## The steps -/

/-- A gap that has no flag has no exits, and may change as a whole. -/
theorem Known.unflagged (h : Known gaps m held) (hgaps : GapsApart gaps) (hgap : gap ∈ gaps)
    (hfill : gap.need_fill_zero)
    (hnone : read m (BitVec.ofNat 64 gap.start) 8 ≠ SH_EXIT_CLEAR_FLAG)
    (hsame : ∀ x, ¬ Inside (BitVec.ofNat 64 gap.start) (gap.stop - gap.start) x → m' x = m x) :
    Known gaps m' held ∧ SameOutside gaps m m' := by
  have hbetween := hgaps.between gap hgap
  have hlt := hbetween.lt
  have hhigh := hbetween.high
  refine ⟨h.change hgaps (by omega) hsame fun x hx => ?_,
    hgaps.sameOutside hgap (Nat.le_refl _) (by omega) hsame⟩
  have hother : ∀ gap' ∈ gaps, InGap m gap' x.1 →
      gap'.stop ≤ gap.start ∨ gap.stop ≤ gap'.start := by
    intro gap' hgap' hin
    rcases hgaps.eq_or_apart hgap' hgap with rfl | happ
    · exact absurd (hin.filled hfill).2 hnone
    · exact happ
  refine ⟨?_, fun gap' hgap' hin hfill' => ?_⟩
  · obtain ⟨gap', hgap', hin⟩ := h.inGap x hx
    have happ := hother gap' hgap' hin
    have hlow := hin.low
    have hstop := hin.high
    unfold Separate
    omega
  · have happ := hother gap' hgap' hin
    have hroom' := (hgaps.between gap' hgap').room hfill'
    unfold Separate
    omega

/-- What `sh_exit_fill_zero` leaves in the memory. -/
inductive Filled (gaps : List ExitGap) (m : Memory) (held : List (ℕ × List (BitVec 8)))
    (gap : ExitGap) : FillZero → Prop
  | filled {m' : Memory} (known : Known gaps m' held) (same : SameOutside gaps m m')
      (flag : read m' (BitVec.ofNat 64 gap.start) 8 = SH_EXIT_CLEAR_FLAG) :
      Filled gaps m held gap (.filled m')
  | refused : Filled gaps m held gap .refused
  | crashed {m' : Memory} (known : Known gaps m' held) (same : SameOutside gaps m m') :
      Filled gaps m held gap (.crashed m')

/-- Filling a gap that has no flag, and therefore no exits, also if it ends halfway. -/
theorem Known.filled (h : Known gaps m held) (hgaps : GapsApart gaps) (hgap : gap ∈ gaps)
    (hfill : gap.need_fill_zero) (answers : ExitAnswers) :
    Filled gaps m held gap (sh_exit_fill_zero m gap answers) := by
  have hbetween := hgaps.between gap hgap
  have hhigh := hbetween.high
  have hroom := hbetween.room hfill
  have hpart : ∀ {n : ℕ} {x : Address}, n ≤ gap.stop - gap.start →
      ¬ Inside (BitVec.ofNat 64 gap.start) (gap.stop - gap.start) x →
        ¬ Inside (BitVec.ofNat 64 gap.start) n x :=
    fun hn hx hin => hx (inside_part (Nat.le_refl _) (by omega) (by omega) hin)
  unfold sh_exit_fill_zero
  simp only
  split
  · exact .refused
  · split
    · exact .crashed h fun _ _ => rfl
    · split
      · rename_i hnone
        split
        · exact .refused
        · split
          · obtain ⟨hknown, hsame⟩ := h.unflagged hgaps hgap hfill hnone fun x hx =>
              memset_zero_of_not_inside (hpart (Nat.min_le_right ..) hx)
            exact .crashed hknown hsame
          · have hwritten : ∀ x, ¬ Inside (BitVec.ofNat 64 gap.start) (gap.stop - gap.start) x →
                write (memset_zero m gap.start (gap.stop - gap.start)) (BitVec.ofNat 64 gap.start) 8
                  SH_EXIT_CLEAR_FLAG x = m x := by
              intro x hx
              rw [write_of_not_inside (hpart (by omega) hx), memset_zero_of_not_inside hx]
            obtain ⟨hknown, hsame⟩ := h.unflagged hgaps hgap hfill hnone hwritten
            refine .filled hknown hsame ?_
            rw [read_write_self _ _ _ (by omega)]
            rfl
      · rename_i hflag
        exact .filled h (fun _ _ => rfl) (not_not.mp hflag)

/-- A place with zeros is no part of an exit that is held. -/
theorem Known.free_place (h : Known gaps m held) (haligned : 16 ∣ a)
    (hzero : sh_exit_is_zero m a 16) {x : ℕ × List (BitVec 8)} (hx : x ∈ held) :
    Separate a 16 x.1 16 := by
  refine separate_of_dvd haligned (h.aligned x hx) ?_
  rintro rfl
  apply h.used x hx
  rw [← h.content x hx]
  exact load_of_is_zero hzero

/-- Storing an exit at a free place of a gap. -/
theorem Known.put (h : Known gaps m held) (hgaps : GapsApart gaps) (hgap : gap ∈ gaps)
    (hin : InGap m gap a) (haligned : 16 ∣ a) (hzero : sh_exit_is_zero m a 16)
    (hlength : exit.length = 16) (hused : exit ≠ List.replicate 16 0) :
    Known gaps (copy m (BitVec.ofNat 64 a) exit) ((a, exit) :: held) ∧
      SameOutside gaps m (copy m (BitVec.ofNat 64 a) exit) := by
  have hbound : a + 16 ≤ 2 ^ 64 := Nat.le_trans hin.high (hgaps.between gap hgap).high
  have hsame : ∀ x, ¬ Inside (BitVec.ofNat 64 a) 16 x → copy m (BitVec.ofNat 64 a) exit x = m x :=
    fun x hx => copy_of_not_inside (by rw [hlength]; exact hx)
  have hkept : Known gaps (copy m (BitVec.ofNat 64 a) exit) held := by
    refine h.change hgaps hbound hsame fun x hx => ⟨(h.free_place haligned hzero hx).symm, ?_⟩
    intro gap' hgap' _ hfill
    exact hgaps.flag_apart hgap' hgap hfill hin
  refine ⟨⟨?_, ?_, ?_, ?_, ?_, ?_⟩, hgaps.sameOutside hgap hin.low hin.high hsame⟩
  · rw [List.map_cons, List.nodup_cons]
    refine ⟨fun hmem => ?_, h.nodup⟩
    obtain ⟨x, hx, hfst⟩ := List.mem_map.mp hmem
    have happ := h.free_place haligned hzero hx
    simp only at hfst
    unfold Separate at happ
    omega
  · exact List.forall_mem_cons.mpr ⟨haligned, hkept.aligned⟩
  · refine List.forall_mem_cons.mpr ⟨⟨gap, hgap, hin.low, hin.high, fun hfill => ?_⟩, hkept.inGap⟩
    have hbetween := hgaps.between gap hgap
    have hroom := hbetween.room hfill
    have hhigh := hbetween.high
    refine ⟨(hin.filled hfill).1, ?_⟩
    rw [read_of_separate (hgaps.flag_apart hgap hgap hfill hin) (by omega) hbound hsame]
    exact (hin.filled hfill).2
  · exact List.forall_mem_cons.mpr ⟨hlength, hkept.length⟩
  · exact List.forall_mem_cons.mpr ⟨hused, hkept.used⟩
  · refine List.forall_mem_cons.mpr ⟨?_, hkept.content⟩
    have hload := load_copy m (BitVec.ofNat 64 a) (show exit.length ≤ 2 ^ 64 by omega)
    rwa [hlength] at hload

/-- What an allocation can do. -/
inductive Allocated (gaps : List ExitGap) (m : Memory) (held : List (ℕ × List (BitVec 8)))
    (pc : ℕ) (exit : List (BitVec 8)) (range_low range_high : ℕ) : LibraryAlloc → Prop
  | exit {m' : Memory} {a : ℕ} (known : Known gaps m' ((a, exit) :: held))
      (same : SameOutside gaps m m') (near : pc - range_low ≤ a ∧ a ≤ pc + range_high)
      (apart : ∀ x ∈ held, Separate a 16 x.1 16) :
      Allocated gaps m held pc exit range_low range_high ⟨m', .exit a, true⟩
  | none {m' : Memory} {result : ExitResult} (unlocked : Bool) (known : Known gaps m' held)
      (same : SameOutside gaps m m') (hnone : ∀ a, result ≠ .exit a) :
      Allocated gaps m held pc exit range_low range_high ⟨m', result, unlocked⟩

theorem Allocated.after {pc range_low range_high : ℕ} {out : LibraryAlloc}
    (hsame : SameOutside gaps m m')
    (h : Allocated gaps m' held pc exit range_low range_high out) :
    Allocated gaps m held pc exit range_low range_high out := by
  cases h with
  | exit known same near apart => exact .exit known (hsame.trans same) near apart
  | none unlocked known same hnone => exact .none unlocked known (hsame.trans same) hnone

theorem Known.alloc (hgaps : GapsApart gaps) {pc range_low range_high : ℕ}
    (answers : ExitAnswers) (hlength : exit.length = 16) (hused : exit ≠ List.replicate 16 0)
    (hhigh : range_high ≤ UINTPTR_MAX - pc) {rest : List ExitGap} (hrest : rest ⊆ gaps)
    (h : Known gaps m held) : Allocated gaps m held pc exit range_low range_high
      (alloc_in_gaps m pc exit range_low range_high answers rest) := by
  induction rest generalizing m with
  | nil => exact .none true h (fun _ _ => rfl) fun a hr => (by cases hr)
  | cons gap rest ih =>
      have hgap : gap ∈ gaps := hrest (List.mem_cons_self ..)
      have hrest' : rest ⊆ gaps := fun x hx => hrest (List.mem_cons_of_mem gap hx)
      have hbetween := hgaps.between gap hgap
      unfold alloc_in_gaps
      split
      · exact .none false h (fun _ _ => rfl) fun a hr => (by cases hr)
      · rename_i m' hcrashed
        split at hcrashed
        · rename_i hfill
          have hkeeps := h.filled hgaps hgap hfill answers
          rw [hcrashed] at hkeeps
          cases hkeeps with
          | crashed hknown hsame => exact .none true hknown hsame fun a hr => (by cases hr)
        · cases hcrashed
      · rename_i m' hfilled
        obtain ⟨hknown, hsame, hflag⟩ : Known gaps m' held ∧ SameOutside gaps m m' ∧
            (gap.need_fill_zero →
              read m' (BitVec.ofNat 64 gap.start) 8 = SH_EXIT_CLEAR_FLAG) := by
          split at hfilled
          · rename_i hfill
            have hkeeps := h.filled hgaps hgap hfill answers
            rw [hfilled] at hkeeps
            cases hkeeps with
            | filled hknown hsame hflag => exact ⟨hknown, hsame, fun _ => hflag⟩
          · rename_i hfill
            obtain rfl := FillZero.filled.inj hfilled
            exact ⟨h, fun _ _ => rfl, fun h => absurd h hfill⟩
        refine Allocated.after hsame ?_
        have hroom : exit.length ≤ gap.stop := by
          have hlow := hbetween.low
          have hlt := hbetween.lt
          have haligned := hbetween.aligned
          omega
        have hputs := try_alloc_in_library_cases m' range_low gap.start answers
          (by omega) hroom hhigh
        generalize sh_exit_try_alloc_in_library m' pc exit range_low range_high gap.start gap.stop
          answers = result at hputs
        cases hputs with
        | failed => exact ih hrest' hknown
        | crashed => exact .none true hknown (fun _ _ => rfl) fun a hr => (by cases hr)
        | exit hlow hstop haligned hnear hzero =>
            rename_i cur
            rw [hlength] at hstop haligned hzero
            have hplace : gap.need_fill_zero → gap.start + 16 ≤ cur ∧
                read m' (BitVec.ofNat 64 gap.start) 8 = SH_EXIT_CLEAR_FLAG := by
              intro hfill
              refine ⟨?_, hflag hfill⟩
              have hne : gap.start ≠ cur := by
                rintro rfl
                have hhead := List.all_eq_true.mp hzero 0 (by decide)
                rw [Nat.mul_zero, Nat.add_zero, hflag hfill] at hhead
                exact absurd (of_decide_eq_true hhead) (by decide)
              have haligned' := hbetween.aligned
              omega
            obtain ⟨hput, hsame'⟩ := hknown.put hgaps hgap ⟨hlow, hstop, hplace⟩ haligned hzero
              hlength hused
            exact .exit hput hsame' hnear fun x hx => hknown.free_place haligned hzero hx

/-- Freeing an exit that is held.  It does not find another code there. -/
theorem Known.free (h : Known gaps m held) (hgaps : GapsApart gaps) (hheld : (a, exit) ∈ held)
    (answers : ExitAnswers) :
    let out := sh_exit_free_in_library m a exit answers
    Known gaps out.1 (if out.2 = .ok then held.erase (a, exit) else held) ∧
      SameOutside gaps m out.1 ∧ out.2 ≠ .UNHOOK_EXIT_MISMATCH := by
  have hlength : exit.length = 16 := h.length _ hheld
  have hcontent := h.content _ hheld
  have hbound := h.bound hgaps hheld
  obtain ⟨gap, hgap, hin⟩ := h.inGap _ hheld
  have hsame : ∀ x, ¬ Inside (BitVec.ofNat 64 a) 16 x → memset_zero m a 16 x = m x :=
    fun x hx => memset_zero_of_not_inside hx
  unfold sh_exit_free_in_library
  simp only [hlength, hcontent, ne_eq, not_true_eq_false, if_false]
  split
  · exact ⟨h, fun _ _ => rfl, fun h => (by cases h)⟩
  · split
    · exact ⟨h, fun _ _ => rfl, fun h => (by cases h)⟩
    · simp only [if_true]
      refine ⟨?_, hgaps.sameOutside hgap hin.low hin.high hsame, fun h => (by cases h)⟩
      have hsub : held.erase (a, exit) ⊆ held := List.erase_subset
      have hrest : Known gaps m (held.erase (a, exit)) :=
        { nodup := h.nodup.sublist (List.erase_sublist.map _)
          aligned := fun x hx => h.aligned x (hsub hx)
          inGap := fun x hx => h.inGap x (hsub hx)
          length := fun x hx => h.length x (hsub hx)
          used := fun x hx => h.used x (hsub hx)
          content := fun x hx => h.content x (hsub hx) }
      refine hrest.change hgaps hbound hsame fun x hx => ⟨?_, fun gap' hgap' _ hfill =>
        hgaps.flag_apart hgap' hgap hfill hin⟩
      refine separate_of_dvd (h.aligned x (hsub hx)) (h.aligned _ hheld) fun heq => ?_
      have hnodup : held.Nodup := List.Nodup.of_map _ h.nodup
      have hne := (hnodup.mem_erase_iff.mp hx).1
      exact hne (List.inj_on_of_nodup_map h.nodup (hsub hx) hheld heq)

/-- A change outside of the gaps. -/
theorem Known.elsewhere (h : Known gaps m held) (hgaps : GapsApart gaps) (hbound : p + k ≤ 2 ^ 64)
    (hsame : ∀ x, ¬ Inside (BitVec.ofNat 64 p) k x → m' x = m x)
    (hapart : ∀ gap ∈ gaps, Separate p k gap.start (gap.stop - gap.start)) :
    Known gaps m' held := by
  refine h.change hgaps hbound hsame fun x hx => ⟨?_, ?_⟩
  · obtain ⟨gap, hgap, hin⟩ := h.inGap x hx
    have hlow := hin.low
    have hhigh := hin.high
    exact (hapart gap hgap).symm.mono hlow (by omega) (Nat.le_refl _) (Nat.le_refl _)
  · intro gap hgap hin hfill
    have hroom := (hgaps.between gap hgap).room hfill
    exact (hapart gap hgap).symm.mono (Nat.le_refl _) (by omega) (Nat.le_refl _) (Nat.le_refl _)

/-! ## Runs -/

section

variable {page_size : ℕ} {libs : List (ExitLibrary page_size)} {s s' : Exits}

/-- The gaps of all libraries. -/
def allGaps (libs : List (ExitLibrary page_size)) : List ExitGap := libs.flatMap ExitLibrary.gaps

theorem mem_allGaps {lib : ExitLibrary page_size} (hlib : lib ∈ libs) : lib.gaps ⊆ allGaps libs :=
  fun _ hgap => List.mem_flatMap.mpr ⟨lib, hlib, hgap⟩

theorem gapsApart (hpos : 0 < page_size) (hpage : 0x10 ∣ page_size)
    (hlibs : LibrariesApart libs) : GapsApart (allGaps libs) := by
  have hbetween : ∀ lib ∈ libs, ∀ gap ∈ lib.gaps, gap.Between lib.low lib.high :=
    fun lib _ gap hgap => ((gaps_apart hpos hpage lib).1 gap hgap).1
  constructor
  · unfold allGaps
    rw [List.pairwise_flatMap]
    refine ⟨fun lib _ => (gaps_apart hpos hpage lib).2.imp Or.inl, ?_⟩
    refine List.Pairwise.imp_of_mem (fun {lib lib'} hlib hlib' happ gap hgap gap' hgap' => ?_) hlibs
    have h := hbetween lib hlib gap hgap
    have h' := hbetween lib' hlib' gap' hgap'
    have hlow := h.low
    have hhigh := h.high
    have hlow' := h'.low
    have hhigh' := h'.high
    omega
  · intro gap hgap
    obtain ⟨lib, hlib, hgap⟩ := List.mem_flatMap.mp hgap
    have h := hbetween lib hlib gap hgap
    exact ⟨Nat.le_trans lib.low_pos h.low, h.lt, Nat.le_trans h.high lib.high_le, h.aligned, h.room⟩

/-- No gap has a byte of a segment. -/
theorem gap_segment (hpos : 0 < page_size) (hpage : 0x10 ∣ page_size)
    (hlibs : LibrariesApart libs) (hgap : gap ∈ allGaps libs) {lib : ExitLibrary page_size}
    (hlib : lib ∈ libs) {phdr : ExitPhdr} (hphdr : phdr ∈ lib.dlpi_phdr) (hload : phdr.load) :
    gap.stop ≤ lib.dli_fbase + phdr.p_vaddr ∨ phdr.stop lib.dli_fbase ≤ gap.start := by
  obtain ⟨lib', hlib', hgap⟩ := List.mem_flatMap.mp hgap
  obtain ⟨hbetween, hsegments⟩ := (gaps_apart hpos hpage lib').1 gap hgap
  by_cases hsame : lib' = lib
  · subst hsame
    exact hsegments phdr hphdr hload
  · have hsymm : Std.Symm fun lib lib' : ExitLibrary page_size =>
        lib.high ≤ lib'.low ∨ lib'.high ≤ lib.low := ⟨fun _ _ h => h.symm⟩
    have happ := List.Pairwise.forall hlibs hlib' hlib hsame
    have hinside := lib.inside phdr hphdr hload
    have hpages := segment_pages lib.dli_fbase hpos phdr
    have hlow := hbetween.low
    have hhigh := hbetween.high
    omega

def Inv (libs : List (ExitLibrary page_size)) (s : Exits) : Prop :=
  Known (allGaps libs) s.mem s.held

theorem inv_start (m : Memory) : (start m).Inv libs := by
  constructor <;> simp [start]

theorem Inv.isolated (hpos : 0 < page_size) (hpage : 0x10 ∣ page_size)
    (hlibs : LibrariesApart libs) (h : s.Inv libs) : s.Isolated libs := by
  refine ⟨?_, ?_, h.content⟩
  · refine List.Pairwise.imp_of_mem (fun {x y} hx hy hne => ?_) (List.pairwise_map.mp h.nodup)
    exact separate_of_dvd (h.aligned x hx) (h.aligned y hy) hne
  · intro x hx lib hlib phdr hphdr hload
    obtain ⟨gap, hgap, hin⟩ := h.inGap x hx
    have hlow := hin.low
    have hhigh := hin.high
    have happ := gap_segment hpos hpage hlibs hgap hlib hphdr hload
    unfold ExitPhdr.stop at happ
    unfold Separate
    omega

theorem Inv.step (hgaps : GapsApart (allGaps libs)) (h : s.Inv libs)
    {act : ExitAct page_size} (hguard : s.Disciplined libs act) (hstep : s.step act = some s') :
    s'.Inv libs ∧ s.Answers act := by
  cases act with
  | alloc lib pc exit range_low range_high answers =>
      obtain ⟨hlib, hlength, hused, hhigh⟩ := hguard
      have hout : Allocated (allGaps libs) s.mem s.held pc exit range_low range_high
          (sh_exit_alloc_in_library page_size s.mem pc lib.toExitInfo lib.elf_loaded_by_kernel exit
            range_low range_high answers) :=
        Known.alloc hgaps answers hlength hused hhigh (mem_allGaps hlib) h
      simp only [Answers, Exits.step] at hstep ⊢
      generalize sh_exit_alloc_in_library page_size s.mem pc lib.toExitInfo
        lib.elf_loaded_by_kernel exit range_low range_high answers = out at hout hstep ⊢
      split at hstep
      · cases hstep
      · obtain rfl := Option.some.inj hstep
        cases hout with
        | exit known same near apart =>
            refine ⟨known, ?_⟩
            rintro _ ⟨⟩
            exact ⟨near, apart⟩
        | none unlocked known same hnone =>
            refine ⟨?_, fun a ha => absurd ha (hnone a)⟩
            rename_i m' result
            cases result with
            | exit a => exact absurd rfl (hnone a)
            | failed => exact known
            | crashed => exact known
  | free exit_addr exit answers =>
      simp only [Exits.step] at hstep
      split at hstep
      · cases hstep
      · obtain rfl := Option.some.inj hstep
        exact ⟨(Known.free h hgaps hguard answers).1, trivial⟩
  | store a bytes =>
      obtain rfl := Option.some.inj hstep
      refine ⟨Known.elsewhere h hgaps hguard.1 (fun x hx => copy_of_not_inside hx)
        fun gap hgap => ?_, trivial⟩
      obtain ⟨lib, hlib, hgap⟩ := List.mem_flatMap.mp hgap
      exact hguard.2 lib hlib gap hgap

end

/-- In every run, with any answers of the system, in libraries whose segments ascend page by page
(`ExitLibrary.ascending`), the exits that are held lie apart from each other and from every segment
of every library, and each keeps its code: that a place has zeros is enough to know that it is
free. -/
theorem exits_isolated {page_size : ℕ} (libs : List (ExitLibrary page_size)) (m : Memory)
    (acts : List (ExitAct page_size)) (hpos : 0 < page_size) (hpage : 0x10 ∣ page_size)
    (hlibs : LibrariesApart libs)
    (h : Runs.Guarded step (Disciplined libs) (start m) acts) :
    Runs.Always step (Isolated libs) (start m) acts :=
  (Runs.always_of_guarded (fun _ _ _ h hguard hstep =>
    (Inv.step (gapsApart hpos hpage hlibs) h hguard hstep).1) acts (inv_start m) h).mono
      fun _ h => Inv.isolated hpos hpage hlibs h

/-- A library with one segment, of code, that leaves 48 bytes of its page. -/
def smallLibrary : ExitLibrary 256 where
  dli_fbase := 0x40000
  dlpi_phdr := [⟨true, 0, 0xD0, 0xD0, true, true⟩]
  elf_loaded_by_kernel := false
  low := 0x40000
  high := 0x40100
  low_pos := by decide
  high_le := by decide
  ascending := List.pairwise_singleton _ _
  inside := by decide

/-- An exit is allocated for the start of the library, and freed. -/
theorem exits_isolated_small : Runs.Always step (Isolated [smallLibrary]) (start fun _ => 0)
    [.alloc smallLibrary 0x40000 (List.replicate 16 1) 0x8000 0x8000
        ⟨fun _ => false, fun _ => true, fun _ => none⟩,
      .store 0x20000 [1, 2, 3],
      .free 0x400E0 (List.replicate 16 1) ⟨fun _ => false, fun _ => true, fun _ => none⟩] := by
  refine exits_isolated _ _ _ (by decide) (by decide) (List.pairwise_singleton ..) ?_
  have hgaps : smallLibrary.gaps = [⟨0x400D0, 0x40100, true, true⟩] := by decide
  have hresult : (sh_exit_alloc_in_library 256 (fun _ => 0) 0x40000 smallLibrary.toExitInfo
      smallLibrary.elf_loaded_by_kernel (List.replicate 16 1) 0x8000 0x8000
      ⟨fun _ => false, fun _ => true, fun _ => none⟩).result = .exit 0x400E0 := by
    decide
  refine ⟨⟨List.mem_singleton_self _, by decide, by decide, by decide⟩, ⟨by decide, ?_⟩, ?_,
    trivial⟩
  · rintro lib hlib gap hgap
    obtain rfl := List.mem_singleton.mp hlib
    rw [hgaps] at hgap
    obtain rfl := List.mem_singleton.mp hgap
    exact .inl (by decide)
  · simp only [Disciplined, start, hresult]
    exact List.mem_singleton_self _

/-- In every run, an exit that is allocated is in the reach of `B`, and apart from all others. -/
theorem exits_answer {page_size : ℕ} (libs : List (ExitLibrary page_size)) (m : Memory)
    (acts : List (ExitAct page_size)) (hpos : 0 < page_size) (hpage : 0x10 ∣ page_size)
    (hlibs : LibrariesApart libs)
    (h : Runs.Guarded step (Disciplined libs) (start m) acts) :
    Runs.Guarded step Answers (start m) acts :=
  Runs.guarded_of_guarded (fun _ _ _ h hguard hstep =>
    Inv.step (gapsApart hpos hpage hlibs) h hguard hstep) acts (inv_start m) h

/-- Two exits for the start of the library. -/
theorem exits_answer_small : Runs.Guarded step Answers (start fun _ => 0)
    [.alloc smallLibrary 0x40000 (List.replicate 16 1) 0x8000 0x8000
        ⟨fun _ => false, fun _ => true, fun _ => none⟩,
      .alloc smallLibrary 0x40000 (List.replicate 16 2) 0x8000 0x8000
        ⟨fun _ => false, fun _ => true, fun _ => none⟩] := by
  refine exits_answer [smallLibrary] _ _ (by decide) (by decide) (List.pairwise_singleton ..) ?_
  exact ⟨⟨List.mem_singleton_self _, by decide, by decide, by decide⟩,
    ⟨List.mem_singleton_self _, by decide, by decide, by decide⟩, trivial⟩

/-! ## The lock -/

/-- Where `sh_exit_fill_zero` returns -1. -/
theorem fill_zero_refused_iff {m : Memory} {gap : ExitGap} {answers : ExitAnswers}
    (hfill : gap.need_fill_zero) :
    sh_exit_fill_zero m gap answers = .refused ↔ Refuses m gap answers := by
  unfold sh_exit_fill_zero Refuses
  by_cases hflag : read m (BitVec.ofNat 64 gap.start) 8 = SH_EXIT_CLEAR_FLAG
  all_goals
    cases answers.memset gap.start <;> cases answers.faults gap.start <;>
      cases gap.readable <;> cases answers.mprotect gap.start <;> simp [hfill, hflag]

theorem unlocked_iff (pc : ℕ) (exit : List (BitVec 8)) (range_low range_high : ℕ)
    (answers : ExitAnswers) (m : Memory) (gaps : List ExitGap) :
    (alloc_in_gaps m pc exit range_low range_high answers gaps).unlocked ↔
      ∀ before gap after m', gaps = before ++ gap :: after →
        alloc_in_gaps m pc exit range_low range_high answers before = ⟨m', .failed, true⟩ →
          ¬ Refuses m' gap answers := by
  induction gaps generalizing m with
  | nil => simp [alloc_in_gaps]
  | cons gap gaps ih =>
      -- the first gap, and then the others behind it
      have hsplit : (∀ before gap' after m', gap :: gaps = before ++ gap' :: after →
          alloc_in_gaps m pc exit range_low range_high answers before = ⟨m', .failed, true⟩ →
            ¬ Refuses m' gap' answers) ↔
          ¬ Refuses m gap answers ∧ ∀ before gap' after m', gaps = before ++ gap' :: after →
            alloc_in_gaps m pc exit range_low range_high answers (gap :: before)
              = ⟨m', .failed, true⟩ → ¬ Refuses m' gap' answers := by
        constructor
        · intro h
          refine ⟨h [] gap gaps m rfl rfl, ?_⟩
          rintro before gap' after m' rfl
          exact h (gap :: before) gap' after m' rfl
        · rintro ⟨hhead, htail⟩ before gap' after m' heq
          cases before with
          | nil =>
              obtain ⟨rfl, rfl⟩ := List.cons.inj heq
              rintro ⟨⟩
              exact hhead
          | cons first before =>
              obtain ⟨rfl, rfl⟩ := List.cons.inj heq
              exact htail before gap' after m' rfl
      rw [hsplit]
      simp only [alloc_in_gaps]
      have hrefused : Refuses m gap answers →
          (if gap.need_fill_zero then sh_exit_fill_zero m gap answers else .filled m)
            = .refused := by
        intro hrefuses
        rw [if_pos hrefuses.1]
        exact (fill_zero_refused_iff hrefuses.1).mpr hrefuses
      cases hfilled : (if gap.need_fill_zero then sh_exit_fill_zero m gap answers
          else .filled m) with
      | refused =>
          have hrefuses : Refuses m gap answers := by
            split at hfilled
            · rename_i hfill
              exact (fill_zero_refused_iff hfill).mp hfilled
            · cases hfilled
          simp [hrefuses]
      | crashed m' =>
          have hnot : ¬ Refuses m gap answers := by
            intro hrefuses
            cases hfilled.symm.trans (hrefused hrefuses)
          simp [hnot]
      | filled m' =>
          have hnot : ¬ Refuses m gap answers := by
            intro hrefuses
            cases hfilled.symm.trans (hrefused hrefuses)
          simp only [hnot, not_false_eq_true, true_and]
          rcases sh_exit_try_alloc_in_library m' pc exit range_low range_high gap.start gap.stop
            answers with ⟨m'', result⟩
          cases result with
          | failed => exact ih m''
          | exit a => simp
          | crashed => simp

/-- The lock is free after every call of a run exactly if no gap that a call reaches refuses.  A
call that finds one that does returns with the lock, and every later call waits for it. -/
theorem exits_unlocked_iff {page_size : ℕ} (m : Memory) (acts : List (ExitAct page_size)) :
    Runs.Always step (fun s => s.locked = false) (start m) acts ↔
      Runs.Guarded step NoneRefuses (start m) acts := by
  have hstep : ∀ (s : Exits) (act : ExitAct page_size) (s' : Exits), s.locked = false →
      s.step act = some s' → (s'.locked = false ↔ s.NoneRefuses act) := by
    intro s act s' hfree hstep
    cases act with
    | alloc lib pc exit range_low range_high answers =>
        simp only [Exits.step, hfree, Bool.false_eq_true, if_false] at hstep
        obtain rfl := Option.some.inj hstep
        simp only [Bool.not_eq_false']
        exact unlocked_iff pc exit range_low range_high answers s.mem lib.gaps
    | free exit_addr exit answers =>
        simp only [Exits.step, hfree, Bool.false_eq_true, if_false] at hstep
        obtain rfl := Option.some.inj hstep
        simp [NoneRefuses]
    | store a bytes =>
        obtain rfl := Option.some.inj hstep
        simp only [hfree, NoneRefuses]
  exact Runs.always_iff_guarded (fun _ h => h)
    (fun s act s' h hguard hs => (hstep s act s' h hs).mpr hguard)
    (fun s act s' h hs h' => (hstep s act s' h hs).mp h') acts rfl

end Exits

end ShadowHook
