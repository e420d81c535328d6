/-
# Hooking a function

`sh_inst.c` overwrites the head of a function by a jump to the new one: by `B` to an exit near
by, which is 4 bytes long, or else by a jump that is 16 bytes long.  What it overwrites is
rewritten to `enter`, and is written back when the function is unhooked.

A call that waits for a lock for ever or aborts has no result.
-/
import LiuHookWorld.A64Enter
import LiuHookWorld.ExitRuns

namespace ShadowHook

open ByteMemory A64

/-! ## The source -/

def SH_INST_A64_B_RANGE_LOW : ℕ := 134217728

def SH_INST_A64_B_RANGE_HIGH : ℕ := 134217724

/-- The two managers of trampolines. -/
inductive InstMgr where
  | enter
  | exit
deriving DecidableEq

/-- The size of a page, which is that of a page of trampolines. -/
structure PageSize where
  bytes : ℕ
  enough : 256 ≤ bytes
  aligned : 0x10 ∣ bytes

/-- `sh_enter_init` and the first lines of `sh_exit_init`. -/
def InstMgr.kind (page : PageSize) : InstMgr → TrampoKind page.bytes
  | .enter => ⟨256, 10, by decide, page.enough⟩
  | .exit => ⟨16, 2, by decide, Nat.le_trans (by decide) page.enough⟩

/-- `FAILED` is the -1 of `sh_exit_alloc`, and `EXIT_MPROT` the `MPROT` of `sh_exit_free`. -/
inductive InstErrno where
  | FAILED
  | MPROT
  | EXIT_MPROT
  | WRITE_CRASH
  | HOOK_ENTER
  | HOOK_SYMSZ
  | HOOK_REWRITE_FAILED
  | HOOK_REWRITE_CRASH
  | UNHOOK_CMP_CRASH
  | UNHOOK_TRAMPO_MISMATCH
  | UNHOOK_EXIT_MISMATCH
  | UNHOOK_EXIT_CRASH
deriving DecidableEq

/-- `sh_inst_t`.  `exit_addr` is 0 without an exit. -/
structure Inst where
  trampo : List (BitVec 32)
  backup : List (BitVec 8)
  in_library : Bool
  exit_addr : ℕ
  exit : List (BitVec 8)
  enter_addr : ℕ
deriving DecidableEq

def Inst.backup_len (self : Inst) : ℕ := self.backup.length

/-- The memory, the pages of trampolines, and `sh_exit_lock`. -/
structure InstState (page : PageSize) where
  mem : Memory
  pages : ∀ k : InstMgr, List (k.kind page).Page
  locked : Bool

/-- What the system answers to `sh_util_write_inst`: whether `mprotect` succeeds, and after how
many bytes `memcpy` faults. -/
structure WriteAnswers where
  mprotect : Bool
  crash : Option ℕ

/-- A store that faults stores nothing. -/
def WriteAnswers.Whole (answers : WriteAnswers) : Prop := ∀ n, answers.crash = some n → n = 0

/-- What it answers to one attempt to overwrite the head of a function.  `crash` is the number
of instructions that are left when one faults. -/
structure HeadAnswers where
  mprotect : Bool
  crash : Option ℕ
  write : WriteAnswers

structure HookAnswers where
  enter : TrampoAnswers
  exit : TrampoAnswers
  library : ExitAnswers
  with_exit : HeadAnswers
  without_exit : HeadAnswers
  now_exit : ℤ
  now_enter : ℤ

structure UnhookAnswers where
  cmp_crash : Bool
  write : WriteAnswers
  library : ExitAnswers
  now_exit : ℤ
  now_enter : ℤ

/-- `inst_len` bytes at once, or one after the other. -/
def written_at_once (target_addr inst_len : ℕ) : Bool :=
  inst_len = 4 && target_addr % 4 = 0 || inst_len = 8 && target_addr % 8 = 0
    || inst_len = 16 && target_addr % 16 = 0

def sh_util_write_inst (m : Memory) (target_addr : ℕ) (inst : List (BitVec 8))
    (answers : WriteAnswers) : Memory × Option InstErrno :=
  if !answers.mprotect then (m, some .MPROT)
  else
    match answers.crash with
    | none => (copy m (BitVec.ofNat 64 target_addr) inst, none)
    | some n =>
        if written_at_once target_addr inst.length then (m, some .WRITE_CRASH)
        else (copy m (BitVec.ofNat 64 target_addr) (inst.take n), some .WRITE_CRASH)

/-- The instructions of a window. -/
def instsAt (m : Memory) (target_addr : Address) (n : ℕ) : List (BitVec 32) :=
  (List.range n).map fun i => word m (target_addr + BitVec.ofNat 64 (4 * i))

/-- The second loop of `sh_inst_hook_rewrite`, with the number of instructions that are left. -/
def rewrite_loop (rinfo : RewriteInfo) (crash : Option ℕ) : Memory → Address → ℕ → ℕ →
    Memory × Except InstErrno ℕ
  | m, _, buf_offset, 0 => (m, .ok buf_offset)
  | m, pc, buf_offset, n + 1 =>
      if crash = some (n + 1) then (m, .error .HOOK_REWRITE_CRASH)
      else
        match sh_a64_rewrite (word m pc) pc rinfo with
        | none => (m, .error .HOOK_REWRITE_FAILED)
        | some us =>
            rewrite_loop rinfo crash (copy m (rinfo.buf + BitVec.ofNat 64 buf_offset) (bytes us))
              (pc + 4) (buf_offset + size us) n

def sh_inst_hook_rewrite (m : Memory) (target_addr enter_addr : ℕ) (backup_len : ℕ)
    (crash : Option ℕ) : Memory × Except InstErrno Unit :=
  let target := BitVec.ofNat 64 target_addr
  let enter := BitVec.ofNat 64 enter_addr
  let n := backup_len / 4
  let rinfo := rewrite_info target enter (instsAt m target n)
  match rewrite_loop rinfo crash m target 0 n with
  | (m, .error e) => (m, .error e)
  | (m, .ok buf_offset) =>
      (copy m (enter + BitVec.ofNat 64 buf_offset)
        (bytes (sh_a64_absolute_jump_with_ret (target + BitVec.ofNat 64 backup_len))), .ok ())

/-- From `mprotect` to the end of `sh_inst_hook_with_exit` and `sh_inst_hook_without_exit`. -/
def overwrite_head (m : Memory) (target_addr enter_addr : ℕ) (trampo : List (BitVec 32))
    (answers : HeadAnswers) : Memory × Option InstErrno :=
  if !answers.mprotect then (m, some .MPROT)
  else
    match sh_inst_hook_rewrite m target_addr enter_addr (size trampo) answers.crash with
    | (m, .error e) => (m, some e)
    | (m, .ok ()) => sh_util_write_inst m target_addr (bytes trampo) answers.write

section

variable {page : PageSize}

/-- `sh_enter_alloc` and `sh_exit_alloc_out_library` up to `memcpy`: a trampoline of a manager,
or none. -/
def trampo_alloc (s : InstState page) (k : InstMgr) (hint range_low range_high : ℕ)
    (answers : TrampoAnswers) : Option (InstState page × Option ℕ) :=
  let out := sh_trampo_alloc (k.kind page) s.mem (s.pages k) hint range_low range_high answers
  let s' := { s with mem := out.mem, pages := Function.update s.pages k out.pages }
  match out.result with
  | .trampo a => some (s', some a)
  | .failed => some (s', none)
  | .aborted => none

def trampo_free (s : InstState page) (k : InstMgr) (a : ℕ) (now : ℤ) : InstState page :=
  { s with pages := Function.update s.pages k (sh_trampo_free (k.kind page) now a (s.pages k)) }

/-- `sh_exit_alloc`: the address of the exit, and whether it is in the library. -/
def sh_exit_alloc (s : InstState page) (pc : ℕ) (dlinfo : ExitInfo) (elf_loaded_by_kernel : Bool)
    (exit : List (BitVec 8)) (range_low range_high : ℕ) (answers : TrampoAnswers)
    (library : ExitAnswers) : Option (InstState page × Option (ℕ × Bool)) :=
  match trampo_alloc s .exit pc range_low range_high answers with
  | none => none
  | some (s, some a) =>
      some ({ s with mem := copy s.mem (BitVec.ofNat 64 a) exit }, some (a, false))
  | some (s, none) =>
      if s.locked then none
      else
        let out := sh_exit_alloc_in_library page.bytes s.mem pc dlinfo elf_loaded_by_kernel exit
          range_low range_high library
        some ({ s with mem := out.mem, locked := !out.unlocked },
          match out.result with
          | .exit a => some (a, true)
          | _ => none)

def sh_exit_free (s : InstState page) (exit_addr : ℕ) (in_library : Bool)
    (exit : List (BitVec 8)) (library : ExitAnswers) (now : ℤ) :
    Option (InstState page × Option InstErrno) :=
  if in_library then
    if s.locked then none
    else
      let out := sh_exit_free_in_library s.mem exit_addr exit library
      some ({ s with mem := out.1 },
        match out.2 with
        | .ok => none
        | .UNHOOK_EXIT_MISMATCH => some .UNHOOK_EXIT_MISMATCH
        | .MPROT => some .EXIT_MPROT
        | .UNHOOK_EXIT_CRASH => some .UNHOOK_EXIT_CRASH)
  else some (trampo_free s .exit exit_addr now, none)

/-- `sh_inst_hook_with_exit` -/
def hook_with_exit (s : InstState page) (target_addr : ℕ) (dlinfo : ExitInfo)
    (elf_loaded_by_kernel : Bool) (dli_ssize new_addr enter_addr : ℕ) (answers : HookAnswers) :
    Option (InstState page × Except InstErrno Inst) :=
  if dli_ssize < 4 then some (s, .error .HOOK_SYMSZ)
  else
    let exit := bytes (sh_a64_absolute_jump_with_br (BitVec.ofNat 64 new_addr))
    match sh_exit_alloc s target_addr dlinfo elf_loaded_by_kernel exit SH_INST_A64_B_RANGE_LOW
      SH_INST_A64_B_RANGE_HIGH answers.exit answers.library with
    | none => none
    | some (s, none) => some (s, .error .FAILED)
    | some (s, some (exit_addr, in_library)) =>
        let trampo := sh_a64_relative_jump (BitVec.ofNat 64 exit_addr) (BitVec.ofNat 64 target_addr)
        let backup := load s.mem (BitVec.ofNat 64 target_addr) 4
        let out := overwrite_head s.mem target_addr enter_addr trampo answers.with_exit
        let s := { s with mem := out.1 }
        match out.2 with
        | none => some (s, .ok ⟨trampo, backup, in_library, exit_addr, exit, enter_addr⟩)
        | some e =>
            (sh_exit_free s exit_addr in_library exit answers.library answers.now_exit).map
              fun freed => (freed.1, .error e)

/-- `sh_inst_hook_without_exit` -/
def hook_without_exit (s : InstState page) (target_addr dli_ssize new_addr enter_addr : ℕ)
    (answers : HookAnswers) : InstState page × Except InstErrno Inst :=
  if dli_ssize < 16 then (s, .error .HOOK_SYMSZ)
  else
    let trampo := sh_a64_absolute_jump_with_br (BitVec.ofNat 64 new_addr)
    let backup := load s.mem (BitVec.ofNat 64 target_addr) 16
    let out := overwrite_head s.mem target_addr enter_addr trampo answers.without_exit
    ({ s with mem := out.1 },
      match out.2 with
      | none => .ok ⟨trampo, backup, false, 0, [], enter_addr⟩
      | some e => .error e)

/-- `sh_inst_hook`.  The callers get the address of `enter` as that of the original function. -/
def sh_inst_hook (s : InstState page) (target_addr : ℕ) (dlinfo : ExitInfo)
    (elf_loaded_by_kernel : Bool) (dli_ssize new_addr : ℕ) (answers : HookAnswers) :
    Option (InstState page × Except InstErrno Inst) :=
  match trampo_alloc s .enter 0 0 0 answers.enter with
  | none => none
  | some (s, none) => some (s, .error .HOOK_ENTER)
  | some (s, some enter_addr) =>
      match hook_with_exit s target_addr dlinfo elf_loaded_by_kernel dli_ssize new_addr enter_addr
        answers with
      | none => none
      | some (s, .ok inst) => some (s, .ok inst)
      | some (s, .error _) =>
          match hook_without_exit s target_addr dli_ssize new_addr enter_addr answers with
          | (s, .ok inst) => some (s, .ok inst)
          | (s, .error e) => some (trampo_free s .enter enter_addr answers.now_enter, .error e)

def sh_inst_unhook (s : InstState page) (self : Inst) (target_addr : ℕ)
    (answers : UnhookAnswers) : Option (InstState page × Option InstErrno) :=
  if answers.cmp_crash then some (s, some .UNHOOK_CMP_CRASH)
  else if load s.mem (BitVec.ofNat 64 target_addr) self.backup_len ≠ bytes self.trampo then
    some (s, some .UNHOOK_TRAMPO_MISMATCH)
  else
    let out := sh_util_write_inst s.mem target_addr self.backup answers.write
    let s := { s with mem := out.1 }
    match out.2 with
    | some e => some (s, some e)
    | none =>
        let freed :=
          if self.exit_addr ≠ 0 then
            sh_exit_free s self.exit_addr self.in_library self.exit answers.library answers.now_exit
          else some (s, none)
        freed.map fun freed =>
          match freed.2 with
          | some e => (freed.1, some e)
          | none => (trampo_free freed.1 .enter self.enter_addr answers.now_enter, none)

end

/-! ## Jumps -/

section

variable {other : Others}

/-- The word of a `B` decodes to the 26 bits that were put into it. -/
theorem decode_b (e : BitVec 26) :
    decode ((0x14000000 : BitVec 32) ||| e.setWidth 32) = .b (e.signExtend 64 <<< 2) := by
  have hopcode : ∀ i < 26, (0x14000000 : BitVec 32).getLsbD i = false := by decide
  have hmask : ∀ i < 32, (0xFC000000 : BitVec 32).getLsbD i = decide (26 ≤ i) := by decide
  have hclass : ((0x14000000 : BitVec 32) ||| e.setWidth 32) &&& 0xFC000000 = 0x14000000 := by
    apply BitVec.eq_of_getLsbD_eq
    intro i hi
    rw [BitVec.getLsbD_and, BitVec.getLsbD_or, BitVec.getLsbD_setWidth, hmask i hi]
    by_cases hin : i < 26
    · have hnot : ¬ 26 ≤ i := by omega
      simp only [hopcode i hin, hnot, decide_false, Bool.and_false]
    · have hge : 26 ≤ i := by omega
      simp only [BitVec.getLsbD_of_ge e i hge, hge, decide_true, Bool.and_true, Bool.and_false,
        Bool.or_false]
  have hoffset : ((0x14000000 : BitVec 32) ||| e.setWidth 32).extractLsb' 0 26 = e := by
    apply BitVec.eq_of_getLsbD_eq
    intro i hi
    rw [BitVec.getLsbD_extractLsb', decide_eq_true hi, Bool.true_and, Nat.zero_add,
      BitVec.getLsbD_or, hopcode i hi, BitVec.getLsbD_setWidth, decide_eq_true (by omega),
      Bool.false_or, Bool.true_and]
  unfold decode
  rw [if_pos hclass, imm26, hoffset]

/-- The difference of two addresses that `B` can bridge, from its lower 28 bits. -/
theorem signExtend_near {target exit : ℕ} (htarget : target < 2 ^ 64) (hexit : exit < 2 ^ 64)
    (hlow : target ≤ exit + SH_INST_A64_B_RANGE_LOW)
    (hhigh : exit ≤ target + SH_INST_A64_B_RANGE_HIGH) :
    ((BitVec.ofNat 64 exit - BitVec.ofNat 64 target).setWidth 28).signExtend 64
      = BitVec.ofNat 64 exit - BitVec.ofNat 64 target := by
  unfold SH_INST_A64_B_RANGE_LOW at hlow
  unfold SH_INST_A64_B_RANGE_HIGH at hhigh
  apply BitVec.eq_of_toInt_eq
  rw [BitVec.toInt_signExtend_of_le (by omega), BitVec.toInt_setWidth, BitVec.toInt_eq_toNat_bmod,
    BitVec.toNat_sub, BitVec.toNat_ofNat, BitVec.toNat_ofNat, Nat.mod_eq_of_lt htarget,
    Nat.mod_eq_of_lt hexit]
  simp only [Int.bmod]
  split <;> split <;> omega

/-- The bits that go into the word. -/
theorem relative_jump_bits (d : BitVec 64) :
    ((d &&& 0x0FFFFFFF) >>> 2).setWidth 32 = (d.extractLsb' 2 26).setWidth 32 := by
  have hmask : ∀ i < 64, (0x0FFFFFFF : BitVec 64).getLsbD i = decide (i < 28) := by decide
  apply BitVec.eq_of_getLsbD_eq
  intro i hi
  rw [BitVec.getLsbD_setWidth, BitVec.getLsbD_setWidth, BitVec.getLsbD_ushiftRight,
    BitVec.getLsbD_and, BitVec.getLsbD_extractLsb', hmask (2 + i) (by omega),
    Bool.and_comm (d.getLsbD _)]
  congr 2
  simp only [decide_eq_decide]
  omega

/-- They determine a multiple of 4 that has its sign in bit 27. -/
theorem signExtend_shift_two {d : BitVec 64} (hnear : (d.setWidth 28).signExtend 64 = d)
    (hfour : d.toNat % 4 = 0) : (d.extractLsb' 2 26).signExtend 64 <<< 2 = d := by
  have hzero : ∀ i < 2, d.getLsbD i = false := by
    intro i hi
    rw [BitVec.getLsbD, Nat.testBit_eq_decide_div_mod_eq, decide_eq_false_iff_not]
    obtain rfl | rfl : i = 0 ∨ i = 1 := by omega
    all_goals omega
  apply BitVec.eq_of_getLsbD_eq
  intro i hi
  rw [BitVec.getLsbD_shiftLeft, BitVec.getLsbD_signExtend, BitVec.getLsbD_extractLsb',
    BitVec.msb_eq_getLsbD_last, BitVec.getLsbD_extractLsb']
  by_cases hin : i < 2
  · simp only [hin, hi, decide_true, Bool.not_true, Bool.and_false, Bool.false_and, hzero i hin]
  · have hi' : i - 2 < 64 := by omega
    by_cases hmiddle : i - 2 < 26
    · simp only [hi, hin, hi', hmiddle, decide_true, decide_false, Bool.not_false, Bool.true_and,
        if_true, show 2 + (i - 2) = i by omega]
    · have hsign := congrArg (fun d => BitVec.getLsbD d i) hnear
      simp only [BitVec.getLsbD_signExtend, BitVec.msb_eq_getLsbD_last, BitVec.getLsbD_setWidth,
        hi, show ¬ i < 28 by omega, decide_true, Bool.true_and, if_false] at hsign
      simp only [hi, hin, hi', hmiddle, decide_true, decide_false, Bool.not_false, Bool.true_and,
        if_false]
      exact hsign

/-- `B` reaches the exit. -/
theorem decode_relative_jump {target exit : ℕ} (htarget : target < 2 ^ 64)
    (hexit : exit < 2 ^ 64) (hlow : target ≤ exit + SH_INST_A64_B_RANGE_LOW)
    (hhigh : exit ≤ target + SH_INST_A64_B_RANGE_HIGH) (htarget4 : 4 ∣ target)
    (hexit4 : 4 ∣ exit) :
    ∃ w offset, sh_a64_relative_jump (BitVec.ofNat 64 exit) (BitVec.ofNat 64 target) = [w] ∧
      decode w = .b offset ∧ BitVec.ofNat 64 target + offset = BitVec.ofNat 64 exit := by
  have hnear := signExtend_near htarget hexit hlow hhigh
  have hfour : (BitVec.ofNat 64 exit - BitVec.ofNat 64 target).toNat % 4 = 0 := by
    rw [BitVec.toNat_sub, BitVec.toNat_ofNat, BitVec.toNat_ofNat, Nat.mod_eq_of_lt htarget,
      Nat.mod_eq_of_lt hexit]
    omega
  refine ⟨_, BitVec.ofNat 64 exit - BitVec.ofNat 64 target, rfl, ?_, ?_⟩
  · rw [relative_jump_bits, decode_b, signExtend_shift_two hnear hfour]
  · bv_omega

/-- A head that is a jump to an exit, and the exit, lead to the new function. -/
theorem jump_with_exit {c : Core} {target exit : ℕ} {new_addr : Address} (htarget : target < 2 ^ 64)
    (hexit : exit < 2 ^ 64) (hlow : target ≤ exit + SH_INST_A64_B_RANGE_LOW)
    (hhigh : exit ≤ target + SH_INST_A64_B_RANGE_HIGH) (htarget4 : 4 ∣ target)
    (hexit4 : 4 ∣ exit)
    (hhead : CodeAt c.mem (BitVec.ofNat 64 target)
      (sh_a64_relative_jump (BitVec.ofNat 64 exit) (BitVec.ofNat 64 target)))
    (hcode : CodeAt c.mem (BitVec.ofNat 64 exit) (sh_a64_absolute_jump_with_br new_addr)) :
    Reaches other ⟨c, BitVec.ofNat 64 target⟩ ⟨c.setX 17 new_addr, new_addr⟩ := by
  obtain ⟨w, offset, hw, hdecode, htarget'⟩ :=
    decode_relative_jump htarget hexit hlow hhigh htarget4 hexit4
  rw [hw] at hhead
  apply Reaches.head
  rw [step_of_word other hhead.1 hdecode]
  simp only [exec, Next.pc, htarget']
  exact absolute_jump other (.inl decode_br_x17) hcode

end

/-! ## What is stored -/

section

variable {m m' : Memory} {a b : Address} {ws us : List (BitVec 32)} {rinfo : RewriteInfo}

theorem load_eq_load_iff {n : ℕ} :
    load m a n = load m' a n ↔ ∀ i < n, m (a + BitVec.ofNat 64 i) = m' (a + BitVec.ofNat 64 i) := by
  unfold load
  rw [List.map_inj_left]
  simp only [List.mem_range]

/-- The code is there if its bytes are. -/
theorem codeAt_of_load (hsize : size ws ≤ 2 ^ 64) (h : load m a (size ws) = bytes ws) :
    CodeAt m a ws := by
  have hcopy : load (copy m a (bytes ws)) a (size ws) = bytes ws := by
    have hload := load_copy m a (show (bytes ws).length ≤ 2 ^ 64 by rw [length_bytes]; exact hsize)
    rwa [length_bytes] at hload
  rw [← hcopy] at h
  refine @codeAt_copy m m ws a hsize fun x hx => ?_
  obtain ⟨i, hi, rfl⟩ := hx.offset
  exact load_eq_load_iff.mp h i hi

/-- Two lists, one behind the other. -/
theorem copy_append {bs cs : List (BitVec 8)} (hlength : bs.length + cs.length ≤ 2 ^ 64) :
    copy (copy m a bs) (a + BitVec.ofNat 64 bs.length) cs = copy m a (bs ++ cs) := by
  funext x
  by_cases hx : Inside (a + BitVec.ofNat 64 bs.length) cs.length x
  · obtain ⟨i, hi, rfl⟩ := hx.offset
    have hoffset : a + BitVec.ofNat 64 bs.length + BitVec.ofNat 64 i
        = a + BitVec.ofNat 64 (bs.length + i) := by
      rw [BitVec.ofNat_add, BitVec.add_assoc]
    rw [copy_offset _ _ hi (by omega), hoffset,
      copy_offset _ _ (by rw [List.length_append]; omega) (by rw [List.length_append]; omega),
      List.getElem_append_right (by omega)]
    congr 1
    omega
  · rw [copy_of_not_inside hx]
    by_cases hx' : Inside a bs.length x
    · obtain ⟨i, hi, rfl⟩ := hx'.offset
      rw [copy_offset _ _ hi (by omega),
        copy_offset _ _ (by rw [List.length_append]; omega) (by rw [List.length_append]; omega),
        List.getElem_append_left hi]
    · have hout : ¬ Inside a (bs ++ cs).length x := by
        intro hin
        obtain ⟨i, hi, rfl⟩ := hin.offset
        rw [List.length_append] at hi
        by_cases hlt : i < bs.length
        · exact hx' (inside_offset a hlt (by omega))
        · apply hx
          have hoffset : a + BitVec.ofNat 64 i
              = a + BitVec.ofNat 64 bs.length + BitVec.ofNat 64 (i - bs.length) := by
            rw [BitVec.add_assoc, ← BitVec.ofNat_add, Nat.add_sub_cancel' (by omega)]
          rw [hoffset]
          exact inside_offset _ (by omega) (by omega)
      rw [copy_of_not_inside hx', copy_of_not_inside hout]

theorem bytes_append (ws us : List (BitVec 32)) : bytes (ws ++ us) = bytes ws ++ bytes us :=
  List.flatMap_append ..

/-- The code that is stored word by word. -/
theorem copy_bytes_append (hsize : size ws + size us ≤ 2 ^ 64) :
    copy (copy m a (bytes ws)) (a + BitVec.ofNat 64 (size ws)) (bytes us)
      = copy m a (bytes (ws ++ us)) := by
  have happend := @copy_append m a (bytes ws) (bytes us)
    (by rw [length_bytes, length_bytes]; exact hsize)
  rw [length_bytes] at happend
  rw [happend, bytes_append]

theorem copy_nil (m : Memory) (a : Address) : copy m a [] = m := rfl

theorem instsAt_succ (m : Memory) (a : Address) (n : ℕ) :
    instsAt m a (n + 1) = word m a :: instsAt m (a + 4) n := by
  have hnext : ∀ i, a + BitVec.ofNat 64 (4 * (i + 1)) = a + 4 + BitVec.ofNat 64 (4 * i) :=
    fun i => (add_four_mul a i).symm
  unfold instsAt
  rw [List.range_succ_eq_map, List.map_cons, List.map_map, Nat.mul_zero, BitVec.add_zero]
  simp only [Function.comp_def, Nat.succ_eq_add_one, hnext]

theorem size_instsAt (m : Memory) (a : Address) (n : ℕ) : size (instsAt m a n) = 4 * n := by
  unfold size instsAt
  rw [List.length_map, List.length_range]

theorem codeAt_instsAt (m : Memory) (a : Address) (n : ℕ) : CodeAt m a (instsAt m a n) := by
  induction n generalizing a with
  | zero => trivial
  | succ n ih =>
      rw [instsAt_succ]
      exact ⟨rfl, ih (a + 4)⟩

/-- What the loop over the window can do: the rewrites stand behind each other. -/
inductive Rewritten (m : Memory) (rinfo : RewriteInfo) (pc : Address) (n : ℕ)
    (ws : List (BitVec 32)) : Memory × Except InstErrno ℕ → Prop
  | ok {us : List (BitVec 32)} (rewrites : rewrites rinfo pc (instsAt m pc n) = some us) :
      Rewritten m rinfo pc n ws
        (copy m rinfo.buf (bytes (ws ++ us)), .ok (size (ws ++ us)))
  | error (us : List (BitVec 32)) (e : InstErrno) (short : size (ws ++ us) ≤ 112) :
      Rewritten m rinfo pc n ws (copy m rinfo.buf (bytes (ws ++ us)), .error e)

theorem rewrite_loop_cases (crash : Option ℕ) {pc : Address} {n : ℕ}
    (hroom : size ws + 28 * n ≤ 112)
    (happart : ∀ x, Inside pc (4 * n) x → ¬ Inside rinfo.buf 128 x) :
    Rewritten m rinfo pc n ws
      (rewrite_loop rinfo crash (copy m rinfo.buf (bytes ws)) pc (size ws) n) := by
  induction n generalizing pc ws with
  | zero =>
      have hnil : ws ++ [] = ws := List.append_nil ws
      have hdone : Rewritten m rinfo pc 0 ws
          (copy m rinfo.buf (bytes (ws ++ [])), .ok (size (ws ++ []))) := .ok rfl
      rwa [hnil] at hdone
  | succ n ih =>
      have herror : ∀ e, Rewritten m rinfo pc (n + 1) ws
          (copy m rinfo.buf (bytes ws), .error e) := by
        intro e
        have hstop : Rewritten m rinfo pc (n + 1) ws
            (copy m rinfo.buf (bytes (ws ++ [])), .error e) :=
          .error [] e (by rw [List.append_nil]; omega)
        rwa [List.append_nil] at hstop
      have hword : word (copy m rinfo.buf (bytes ws)) pc = word m pc := by
        unfold word
        congr 1
        refine read_congr_inside (by omega) fun x hx => copy_of_not_inside fun hin => ?_
        rw [length_bytes] at hin
        exact happart x (Nat.lt_of_lt_of_le hx (by omega)) (Nat.lt_of_lt_of_le hin (by omega))
      unfold rewrite_loop
      rw [hword]
      split
      · exact herror _
      · split
        · exact herror _
        · rename_i us hus
          have hlen := rewrite_inst_len_le (word m pc)
          have hsize : size us ≤ 28 := by rw [size_rewrite hus]; exact hlen
          rw [copy_bytes_append (by omega), ← size_append]
          have hrest := @ih (ws ++ us) (pc + 4) (by rw [size_append]; omega)
            fun x hx => happart x (hx.of_sub 4 (by omega) (by omega))
          generalize rewrite_loop rinfo crash (copy m rinfo.buf (bytes (ws ++ us))) (pc + 4)
            (size (ws ++ us)) n = out at hrest ⊢
          cases hrest with
          | ok hrewrites =>
              rename_i vs
              rw [List.append_assoc]
              refine .ok ?_
              rw [instsAt_succ, rewrites, hus, Option.bind_some, hrewrites, Option.map_some]
          | error vs e hshort =>
              rw [List.append_assoc] at hshort ⊢
              exact .error (us ++ vs) e hshort

/-- What `sh_inst_hook_rewrite` can do: it stores the code of a window to `enter`, or a part
of it. -/
inductive HookRewritten (m : Memory) (target_addr enter_addr backup_len : ℕ) :
    Memory × Except InstErrno Unit → Prop
  | ok (w : Window) (target : w.target = BitVec.ofNat 64 target_addr)
      (enter : w.enter = BitVec.ofNat 64 enter_addr)
      (insts : w.insts = instsAt m (BitVec.ofNat 64 target_addr) (backup_len / 4)) :
      HookRewritten m target_addr enter_addr backup_len
        (copy m (BitVec.ofNat 64 enter_addr) (bytes w.code), .ok ())
  | error (ws : List (BitVec 32)) (e : InstErrno) (short : size ws ≤ 128) :
      HookRewritten m target_addr enter_addr backup_len
        (copy m (BitVec.ofNat 64 enter_addr) (bytes ws), .error e)

theorem hook_rewrite_cases {target_addr enter_addr backup_len : ℕ} (crash : Option ℕ)
    (hfour : 4 ∣ backup_len) (hshort : backup_len ≤ 16)
    (hbound : target_addr + backup_len < 2 ^ 64)
    (happart : ∀ x, Inside (BitVec.ofNat 64 target_addr) backup_len x →
      ¬ Inside (BitVec.ofNat 64 enter_addr) 128 x) :
    HookRewritten m target_addr enter_addr backup_len
      (sh_inst_hook_rewrite m target_addr enter_addr backup_len crash) := by
  have hfull : 4 * (backup_len / 4) = backup_len := Nat.mul_div_cancel' hfour
  unfold sh_inst_hook_rewrite
  simp only
  have hsize := size_instsAt m (BitVec.ofNat 64 target_addr) (backup_len / 4)
  generalize hinsts : instsAt m (BitVec.ofNat 64 target_addr) (backup_len / 4) = insts at hsize
  generalize hinfo : rewrite_info (BitVec.ofNat 64 target_addr) (BitVec.ofNat 64 enter_addr) insts
    = rinfo
  have hbuf : rinfo.buf = BitVec.ofNat 64 enter_addr := by rw [← hinfo]; rfl
  have hloop : Rewritten m rinfo (BitVec.ofNat 64 target_addr) (backup_len / 4) []
      (rewrite_loop rinfo crash m (BitVec.ofNat 64 target_addr) 0 (backup_len / 4)) :=
    rewrite_loop_cases crash (by rw [size_nil]; omega) (by rw [hfull, hbuf]; exact happart)
  generalize rewrite_loop rinfo crash m (BitVec.ofNat 64 target_addr) 0 (backup_len / 4) = out
    at hloop ⊢
  cases hloop with
  | ok hrewrites =>
      rename_i us
      have htoNat : (BitVec.ofNat 64 target_addr).toNat = target_addr := by
        rw [BitVec.toNat_ofNat, Nat.mod_eq_of_lt (by omega)]
      let w : Window := {
        target := BitVec.ofNat 64 target_addr
        enter := BitVec.ofNat 64 enter_addr
        insts := insts
        words := us
        short := by unfold size at hsize; omega
        fits := by rw [htoNat, hsize]; omega
        rewrites_eq := by rw [hinfo, ← hinsts]; exact hrewrites }
      have hcode : w.code = us ++ sh_a64_absolute_jump_with_ret
          (BitVec.ofNat 64 target_addr + BitVec.ofNat 64 backup_len) := by
        have hlength : 4 * insts.length = backup_len := by
          unfold size at hsize
          omega
        show us ++ sh_a64_absolute_jump_with_ret (BitVec.ofNat 64 target_addr
          + BitVec.ofNat 64 (4 * insts.length)) = _
        rw [hlength]
      have hle := w.size_code_le
      rw [hcode, size_append] at hle
      simp only [List.nil_append, hbuf]
      rw [copy_bytes_append (by omega), ← hcode]
      exact .ok w rfl rfl hinsts.symm
  | error us e hless =>
      rw [hbuf]
      exact .error us e (by rw [List.nil_append] at hless; omega)

/-- What overwriting the head of a function can do, if a store that faults stores nothing. -/
inductive Overwritten (m : Memory) (target_addr enter_addr : ℕ) (trampo : List (BitVec 32)) :
    Memory × Option InstErrno → Prop
  | ok (w : Window) (target : w.target = BitVec.ofNat 64 target_addr)
      (enter : w.enter = BitVec.ofNat 64 enter_addr)
      (insts : w.insts = instsAt m (BitVec.ofNat 64 target_addr) (size trampo / 4)) :
      Overwritten m target_addr enter_addr trampo
        (copy (copy m (BitVec.ofNat 64 enter_addr) (bytes w.code)) (BitVec.ofNat 64 target_addr)
          (bytes trampo), none)
  | error (ws : List (BitVec 32)) (e : InstErrno) (short : size ws ≤ 128) :
      Overwritten m target_addr enter_addr trampo
        (copy m (BitVec.ofNat 64 enter_addr) (bytes ws), some e)

/-- `sh_util_write_inst` stores the bytes, or reports an error. -/
theorem write_inst_cases {target_addr : ℕ} {inst : List (BitVec 8)} {answers : WriteAnswers}
    (hwhole : answers.Whole) :
    (answers.mprotect ∧ answers.crash = none ∧
      sh_util_write_inst m target_addr inst answers
        = (copy m (BitVec.ofNat 64 target_addr) inst, none)) ∨
    (¬ (answers.mprotect ∧ answers.crash = none) ∧
      ∃ e, sh_util_write_inst m target_addr inst answers = (m, some e) ∧
        (e = .MPROT ∨ e = .WRITE_CRASH)) := by
  unfold sh_util_write_inst
  split
  · rename_i hmprotect
    refine .inr ⟨fun h => ?_, _, rfl, .inl rfl⟩
    rw [h.1] at hmprotect
    cases hmprotect
  · rename_i hmprotect
    split
    · rename_i hnone
      exact .inl ⟨by simpa using hmprotect, hnone, rfl⟩
    · rename_i n hn
      obtain rfl := hwhole n hn
      have hcrash : ¬ (answers.mprotect ∧ answers.crash = none) := by
        rintro ⟨-, hnone⟩
        rw [hn] at hnone
        cases hnone
      split
      · exact .inr ⟨hcrash, _, rfl, .inr rfl⟩
      · rw [List.take_zero, copy_nil]
        exact .inr ⟨hcrash, _, rfl, .inr rfl⟩

theorem overwrite_head_cases {target_addr enter_addr : ℕ} {trampo : List (BitVec 32)}
    {answers : HeadAnswers} (hshort : size trampo ≤ 16)
    (hbound : target_addr + size trampo < 2 ^ 64)
    (happart : ∀ x, Inside (BitVec.ofNat 64 target_addr) (size trampo) x →
      ¬ Inside (BitVec.ofNat 64 enter_addr) 128 x)
    (hwhole : answers.write.Whole) :
    Overwritten m target_addr enter_addr trampo
      (overwrite_head m target_addr enter_addr trampo answers) := by
  unfold overwrite_head
  split
  · have hnothing : Overwritten m target_addr enter_addr trampo
        (copy m (BitVec.ofNat 64 enter_addr) (bytes []), some .MPROT) :=
      .error [] .MPROT (Nat.zero_le _)
    exact hnothing
  · have hrewrite : HookRewritten m target_addr enter_addr (size trampo)
        (sh_inst_hook_rewrite m target_addr enter_addr (size trampo) answers.crash) :=
      hook_rewrite_cases answers.crash (Nat.dvd_mul_right 4 _) hshort hbound happart
    generalize sh_inst_hook_rewrite m target_addr enter_addr (size trampo) answers.crash = out
      at hrewrite
    cases hrewrite with
    | ok w htarget henter hinsts =>
        simp only
        rcases write_inst_cases hwhole with ⟨-, -, hwrite⟩ | ⟨-, e, hwrite, -⟩
        · rw [hwrite]
          exact .ok w htarget henter hinsts
        · rw [hwrite]
          exact .error w.code e w.size_code_le
    | error ws e hless => exact .error ws e hless

end

end ShadowHook
