/-
# Rewritten instructions do what the originals do

`sh_a64_rewrite` writes a sequence of words for one instruction.  Running it leads from every
state to the state that `relocated` describes: the effect of the original instruction at its
own address, but for `X17`, the return address of a call and the 16 bytes below `SP`.
-/
import LiuHookWorld.A64Rewrite

namespace ShadowHook

open ByteMemory A64

/-! ## The words that are written -/

/-- `LDR X17, #8` -/
theorem decode_ldr_x17_8 : decode 0x58000051 = .ldrLit .x 17 8 := by decide

/-- `LDR X17, #16` -/
theorem decode_ldr_x17_16 : decode 0x58000091 = .ldrLit .x 17 16 := by decide

/-- `B #12` -/
theorem decode_b_12 : decode 0x14000003 = .b 12 := by decide

/-- `B #20` -/
theorem decode_b_20 : decode 0x14000005 = .b 20 := by decide

/-- `B #24` -/
theorem decode_b_24 : decode 0x14000006 = .b 24 := by decide

/-- `BR X17` -/
theorem decode_br_x17 : decode 0xD61F0220 = .br 17 := by decide

/-- `BLR X17` -/
theorem decode_blr_x17 : decode 0xD63F0220 = .blr 17 := by decide

/-- `RET X17` -/
theorem decode_ret_x17 : decode 0xD65F0220 = .ret 17 := by decide

/-- `STP X16, X17, [SP, #-16]` -/
theorem decode_stp_x16_x17 : decode 0xA93F47F0 = .stp 16 17 31 (-16) := by decide

/-- `LDR X17, [SP, #-8]` -/
theorem decode_ldr_x17_sp : decode 0xF85F83F1 = .ldrImm .x 17 31 (-8) := by decide

/-- `LDR Xd, #8` -/
theorem decode_ldr_rd_8 : ∀ rd : Reg,
    decode (0x58000040 ||| rd.setWidth 32) = .ldrLit .x rd 8 := by
  decide

/-- `LDR Xt, #12` -/
theorem decode_ldr_rt_12 : ∀ rt : Reg,
    decode (0x58000060 ||| rt.setWidth 32) = .ldrLit .x rt 12 := by
  decide

/-- `LDR Wt, [Xt]` -/
theorem decode_ldr_w_rt : ∀ rt : Reg,
    decode (0xB9400000 ||| rt.setWidth 32 ||| rt.setWidth 32 <<< 5) = .ldrImm .w rt rt 0 := by
  decide

/-- `LDR Xt, [Xt]` -/
theorem decode_ldr_x_rt : ∀ rt : Reg,
    decode (0xF9400000 ||| rt.setWidth 32 ||| rt.setWidth 32 <<< 5) = .ldrImm .x rt rt 0 := by
  decide

/-- `LDRSW Xt, [Xt]` -/
theorem decode_ldrsw_rt : ∀ rt : Reg,
    decode (0xB9800000 ||| rt.setWidth 32 ||| rt.setWidth 32 <<< 5) = .ldrImm .sw rt rt 0 := by
  decide

/-- `PRFM Rt, [X17]` -/
theorem decode_prfm_rt : ∀ rt : Reg,
    decode (0xF9800220 ||| rt.setWidth 32) = .ldrImm .prfm rt 17 0 := by
  decide

/-- `LDR St, [X17]` -/
theorem decode_ldr_s_rt : ∀ rt : Reg,
    decode (0xBD400220 ||| rt.setWidth 32) = .ldrImm .s rt 17 0 := by
  decide

/-- `LDR Dt, [X17]` -/
theorem decode_ldr_d_rt : ∀ rt : Reg,
    decode (0xFD400220 ||| rt.setWidth 32) = .ldrImm .d rt 17 0 := by
  decide

/-- `LDR Qt, [X17]` -/
theorem decode_ldr_q_rt : ∀ rt : Reg,
    decode (0x3DC00220 ||| rt.setWidth 32) = .ldrImm .q rt 17 0 := by
  decide

/-! ## The heads of conditional branches

Such a branch is kept, with another offset. -/

/-- The type depends on the bits 31 to 24 and 4. -/
theorem get_type_congr {w inst : BitVec 32} (h : w &&& 0xFF000010 = inst &&& 0xFF000010) :
    sh_a64_get_type w = sh_a64_get_type inst := by
  have hmask : ∀ m : BitVec 32, 0xFF000010 &&& m = m → w &&& m = inst &&& m := by
    intro m hm
    rw [← hm, ← BitVec.and_assoc, h, BitVec.and_assoc]
  unfold sh_a64_get_type
  rw [hmask 0xFC000000 (by decide), h, hmask 0x9F000000 (by decide),
    hmask 0xFF000000 (by decide), hmask 0x7F000000 (by decide)]

section

variable (inst : BitVec 32) {keep put : BitVec 32}

/-- The type of an instruction does not depend on its offset. -/
theorem get_type_head (hkeep : keep &&& 0xFF000010 = 0xFF000010)
    (hput : put &&& 0xFF000010 = 0#32) :
    sh_a64_get_type (inst &&& keep ||| put) = sh_a64_get_type inst := by
  apply get_type_congr
  rw [BitVec.and_or_distrib_right, BitVec.and_assoc, hkeep, hput, BitVec.or_zero]

/-- A field that is kept. -/
theorem extract_keep {i n : ℕ} (hkeep : keep.extractLsb' i n = BitVec.allOnes n)
    (hput : put.extractLsb' i n = 0#n) :
    (inst &&& keep ||| put).extractLsb' i n = inst.extractLsb' i n := by
  rw [BitVec.extractLsb'_or, BitVec.extractLsb'_and, hkeep, hput, BitVec.and_allOnes,
    BitVec.or_zero]

/-- A field that is replaced. -/
theorem extract_put {i n : ℕ} (hkeep : keep.extractLsb' i n = 0#n) :
    (inst &&& keep ||| put).extractLsb' i n = put.extractLsb' i n := by
  rw [BitVec.extractLsb'_or, BitVec.extractLsb'_and, hkeep, BitVec.and_zero, BitVec.zero_or]

end

/-- `CBZ` and `CBNZ` stay what they are with another offset. -/
theorem decode_head_19 (inst : BitVec 32) :
    decode (inst &&& 0xFF00001F ||| 0x40)
      = (sh_a64_get_type inst).instr (inst &&& 0xFF00001F ||| 0x40) := by
  rw [decode_eq_instr, get_type_head inst (by decide) (by decide)]

/-- `TBZ` and `TBNZ` stay what they are with another offset. -/
theorem decode_head_14 (inst : BitVec 32) :
    decode (inst &&& 0xFFF8001F ||| 0x40)
      = (sh_a64_get_type inst).instr (inst &&& 0xFFF8001F ||| 0x40) := by
  rw [decode_eq_instr, get_type_head inst (by decide) (by decide)]

theorem imm19_head (inst : BitVec 32) : imm19 (inst &&& 0xFF00001F ||| 0x40) = 8 := by
  unfold imm19
  rw [extract_put inst (by decide)]
  decide

theorem imm14_head (inst : BitVec 32) : imm14 (inst &&& 0xFFF8001F ||| 0x40) = 8 := by
  unfold imm14
  rw [extract_put inst (by decide)]
  decide

theorem rt_head_19 (inst : BitVec 32) : rt (inst &&& 0xFF00001F ||| 0x40) = rt inst :=
  extract_keep inst (by decide) (by decide)

theorem rt_head_14 (inst : BitVec 32) : rt (inst &&& 0xFFF8001F ||| 0x40) = rt inst :=
  extract_keep inst (by decide) (by decide)

theorem sf_head (inst : BitVec 32) :
    (inst &&& 0xFF00001F ||| 0x40).getLsbD 31 = inst.getLsbD 31 := by
  rw [BitVec.getLsbD_or, BitVec.getLsbD_and]
  have hkeep : (0xFF00001F : BitVec 32).getLsbD 31 = true := by decide
  have hput : (0x40 : BitVec 32).getLsbD 31 = false := by decide
  rw [hkeep, hput, Bool.and_true, Bool.or_false]

/-! ## What they should do -/

/-- The literal is loaded with the help of `X17`, which is saved below `SP` meanwhile. -/
def spills : Instr → Bool
  | .ldrLit .prfm _ _ => true
  | .ldrLit .s _ _ => true
  | .ldrLit .d _ _ => true
  | .ldrLit .q _ _ => true
  | _ => false

/-- `STP X16, X17, [SP, -0x10]` -/
def spill (c : Core) : Core :=
  (c.store (c.sp + -16) (c.readX 16)).store (c.sp + -16 + 8) (c.readX 17)

section

variable (other : Others)

/-- The instruction `i` at `pc` after it was rewritten: `back` is the address behind the
rewritten words.  A branch to an address that is known goes to the fixed one, through `X17`. -/
def relocated (rinfo : RewriteInfo) (back : Address) (i : Instr) (pc : Address) (c : Core) :
    State :=
  let result := exec other i pc c
  let core := if i.links then result.1.setX 30 back else result.1
  match result.2 with
  | .seq => ⟨if spills i then { core with mem := (spill c).mem } else core, back⟩
  | .label a => ⟨core.setX 17 (sh_a64_fix_addr a rinfo), sh_a64_fix_addr a rinfo⟩
  | .reg a => ⟨core, a⟩

end

/-- The 16 bytes below `SP` are neither code nor part of the literal. -/
def StackApart (c : Core) (code : Address) (ws : List (BitVec 32)) (i : Instr)
    (pc : Address) : Prop :=
  ∀ access rt offset, i = .ldrLit access rt offset → spills i →
    Apart (c.sp + -16) 16 code (size ws) ∧ Apart (c.sp + -16) 16 (pc + offset) access.bytes

/-! ## Running the words -/

/-- An address that stands in the code is what is loaded. -/
theorem literal_read {m : Memory} {a addr : Address} (h : CodeAt m a (literal addr)) :
    BitVec.ofNat 64 (read m a 8) = addr := by
  have hlow : (addr &&& 0xFFFFFFFF).setWidth 32 = addr.setWidth 32 := by
    have hones : (0xFFFFFFFF : BitVec 64).setWidth 32 = BitVec.allOnes 32 := by decide
    rw [BitVec.setWidth_and, hones, BitVec.and_allOnes]
  exact read_literal (h.1.trans hlow) h.2.1

theorem behind_add (q : Address) {i j k : BitVec 64} (h : i + j = k) : q + i + j = q + k := by
  rw [BitVec.add_assoc, h]

/-! ## Literals -/

/-- What `sh_a64_rewrite_ldr` writes for SIMD registers. -/
def spilledLoad (load : BitVec 32) (addr : Address) : List (BitVec 32) :=
  [0xA93F47F0, 0x58000091, load, 0xF85F83F1, 0x14000003] ++ literal addr

theorem size_spilledLoad (load : BitVec 32) (addr : Address) :
    size (spilledLoad load addr) = 28 := rfl

/-- The words that `sh_a64_rewrite_ldr` writes for a literal at `addr`. -/
def ldrWords (type : A64Type) (rt : Reg) (addr : Address) : List (BitVec 32) :=
  match type with
  | .LDR_LIT_32 => [0x58000060 ||| rt.setWidth 32,
      0xB9400000 ||| rt.setWidth 32 ||| rt.setWidth 32 <<< 5, 0x14000003] ++ literal addr
  | .LDR_LIT_64 => [0x58000060 ||| rt.setWidth 32,
      0xF9400000 ||| rt.setWidth 32 ||| rt.setWidth 32 <<< 5, 0x14000003] ++ literal addr
  | .LDRSW_LIT => [0x58000060 ||| rt.setWidth 32,
      0xB9800000 ||| rt.setWidth 32 ||| rt.setWidth 32 <<< 5, 0x14000003] ++ literal addr
  | .PRFM_LIT => spilledLoad (0xF9800220 ||| rt.setWidth 32) addr
  | .LDR_SIMD_LIT_32 => spilledLoad (0xBD400220 ||| rt.setWidth 32) addr
  | .LDR_SIMD_LIT_64 => spilledLoad (0xFD400220 ||| rt.setWidth 32) addr
  | _ => spilledLoad (0x3DC00220 ||| rt.setWidth 32) addr

/-- The rewrite of a literal load, with its offset and its register decoded. -/
theorem rewrite_ldr_eq (inst : BitVec 32) (pc : Address) (type : A64Type) (rinfo : RewriteInfo) :
    sh_a64_rewrite_ldr inst pc type rinfo =
      if sh_a64_is_addr_need_fix (pc + imm19 inst) rinfo ∧ type ≠ .PRFM_LIT then none
      else some (ldrWords type (rt inst) (sh_a64_fix_addr (pc + imm19 inst) rinfo)) := by
  have hfix : (if sh_a64_is_addr_need_fix (pc + imm19 inst) rinfo then
      sh_a64_fix_addr (pc + imm19 inst) rinfo else pc + imm19 inst)
        = sh_a64_fix_addr (pc + imm19 inst) rinfo := by
    unfold sh_a64_fix_addr
    split <;> rfl
  unfold sh_a64_rewrite_ldr
  simp only [get_bits_rt, offset_imm19, hfix]
  cases type <;> rfl

/-- Where a rewrite does not have to fix an address, it keeps it. -/
theorem fix_addr_of_not {addr : Address} {rinfo : RewriteInfo}
    (h : ¬ sh_a64_is_addr_need_fix addr rinfo) : sh_a64_fix_addr addr rinfo = addr := by
  unfold sh_a64_fix_addr
  rw [if_neg h]

section

variable {other : Others} {c : Core} {q addr : Address}
  {w : BitVec 32} {ws : List (BitVec 32)}

variable (other) in
/-- A literal load of an address. -/
theorem step_ldr_lit {rt : Reg} {offset : BitVec 64} (hword : word c.mem q = w)
    (hdecode : decode w = .ldrLit .x rt offset)
    (hread : BitVec.ofNat 64 (read c.mem (q + offset) 8) = addr) :
    step other ⟨c, q⟩ = ⟨c.setX rt addr, q + 4⟩ := by
  rw [step_of_word _ hword hdecode]
  simp only [exec, Core.access, hread, Next.pc]

variable (other) in
/-- A branch changes nothing else. -/
theorem step_b {offset : BitVec 64} (hword : word c.mem q = w)
    (hdecode : decode w = .b offset) : step other ⟨c, q⟩ = ⟨c, q + offset⟩ := by
  rw [step_of_word _ hword hdecode]
  rfl

variable (other) in
/-- A call through `X17`. -/
theorem step_blr_x17 (hword : word c.mem q = 0xD63F0220) (hx17 : c.readX 17 = addr) :
    step other ⟨c, q⟩ = ⟨c.setX 30 (q + 4), addr⟩ := by
  rw [step_of_word _ hword decode_blr_x17]
  simp only [exec, hx17, Next.pc]

variable (other) in
/-- A jump through a register with an address that was loaded into `X17`. -/
theorem step_jump_x17 (hword : word c.mem q = w)
    (hdecode : decode w = .br 17 ∨ decode w = .ret 17) (hx17 : c.readX 17 = addr) :
    step other ⟨c, q⟩ = ⟨c, addr⟩ := by
  rcases hdecode with h | h
  · rw [step_of_word _ hword h]
    simp only [exec, hx17, Next.pc]
  · rw [step_of_word _ hword h]
    simp only [exec, hx17, Next.pc]

variable (other) in
/-- The jump to an absolute address loses `X17`. -/
theorem absolute_jump (hdecode : decode w = .br 17 ∨ decode w = .ret 17)
    (h : CodeAt c.mem q ([0x58000051, w] ++ literal addr)) :
    Reaches other ⟨c, q⟩ ⟨c.setX 17 addr, addr⟩ := by
  obtain ⟨hcode, hliteral⟩ := codeAt_append.mp h
  have hload := step_ldr_lit other hcode.1 decode_ldr_x17_8 (literal_read hliteral)
  have hword : word (c.setX 17 addr).mem (q + 4) = w := by
    rw [Core.setX_mem]
    exact hcode.2.1
  have hjump := step_jump_x17 other hword hdecode (c.readX_setX (by decide) addr)
  apply Reaches.head
  rw [hload]
  apply Reaches.head
  rw [hjump]
  exact Reaches.refl _

/-- A load of a literal that stands behind the next instruction, which jumps over it. -/
theorem load_and_skip {rt : Reg} (hdecode : decode w = .ldrLit .x rt 8)
    (h : CodeAt c.mem q ([w, 0x14000003] ++ literal addr)) :
    Reaches other ⟨c, q⟩ ⟨c.setX rt addr, q + 16⟩ := by
  obtain ⟨hcode, hliteral⟩ := codeAt_append.mp h
  have hload := step_ldr_lit other hcode.1 hdecode (literal_read hliteral)
  have hword : word (c.setX rt addr).mem (q + 4) = 0x14000003 := by
    rw [Core.setX_mem]
    exact hcode.2.1
  have hskip := step_b other hword decode_b_12
  apply Reaches.head
  rw [hload]
  apply Reaches.head
  rw [hskip, behind_add q (show (4 : BitVec 64) + 12 = 16 by decide)]
  exact Reaches.refl _

variable (other) in
/-- The words that `sh_a64_rewrite_b` writes for every branch. -/
theorem far_branch
    (h : CodeAt c.mem q ([0x58000051, 0x14000003] ++ literal addr ++ [0xD61F0220])) :
    Reaches other ⟨c, q⟩ ⟨c.setX 17 addr, addr⟩ := by
  obtain ⟨hcode, hbr⟩ := codeAt_append.mp h
  have hword : word (c.setX 17 addr).mem (q + 16) = 0xD61F0220 := by
    rw [Core.setX_mem]
    exact hbr.1
  have hjump := step_jump_x17 other hword (.inl decode_br_x17)
    (c.readX_setX (by decide) addr)
  apply (load_and_skip decode_ldr_x17_8 hcode).trans
  apply Reaches.head
  rw [hjump]
  exact Reaches.refl _

variable (other) in
/-- The call of an absolute address returns behind the rewrite. -/
theorem far_call
    (h : CodeAt c.mem q ([0x58000051, 0x14000003] ++ literal addr ++ [0xD63F0220])) :
    Reaches other ⟨c, q⟩ ⟨(c.setX 17 addr).setX 30 (q + 20), addr⟩ := by
  obtain ⟨hcode, hblr⟩ := codeAt_append.mp h
  have hword : word (c.setX 17 addr).mem (q + 16) = 0xD63F0220 := by
    rw [Core.setX_mem]
    exact hblr.1
  have hcall := step_blr_x17 other hword (c.readX_setX (by decide) addr)
  apply (load_and_skip decode_ldr_x17_8 hcode).trans
  apply Reaches.head
  rw [hcall, behind_add q (show (16 : BitVec 64) + 4 = 20 by decide)]
  exact Reaches.refl _

/-- A conditional branch over the instruction behind it, which is a branch itself. -/
theorem conditional {i : Instr} {skip : BitVec 32} {offset : BitVec 64} {taken : Prop}
    [Decidable taken] {t : State} (hword : word c.mem q = w) (hdecode : decode w = i)
    (hexec : exec other i q c = (c, if taken then .label (q + 8) else .seq))
    (hskip : word c.mem (q + 4) = skip) (hskip' : decode skip = .b offset)
    (htaken : Reaches other ⟨c, q + 8⟩ t) :
    Reaches other ⟨c, q⟩ (if taken then t else ⟨c, q + 4 + offset⟩) := by
  have hstep := step_of_word other hword hdecode
  rw [hexec] at hstep
  apply Reaches.head
  rw [hstep]
  by_cases h : taken
  · rw [if_pos h, if_pos h]
    exact htaken
  · rw [if_neg h, if_neg h]
    apply Reaches.head
    have hbehind := step_b other hskip hskip'
    rw [show Next.seq.pc q = q + 4 from rfl, hbehind]
    exact Reaches.refl _

/-! ## Literals in general registers -/

/-- The register that a literal is loaded into serves for its address, too. -/
theorem access_through {rt : Reg} {access : Access}
    (hx : access = .w ∨ access = .x ∨ access = .sw) :
    (c.setX rt addr).access rt ((c.setX rt addr).x rt + 0) access = c.access rt addr access := by
  by_cases hrt : rt = 31
  · subst hrt
    rw [Core.setX_zr]
    rcases hx with rfl | rfl | rfl
    · simp only [Core.access, Core.setX_zr]
    · simp only [Core.access, Core.setX_zr]
    · simp only [Core.access, Core.setX_zr]
  · rw [c.x_setX hrt, show addr + 0 = addr from BitVec.add_zero addr]
    rcases hx with rfl | rfl | rfl
    · simp only [Core.access, Core.setX_mem, Core.setX_setX]
    · simp only [Core.access, Core.setX_mem, Core.setX_setX]
    · simp only [Core.access, Core.setX_mem, Core.setX_setX]

/-- A load of an address, and one through it, into the same register. -/
theorem load_through {rt : Reg} {access : Access} {load : BitVec 32}
    (hx : access = .w ∨ access = .x ∨ access = .sw)
    (hdecode : decode w = .ldrLit .x rt 12) (hload : decode load = .ldrImm access rt rt 0)
    (h : CodeAt c.mem q ([w, load, 0x14000003] ++ literal addr)) :
    Reaches other ⟨c, q⟩ ⟨c.access rt addr access, q + 20⟩ := by
  obtain ⟨hcode, hliteral⟩ := codeAt_append.mp h
  have haddress := step_ldr_lit other hcode.1 hdecode (literal_read hliteral)
  have hword : word (c.setX rt addr).mem (q + 4) = load := by
    rw [Core.setX_mem]
    exact hcode.2.1
  have haccess := step_of_word other hword hload
  simp only [exec, access_through hx, Next.pc,
    behind_add q (show (4 : BitVec 64) + 4 = 8 by decide)]
    at haccess
  have hmem : (c.access rt addr access).mem = c.mem := by
    rcases hx with rfl | rfl | rfl <;> exact Core.setX_mem _ _ _
  have hword' : word (c.access rt addr access).mem (q + 8) = 0x14000003 := by
    rw [hmem, ← behind_add q (show (4 : BitVec 64) + 4 = 8 by decide)]
    exact hcode.2.2.1
  have hskip := step_b other hword' decode_b_12
  apply Reaches.head
  rw [haddress]
  apply Reaches.head
  rw [haccess]
  apply Reaches.head
  rw [hskip, behind_add q (show (8 : BitVec 64) + 12 = 20 by decide)]
  exact Reaches.refl _

/-! ## Literals in SIMD registers -/

/-- Only the 16 bytes below the stack pointer are written. -/
theorem spill_of_not_inside {x : Address} (h : ¬ Inside (c.sp + -16) 16 x) :
    (spill c).mem x = c.mem x := by
  have hlow : ¬ Inside (c.sp + -16) 8 x := fun hx => h (by unfold Inside at hx ⊢; omega)
  have hhigh : ¬ Inside (c.sp + -16 + 8) 8 x := fun hx => h (hx.of_sub 8 (by omega) (by omega))
  unfold spill
  rw [Core.store_mem, Core.store_mem, write_of_not_inside hhigh, write_of_not_inside hlow]

/-- What is apart from the stack is not changed by the spill. -/
theorem read_spill {a : Address} {n : ℕ} (h : Apart (c.sp + -16) 16 a n) (hn : n ≤ 2 ^ 64) :
    read (spill c).mem a n = read c.mem a n :=
  read_congr_inside hn fun x hx => spill_of_not_inside fun hstack => h x hstack hx

/-- Code that is not on the stack stays. -/
theorem codeAt_spill (h : Apart (c.sp + -16) 16 q (size ws)) (hsize : size ws ≤ 2 ^ 64)
    (hcode : CodeAt c.mem q ws) : CodeAt (spill c).mem q ws :=
  hcode.congr hsize fun x hx => (spill_of_not_inside fun hstack => h x hstack hx).symm

/-- The saved `X17` is read back. -/
theorem read_x17_spill : BitVec.ofNat 64 (read (spill c).mem (c.sp + -8) 8) = c.x 17 := by
  have haddress : c.sp + -8 = c.sp + -16 + 8 := (behind_add c.sp (by decide)).symm
  have hsaved : c.readX 17 = c.x 17 := if_neg (by decide)
  have hlt := (c.x 17).isLt
  unfold spill
  rw [Core.store_mem, haddress, read_write_self _ _ _ (by omega), hsaved,
    Nat.mod_eq_of_lt (by omega), BitVec.ofNat_toNat, BitVec.setWidth_eq]

theorem spill_eq (c : Core) : spill c = { c with mem := (spill c).mem } := by
  unfold spill Core.store
  rfl

/-- The load that goes through `X17` changes, besides the stack, what the original one does. -/
theorem access_x17 (rt : Reg) {access : Access}
    (hv : access = .prfm ∨ access = .s ∨ access = .d ∨ access = .q)
    (hapart : Apart (c.sp + -16) 16 addr access.bytes) :
    ((spill c).setX 17 addr).access rt (((spill c).setX 17 addr).x 17 + 0) access
      = ({ c.access rt addr access with mem := (spill c).mem } : Core).setX 17 addr := by
  have hbytes := Access.bytes_le access
  have hread := read_spill hapart (by omega)
  have h17 : (17 : Reg) ≠ 31 := by decide
  rw [Core.x_setX _ h17, show addr + 0 = addr from BitVec.add_zero addr]
  generalize hm : (spill c).mem = m at hread ⊢
  have hspill : spill c = { c with mem := m } := by
    rw [spill_eq, hm]
  unfold Core.setX
  rw [if_neg h17, if_neg h17, hspill]
  rcases hv with rfl | rfl | rfl | rfl
  · rfl
  · simp only [Access.bytes] at hread
    simp only [Core.access, hread, Core.setV]
  · simp only [Access.bytes] at hread
    simp only [Core.access, hread, Core.setV]
  · simp only [Access.bytes] at hread
    simp only [Core.access, hread, Core.setV]

variable (other) in
theorem step_spill (h : word c.mem q = 0xA93F47F0) :
    step other ⟨c, q⟩ = ⟨spill c, q + 4⟩ := by
  have hexec : exec other (.stp 16 17 31 (-16)) q c = (spill c, .seq) := by
    unfold spill Core.sp
    rfl
  rw [step_of_word _ h decode_stp_x16_x17, hexec]
  rfl

/-- A register that is given its own value back. -/
theorem setX_self {c d : Core} {r : Reg} (h : d.x = c.x) : d.setX r (c.x r) = d := by
  unfold Core.setX
  split
  · rfl
  · rw [← h, Function.update_eq_self]

variable (other) in
/-- A load through `X17`, which comes back from the stack. -/
theorem load_spilled {rt : Reg} {access : Access} {load : BitVec 32}
    (hv : access = .prfm ∨ access = .s ∨ access = .d ∨ access = .q)
    (hload : decode load = .ldrImm access rt 17 0)
    (hcode : Apart (c.sp + -16) 16 q (size (spilledLoad load addr)))
    (hliteral : Apart (c.sp + -16) 16 addr access.bytes)
    (h : CodeAt c.mem q (spilledLoad load addr)) :
    Reaches other ⟨c, q⟩
      ⟨{ c.access rt addr access with mem := (spill c).mem }, q + 28⟩ := by
  have hsize : size (spilledLoad load addr) ≤ 2 ^ 64 := by
    rw [size_spilledLoad]
    omega
  have hsave := step_spill other h.1
  -- from here on the code is read from the memory with the spilled registers
  obtain ⟨hwords, haddr⟩ := codeAt_append.mp (codeAt_spill hcode hsize h)
  have hx17 := read_x17_spill (c := c)
  have hthrough := access_x17 rt hv hliteral
  have hx : (c.access rt addr access).x = c.x := by
    rcases hv with rfl | rfl | rfl | rfl <;> rfl
  -- the memory with the spilled registers does not change any more
  have hrest : ∀ m : Memory, (spill c).mem = m →
      Reaches other ⟨spill c, q + 4⟩ ⟨{ c.access rt addr access with mem := m }, q + 28⟩ := by
    intro m hm
    rw [hm] at hwords haddr hx17 hthrough
    have haddress : step other ⟨spill c, q + 4⟩ = ⟨(spill c).setX 17 addr, q + 4 + 4⟩ := by
      apply step_ldr_lit _ _ decode_ldr_x17_16
      · rw [hm, behind_add q (show (4 : BitVec 64) + 16 = 20 by decide)]
        exact literal_read haddr
      · rw [hm]
        exact hwords.2.1
    have hload' : word ((spill c).setX 17 addr).mem (q + 4 + 4) = load := by
      rw [Core.setX_mem, hm]
      exact hwords.2.2.1
    have haccess := step_of_word other hload' hload
    simp only [exec, hthrough, Next.pc] at haccess
    generalize hd : ({ c.access rt addr access with mem := m } : Core) = d at haccess ⊢
    have hdm : d.mem = m := by rw [← hd]
    have hdx : d.x = c.x := by rw [← hd, ← hx]
    have hrestore' : word (d.setX 17 addr).mem (q + 4 + 4 + 4) = 0xF85F83F1 := by
      rw [Core.setX_mem, hdm]
      exact hwords.2.2.2.1
    have hrestored : (d.setX 17 addr).access 17 ((d.setX 17 addr).x 31 + -8) .x = d := by
      have hsp : (d.setX 17 addr).x 31 = c.sp := (d.setX_sp 17 addr).trans (congrFun hdx 31)
      rw [hsp, Core.access, Core.setX_mem, hdm, hx17, Core.setX_setX]
      exact setX_self hdx
    have hrestore := step_of_word other hrestore' decode_ldr_x17_sp
    simp only [exec, hrestored, Next.pc] at hrestore
    have hskip' : word d.mem (q + 4 + 4 + 4 + 4) = 0x14000003 := by
      rw [hdm]
      exact hwords.2.2.2.2.1
    have hskip := step_b other hskip' decode_b_12
    have hend : q + 4 + 4 + 4 + 4 + 12 = q + 28 := by bv_omega
    rw [hend] at hskip
    exact .head (haddress ▸ .head (haccess ▸ .head (hrestore ▸ .head (hskip ▸ .refl _))))
  apply Reaches.head
  rw [hsave]
  exact hrest _ rfl

variable {rinfo : RewriteInfo} {inst : BitVec 32} {pc : Address}

/-! ## Each type -/

/-- `B`: the jump is to the same place. -/
theorem relocates_b (htype : sh_a64_get_type inst = .B)
    (hcode : CodeAt c.mem q (sh_a64_rewrite_b inst pc .B rinfo)) :
    Reaches other ⟨c, q⟩ (relocated other rinfo (q + 20) (decode inst) pc c) := by
  rw [decode_eq_instr, htype]
  have h := far_branch other hcode
  rw [show SH_UTIL_SIGN_EXTEND_64 _ 28 = _ from offset_imm26 inst] at h
  exact h

/-- `BL`: the call is to the same place. -/
theorem relocates_bl (htype : sh_a64_get_type inst = .BL)
    (hcode : CodeAt c.mem q (sh_a64_rewrite_b inst pc .BL rinfo)) :
    Reaches other ⟨c, q⟩ (relocated other rinfo (q + 20) (decode inst) pc c) := by
  rw [decode_eq_instr, htype]
  have h := far_call other hcode
  rw [show SH_UTIL_SIGN_EXTEND_64 _ 28 = _ from offset_imm26 inst] at h
  simp only [A64Type.instr, relocated, exec, Instr.links, if_true, Core.setX_setX]
  rw [Core.setX_comm _ (by decide)]
  exact h

/-- A conditional branch whose target is reached through `X17`. -/
theorem relocates_conditional {i head : Instr} {skip : BitVec 32} {taken : Prop}
    [Decidable taken] {offset back : BitVec 64} (hlinks : i.links = false)
    (hspills : spills i = false)
    (hexec : exec other i pc c = (c, if taken then .label (pc + offset) else .seq))
    (hword : word c.mem q = w) (hdecode : decode w = head)
    (hhead : exec other head q c = (c, if taken then .label (q + 8) else .seq))
    (hskip : word c.mem (q + 4) = skip) (hskip' : decode skip = .b back)
    (hfar : Reaches other ⟨c, q + 8⟩ ⟨c.setX 17 (sh_a64_fix_addr (pc + offset) rinfo),
      sh_a64_fix_addr (pc + offset) rinfo⟩) :
    Reaches other ⟨c, q⟩ (relocated other rinfo (q + 4 + back) i pc c) := by
  have h := conditional hword hdecode hhead hskip hskip' hfar
  unfold relocated
  rw [hexec, hlinks, hspills]
  by_cases ht : taken
  · simpa only [if_pos ht, Bool.false_eq_true, if_false] using h
  · simpa only [if_neg ht, Bool.false_eq_true, if_false] using h

/-- `B.cond`: the condition chooses between the jump and the code behind. -/
theorem relocates_b_cond (htype : sh_a64_get_type inst = .B_COND)
    (hcode : CodeAt c.mem q (sh_a64_rewrite_b inst pc .B_COND rinfo)) :
    Reaches other ⟨c, q⟩ (relocated other rinfo (q + 28) (decode inst) pc c) := by
  have hcond : (inst &&& 0xFF00001F ||| 0x40).extractLsb' 0 4 = inst.extractLsb' 0 4 :=
    extract_keep inst (by decide) (by decide)
  have hhead : decode (inst &&& 0xFF00001F ||| 0x40) = .bCond (inst.extractLsb' 0 4) 8 := by
    rw [decode_head_19, htype, A64Type.instr, hcond, imm19_head]
  have hfar := far_branch other hcode.2.2
  rw [show SH_UTIL_SIGN_EXTEND_64 _ 21 = _ from offset_imm19 inst,
    behind_add q (show (4 : BitVec 64) + 4 = 8 by decide)] at hfar
  rw [decode_eq_instr, htype, ← behind_add q (show (4 : BitVec 64) + 24 = 28 by decide)]
  exact relocates_conditional rfl rfl rfl hcode.1 hhead rfl hcode.2.1 decode_b_24 hfar

/-- `CBZ` and `CBNZ`: the register chooses. -/
theorem relocates_cb (htype : sh_a64_get_type inst = .CBZ ∨ sh_a64_get_type inst = .CBNZ)
    (hcode : CodeAt c.mem q (sh_a64_rewrite_cb inst pc rinfo)) :
    Reaches other ⟨c, q⟩ (relocated other rinfo (q + 24) (decode inst) pc c) := by
  have hfar := absolute_jump other (.inl decode_br_x17) hcode.2.2
  rw [show SH_UTIL_SIGN_EXTEND_64 _ 21 = _ from offset_imm19 inst,
    behind_add q (show (4 : BitVec 64) + 4 = 8 by decide)] at hfar
  rw [decode_eq_instr, ← behind_add q (show (4 : BitVec 64) + 20 = 24 by decide)]
  rcases htype with htype | htype
  · have hhead : decode (inst &&& 0xFF00001F ||| 0x40)
        = .cb (inst.getLsbD 31) false (rt inst) 8 := by
      rw [decode_head_19, htype, A64Type.instr, sf_head, rt_head_19, imm19_head]
    rw [htype]
    exact relocates_conditional rfl rfl rfl hcode.1 hhead rfl hcode.2.1 decode_b_20 hfar
  · have hhead : decode (inst &&& 0xFF00001F ||| 0x40)
        = .cb (inst.getLsbD 31) true (rt inst) 8 := by
      rw [decode_head_19, htype, A64Type.instr, sf_head, rt_head_19, imm19_head]
    rw [htype]
    exact relocates_conditional rfl rfl rfl hcode.1 hhead rfl hcode.2.1 decode_b_20 hfar

/-- `TBZ` and `TBNZ`: the bit chooses. -/
theorem relocates_tb (htype : sh_a64_get_type inst = .TBZ ∨ sh_a64_get_type inst = .TBNZ)
    (hcode : CodeAt c.mem q (sh_a64_rewrite_tb inst pc rinfo)) :
    Reaches other ⟨c, q⟩ (relocated other rinfo (q + 24) (decode inst) pc c) := by
  have hb5 : (inst &&& 0xFFF8001F ||| 0x40).extractLsb' 31 1 = inst.extractLsb' 31 1 :=
    extract_keep inst (by decide) (by decide)
  have hb40 : (inst &&& 0xFFF8001F ||| 0x40).extractLsb' 19 5 = inst.extractLsb' 19 5 :=
    extract_keep inst (by decide) (by decide)
  have hfar := absolute_jump other (.inl decode_br_x17) hcode.2.2
  rw [show SH_UTIL_SIGN_EXTEND_64 _ 16 = _ from offset_imm14 inst,
    behind_add q (show (4 : BitVec 64) + 4 = 8 by decide)] at hfar
  rw [decode_eq_instr, ← behind_add q (show (4 : BitVec 64) + 20 = 24 by decide)]
  rcases htype with htype | htype
  · have hhead : decode (inst &&& 0xFFF8001F ||| 0x40)
        = .tb false (inst.extractLsb' 31 1 ++ inst.extractLsb' 19 5) (rt inst) 8 := by
      rw [decode_head_14, htype, A64Type.instr, hb5, hb40, rt_head_14, imm14_head]
    rw [htype]
    exact relocates_conditional rfl rfl rfl hcode.1 hhead rfl hcode.2.1 decode_b_20 hfar
  · have hhead : decode (inst &&& 0xFFF8001F ||| 0x40)
        = .tb true (inst.extractLsb' 31 1 ++ inst.extractLsb' 19 5) (rt inst) 8 := by
      rw [decode_head_14, htype, A64Type.instr, hb5, hb40, rt_head_14, imm14_head]
    rw [htype]
    exact relocates_conditional rfl rfl rfl hcode.1 hhead rfl hcode.2.1 decode_b_20 hfar

/-- `ADR`: the register gets the same address. -/
theorem relocates_adr (hrewrite : sh_a64_rewrite_adr inst pc .ADR rinfo = some ws)
    (htype : sh_a64_get_type inst = .ADR) (hcode : CodeAt c.mem q ws) :
    Reaches other ⟨c, q⟩ (relocated other rinfo (q + 16) (decode inst) pc c) := by
  unfold sh_a64_rewrite_adr at hrewrite
  simp only [if_true, get_bits_rt, offset_adr, Option.ite_none_left_eq_some,
    Option.some.injEq] at hrewrite
  obtain ⟨-, rfl⟩ := hrewrite
  rw [decode_eq_instr, htype]
  exact load_and_skip (decode_ldr_rd_8 _) hcode

/-- `ADRP`: the register gets the same page. -/
theorem relocates_adrp (hrewrite : sh_a64_rewrite_adr inst pc .ADRP rinfo = some ws)
    (htype : sh_a64_get_type inst = .ADRP) (hcode : CodeAt c.mem q ws) :
    Reaches other ⟨c, q⟩ (relocated other rinfo (q + 16) (decode inst) pc c) := by
  unfold sh_a64_rewrite_adr at hrewrite
  simp only [reduceCtorEq, if_false, get_bits_rt, offset_adrp, Option.ite_none_left_eq_some,
    Option.some.injEq] at hrewrite
  obtain ⟨-, rfl⟩ := hrewrite
  rw [decode_eq_instr, htype]
  exact load_and_skip (decode_ldr_rd_8 _) hcode

/-- Any other word is copied, which is the same if its effect does not depend on its address. -/
theorem relocates_ignored (hmovable : Movable other inst)
    (htype : sh_a64_get_type inst = .IGNORED) (hcode : CodeAt c.mem q [inst]) :
    Reaches other ⟨c, q⟩ (relocated other rinfo (q + 4) (decode inst) pc c) := by
  have hbase : decode inst = decodeBase inst := by
    rw [decode_eq_instr, htype]
    rfl
  have hsame : (⟨(exec other (decodeBase inst) q c).1, (exec other (decodeBase inst) q c).2.pc q⟩
      : State) = relocated other rinfo (q + 4) (decodeBase inst) pc c := by
    refine decodeBase_cases (P := fun i => decode inst = i → (⟨(exec other i q c).1,
      (exec other i q c).2.pc q⟩ : State) = relocated other rinfo (q + 4) i pc c) inst ?_ ?_ ?_
      ?_ ?_ ?_ hbase
    · intro rn _
      rfl
    · intro rn _
      simp only [relocated, exec, Instr.links, if_true, Core.setX_setX, Next.pc]
    · intro rn _
      rfl
    · intro access rt rn offset _
      rfl
    · intro rt rt2 rn offset _
      rfl
    · intro hdecode
      have hmoved := hmovable inst hdecode q pc c
      rcases hother : other inst pc c with ⟨d, next⟩
      rw [hother] at hmoved
      cases next with
      | none => simp only [relocated, exec, hother, hmoved, Option.elim, Next.pc, Instr.links,
          spills, Bool.false_eq_true, if_false]
      | some a => simp only [relocated, exec, hother, hmoved, Option.elim, Next.pc, Instr.links,
          Bool.false_eq_true, if_false]
  have hstep : step other ⟨c, q⟩ = relocated other rinfo (q + 4) (decode inst) pc c := by
    rw [step_of_word _ hcode.1 rfl, hbase]
    exact hsame
  exact hstep ▸ Reaches.head (.refl _)

/-- What the source does with a literal, for all types but `PRFM_LIT`. -/
theorem rewrite_ldr_some {type : A64Type} (hne : type ≠ .PRFM_LIT)
    (h : sh_a64_rewrite_ldr inst pc type rinfo = some ws) :
    ws = ldrWords type (rt inst) (pc + imm19 inst) := by
  rw [rewrite_ldr_eq, Option.ite_none_left_eq_some] at h
  obtain ⟨hfix, hws⟩ := h
  rw [fix_addr_of_not fun hneed => hfix ⟨hneed, hne⟩] at hws
  exact (Option.some.inj hws).symm

theorem relocates_ldr_32 (htype : sh_a64_get_type inst = .LDR_LIT_32)
    (hrewrite : sh_a64_rewrite_ldr inst pc .LDR_LIT_32 rinfo = some ws)
    (hcode : CodeAt c.mem q ws) :
    Reaches other ⟨c, q⟩ (relocated other rinfo (q + 20) (decode inst) pc c) := by
  rw [decode_eq_instr, htype]
  rw [rewrite_ldr_some (by decide) hrewrite] at hcode
  exact load_through (.inl rfl) (decode_ldr_rt_12 _) (decode_ldr_w_rt _) hcode

theorem relocates_ldr_64 (htype : sh_a64_get_type inst = .LDR_LIT_64)
    (hrewrite : sh_a64_rewrite_ldr inst pc .LDR_LIT_64 rinfo = some ws)
    (hcode : CodeAt c.mem q ws) :
    Reaches other ⟨c, q⟩ (relocated other rinfo (q + 20) (decode inst) pc c) := by
  rw [decode_eq_instr, htype]
  rw [rewrite_ldr_some (by decide) hrewrite] at hcode
  exact load_through (.inr (.inl rfl)) (decode_ldr_rt_12 _) (decode_ldr_x_rt _) hcode

theorem relocates_ldrsw (htype : sh_a64_get_type inst = .LDRSW_LIT)
    (hrewrite : sh_a64_rewrite_ldr inst pc .LDRSW_LIT rinfo = some ws)
    (hcode : CodeAt c.mem q ws) :
    Reaches other ⟨c, q⟩ (relocated other rinfo (q + 20) (decode inst) pc c) := by
  rw [decode_eq_instr, htype]
  rw [rewrite_ldr_some (by decide) hrewrite] at hcode
  exact load_through (.inr (.inr rfl)) (decode_ldr_rt_12 _) (decode_ldrsw_rt _) hcode

theorem relocates_prfm (htype : sh_a64_get_type inst = .PRFM_LIT)
    (hrewrite : sh_a64_rewrite_ldr inst pc .PRFM_LIT rinfo = some ws)
    (hcode : CodeAt c.mem q ws) (hstack : StackApart c q ws (decode inst) pc) :
    Reaches other ⟨c, q⟩ (relocated other rinfo (q + 28) (decode inst) pc c) := by
  rw [decode_eq_instr, htype] at hstack ⊢
  obtain ⟨happ, -⟩ := hstack _ _ _ rfl rfl
  rw [rewrite_ldr_eq, if_neg (fun h => h.2 rfl)] at hrewrite
  obtain rfl := Option.some.inj hrewrite
  -- nothing is read at the address
  have hnone : Apart (c.sp + -16) 16 (sh_a64_fix_addr (pc + imm19 inst) rinfo)
      Access.prfm.bytes := fun x _ hx => absurd hx (Nat.not_lt_zero _)
  exact load_spilled _ (.inl rfl) (decode_prfm_rt _) happ hnone hcode

/-- The load of a literal into a SIMD register. -/
theorem relocates_simd {type : A64Type} {access : Access} {load : BitVec 32}
    (htype : sh_a64_get_type inst = type) (hne : type ≠ .PRFM_LIT)
    (hinstr : type.instr inst = .ldrLit access (rt inst) (imm19 inst))
    (hv : access = .s ∨ access = .d ∨ access = .q)
    (hload : decode load = .ldrImm access (rt inst) 17 0)
    (hwords : ldrWords type (rt inst) (pc + imm19 inst) = spilledLoad load (pc + imm19 inst))
    (hrewrite : sh_a64_rewrite_ldr inst pc type rinfo = some ws)
    (hcode : CodeAt c.mem q ws) (hstack : StackApart c q ws (decode inst) pc) :
    Reaches other ⟨c, q⟩ (relocated other rinfo (q + 28) (decode inst) pc c) := by
  have hspills : spills (.ldrLit access (rt inst) (imm19 inst)) = true := by
    rcases hv with rfl | rfl | rfl <;> rfl
  rw [decode_eq_instr, htype, hinstr] at hstack ⊢
  obtain ⟨happ, hliteral⟩ := hstack _ _ _ rfl hspills
  rw [rewrite_ldr_some hne hrewrite, hwords] at hcode happ
  have h := load_spilled other (.inr hv) hload happ hliteral hcode
  rcases hv with rfl | rfl | rfl <;> exact h

/-! ## The main results -/

/-- A rewrite that does not fail has the length that was reserved for it. -/
theorem size_rewrite (h : sh_a64_rewrite inst pc rinfo = some ws) :
    size ws = sh_a64_get_rewrite_inst_len inst := by
  unfold sh_a64_get_rewrite_inst_len
  unfold sh_a64_rewrite at h
  cases htype : sh_a64_get_type inst
  case ADR | ADRP =>
    rw [htype] at h
    unfold sh_a64_rewrite_adr at h
    rw [Option.ite_none_left_eq_some] at h
    obtain ⟨-, h⟩ := h
    rw [← Option.some.inj h]
    rfl
  case LDR_LIT_32 | LDR_LIT_64 | LDRSW_LIT | PRFM_LIT | LDR_SIMD_LIT_32 | LDR_SIMD_LIT_64
      | LDR_SIMD_LIT_128 =>
    rw [htype] at h
    simp only [rewrite_ldr_eq, Option.ite_none_left_eq_some] at h
    obtain ⟨-, h⟩ := h
    rw [← Option.some.inj h]
    rfl
  all_goals
    rw [htype] at h
    rw [← Option.some.inj h]
    rfl

/-- Running what `sh_a64_rewrite` wrote for an instruction has the effect of the instruction at
its own address, relocated, unless it is copied and uses its address (`BC.cond` is the kind). -/
theorem rewrite_relocates (other : Others) (rinfo : RewriteInfo) (inst : BitVec 32)
    (pc q : Address) (c : Core) (ws : List (BitVec 32)) (hmovable : Movable other inst)
    (h : sh_a64_rewrite inst pc rinfo = some ws)
    (hcode : CodeAt c.mem q ws) (hstack : StackApart c q ws (decode inst) pc) :
    Reaches other ⟨c, q⟩
      (relocated other rinfo (q + BitVec.ofNat 64 (size ws)) (decode inst) pc c) := by
  rw [size_rewrite h]
  unfold sh_a64_get_rewrite_inst_len
  unfold sh_a64_rewrite at h
  cases htype : sh_a64_get_type inst
  all_goals rw [htype] at h
  case IGNORED => exact relocates_ignored hmovable htype (Option.some.inj h ▸ hcode)
  case B => exact relocates_b htype (Option.some.inj h ▸ hcode)
  case B_COND => exact relocates_b_cond htype (Option.some.inj h ▸ hcode)
  case BL => exact relocates_bl htype (Option.some.inj h ▸ hcode)
  case ADR => exact relocates_adr h htype hcode
  case ADRP => exact relocates_adrp h htype hcode
  case LDR_LIT_32 => exact relocates_ldr_32 htype h hcode
  case LDR_LIT_64 => exact relocates_ldr_64 htype h hcode
  case LDRSW_LIT => exact relocates_ldrsw htype h hcode
  case PRFM_LIT => exact relocates_prfm htype h hcode hstack
  case LDR_SIMD_LIT_32 =>
    exact relocates_simd htype (by decide) rfl (.inl rfl) (decode_ldr_s_rt _) rfl h hcode hstack
  case LDR_SIMD_LIT_64 =>
    exact relocates_simd htype (by decide) rfl (.inr (.inl rfl)) (decode_ldr_d_rt _) rfl h hcode
      hstack
  case LDR_SIMD_LIT_128 =>
    exact relocates_simd htype (by decide) rfl (.inr (.inr rfl)) (decode_ldr_q_rt _) rfl h hcode
      hstack
  case CBZ => exact relocates_cb (.inl htype) (Option.some.inj h ▸ hcode)
  case CBNZ => exact relocates_cb (.inr htype) (Option.some.inj h ▸ hcode)
  case TBZ => exact relocates_tb (.inl htype) (Option.some.inj h ▸ hcode)
  case TBNZ => exact relocates_tb (.inr htype) (Option.some.inj h ▸ hcode)

end

/-- `LDR D0, #8` at `0x1000`, run at `0x2000`. -/
theorem rewrite_relocates_ldr_d :
    ∃ ws, sh_a64_rewrite 0x5C000040 0x1000 ⟨0x1000, 0x1004, 0x2000, [28]⟩ = some ws ∧
      Reaches (fun _ _ c => (c, none))
        ⟨⟨fun _ => 0x8000, 0, fun _ => 0, copy (fun _ => 0) 0x2000 (bytes ws)⟩, 0x2000⟩
        (relocated (fun _ _ c => (c, none)) ⟨0x1000, 0x1004, 0x2000, [28]⟩
          (0x2000 + BitVec.ofNat 64 (size ws)) (decode 0x5C000040) 0x1000
          ⟨fun _ => 0x8000, 0, fun _ => 0, copy (fun _ => 0) 0x2000 (bytes ws)⟩) := by
  have hrewrite : sh_a64_rewrite 0x5C000040 0x1000 ⟨0x1000, 0x1004, 0x2000, [28]⟩
      = some (spilledLoad 0xFD400220 0x1008) := by decide
  have hdecode : decode 0x5C000040 = .ldrLit .d 0 8 := by decide
  have hmovable : Movable (fun _ _ c => (c, none)) 0x5C000040 := fun _ _ _ _ _ => rfl
  refine ⟨_, hrewrite, rewrite_relocates _ _ _ _ _ _ _ hmovable hrewrite ?_ ?_⟩
  · exact codeAt_copy (by rw [size_spilledLoad]; omega) fun _ _ => rfl
  · intro access rt offset hload _
    obtain ⟨rfl, rfl, rfl⟩ : Access.d = access ∧ (0 : Reg) = rt ∧ (8 : BitVec 64) = offset := by
      rw [hdecode] at hload
      exact Instr.ldrLit.inj hload
    constructor
    all_goals
      intro x hx hx'
      simp only [Inside, size_spilledLoad, Core.sp, Access.bytes] at hx hx'
      bv_omega

end ShadowHook
