/-
# Rewriting A64 instructions

The functions of `sh_a64.c`.  A function that fills a buffer returns the words that it stores
there, in order; `none` where it returns 0, which its callers take for a failure.
-/
import LiuHookWorld.A64

namespace ShadowHook

open ByteMemory A64

/-! ## The macros -/

/-- The bits from `high` to `low`, by two shifts. -/
def SH_UTIL_GET_BITS_32 (n : BitVec 32) (high low : ℕ) : BitVec 32 :=
  (n <<< (31 - high)) >>> (31 - high + low)

/-- One bit, by two shifts. -/
def SH_UTIL_GET_BIT_64 (n : BitVec 64) (idx : ℕ) : BitVec 64 := (n <<< (63 - idx)) >>> 63

/-- The top bit of `len` bits is copied to all higher ones. -/
def SH_UTIL_SIGN_EXTEND_64 (n : BitVec 64) (len : ℕ) : BitVec 64 :=
  if SH_UTIL_GET_BIT_64 n (len - 1) > 0 then n ||| (0xFFFFFFFFFFFFFFFF : BitVec 64) <<< len else n

/-! ## The source -/

/-- `sh_a64_type_t` -/
inductive A64Type where
  | IGNORED
  | B
  | B_COND
  | BL
  | ADR
  | ADRP
  | LDR_LIT_32
  | LDR_LIT_64
  | LDRSW_LIT
  | PRFM_LIT
  | LDR_SIMD_LIT_32
  | LDR_SIMD_LIT_64
  | LDR_SIMD_LIT_128
  | CBZ
  | CBNZ
  | TBZ
  | TBNZ
deriving DecidableEq

/-- The masks are tried in the order of the source. -/
def sh_a64_get_type (inst : BitVec 32) : A64Type :=
  if inst &&& 0xFC000000 = 0x14000000 then .B
  else if inst &&& 0xFF000010 = 0x54000000 then .B_COND
  else if inst &&& 0xFC000000 = 0x94000000 then .BL
  else if inst &&& 0x9F000000 = 0x10000000 then .ADR
  else if inst &&& 0x9F000000 = 0x90000000 then .ADRP
  else if inst &&& 0xFF000000 = 0x18000000 then .LDR_LIT_32
  else if inst &&& 0xFF000000 = 0x58000000 then .LDR_LIT_64
  else if inst &&& 0xFF000000 = 0x98000000 then .LDRSW_LIT
  else if inst &&& 0xFF000000 = 0xD8000000 then .PRFM_LIT
  else if inst &&& 0xFF000000 = 0x1C000000 then .LDR_SIMD_LIT_32
  else if inst &&& 0xFF000000 = 0x5C000000 then .LDR_SIMD_LIT_64
  else if inst &&& 0xFF000000 = 0x9C000000 then .LDR_SIMD_LIT_128
  else if inst &&& 0x7F000000 = 0x34000000 then .CBZ
  else if inst &&& 0x7F000000 = 0x35000000 then .CBNZ
  else if inst &&& 0x7F000000 = 0x36000000 then .TBZ
  else if inst &&& 0x7F000000 = 0x37000000 then .TBNZ
  else .IGNORED

/-- The bytes that the rewrite of an instruction takes; `sh_a64_rewrite` stores no more. -/
def sh_a64_get_rewrite_inst_len (inst : BitVec 32) : ℕ :=
  match sh_a64_get_type inst with
  | .IGNORED => 4
  | .B => 20
  | .B_COND => 28
  | .BL => 20
  | .ADR => 16
  | .ADRP => 16
  | .LDR_LIT_32 => 20
  | .LDR_LIT_64 => 20
  | .LDRSW_LIT => 20
  | .PRFM_LIT => 28
  | .LDR_SIMD_LIT_32 => 28
  | .LDR_SIMD_LIT_64 => 28
  | .LDR_SIMD_LIT_128 => 28
  | .CBZ => 24
  | .CBNZ => 24
  | .TBZ => 24
  | .TBNZ => 24

/-- `sh_a64_rewrite_info_t` without `buf_offset`, which only its owner uses. -/
structure RewriteInfo where
  start_addr : Address
  end_addr : Address
  buf : Address
  inst_lens : List ℕ

/-- The address lies in what is overwritten. -/
def sh_a64_is_addr_need_fix (addr : Address) (rinfo : RewriteInfo) : Bool :=
  rinfo.start_addr ≤ addr && addr < rinfo.end_addr

/-- The loop of `sh_a64_fix_addr`. -/
def fix_offset (addr : Address) : Address → ℕ → List ℕ → ℕ
  | _, offset, [] => offset
  | cursor_addr, offset, inst_len :: inst_lens =>
      if cursor_addr ≥ addr then offset
      else fix_offset addr (cursor_addr + 4) (offset + inst_len) inst_lens

/-- An address in what is overwritten is that of the rewritten instruction. -/
def sh_a64_fix_addr (addr : Address) (rinfo : RewriteInfo) : Address :=
  if sh_a64_is_addr_need_fix addr rinfo then
    rinfo.buf + BitVec.ofNat 64 (fix_offset addr rinfo.start_addr 0 rinfo.inst_lens)
  else addr

/-- An address as the two words of a literal. -/
def literal (addr : Address) : List (BitVec 32) :=
  [(addr &&& 0xFFFFFFFF).setWidth 32, (addr >>> 32).setWidth 32]

/-- `B`, `BL` and `B.cond` as jumps through `X17` to an absolute address. -/
def sh_a64_rewrite_b (inst : BitVec 32) (pc : Address) (type : A64Type) (rinfo : RewriteInfo) :
    List (BitVec 32) :=
  let imm64 :=
    if type = .B_COND then
      let imm19 := (SH_UTIL_GET_BITS_32 inst 23 5).setWidth 64
      SH_UTIL_SIGN_EXTEND_64 (imm19 <<< 2) 21
    else
      let imm26 := (SH_UTIL_GET_BITS_32 inst 25 0).setWidth 64
      SH_UTIL_SIGN_EXTEND_64 (imm26 <<< 2) 28
  let addr := sh_a64_fix_addr (pc + imm64) rinfo
  -- B.<cond> #8, B #24
  (if type = .B_COND then [inst &&& 0xFF00001F ||| 0x40, 0x14000006] else [])
    -- LDR X17, #8, B #12
    ++ [0x58000051, 0x14000003] ++ literal addr
    -- BLR X17, BR X17
    ++ [if type = .BL then 0xD63F0220 else 0xD61F0220]

/-- `ADR` and `ADRP` as a load of the address that they give. -/
def sh_a64_rewrite_adr (inst : BitVec 32) (pc : Address) (type : A64Type)
    (rinfo : RewriteInfo) : Option (List (BitVec 32)) :=
  let xd := SH_UTIL_GET_BITS_32 inst 4 0
  let immlo := (SH_UTIL_GET_BITS_32 inst 30 29).setWidth 64
  let immhi := (SH_UTIL_GET_BITS_32 inst 23 5).setWidth 64
  let addr :=
    if type = .ADR then pc + SH_UTIL_SIGN_EXTEND_64 (immhi <<< 2 ||| immlo) 21
    else
      (pc &&& (0xFFFFFFFFFFFFF000 : Address))
        + SH_UTIL_SIGN_EXTEND_64 (immhi <<< 14 ||| immlo <<< 12) 33
  if sh_a64_is_addr_need_fix addr rinfo then none
  -- LDR Xd, #8, B #12
  else some ([0x58000040 ||| xd, 0x14000003] ++ literal addr)

/-- A literal load as a load of its address and one through it; SIMD registers and `PRFM` keep
`X17` on the stack. -/
def sh_a64_rewrite_ldr (inst : BitVec 32) (pc : Address) (type : A64Type)
    (rinfo : RewriteInfo) : Option (List (BitVec 32)) :=
  let rt := SH_UTIL_GET_BITS_32 inst 4 0
  let imm19 := (SH_UTIL_GET_BITS_32 inst 23 5).setWidth 64
  let offset := SH_UTIL_SIGN_EXTEND_64 (imm19 <<< 2) 21
  let addr := pc + offset
  if sh_a64_is_addr_need_fix addr rinfo ∧ type ≠ .PRFM_LIT then none
  else
    let addr :=
      if sh_a64_is_addr_need_fix addr rinfo then sh_a64_fix_addr addr rinfo else addr
    if type = .LDR_LIT_32 ∨ type = .LDR_LIT_64 ∨ type = .LDRSW_LIT then
      -- LDR Xt, #12
      some ([0x58000060 ||| rt,
        -- LDR Wt, [Xt], LDR Xt, [Xt], LDRSW Xt, [Xt]
        (if type = .LDR_LIT_32 then (0xB9400000 : BitVec 32)
          else if type = .LDR_LIT_64 then 0xF9400000
          else 0xB9800000) ||| rt ||| rt <<< 5,
        -- B #12
        0x14000003] ++ literal addr)
    else
      -- STP X16, X17, [SP, -0x10], LDR X17, #16
      some ([0xA93F47F0, 0x58000091,
        -- PRFM Rt, [X17], LDR St, [X17], LDR Dt, [X17], LDR Qt, [X17]
        (if type = .PRFM_LIT then 0xF9800220
          else if type = .LDR_SIMD_LIT_32 then 0xBD400220
          else if type = .LDR_SIMD_LIT_64 then 0xFD400220
          else 0x3DC00220) ||| rt,
        -- LDR X17, [SP, -0x8], B #12
        0xF85F83F1, 0x14000003] ++ literal addr)

/-- `CBZ` and `CBNZ` over a jump to an absolute address. -/
def sh_a64_rewrite_cb (inst : BitVec 32) (pc : Address) (rinfo : RewriteInfo) :
    List (BitVec 32) :=
  let imm19 := (SH_UTIL_GET_BITS_32 inst 23 5).setWidth 64
  let offset := SH_UTIL_SIGN_EXTEND_64 (imm19 <<< 2) 21
  let addr := sh_a64_fix_addr (pc + offset) rinfo
  -- CB(N)Z Rt, #8, B #20, LDR X17, #8, BR X17
  [inst &&& 0xFF00001F ||| 0x40, 0x14000005, 0x58000051, 0xD61F0220] ++ literal addr

/-- `TBZ` and `TBNZ` over a jump to an absolute address. -/
def sh_a64_rewrite_tb (inst : BitVec 32) (pc : Address) (rinfo : RewriteInfo) :
    List (BitVec 32) :=
  let imm14 := (SH_UTIL_GET_BITS_32 inst 18 5).setWidth 64
  let offset := SH_UTIL_SIGN_EXTEND_64 (imm14 <<< 2) 16
  let addr := sh_a64_fix_addr (pc + offset) rinfo
  -- TB(N)Z Rt, #<imm>, #8, B #20, LDR X17, #8, BR X17
  [inst &&& 0xFFF8001F ||| 0x40, 0x14000005, 0x58000051, 0xD61F0220] ++ literal addr

/-- The words that are stored for an instruction, `none` where it cannot be rewritten. -/
def sh_a64_rewrite (inst : BitVec 32) (pc : Address) (rinfo : RewriteInfo) :
    Option (List (BitVec 32)) :=
  match sh_a64_get_type inst with
  | .B => some (sh_a64_rewrite_b inst pc .B rinfo)
  | .B_COND => some (sh_a64_rewrite_b inst pc .B_COND rinfo)
  | .BL => some (sh_a64_rewrite_b inst pc .BL rinfo)
  | .ADR => sh_a64_rewrite_adr inst pc .ADR rinfo
  | .ADRP => sh_a64_rewrite_adr inst pc .ADRP rinfo
  | .LDR_LIT_32 => sh_a64_rewrite_ldr inst pc .LDR_LIT_32 rinfo
  | .LDR_LIT_64 => sh_a64_rewrite_ldr inst pc .LDR_LIT_64 rinfo
  | .LDRSW_LIT => sh_a64_rewrite_ldr inst pc .LDRSW_LIT rinfo
  | .PRFM_LIT => sh_a64_rewrite_ldr inst pc .PRFM_LIT rinfo
  | .LDR_SIMD_LIT_32 => sh_a64_rewrite_ldr inst pc .LDR_SIMD_LIT_32 rinfo
  | .LDR_SIMD_LIT_64 => sh_a64_rewrite_ldr inst pc .LDR_SIMD_LIT_64 rinfo
  | .LDR_SIMD_LIT_128 => sh_a64_rewrite_ldr inst pc .LDR_SIMD_LIT_128 rinfo
  | .CBZ => some (sh_a64_rewrite_cb inst pc rinfo)
  | .CBNZ => some (sh_a64_rewrite_cb inst pc rinfo)
  | .TBZ => some (sh_a64_rewrite_tb inst pc rinfo)
  | .TBNZ => some (sh_a64_rewrite_tb inst pc rinfo)
  | .IGNORED => some [inst]

/-- `LDR X17, #8`, `BR X17` and the address. -/
def sh_a64_absolute_jump_with_br (addr : Address) : List (BitVec 32) :=
  -- LDR X17, #8, BR X17
  [0x58000051, 0xD61F0220] ++ literal addr

/-- `LDR X17, #8`, `RET X17` and the address. -/
def sh_a64_absolute_jump_with_ret (addr : Address) : List (BitVec 32) :=
  -- LDR X17, #8, RET X17
  [0x58000051, 0xD65F0220] ++ literal addr

/-- `B` to the address. -/
def sh_a64_relative_jump (addr pc : Address) : List (BitVec 32) :=
  -- B <label>
  [(0x14000000 : BitVec 32) ||| (((addr - pc) &&& 0x0FFFFFFF) >>> 2).setWidth 32]

/-! ## Reading the operands -/

/-- Two shifts cut the bits out. -/
theorem get_bits_eq (n : BitVec 32) {high low : ℕ} (hhigh : high < 32) (hlow : low ≤ high) :
    SH_UTIL_GET_BITS_32 n high low = (n.extractLsb' low (high + 1 - low)).setWidth 32 := by
  apply BitVec.eq_of_getLsbD_eq
  intro i hi
  unfold SH_UTIL_GET_BITS_32
  rw [BitVec.getLsbD_ushiftRight, BitVec.getLsbD_shiftLeft, BitVec.getLsbD_setWidth,
    BitVec.getLsbD_extractLsb']
  by_cases hin : i < high + 1 - low
  · have hindex : 31 - high + low + i - (31 - high) = low + i := by omega
    have hlt : 31 - high + low + i < 32 := by omega
    have hnot : ¬ 31 - high + low + i < 31 - high := by omega
    simp [hin, hindex, hlt, hnot, hi]
  · have hge : ¬ 31 - high + low + i < 32 := by omega
    simp [hin, hge]

/-- Two shifts leave the one bit. -/
theorem get_bit_64_pos (n : BitVec 64) {idx : ℕ} (hidx : idx < 64) :
    SH_UTIL_GET_BIT_64 n idx > 0 ↔ n.getLsbD idx = true := by
  have hbit : SH_UTIL_GET_BIT_64 n idx = (BitVec.ofBool (n.getLsbD idx)).setWidth 64 := by
    apply BitVec.eq_of_getLsbD_eq
    intro i hi
    unfold SH_UTIL_GET_BIT_64
    rw [BitVec.getLsbD_ushiftRight, BitVec.getLsbD_shiftLeft, BitVec.getLsbD_setWidth]
    by_cases hzero : i = 0
    · have hindex : 63 - (63 - idx) = idx := by omega
      have hnot : ¬ 63 < 63 - idx := by omega
      simp [hzero, hindex, hnot]
    · have hge : ¬ 63 + i < 64 := by omega
      simp [hge, hzero, BitVec.getLsbD_ofBool]
  rw [hbit]
  cases n.getLsbD idx <;> decide

/-- The macro is the sign extension. -/
theorem sign_extend_eq {len : ℕ} (n : BitVec len) (hpos : 0 < len) (hlen : len ≤ 64) :
    SH_UTIL_SIGN_EXTEND_64 (n.setWidth 64) len = n.signExtend 64 := by
  have hmsb : (n.setWidth 64).getLsbD (len - 1) = n.msb := by
    rw [BitVec.getLsbD_setWidth, BitVec.msb_eq_getLsbD_last]
    simp [show len - 1 < 64 by omega]
  apply BitVec.eq_of_getLsbD_eq
  intro i hi
  unfold SH_UTIL_SIGN_EXTEND_64
  simp only [get_bit_64_pos _ (show len - 1 < 64 by omega), hmsb]
  rw [BitVec.getLsbD_signExtend]
  have hones : (0xFFFFFFFFFFFFFFFF : BitVec 64) = BitVec.allOnes 64 := rfl
  have hshift : ((0xFFFFFFFFFFFFFFFF : BitVec 64) <<< len).getLsbD i = !decide (i < len) := by
    rw [hones, BitVec.getLsbD_shiftLeft, BitVec.getLsbD_allOnes]
    simp [hi, show i - len < 64 by omega]
  by_cases hsign : n.msb = true
  · rw [if_pos hsign, BitVec.getLsbD_or, BitVec.getLsbD_setWidth, hshift]
    by_cases hin : i < len
    · simp [hin, hi]
    · simp [hin, hi, hsign]
  · rw [if_neg hsign, BitVec.getLsbD_setWidth]
    by_cases hin : i < len
    · simp [hin, hi]
    · simp [hin, hsign, BitVec.getLsbD_of_ge n i (by omega)]

/-- An offset in units of `2 ^ k` bytes. -/
theorem sign_extend_shift {len : ℕ} (n : BitVec len) (k : ℕ) (hpos : 0 < len)
    (hlen : len + k ≤ 64) :
    SH_UTIL_SIGN_EXTEND_64 (n.setWidth 64 <<< k) (len + k) = n.signExtend 64 <<< k := by
  have happend : n.setWidth 64 <<< k = (n ++ 0#k).setWidth 64 := by
    apply BitVec.eq_of_getLsbD_eq
    intro i hi
    rw [BitVec.getLsbD_shiftLeft, BitVec.getLsbD_setWidth, BitVec.getLsbD_setWidth,
      BitVec.getLsbD_append]
    by_cases hin : i < k
    · simp [hin]
    · simp [hin, hi, show i - k < 64 by omega]
  rw [happend, sign_extend_eq _ (by omega) hlen]
  apply BitVec.eq_of_getLsbD_eq
  intro i hi
  rw [BitVec.getLsbD_signExtend, BitVec.getLsbD_shiftLeft, BitVec.getLsbD_signExtend,
    BitVec.getLsbD_append, BitVec.msb_append]
  by_cases hin : i < k
  · simp [hin, show i < len + k by omega]
  · have hiff : i < len + k ↔ i - k < len := by omega
    have hne : len ≠ 0 := by omega
    simp [hin, hi, hiff, hne, show i - k < 64 by omega]

theorem get_bits_setWidth (n : BitVec 32) {high low : ℕ} (hhigh : high < 32)
    (hlow : low ≤ high) :
    (SH_UTIL_GET_BITS_32 n high low).setWidth 64
      = (n.extractLsb' low (high + 1 - low)).setWidth 64 := by
  rw [get_bits_eq n hhigh hlow, BitVec.setWidth_setWidth (by omega)]

theorem get_bits_rt (inst : BitVec 32) :
    SH_UTIL_GET_BITS_32 inst 4 0 = (A64.rt inst).setWidth 32 :=
  get_bits_eq inst (by omega) (by omega)

/-- The offset of `B` and `BL`, as the source takes it out of the instruction. -/
theorem offset_imm26 (inst : BitVec 32) :
    SH_UTIL_SIGN_EXTEND_64 ((SH_UTIL_GET_BITS_32 inst 25 0).setWidth 64 <<< 2) 28
      = imm26 inst := by
  rw [get_bits_setWidth inst (by omega) (by omega)]
  exact sign_extend_shift (inst.extractLsb' 0 26) 2 (by omega) (by omega)

/-- The offset of `B.cond`, `CBZ`, `CBNZ` and the literal loads. -/
theorem offset_imm19 (inst : BitVec 32) :
    SH_UTIL_SIGN_EXTEND_64 ((SH_UTIL_GET_BITS_32 inst 23 5).setWidth 64 <<< 2) 21
      = imm19 inst := by
  rw [get_bits_setWidth inst (by omega) (by omega)]
  exact sign_extend_shift (inst.extractLsb' 5 19) 2 (by omega) (by omega)

/-- The offset of `TBZ` and `TBNZ`. -/
theorem offset_imm14 (inst : BitVec 32) :
    SH_UTIL_SIGN_EXTEND_64 ((SH_UTIL_GET_BITS_32 inst 18 5).setWidth 64 <<< 2) 16
      = imm14 inst := by
  rw [get_bits_setWidth inst (by omega) (by omega)]
  exact sign_extend_shift (inst.extractLsb' 5 14) 2 (by omega) (by omega)

/-- The two fields of an `ADR`. -/
theorem setWidth_append_or {a b : ℕ} (high : BitVec a) (low : BitVec b) :
    (high ++ low).setWidth 64 = high.setWidth 64 <<< b ||| low.setWidth 64 := by
  apply BitVec.eq_of_getLsbD_eq
  intro i hi
  rw [BitVec.getLsbD_setWidth, BitVec.getLsbD_append, BitVec.getLsbD_or, BitVec.getLsbD_shiftLeft,
    BitVec.getLsbD_setWidth, BitVec.getLsbD_setWidth]
  by_cases hin : i < b
  · simp [hin, hi]
  · simp [hin, hi, show i - b < 64 by omega, BitVec.getLsbD_of_ge low i (by omega)]

/-- The offset of `ADR`, whose low bits come first in the word. -/
theorem offset_adr (inst : BitVec 32) :
    SH_UTIL_SIGN_EXTEND_64 ((SH_UTIL_GET_BITS_32 inst 23 5).setWidth 64 <<< 2
      ||| (SH_UTIL_GET_BITS_32 inst 30 29).setWidth 64) 21 = imm21 inst := by
  rw [get_bits_setWidth inst (by omega) (by omega), get_bits_setWidth inst (by omega) (by omega)]
  have h := setWidth_append_or (inst.extractLsb' 5 19) (inst.extractLsb' 29 2)
  rw [← h]
  exact sign_extend_eq (inst.extractLsb' 5 19 ++ inst.extractLsb' 29 2) (by omega) (by omega)

/-- The offset of `ADRP` counts pages. -/
theorem offset_adrp (inst : BitVec 32) :
    SH_UTIL_SIGN_EXTEND_64 ((SH_UTIL_GET_BITS_32 inst 23 5).setWidth 64 <<< 14
      ||| (SH_UTIL_GET_BITS_32 inst 30 29).setWidth 64 <<< 12) 33 = imm21 inst <<< 12 := by
  rw [get_bits_setWidth inst (by omega) (by omega), get_bits_setWidth inst (by omega) (by omega)]
  have h := setWidth_append_or (inst.extractLsb' 5 19) (inst.extractLsb' 29 2)
  have hshift : ((inst.extractLsb' 5 19).setWidth 64 : BitVec 64) <<< 14
      = (inst.extractLsb' 5 19).setWidth 64 <<< 2 <<< 12 := by
    rw [← BitVec.shiftLeft_add]
  rw [hshift, ← BitVec.shiftLeft_or_distrib, ← h]
  exact sign_extend_shift (inst.extractLsb' 5 19 ++ inst.extractLsb' 29 2) 12 (by omega)
    (by omega)

/-- The decoding by the type that the source finds. -/
def A64Type.instr (inst : BitVec 32) : A64Type → Instr
  | .B => .b (imm26 inst)
  | .B_COND => .bCond (inst.extractLsb' 0 4) (imm19 inst)
  | .BL => .bl (imm26 inst)
  | .ADR => .adr (rt inst) (imm21 inst)
  | .ADRP => .adrp (rt inst) (imm21 inst <<< 12)
  | .LDR_LIT_32 => .ldrLit .w (rt inst) (imm19 inst)
  | .LDR_LIT_64 => .ldrLit .x (rt inst) (imm19 inst)
  | .LDRSW_LIT => .ldrLit .sw (rt inst) (imm19 inst)
  | .PRFM_LIT => .ldrLit .prfm (rt inst) (imm19 inst)
  | .LDR_SIMD_LIT_32 => .ldrLit .s (rt inst) (imm19 inst)
  | .LDR_SIMD_LIT_64 => .ldrLit .d (rt inst) (imm19 inst)
  | .LDR_SIMD_LIT_128 => .ldrLit .q (rt inst) (imm19 inst)
  | .CBZ => .cb (inst.getLsbD 31) false (rt inst) (imm19 inst)
  | .CBNZ => .cb (inst.getLsbD 31) true (rt inst) (imm19 inst)
  | .TBZ => .tb false (inst.extractLsb' 31 1 ++ inst.extractLsb' 19 5) (rt inst) (imm14 inst)
  | .TBNZ => .tb true (inst.extractLsb' 31 1 ++ inst.extractLsb' 19 5) (rt inst) (imm14 inst)
  | .IGNORED => decodeBase inst

/-- The types of the source are the instructions of the architecture. -/
theorem decode_eq_instr (inst : BitVec 32) :
    decode inst = (sh_a64_get_type inst).instr inst := by
  unfold sh_a64_get_type
  simp only [apply_ite (A64Type.instr inst)]
  rfl

end ShadowHook
