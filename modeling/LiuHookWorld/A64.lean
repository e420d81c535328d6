/-
# Instructions of A64

The instructions that use their own address (branches with an offset, `ADR`, `ADRP`, loads of
literals, `BLR`) and the ones that go with them to an address in a register.  What any other
instruction does at its address is a parameter (`Others`).

A machine fetches its instructions from the same memory that they load and store.
-/
import Mathlib.Logic.Function.Iterate
import Mathlib.Logic.Function.Basic
import LiuHookWorld.ByteMemory

namespace A64

open ByteMemory

/-! ## Registers -/

/-- The number of a register; 31 is the stack pointer or zero. -/
abbrev Reg := BitVec 5

/-- Everything but the program counter.  The register with the number 31 is `SP`. -/
structure Core where
  x : Reg → BitVec 64
  nzcv : BitVec 4
  v : Reg → BitVec 128
  mem : Memory

/-- A core, and the address of the next instruction. -/
structure State where
  core : Core
  pc : Address

namespace Core

variable (c : Core)

/-- The number 31 as an operand is the zero register. -/
def readX (r : Reg) : BitVec 64 := if r = 31 then 0 else c.x r

/-- A store to the zero register is lost. -/
def setX (r : Reg) (value : BitVec 64) : Core :=
  if r = 31 then c else { c with x := Function.update c.x r value }

/-- A SIMD register has 128 bits. -/
def setV (r : Reg) (value : BitVec 128) : Core :=
  { c with v := Function.update c.v r value }

/-- The stack pointer. -/
def sp : Address := c.x 31

/-- A store of 64 bits. -/
def store (a : Address) (value : BitVec 64) : Core :=
  { c with mem := write c.mem a 8 value.toNat }

@[simp] theorem setX_mem (r : Reg) (value : BitVec 64) : (c.setX r value).mem = c.mem := by
  unfold setX
  split <;> rfl

@[simp] theorem setX_sp (r : Reg) (value : BitVec 64) : (c.setX r value).sp = c.sp := by
  unfold setX sp
  split
  · rfl
  · rename_i hr
    exact Function.update_of_ne (fun h => hr h.symm) value c.x

@[simp] theorem setV_mem (r : Reg) (value : BitVec 128) : (c.setV r value).mem = c.mem := rfl

@[simp] theorem store_mem (a : Address) (value : BitVec 64) :
    (c.store a value).mem = write c.mem a 8 value.toNat := rfl

/-- A write to the zero register is none. -/
@[simp] theorem setX_zr (value : BitVec 64) : c.setX 31 value = c := by
  simp [setX]

/-- A register has what was stored to it, but not the zero register. -/
theorem readX_setX {r : Reg} (hr : r ≠ 31) (value : BitVec 64) :
    (c.setX r value).readX r = value := by
  unfold setX readX
  rw [if_neg hr, if_neg hr]
  exact Function.update_self r value c.x

/-- The register as a base address; here the number 31 is `SP`. -/
theorem x_setX {r : Reg} (hr : r ≠ 31) (value : BitVec 64) : (c.setX r value).x r = value := by
  unfold setX
  rw [if_neg hr]
  exact Function.update_self r value c.x

/-- Stores to different registers do not depend on their order. -/
theorem setX_comm {r r' : Reg} (h : r ≠ r') (value value' : BitVec 64) :
    (c.setX r value).setX r' value' = (c.setX r' value').setX r value := by
  unfold setX
  by_cases hr : r = 31
  · simp only [hr, if_true]
  · by_cases hr' : r' = 31
    · simp only [hr', if_true]
    · simp only [hr, hr', if_false, Function.update_comm h]

@[simp] theorem setX_setX (r : Reg) (value value' : BitVec 64) :
    (c.setX r value).setX r value' = c.setX r value' := by
  unfold setX
  split
  · rfl
  · simp

end Core

/-! ## The instructions -/

/-- What a load does with its address. -/
inductive Access where
  | w
  | x
  | sw
  | prfm
  | s
  | d
  | q
deriving DecidableEq

/-- The number of bytes that it reads. -/
def Access.bytes : Access → ℕ
  | .w => 4
  | .x => 8
  | .sw => 4
  | .prfm => 0
  | .s => 4
  | .d => 8
  | .q => 16

theorem Access.bytes_le (access : Access) : access.bytes ≤ 16 := by
  cases access <;> decide

/-- The instructions that the rewrite deals with.  `other` is any other word. -/
inductive Instr where
  | b (offset : BitVec 64)
  | bl (offset : BitVec 64)
  | bCond (cond : BitVec 4) (offset : BitVec 64)
  | cb (sf nonzero : Bool) (rt : Reg) (offset : BitVec 64)
  | tb (nonzero : Bool) (bit : BitVec 6) (rt : Reg) (offset : BitVec 64)
  | adr (rd : Reg) (offset : BitVec 64)
  | adrp (rd : Reg) (offset : BitVec 64)
  | ldrLit (access : Access) (rt : Reg) (offset : BitVec 64)
  | ldrImm (access : Access) (rt rn : Reg) (offset : BitVec 64)
  | stp (rt rt2 rn : Reg) (offset : BitVec 64)
  | br (rn : Reg)
  | blr (rn : Reg)
  | ret (rn : Reg)
  | other (word : BitVec 32)
deriving DecidableEq

/-- The offset of `B` and `BL`. -/
def imm26 (w : BitVec 32) : BitVec 64 := (w.extractLsb' 0 26).signExtend 64 <<< 2

/-- The offset of `B.cond`, `CBZ`, `CBNZ` and the literal loads. -/
def imm19 (w : BitVec 32) : BitVec 64 := (w.extractLsb' 5 19).signExtend 64 <<< 2

/-- The offset of `TBZ` and `TBNZ`. -/
def imm14 (w : BitVec 32) : BitVec 64 := (w.extractLsb' 5 14).signExtend 64 <<< 2

/-- The offset of `ADR` and `ADRP`, whose two low bits stand apart. -/
def imm21 (w : BitVec 32) : BitVec 64 :=
  (w.extractLsb' 5 19 ++ w.extractLsb' 29 2).signExtend 64

/-- The register that is loaded or compared. -/
def rt (w : BitVec 32) : Reg := w.extractLsb' 0 5

/-- The base register. -/
def rn (w : BitVec 32) : Reg := w.extractLsb' 5 5

/-- The unsigned offset of a load, in units of `2 ^ scale` bytes. -/
def imm12 (w : BitVec 32) (scale : ℕ) : BitVec 64 := (w.extractLsb' 10 12).setWidth 64 <<< scale

/-- The instructions that take an address from a register, each by the bits that are fixed in
its encoding. -/
def decodeBase (w : BitVec 32) : Instr :=
  if w &&& 0xFFFFFC1F = 0xD61F0000 then .br (rn w)
  else if w &&& 0xFFFFFC1F = 0xD63F0000 then .blr (rn w)
  else if w &&& 0xFFFFFC1F = 0xD65F0000 then .ret (rn w)
  else if w &&& 0xFFC00000 = 0xB9400000 then .ldrImm .w (rt w) (rn w) (imm12 w 2)
  else if w &&& 0xFFC00000 = 0xF9400000 then .ldrImm .x (rt w) (rn w) (imm12 w 3)
  else if w &&& 0xFFC00000 = 0xB9800000 then .ldrImm .sw (rt w) (rn w) (imm12 w 2)
  else if w &&& 0xFFC00000 = 0xF9800000 then .ldrImm .prfm (rt w) (rn w) (imm12 w 3)
  else if w &&& 0xFFC00000 = 0xBD400000 then .ldrImm .s (rt w) (rn w) (imm12 w 2)
  else if w &&& 0xFFC00000 = 0xFD400000 then .ldrImm .d (rt w) (rn w) (imm12 w 3)
  else if w &&& 0xFFC00000 = 0x3DC00000 then .ldrImm .q (rt w) (rn w) (imm12 w 4)
  else if w &&& 0xFFE00C00 = 0xF8400000 then
    .ldrImm .x (rt w) (rn w) ((w.extractLsb' 12 9).signExtend 64)
  else if w &&& 0xFFC00000 = 0xA9000000 then
    .stp (rt w) (w.extractLsb' 10 5) (rn w) ((w.extractLsb' 15 7).signExtend 64 <<< 3)
  else .other w

/-- What these instructions have in common, and the rest, holds of what is decoded. -/
theorem decodeBase_cases {P : Instr → Prop} (w : BitVec 32) (hbr : ∀ rn, P (.br rn))
    (hblr : ∀ rn, P (.blr rn)) (hret : ∀ rn, P (.ret rn))
    (hldr : ∀ access rt rn offset, P (.ldrImm access rt rn offset))
    (hstp : ∀ rt rt2 rn offset, P (.stp rt rt2 rn offset)) (hother : P (.other w)) :
    P (decodeBase w) := by
  unfold decodeBase
  refine iteInduction (fun _ => hbr _) fun _ => ?_
  refine iteInduction (fun _ => hblr _) fun _ => ?_
  refine iteInduction (fun _ => hret _) fun _ => ?_
  iterate 8 refine iteInduction (fun _ => hldr _ _ _ _) fun _ => ?_
  exact iteInduction (fun _ => hstp _ _ _ _) fun _ => hother

/-- The instructions that use their own address, and then the others. -/
def decode (w : BitVec 32) : Instr :=
  if w &&& 0xFC000000 = 0x14000000 then .b (imm26 w)
  else if w &&& 0xFF000010 = 0x54000000 then .bCond (w.extractLsb' 0 4) (imm19 w)
  else if w &&& 0xFC000000 = 0x94000000 then .bl (imm26 w)
  else if w &&& 0x9F000000 = 0x10000000 then .adr (rt w) (imm21 w)
  else if w &&& 0x9F000000 = 0x90000000 then .adrp (rt w) (imm21 w <<< 12)
  else if w &&& 0xFF000000 = 0x18000000 then .ldrLit .w (rt w) (imm19 w)
  else if w &&& 0xFF000000 = 0x58000000 then .ldrLit .x (rt w) (imm19 w)
  else if w &&& 0xFF000000 = 0x98000000 then .ldrLit .sw (rt w) (imm19 w)
  else if w &&& 0xFF000000 = 0xD8000000 then .ldrLit .prfm (rt w) (imm19 w)
  else if w &&& 0xFF000000 = 0x1C000000 then .ldrLit .s (rt w) (imm19 w)
  else if w &&& 0xFF000000 = 0x5C000000 then .ldrLit .d (rt w) (imm19 w)
  else if w &&& 0xFF000000 = 0x9C000000 then .ldrLit .q (rt w) (imm19 w)
  else if w &&& 0x7F000000 = 0x34000000 then .cb (w.getLsbD 31) false (rt w) (imm19 w)
  else if w &&& 0x7F000000 = 0x35000000 then .cb (w.getLsbD 31) true (rt w) (imm19 w)
  else if w &&& 0x7F000000 = 0x36000000 then
    .tb false (w.extractLsb' 31 1 ++ w.extractLsb' 19 5) (rt w) (imm14 w)
  else if w &&& 0x7F000000 = 0x37000000 then
    .tb true (w.extractLsb' 31 1 ++ w.extractLsb' 19 5) (rt w) (imm14 w)
  else decodeBase w

/-! ## Their effects -/

/-- Where an instruction goes on: behind itself, at an address that it computes from its own
one, or at one that it takes from a register. -/
inductive Next where
  | seq
  | label (a : Address)
  | reg (a : Address)
deriving DecidableEq

/-- Where the next instruction is. -/
def Next.pc (pc : Address) : Next → Address
  | .seq => pc + 4
  | .label a => a
  | .reg a => a

/-- It leaves the address behind itself in `X30`. -/
def Instr.links : Instr → Bool
  | .bl _ => true
  | .blr _ => true
  | _ => false

/-- The condition of a branch, by the flags `N`, `Z`, `C` and `V`. -/
def ConditionHolds (cond nzcv : BitVec 4) : Bool :=
  let n := nzcv.getLsbD 3
  let z := nzcv.getLsbD 2
  let c := nzcv.getLsbD 1
  let v := nzcv.getLsbD 0
  let result :=
    if cond.extractLsb' 1 3 = 0 then z
    else if cond.extractLsb' 1 3 = 1 then c
    else if cond.extractLsb' 1 3 = 2 then n
    else if cond.extractLsb' 1 3 = 3 then v
    else if cond.extractLsb' 1 3 = 4 then c && !z
    else if cond.extractLsb' 1 3 = 5 then n == v
    else if cond.extractLsb' 1 3 = 6 then n == v && !z
    else true
  if cond.getLsbD 0 && cond ≠ 15 then !result else result

/-- A load of each width, and the prefetch that loads nothing. -/
def Core.access (c : Core) (rt : Reg) (a : Address) : Access → Core
  | .w => c.setX rt (BitVec.ofNat 64 (read c.mem a 4))
  | .x => c.setX rt (BitVec.ofNat 64 (read c.mem a 8))
  | .sw => c.setX rt ((BitVec.ofNat 32 (read c.mem a 4)).signExtend 64)
  | .prfm => c
  | .s => c.setV rt (BitVec.ofNat 128 (read c.mem a 4))
  | .d => c.setV rt (BitVec.ofNat 128 (read c.mem a 8))
  | .q => c.setV rt (BitVec.ofNat 128 (read c.mem a 16))

/-- What the instructions that are not listed do at an address, and where they go on if not behind
themselves. -/
abbrev Others := BitVec 32 → Address → Core → Core × Option Address

section

variable (other : Others)

/-- One instruction at an address. -/
def exec (i : Instr) (pc : Address) (c : Core) : Core × Next :=
  match i with
  | .b offset => (c, .label (pc + offset))
  | .bl offset => (c.setX 30 (pc + 4), .label (pc + offset))
  | .bCond cond offset =>
      (c, if ConditionHolds cond c.nzcv then .label (pc + offset) else .seq)
  | .cb sf nonzero rt offset =>
      let value := if sf then c.readX rt else ((c.readX rt).setWidth 32).setWidth 64
      (c, if (value != 0) = nonzero then .label (pc + offset) else .seq)
  | .tb nonzero bit rt offset =>
      (c, if (c.readX rt).getLsbD bit.toNat = nonzero then .label (pc + offset) else .seq)
  | .adr rd offset => (c.setX rd (pc + offset), .seq)
  | .adrp rd offset => (c.setX rd ((pc &&& (0xFFFFFFFFFFFFF000 : Address)) + offset), .seq)
  | .ldrLit access rt offset => (c.access rt (pc + offset) access, .seq)
  | .ldrImm access rt rn offset => (c.access rt (c.x rn + offset) access, .seq)
  | .stp rt rt2 rn offset =>
      ((c.store (c.x rn + offset) (c.readX rt)).store (c.x rn + offset + 8) (c.readX rt2), .seq)
  | .br rn => (c, .reg (c.readX rn))
  | .blr rn => (c.setX 30 (pc + 4), .reg (c.readX rn))
  | .ret rn => (c, .reg (c.readX rn))
  | .other w =>
      let result := other w pc c
      (result.1, result.2.elim .seq .reg)

/-- The instruction is listed, or it does the same at every address. -/
def Movable (inst : BitVec 32) : Prop :=
  ∀ w, decode inst = .other w → ∀ (pc pc' : Address) (c : Core), other w pc c = other w pc' c

/-- The instruction word at an address. -/
def word (m : Memory) (a : Address) : BitVec 32 := BitVec.ofNat 32 (read m a 4)

/-- The instruction at the program counter is executed. -/
def step (s : State) : State :=
  let result := exec other (decode (word s.core.mem s.pc)) s.pc s.core
  ⟨result.1, result.2.pc s.pc⟩

/-- The machine comes from the one state to the other. -/
def Reaches (s t : State) : Prop := ∃ n : ℕ, (step other)^[n] s = t

end

/-! ## Runs -/

section

variable {other : Others} {s t u : State}

theorem Reaches.refl (s : State) : Reaches other s s := ⟨0, rfl⟩

/-- One run after another. -/
theorem Reaches.trans (hst : Reaches other s t) (htu : Reaches other t u) :
    Reaches other s u := by
  obtain ⟨n, rfl⟩ := hst
  obtain ⟨k, rfl⟩ := htu
  exact ⟨k + n, Function.iterate_add_apply _ k n s⟩

/-- One step, and then the rest. -/
theorem Reaches.head (h : Reaches other (step other s) t) : Reaches other s t := by
  obtain ⟨n, rfl⟩ := h
  exact ⟨n + 1, rfl⟩

variable (other) in
/-- A step at a word that is known. -/
theorem step_of_word {c : Core} {pc : Address} {w : BitVec 32} {i : Instr}
    (hword : word c.mem pc = w) (hdecode : decode w = i) :
    step other ⟨c, pc⟩ = ⟨(exec other i pc c).1, (exec other i pc c).2.pc pc⟩ := by
  unfold step
  rw [hword, hdecode]

end

/-! ## Code in memory -/

/-- The words stand in the memory from `a` on. -/
def CodeAt (m : Memory) (a : Address) : List (BitVec 32) → Prop
  | [] => True
  | w :: ws => word m a = w ∧ CodeAt m (a + 4) ws

/-- The number of bytes of a list of words. -/
def size (ws : List (BitVec 32)) : ℕ := 4 * ws.length

@[simp] theorem size_nil : size [] = 0 := rfl

@[simp] theorem size_cons (w : BitVec 32) (ws : List (BitVec 32)) :
    size (w :: ws) = 4 + size ws := by
  unfold size
  rw [List.length_cons]
  omega

@[simp] theorem size_append (ws us : List (BitVec 32)) : size (ws ++ us) = size ws + size us := by
  unfold size
  rw [List.length_append]
  omega

/-- Code after code. -/
theorem codeAt_append {m : Memory} {us : List (BitVec 32)} : ∀ {ws : List (BitVec 32)}
    {a : Address}, CodeAt m a (ws ++ us) ↔
      CodeAt m a ws ∧ CodeAt m (a + BitVec.ofNat 64 (size ws)) us := by
  intro ws
  induction ws with
  | nil => intro a; simp [CodeAt]
  | cons w ws ih =>
      intro a
      have hbehind : a + 4 + BitVec.ofNat 64 (size ws) = a + BitVec.ofNat 64 (size (w :: ws)) := by
        rw [size_cons, BitVec.ofNat_add, ← BitVec.add_assoc]
        rfl
      rw [List.cons_append, CodeAt, CodeAt, ih, and_assoc, hbehind]

/-- The `i`-th word behind an address. -/
theorem add_four_mul (pc : Address) (i : ℕ) :
    pc + 4 + BitVec.ofNat 64 (4 * i) = pc + BitVec.ofNat 64 (4 * (i + 1)) := by
  rw [Nat.mul_add, Nat.add_comm, BitVec.ofNat_add, ← BitVec.add_assoc]
  rfl

/-- The code stays where the memory stays the same. -/
theorem CodeAt.congr {m m' : Memory} : ∀ {ws : List (BitVec 32)} {a : Address},
    size ws ≤ 2 ^ 64 → (∀ x, Inside a (size ws) x → m x = m' x) →
      CodeAt m a ws → CodeAt m' a ws := by
  intro ws
  induction ws with
  | nil => intro a _ _ h; exact h
  | cons w ws ih =>
      intro a hsize hsame h
      rw [size_cons] at hsize hsame
      have hword : word m' a = word m a := by
        unfold word
        congr 1
        apply read_congr_inside (by omega)
        intro x hx
        exact (hsame x (by unfold Inside at hx ⊢; omega)).symm
      refine ⟨hword.trans h.1, ih (by omega) ?_ h.2⟩
      intro x hx
      exact hsame x (hx.of_sub 4 le_rfl hsize)

/-- A word in memory. -/
def wordBytes (w : BitVec 32) : List (BitVec 8) :=
  [w.extractLsb' 0 8, w.extractLsb' 8 8, w.extractLsb' 16 8, w.extractLsb' 24 8]

/-- The bytes of the words, the low one first. -/
def bytes (ws : List (BitVec 32)) : List (BitVec 8) := ws.flatMap wordBytes

@[simp] theorem length_bytes (ws : List (BitVec 32)) : (bytes ws).length = size ws := by
  induction ws with
  | nil => rfl
  | cons w ws ih =>
      rw [size_cons, ← ih]
      simp only [bytes, wordBytes, List.flatMap_cons, List.length_append, List.length_cons,
        List.length_nil]

/-- Four bytes in memory are a word. -/
theorem word_of_bytes {m : Memory} {a : Address} {w : BitVec 32}
    (h : ∀ i < 4, m (a + BitVec.ofNat 64 i) = w.extractLsb' (8 * i) 8) : word m a = w := by
  have h0 := congrArg BitVec.toNat (h 0 (by omega))
  have h1 := congrArg BitVec.toNat (h 1 (by omega))
  have h2 := congrArg BitVec.toNat (h 2 (by omega))
  have h3 := congrArg BitVec.toNat (h 3 (by omega))
  simp only [BitVec.extractLsb'_toNat, Nat.shiftRight_eq_div_pow] at h0 h1 h2 h3
  have hread : read m a 4 = (m (a + BitVec.ofNat 64 0)).toNat + 256 *
      ((m (a + BitVec.ofNat 64 1)).toNat + 256 * ((m (a + BitVec.ofNat 64 2)).toNat + 256 *
        ((m (a + BitVec.ofNat 64 3)).toNat + 256 * 0))) := by
    have e0 : a + BitVec.ofNat 64 0 = a := by bv_omega
    have e2 : a + BitVec.ofNat 64 2 = a + 1 + 1 := by bv_omega
    have e3 : a + BitVec.ofNat 64 3 = a + 1 + 1 + 1 := by bv_omega
    rw [e0, e2, e3]
    rfl
  have hw := w.isLt
  have htotal : read m a 4 = w.toNat := by
    rw [hread, h0, h1, h2, h3]
    omega
  rw [word, htotal, BitVec.ofNat_toNat, BitVec.setWidth_eq]

/-- What was copied to an address is the code there. -/
theorem codeAt_copy {m m' : Memory} : ∀ {ws : List (BitVec 32)} {a : Address},
    size ws ≤ 2 ^ 64 → (∀ x, Inside a (size ws) x → m' x = copy m a (bytes ws) x) →
      CodeAt m' a ws := by
  intro ws
  induction ws with
  | nil => intro a _ _; trivial
  | cons w ws ih =>
      intro a hsize hcopy
      have hlen : (bytes (w :: ws)).length = 4 + size ws := by rw [length_bytes, size_cons]
      rw [size_cons] at hsize hcopy
      have hat : ∀ i (hi : i < (bytes (w :: ws)).length),
          m' (a + BitVec.ofNat 64 i) = (bytes (w :: ws))[i] := by
        intro i hi
        rw [hcopy _ (inside_offset a (by omega) hsize), copy_offset m a hi (by omega)]
      refine ⟨word_of_bytes fun i hi => ?_, ih (by omega) fun x hx => ?_⟩
      · rw [hat i (by omega)]
        obtain rfl | rfl | rfl | rfl : i = 0 ∨ i = 1 ∨ i = 2 ∨ i = 3 := by omega
        all_goals rfl
      · obtain ⟨i, hi, rfl⟩ := hx.offset
        rw [copy_offset m (a + 4) (by rw [length_bytes]; exact hi)
          (by rw [length_bytes]; omega)]
        have hshift : a + 4 + BitVec.ofNat 64 i = a + BitVec.ofNat 64 (4 + i) := by
          rw [BitVec.ofNat_add, ← BitVec.add_assoc]
          rfl
        rw [hshift, hat (4 + i) (by omega)]
        simp only [bytes, List.flatMap_cons]
        rw [List.getElem_append_right (by show 4 ≤ 4 + i; omega)]
        congr 1
        show 4 + i - 4 = i
        omega

/-- A literal of 64 bits is two words. -/
theorem read_literal {m : Memory} {a : Address} {value : BitVec 64}
    (hlow : word m a = value.setWidth 32)
    (hhigh : word m (a + 4) = (value >>> 32).setWidth 32) :
    BitVec.ofNat 64 (read m a 8) = value := by
  have hlow' : read m a 4 = value.toNat % 2 ^ 32 := by
    have h := congrArg BitVec.toNat hlow
    have hlt := read_lt m 4 a
    rw [word, BitVec.toNat_ofNat, BitVec.toNat_setWidth, Nat.mod_eq_of_lt (by omega)] at h
    exact h
  have hhigh' : read m (a + 4) 4 = value.toNat / 2 ^ 32 := by
    have h := congrArg BitVec.toNat hhigh
    have hlt := read_lt m 4 (a + 4)
    have hvalue := value.isLt
    rw [word, BitVec.toNat_ofNat, BitVec.toNat_setWidth, BitVec.toNat_ushiftRight,
      Nat.shiftRight_eq_div_pow, Nat.mod_eq_of_lt (by omega), Nat.mod_eq_of_lt (by omega)] at h
    exact h
  have hread : read m a 8 = value.toNat := by
    have hsplit : read m a 8 = _ := read_add m 4 4 a
    have hoffset : a + BitVec.ofNat 64 4 = a + 4 := rfl
    rw [hoffset, hlow', hhigh'] at hsplit
    omega
  rw [hread, BitVec.ofNat_toNat, BitVec.setWidth_eq]

end A64
