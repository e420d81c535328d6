/-
# The entry of a hooked function

The first instructions of a hooked function, its window, are overwritten.  Their rewrites stand
in `enter`, one behind the other, and behind them a jump back to the rest of the function.  A
run that starts at `enter` does there what a run at the function would have done.
-/
import Mathlib.Logic.Relation
import LiuHookWorld.A64Relocation

namespace ShadowHook

open ByteMemory A64

/-! ## The words in `enter` -/

/-- The information that `sh_inst_hook_rewrite` passes to the rewrites. -/
def rewrite_info (target_addr enter_addr : Address) (insts : List (BitVec 32)) : RewriteInfo where
  start_addr := target_addr
  end_addr := target_addr + BitVec.ofNat 64 (size insts)
  buf := enter_addr
  inst_lens := insts.map sh_a64_get_rewrite_inst_len

/-- The rewrites of the instructions from `pc` on. -/
def rewrites (rinfo : RewriteInfo) : Address → List (BitVec 32) → Option (List (BitVec 32))
  | _, [] => some []
  | pc, inst :: insts =>
      (sh_a64_rewrite inst pc rinfo).bind fun us =>
        (rewrites rinfo (pc + 4) insts).map (us ++ ·)

/-- The length of the first `i` rewrites. -/
def rewritten (insts : List (BitVec 32)) (i : ℕ) : ℕ :=
  ((insts.map sh_a64_get_rewrite_inst_len).take i).sum

theorem rewritten_succ {insts : List (BitVec 32)} {i : ℕ} {inst : BitVec 32}
    (hi : insts[i]? = some inst) :
    rewritten insts (i + 1) = rewritten insts i + sh_a64_get_rewrite_inst_len inst := by
  unfold rewritten
  rw [List.take_add_one, List.getElem?_map, hi, Option.map_some, Option.toList_some,
    List.sum_append, List.sum_singleton]

theorem rewrites_getElem {rinfo : RewriteInfo} {inst : BitVec 32} :
    ∀ {insts ws : List (BitVec 32)} {pc : Address} {i : ℕ},
      rewrites rinfo pc insts = some ws → insts[i]? = some inst →
        ∃ before us behind, ws = before ++ us ++ behind ∧ size before = rewritten insts i ∧
          sh_a64_rewrite inst (pc + BitVec.ofNat 64 (4 * i)) rinfo = some us := by
  intro insts
  induction insts with
  | nil => intro ws pc i _ hi; simp at hi
  | cons head insts ih =>
      intro ws pc i h hi
      obtain ⟨us, hus, hrest⟩ := Option.bind_eq_some_iff.mp h
      obtain ⟨rest, htail, rfl⟩ := Option.map_eq_some_iff.mp hrest
      cases i with
      | zero =>
          obtain rfl : head = inst := by simpa using hi
          refine ⟨[], us, rest, rfl, rfl, ?_⟩
          rw [Nat.mul_zero, BitVec.add_zero]
          exact hus
      | succ i =>
          obtain ⟨before, vs, behind, rfl, hsize, hvs⟩ := ih htail (by simpa using hi)
          refine ⟨us ++ before, vs, behind, by simp only [List.append_assoc], ?_, ?_⟩
          · rw [size_append, hsize, size_rewrite hus]
            rfl
          · rw [← add_four_mul]
            exact hvs

theorem size_rewrites {rinfo : RewriteInfo} :
    ∀ {insts ws : List (BitVec 32)} {pc : Address},
      rewrites rinfo pc insts = some ws → size ws = rewritten insts insts.length := by
  intro insts
  induction insts with
  | nil =>
      intro ws pc h
      obtain rfl : [] = ws := Option.some.inj h
      rfl
  | cons head insts ih =>
      intro ws pc h
      obtain ⟨us, hus, hrest⟩ := Option.bind_eq_some_iff.mp h
      obtain ⟨rest, htail, rfl⟩ := Option.map_eq_some_iff.mp hrest
      rw [size_append, size_rewrite hus, ih htail]
      rfl

/-- A rewrite is at most seven words long. -/
theorem rewrite_inst_len_le (inst : BitVec 32) : sh_a64_get_rewrite_inst_len inst ≤ 28 := by
  unfold sh_a64_get_rewrite_inst_len
  split <;> decide

theorem rewritten_le (insts : List (BitVec 32)) (i : ℕ) : rewritten insts i ≤ 28 * i := by
  induction i generalizing insts with
  | zero => exact le_refl 0
  | succ i ih =>
      cases insts with
      | nil => exact Nat.zero_le _
      | cons inst insts =>
          have hhead := rewrite_inst_len_le inst
          have htail := ih insts
          have hcons : rewritten (inst :: insts) (i + 1)
              = sh_a64_get_rewrite_inst_len inst + rewritten insts i := rfl
          omega

/-! ## Windows -/

/-- A window whose rewrite succeeded. -/
structure Window where
  target : Address
  enter : Address
  insts : List (BitVec 32)
  words : List (BitVec 32)
  /-- `backup_len` is 4 or 16. -/
  short : insts.length ≤ 4
  /-- It does not end beyond the last address. -/
  fits : target.toNat + size insts < 2 ^ 64
  rewrites_eq : rewrites (rewrite_info target enter insts) target insts = some words

namespace Window

variable (w : Window)

def rinfo : RewriteInfo := rewrite_info w.target w.enter w.insts

/-- The address of its `i`-th instruction. -/
def pc (i : ℕ) : Address := w.target + BitVec.ofNat 64 (4 * i)

/-- Where the rewrite of its `i`-th instruction starts. -/
def entry (i : ℕ) : Address := w.enter + BitVec.ofNat 64 (rewritten w.insts i)

/-- Everything that `sh_inst_hook_rewrite` stores to `enter`. -/
def code : List (BitVec 32) :=
  w.words ++ sh_a64_absolute_jump_with_ret (w.pc w.insts.length)

theorem pc_succ (i : ℕ) : w.pc (i + 1) = w.pc i + 4 := by
  unfold pc
  rw [← add_four_mul, BitVec.add_assoc, BitVec.add_comm 4, ← BitVec.add_assoc]

theorem toNat_pc {i : ℕ} (hi : i ≤ w.insts.length) :
    (w.pc i).toNat = w.target.toNat + 4 * i := by
  have hfits := w.fits
  unfold size at hfits
  unfold pc
  rw [BitVec.toNat_add, BitVec.toNat_ofNat, Nat.mod_eq_of_lt (a := 4 * i) (by omega),
    Nat.mod_eq_of_lt (by omega)]

/-- The addresses that have to be fixed are those of the window. -/
theorem need_fix_iff {addr : Address} : sh_a64_is_addr_need_fix addr w.rinfo ↔
    w.target.toNat ≤ addr.toNat ∧ addr.toNat < w.target.toNat + size w.insts := by
  have hend := w.toNat_pc (le_refl w.insts.length)
  have hend' : w.rinfo.end_addr = w.pc w.insts.length := rfl
  unfold sh_a64_is_addr_need_fix
  rw [Bool.and_eq_true, decide_eq_true_iff, decide_eq_true_iff, hend', BitVec.le_def,
    BitVec.lt_def, hend]
  rfl

theorem need_fix_pc {i : ℕ} (hi : i < w.insts.length) :
    sh_a64_is_addr_need_fix (w.pc i) w.rinfo := by
  rw [need_fix_iff, w.toNat_pc (by omega)]
  unfold size
  omega

theorem fix_offset_eq (addr : Address) :
    ∀ {lens : List ℕ} {cursor_addr : Address} {offset j : ℕ}, j < lens.length →
      addr.toNat = cursor_addr.toNat + 4 * j → fix_offset addr cursor_addr offset lens
        = offset + (lens.take j).sum := by
  intro lens
  induction lens with
  | nil => intro cursor_addr offset j hj; simp at hj
  | cons len lens ih =>
      intro cursor_addr offset j hj haddr
      have hlt := addr.isLt
      unfold fix_offset
      cases j with
      | zero =>
          have hreached : cursor_addr ≥ addr := by
            rw [ge_iff_le, BitVec.le_def]
            omega
          rw [if_pos hreached]
          rfl
      | succ j =>
          have hbefore : ¬ cursor_addr ≥ addr := by
            rw [ge_iff_le, BitVec.le_def]
            omega
          have hnext : addr.toNat = (cursor_addr + 4).toNat + 4 * j := by
            rw [BitVec.toNat_add, show (4 : BitVec 64).toNat = 4 from rfl,
              Nat.mod_eq_of_lt (by omega)]
            omega
          rw [if_neg hbefore, ih (by simpa using hj) hnext, List.take_succ_cons, List.sum_cons]
          omega

/-- An address in the window is fixed to the rewrite of the instruction there. -/
theorem fix_addr_pc {i : ℕ} (hi : i < w.insts.length) :
    sh_a64_fix_addr (w.pc i) w.rinfo = w.entry i := by
  have hlen : i < (w.insts.map sh_a64_get_rewrite_inst_len).length := by
    rw [List.length_map]
    exact hi
  unfold sh_a64_fix_addr
  rw [if_pos (w.need_fix_pc hi)]
  congr 2
  have hfix : fix_offset (w.pc i) w.target 0 _ = 0 + _ :=
    fix_offset_eq (w.pc i) hlen (w.toNat_pc (by omega))
  rw [Nat.zero_add] at hfix
  exact hfix

/-- The places that correspond: an instruction and its rewrite, or one address outside. -/
def Moved (pc q : Address) : Prop :=
  (∃ i ≤ w.insts.length, pc = w.pc i ∧ q = w.entry i) ∨
    ¬ sh_a64_is_addr_need_fix pc w.rinfo ∧ q = pc

/-- What two runs do next corresponds. -/
def MovedNext : Next → Next → Prop
  | .seq, .seq => True
  | .label a, .label b => a = b
  | .reg a, .reg b => w.Moved a b
  | _, _ => False

section

variable (other : Others)

/-- A step of the function that was not hooked, in its window. -/
inductive Step : State → State → Prop
  | at {i : ℕ} {inst : BitVec 32} (hi : w.insts[i]? = some inst) (c : Core) :
      Step ⟨c, w.pc i⟩ ⟨(exec other (decode inst) (w.pc i) c).1,
        (exec other (decode inst) (w.pc i) c).2.pc (w.pc i)⟩

/-- A relation between the cores of the function and those of the hooked one.  No instruction of
the window can tell them apart, and neither `X17` nor the 16 bytes below `SP` belong to it. -/
structure Indistinguishable (R : Core → Core → Prop) : Prop where
  code : ∀ {c d}, R c d → CodeAt d.mem w.enter w.code
  scratch : ∀ {c d} (value : BitVec 64), R c d → R c (d.setX 17 value)
  spill : ∀ {c d i inst}, w.insts[i]? = some inst → spills (decode inst) → R c d →
    StackApart d w.enter w.code (decode inst) (w.pc i) ∧ R c { d with mem := (spill d).mem }
  link : ∀ {c d i inst}, w.insts[i]? = some inst → (decode inst).links → R c d →
    R (c.setX 30 (w.pc (i + 1))) (d.setX 30 (w.entry (i + 1)))
  core : ∀ {c d i inst}, w.insts[i]? = some inst → ¬ (decode inst).links → R c d →
    R (exec other (decode inst) (w.pc i) c).1 (exec other (decode inst) (w.pc i) d).1
  next : ∀ {c d i inst}, w.insts[i]? = some inst → R c d →
    w.MovedNext (exec other (decode inst) (w.pc i) c).2
      (exec other (decode inst) (w.pc i) d).2

end

variable {w}
variable {other : Others} {R : Core → Core → Prop}
  {c d : Core} {i : ℕ} {inst : BitVec 32}

/-- A branch goes from its own address on by a multiple of 4. -/
theorem exec_to {pc a : Address} (h : (exec other (decode inst) pc c).2 = .label a) :
    ∃ k : BitVec 64, a = pc + k <<< 2 := by
  have hto : ∀ {offset : BitVec 64} {taken : Prop} [Decidable taken],
      (if taken then Next.label (pc + offset) else .seq) = .label a → a = pc + offset := by
    intro offset taken _ h
    split at h
    · exact (Next.label.inj h).symm
    · cases h
  rw [decode_eq_instr] at h
  cases htype : sh_a64_get_type inst
  all_goals rw [htype] at h
  case IGNORED =>
    refine decodeBase_cases (P := fun i => (exec other i pc c).2 = .label a →
      ∃ k : BitVec 64, a = pc + k <<< 2) inst ?_ ?_ ?_ ?_ ?_ ?_ h
    case refine_6 =>
      intro h
      cases hother : (other inst pc c).2
      all_goals
        simp only [exec, hother, Option.elim] at h
        cases h
    all_goals
      intros
      rename_i h
      cases h
  case B => exact ⟨_, (Next.label.inj h).symm⟩
  case BL => exact ⟨_, (Next.label.inj h).symm⟩
  case B_COND => exact ⟨_, hto h⟩
  case CBZ => exact ⟨_, hto h⟩
  case CBNZ => exact ⟨_, hto h⟩
  case TBZ => exact ⟨_, hto h⟩
  case TBNZ => exact ⟨_, hto h⟩
  all_goals cases h

/-- The fixed address of a branch in the window is the place that corresponds. -/
theorem moved_fix {a : Address} {k : BitVec 64} (hi : i < w.insts.length)
    (ha : a = w.pc i + k <<< 2) : w.Moved a (sh_a64_fix_addr a w.rinfo) := by
  by_cases hfix : sh_a64_is_addr_need_fix a w.rinfo
  · obtain ⟨hlow, hhigh⟩ := w.need_fix_iff.mp hfix
    have hpc := w.toNat_pc (Nat.le_of_lt hi)
    have hmod : (a.toNat - w.target.toNat) % 4 = 0 := by
      have hadd := congrArg BitVec.toNat ha
      rw [BitVec.toNat_add, BitVec.toNat_shiftLeft, hpc, Nat.shiftLeft_eq] at hadd
      omega
    have hj : (a.toNat - w.target.toNat) / 4 < w.insts.length := by
      unfold size at hhigh
      omega
    have heq : a = w.pc ((a.toNat - w.target.toNat) / 4) := by
      apply BitVec.eq_of_toNat_eq
      rw [w.toNat_pc (Nat.le_of_lt hj)]
      omega
    refine .inl ⟨_, Nat.le_of_lt hj, heq, ?_⟩
    rw [heq, w.fix_addr_pc (heq ▸ hj)]
    exact congrArg w.entry (congrArg (fun x : Address => (x.toNat - w.target.toNat) / 4) heq)
  · exact .inr ⟨hfix, fix_addr_of_not hfix⟩

theorem exec_link (pc : Address) (h : (decode inst).links) :
    (exec other (decode inst) pc c).1 = c.setX 30 (pc + 4) := by
  cases hdecode : decode inst
  all_goals rw [hdecode] at h
  case bl => rfl
  case blr => rfl
  all_goals cases h

/-- A load of a literal does not see the spilled registers. -/
theorem exec_spill {pc : Address} (hspills : spills (decode inst))
    (hstack : StackApart d w.enter w.code (decode inst) pc) :
    (exec other (decode inst) pc { d with mem := (spill d).mem }).1
      = { (exec other (decode inst) pc d).1 with mem := (spill d).mem } := by
  generalize decode inst = instr at hspills hstack
  cases instr
  case ldrLit access rt offset =>
    have hapart := (hstack access rt offset rfl hspills).2
    have hbytes := Access.bytes_le access
    have hread := read_spill hapart (by omega)
    generalize (spill d).mem = m at hread ⊢
    cases access
    case w => cases hspills
    case x => cases hspills
    case sw => cases hspills
    case prfm => rfl
    all_goals
      simp only [Access.bytes] at hread
      simp only [exec, Core.access, hread, Core.setV]
  all_goals cases hspills

theorem exec_spill_next (other : Others) (d : Core)
    (pc : Address) (hspills : spills (decode inst)) :
    ¬ (decode inst).links ∧ (exec other (decode inst) pc d).2 = .seq := by
  generalize decode inst = instr at hspills
  cases instr
  case ldrLit access rt offset => exact ⟨by simp [Instr.links], rfl⟩
  all_goals cases hspills

/-- The code of one instruction in `enter`. -/
theorem code_entry (hi : w.insts[i]? = some inst) {m : Memory} (hcode : CodeAt m w.enter w.code) :
    ∃ us, sh_a64_rewrite inst (w.pc i) w.rinfo = some us ∧ CodeAt m (w.entry i) us ∧
      w.entry i + BitVec.ofNat 64 (size us) = w.entry (i + 1) ∧
        rewritten w.insts i + size us ≤ size w.code := by
  obtain ⟨before, us, behind, hwords, hsize, hus⟩ := rewrites_getElem w.rewrites_eq hi
  have hentry : w.entry i = w.enter + BitVec.ofNat 64 (size before) := by
    rw [hsize]
    rfl
  refine ⟨us, hus, ?_, ?_, ?_⟩
  · rw [code, hwords, List.append_assoc, List.append_assoc] at hcode
    rw [hentry]
    exact (codeAt_append.mp (codeAt_append.mp hcode).2).1
  · unfold entry
    rw [rewritten_succ hi, ← size_rewrite hus, BitVec.ofNat_add, ← BitVec.add_assoc]
  · rw [code, hwords, size_append, size_append, size_append, hsize]
    omega

/-- It fits into the 256 bytes of an `enter`. -/
theorem size_code_le (w : Window) : size w.code ≤ 128 := by
  have hshort := w.short
  have hwords := size_rewrites w.rewrites_eq
  have hle := rewritten_le w.insts w.insts.length
  rw [code, size_append, hwords]
  have hjump : size (sh_a64_absolute_jump_with_ret (w.pc w.insts.length)) = 16 := rfl
  omega

/-- The effect of a rewrite on the registers and the memory. -/
theorem Indistinguishable.relocated_core (h : w.Indistinguishable other R)
    (hi : w.insts[i]? = some inst) (hR : R c d) :
    R (exec other (decode inst) (w.pc i) c).1
      (relocated other w.rinfo (w.entry (i + 1)) (decode inst) (w.pc i) d).core := by
  by_cases hspills : spills (decode inst)
  · obtain ⟨hstack, hspilled⟩ := h.spill hi hspills hR
    obtain ⟨hlinks, hnext⟩ := exec_spill_next other d (w.pc i) hspills
    have hcore := h.core hi hlinks hspilled
    rw [exec_spill hspills hstack] at hcore
    simp only [relocated, hnext, if_neg hlinks, if_pos hspills]
    exact hcore
  · have hcore : R (exec other (decode inst) (w.pc i) c).1
        (if (decode inst).links then
          (exec other (decode inst) (w.pc i) d).1.setX 30 (w.entry (i + 1))
        else (exec other (decode inst) (w.pc i) d).1) := by
      split
      · rename_i hlinks
        have hlink := h.link hi hlinks hR
        rw [w.pc_succ] at hlink
        rw [exec_link _ hlinks, exec_link _ hlinks, Core.setX_setX]
        exact hlink
      · rename_i hlinks
        exact h.core hi hlinks hR
    simp only [relocated, if_neg hspills]
    cases (exec other (decode inst) (w.pc i) d).2 with
    | seq => exact hcore
    | label a => exact h.scratch _ hcore
    | reg a => exact hcore

theorem Indistinguishable.relocated_pc (h : w.Indistinguishable other R)
    (hi : w.insts[i]? = some inst) (hR : R c d) :
    w.Moved ((exec other (decode inst) (w.pc i) c).2.pc (w.pc i))
      (relocated other w.rinfo (w.entry (i + 1)) (decode inst) (w.pc i) d).pc := by
  have hlt : i < w.insts.length := (List.getElem?_eq_some_iff.mp hi).1
  have hnext := h.next hi hR
  simp only [relocated]
  cases hc : (exec other (decode inst) (w.pc i) c).2
  all_goals
    cases hd : (exec other (decode inst) (w.pc i) d).2
    all_goals rw [hc, hd] at hnext
  case seq.seq => exact .inl ⟨i + 1, hlt, (w.pc_succ i).symm, rfl⟩
  case label.label a b =>
    obtain ⟨k, ha⟩ := exec_to hc
    obtain rfl : a = b := hnext
    exact moved_fix hlt ha
  case reg.reg a b => exact hnext
  all_goals exact hnext.elim

/-- One instruction of the window, and its rewrite. -/
theorem Indistinguishable.move (h : w.Indistinguishable other R) {s t : State} {q : Address}
    (hmovable : ∀ inst ∈ w.insts, Movable other inst) (hstep : w.Step other s t)
    (hR : R s.core d) (hq : w.Moved s.pc q) :
    ∃ d' q', Reaches other ⟨d, q⟩ ⟨d', q'⟩ ∧ R t.core d' ∧ w.Moved t.pc q' := by
  obtain ⟨hi, c⟩ := hstep
  rename_i i inst
  have hlt : i < w.insts.length := (List.getElem?_eq_some_iff.mp hi).1
  have hentry : q = w.entry i := by
    rcases hq with ⟨j, hj, hpc, hentry⟩ | ⟨houtside, -⟩
    · have hsame := congrArg BitVec.toNat hpc
      rw [w.toNat_pc hj, w.toNat_pc (Nat.le_of_lt hlt)] at hsame
      obtain rfl : i = j := by omega
      exact hentry
    · exact absurd (w.need_fix_pc hlt) houtside
  obtain ⟨us, hus, hcode, hback, hsize⟩ := code_entry hi (h.code hR)
  have hsmall := w.size_code_le
  have hstack : StackApart d (w.entry i) us (decode inst) (w.pc i) := by
    intro access rt offset hload hspills
    obtain ⟨hstack, hliteral⟩ := (h.spill hi hspills hR).1 access rt offset hload hspills
    refine ⟨hstack.mono (fun _ => id) fun x hx => ?_, hliteral⟩
    exact hx.of_sub (rewritten w.insts i) hsize (by omega)
  have hrun := rewrite_relocates other w.rinfo inst (w.pc i) (w.entry i) d us
    (hmovable inst (List.mem_of_getElem? hi)) hus hcode hstack
  rw [hback] at hrun
  rw [hentry]
  exact ⟨_, _, hrun, h.relocated_core hi hR, h.relocated_pc hi hR⟩

/-- The end of `enter` leads back to the rest of the function. -/
theorem Indistinguishable.jump_back (h : w.Indistinguishable other R) (hR : R c d) :
    ∃ d', Reaches other ⟨d, w.entry w.insts.length⟩ ⟨d', w.pc w.insts.length⟩ ∧ R c d' := by
  have hsize := size_rewrites w.rewrites_eq
  have hjump := (codeAt_append.mp (h.code hR)).2
  rw [hsize] at hjump
  exact ⟨_, absolute_jump _ (.inr decode_ret_x17) hjump, h.scratch _ hR⟩

/-- A run through the window is followed in `enter`. -/
theorem Indistinguishable.follow (h : w.Indistinguishable other R) {s t : State} {q : Address}
    (hmovable : ∀ inst ∈ w.insts, Movable other inst)
    (hrun : Relation.ReflTransGen (w.Step other) s t) (hR : R s.core d) (hq : w.Moved s.pc q) :
    ∃ d' q', Reaches other ⟨d, q⟩ ⟨d', q'⟩ ∧ R t.core d' ∧ w.Moved t.pc q' := by
  induction hrun with
  | refl => exact ⟨d, q, .refl _, hR, hq⟩
  | tail _ hstep ih =>
      obtain ⟨d', q', hreach, hR', hq'⟩ := ih
      obtain ⟨d'', q'', hreach', hR'', hq''⟩ := h.move hmovable hstep hR' hq'
      exact ⟨d'', q'', hreach.trans hreach', hR'', hq''⟩

/-- A run of the function from a place in its window until it leaves the window is one of the
hooked function from the corresponding place, and both leave it to the same address, if no word of
the window is copied and uses its address. -/
theorem enter_follows (w : Window) (other : Others) (R : Core → Core → Prop)
    (h : w.Indistinguishable other R) (hmovable : ∀ inst ∈ w.insts, Movable other inst) (i : ℕ)
    (hi : i ≤ w.insts.length) (c d : Core) (t : State) (hR : R c d)
    (hrun : Relation.ReflTransGen (w.Step other) ⟨c, w.pc i⟩ t)
    (hleft : ¬ sh_a64_is_addr_need_fix t.pc w.rinfo) :
    ∃ d', Reaches other ⟨d, w.entry i⟩ ⟨d', t.pc⟩ ∧ R t.core d' := by
  obtain ⟨d', q', hreach, hR', hq'⟩ := h.follow hmovable hrun hR (.inl ⟨i, hi, rfl, rfl⟩)
  rcases hq' with ⟨j, hj, hpc, rfl⟩ | ⟨-, rfl⟩
  · obtain rfl : j = w.insts.length := by
      by_contra hne
      exact hleft (hpc ▸ w.need_fix_pc (by omega))
    obtain ⟨d'', hback, hR''⟩ := h.jump_back hR'
    rw [hpc]
    exact ⟨d'', hreach.trans hback, hR''⟩
  · exact ⟨d', hreach, hR'⟩

/-- The window is `CBZ X0, #8`. -/
theorem enter_follows_cbz :
    ∃ ws, rewrites (rewrite_info 0x1000 0x2000 [0xB4000040]) 0x1000 [0xB4000040] = some ws ∧
      ∃ d', Reaches (fun _ _ c => (c, none))
        ⟨⟨fun _ => 0, 0, fun _ => 0, copy (fun _ => 0) 0x2000
          (bytes (ws ++ sh_a64_absolute_jump_with_ret 0x1004))⟩, 0x2000⟩ ⟨d', 0x1008⟩ ∧
        ∀ r, r ≠ 17 → d'.x r = 0 := by
  have hrewrites : rewrites (rewrite_info 0x1000 0x2000 [0xB4000040]) 0x1000 [0xB4000040]
      = some [0xB4000040, 0x14000005, 0x58000051, 0xD61F0220, 0x1008, 0] := by decide
  have hleft : ¬ sh_a64_is_addr_need_fix 0x1008 (rewrite_info 0x1000 0x2000 [0xB4000040]) := by
    decide
  let w : Window := ⟨0x1000, 0x2000, [0xB4000040], _, by decide, by decide, hrewrites⟩
  let R : Core → Core → Prop := fun c d => CodeAt d.mem w.enter w.code ∧ d.nzcv = c.nzcv ∧
    ∀ r, r ≠ 17 → d.x r = c.x r
  have hdecode : decode 0xB4000040 = .cb true false 0 8 := by decide
  have hinst : ∀ {i : ℕ} {inst : BitVec 32}, w.insts[i]? = some inst → inst = 0xB4000040 := by
    intro i inst hi
    cases i with
    | zero => exact (Option.some.inj hi).symm
    | succ i => simp [w] at hi
  have hscratch : ∀ {c d : Core} (value : BitVec 64), R c d → R c (d.setX 17 value) := by
    rintro c d value ⟨hcode, hnzcv, hx⟩
    refine ⟨by rw [Core.setX_mem]; exact hcode, ?_, ?_⟩
    · unfold Core.setX
      exact hnzcv
    · intro r hr
      rw [← hx r hr]
      exact Function.update_of_ne hr value d.x
  let c : Core := ⟨fun _ => 0, 0, fun _ => 0, copy (fun _ => 0) 0x2000 (bytes w.code)⟩
  have hcode : CodeAt c.mem w.enter w.code :=
    codeAt_copy (m := fun _ => 0) (le_trans w.size_code_le (by omega)) fun _ _ => rfl
  have hR : w.Indistinguishable (fun _ _ c => (c, none)) R :=
    { code := fun h => h.1
      scratch := hscratch
      spill := by
        intro c d i inst hi hspills
        rw [hinst hi, hdecode] at hspills
        cases hspills
      link := by
        intro c d i inst hi hlinks
        rw [hinst hi, hdecode] at hlinks
        cases hlinks
      core := by
        intro c d i inst hi _ h
        rw [hinst hi, hdecode]
        exact h
      next := by
        rintro c d i inst hi ⟨-, -, hx⟩
        rw [hinst hi, hdecode]
        have h0 : d.readX 0 = c.readX 0 := hx 0 (by decide)
        simp only [exec, h0, reduceIte]
        split
        · exact rfl
        · trivial }
  have hstep : w.Step (fun _ _ c => (c, none)) ⟨c, w.pc 0⟩ ⟨c, 0x1008⟩ := by
    have h : w.Step (fun _ _ c => (c, none)) ⟨c, w.pc 0⟩ _ := .at (i := 0) rfl c
    rw [hdecode] at h
    exact h
  obtain ⟨d', hreach, hR'⟩ := enter_follows w _ R hR (fun _ _ _ _ _ _ _ => rfl) 0
    (Nat.zero_le _) c c _ ⟨hcode, rfl, fun _ _ => rfl⟩ (.single hstep) hleft
  exact ⟨_, hrewrites, d', hreach, hR'.2.2⟩

end Window

end ShadowHook
