/-
# Runs of hooked functions

Functions of several libraries are hooked and unhooked, while the program writes to the rest of
the memory.  The pieces of the two managers, the exits in the gaps of the libraries and the
heads of the functions are all parts of one memory.
-/
import LiuHookWorld.InstPieces

namespace ShadowHook

open ByteMemory A64

/-! ## The system -/

/-- A function that is hooked. -/
structure HookedFunction where
  target_addr : ℕ
  new_addr : ℕ
  inst : Inst
deriving DecidableEq

/-- The memory is `orig` but for the hooks. -/
structure Insts (page : PageSize) where
  st : InstState page
  hooked : List HookedFunction
  orig : Memory

inductive InstAct (page : PageSize) where
  | hook (lib : ExitLibrary page.bytes) (target_addr dli_ssize new_addr : ℕ)
      (answers : HookAnswers)
  | unhook (h : HookedFunction) (answers : UnhookAnswers)
  | store (a : ℕ) (bytes : List (BitVec 8))

/-- `sh_inst_unhook` has written the instructions back, whether or not it freed the exit. -/
def restored : Option InstErrno → Bool
  | none => true
  | some .UNHOOK_EXIT_MISMATCH => true
  | some .EXIT_MPROT => true
  | some .UNHOOK_EXIT_CRASH => true
  | _ => false

/-- The system lets the head of a function be read and written. -/
def UnhookAnswers.AllowsHead (answers : UnhookAnswers) : Prop :=
  answers.cmp_crash = false ∧ answers.write.mprotect ∧ answers.write.crash = none

/-- The system lets a function be unhooked. -/
def UnhookAnswers.Allows (answers : UnhookAnswers) (inst : Inst) : Prop :=
  answers.AllowsHead ∧
    (inst.exit_addr ≠ 0 → inst.in_library →
      answers.library.faults inst.exit_addr = false ∧ answers.library.mprotect inst.exit_addr)

namespace Insts

variable {page : PageSize}

/-- `sh_inst_hook`, and the function is hooked. -/
def hook (s : Insts page) (lib : ExitLibrary page.bytes) (target_addr dli_ssize new_addr : ℕ)
    (answers : HookAnswers) : Option (Insts page × Except InstErrno Inst) :=
  (sh_inst_hook s.st target_addr lib.toExitInfo lib.elf_loaded_by_kernel dli_ssize new_addr
    answers).map fun out => ({
      s with
      st := out.1
      hooked :=
        match out.2 with
        | .ok inst => ⟨target_addr, new_addr, inst⟩ :: s.hooked
        | .error _ => s.hooked }, out.2)

/-- `sh_inst_unhook`, and the function is not hooked if its head was restored. -/
def unhook (s : Insts page) (h : HookedFunction) (answers : UnhookAnswers) :
    Option (Insts page × Option InstErrno) :=
  (sh_inst_unhook s.st h.inst h.target_addr answers).map fun out => ({
    s with
    st := out.1
    hooked := if restored out.2 then s.hooked.erase h else s.hooked }, out.2)

section

variable {s s' : Insts page} {lib : ExitLibrary page.bytes} {h : HookedFunction}
  {target_addr dli_ssize new_addr : ℕ}

theorem hooked_of_hook {answers : HookAnswers} {inst : Inst}
    (hhook : s.hook lib target_addr dli_ssize new_addr answers = some (s', .ok inst)) :
    s'.hooked = ⟨target_addr, new_addr, inst⟩ :: s.hooked := by
  obtain ⟨out, -, hout⟩ := Option.map_eq_some_iff.mp hhook
  obtain ⟨rfl, hresult⟩ := Prod.mk.inj hout
  simp only [hresult]

theorem hooked_of_hook_error {answers : HookAnswers} {e : InstErrno}
    (hhook : s.hook lib target_addr dli_ssize new_addr answers = some (s', .error e)) :
    s'.hooked = s.hooked := by
  obtain ⟨out, -, hout⟩ := Option.map_eq_some_iff.mp hhook
  obtain ⟨rfl, hresult⟩ := Prod.mk.inj hout
  simp only [hresult]

theorem hooked_of_unhook {answers : UnhookAnswers} {r : Option InstErrno}
    (hunhook : s.unhook h answers = some (s', r)) :
    s'.hooked = if restored r then s.hooked.erase h else s.hooked := by
  obtain ⟨out, -, hout⟩ := Option.map_eq_some_iff.mp hunhook
  obtain rfl := congrArg Prod.fst hout
  obtain rfl := congrArg Prod.snd hout
  rfl

end

def step (s : Insts page) : InstAct page → Option (Insts page)
  | .hook lib target_addr dli_ssize new_addr answers =>
      (s.hook lib target_addr dli_ssize new_addr answers).map Prod.fst
  | .unhook h answers => (s.unhook h answers).map Prod.fst
  | .store a bytes =>
      some {
        s with
        st := { s.st with mem := copy s.st.mem (BitVec.ofNat 64 a) bytes }
        orig := copy s.orig (BitVec.ofNat 64 a) bytes }

def start (page : PageSize) (m : Memory) : Insts page := ⟨⟨m, fun _ => [], false⟩, [], m⟩

/-- What a hook keeps to: the function is one of a library, no part of it is hooked, and `mmap`
returns pages that are not in use. -/
structure MayHook (libs : List (ExitLibrary page.bytes)) (s : Insts page)
    (lib : ExitLibrary page.bytes) (target_addr dli_ssize : ℕ) (answers : HookAnswers) :
    Prop where
  lib : lib ∈ libs
  aligned : 4 ∣ target_addr
  inSegment : InSegment libs target_addr dli_ssize
  range : SH_INST_A64_B_RANGE_HIGH ≤ UINTPTR_MAX - target_addr
  apart : ∀ h ∈ s.hooked, Separate target_addr dli_ssize h.target_addr h.inst.backup_len
  enter : ∀ p, answers.enter.new_ptr = some p → Fresh libs s.st p
  exit : ∀ p, answers.exit.new_ptr = some p → Fresh libs s.st p ∧
    ∀ q, answers.enter.new_ptr = some q → Separate p page.bytes q page.bytes
  with_exit : answers.with_exit.write.Whole
  without_exit : answers.without_exit.write.Whole

/-- What the system and the callers keep to.  The program does not write to the pages, the gaps
and the heads of hooked functions. -/
def Disciplined (libs : List (ExitLibrary page.bytes)) (s : Insts page) : InstAct page → Prop
  | .hook lib target_addr dli_ssize _ answers =>
      s.MayHook libs lib target_addr dli_ssize answers
  | .unhook h answers => h ∈ s.hooked ∧ answers.write.Whole
  | .store a bytes => a + bytes.length ≤ 2 ^ 64 ∧
      (∀ k, ∀ q ∈ s.st.pages k, Separate a bytes.length q.ptr page.bytes) ∧
      (∀ gap ∈ Exits.allGaps libs, Separate a bytes.length gap.start (gap.stop - gap.start)) ∧
      ∀ h ∈ s.hooked, Separate a bytes.length h.target_addr h.inst.backup_len

/-- A hooked function leads to the new one with nothing changed but `X17`, its original head is
in a window whose code stands in `enter`, and the rest of the memory is the original one. -/
structure Sound (libs : List (ExitLibrary page.bytes)) (s : Insts page) : Prop where
  redirects : ∀ h ∈ s.hooked, ∀ (other : Others) (c : Core),
    c.mem = s.st.mem → Reaches other ⟨c, BitVec.ofNat 64 h.target_addr⟩
      ⟨c.setX 17 (BitVec.ofNat 64 h.new_addr), BitVec.ofNat 64 h.new_addr⟩
  window : ∀ h ∈ s.hooked, ∃ w : Window, w.target = BitVec.ofNat 64 h.target_addr ∧
    w.enter = BitVec.ofNat 64 h.inst.enter_addr ∧ size w.insts = h.inst.backup_len ∧
    CodeAt s.orig w.target w.insts ∧ CodeAt s.st.mem w.enter w.code
  rest : ∀ x, (∀ k, ∀ q ∈ s.st.pages k, ¬ Inside (BitVec.ofNat 64 q.ptr) page.bytes x) →
    (∀ gap ∈ Exits.allGaps libs, ¬ Inside (BitVec.ofNat 64 gap.start) (gap.stop - gap.start) x) →
    (∀ h ∈ s.hooked, ¬ Inside (BitVec.ofNat 64 h.target_addr) h.inst.backup_len x) →
      s.st.mem x = s.orig x

/-- An unhook that waits for `sh_exit_lock`, which an earlier hook has kept. -/
def Waits (s : Insts page) (h : HookedFunction) (answers : UnhookAnswers) : Prop :=
  s.st.locked ∧ answers.AllowsHead ∧ h.inst.exit_addr ≠ 0 ∧ h.inst.in_library

/-- Unhooking returns unless it has to wait, it succeeds exactly if the system lets it, and the
jump and the exit that hooking stored are still there. -/
def Answers (s : Insts page) : Prop :=
  ∀ h ∈ s.hooked, ∀ answers : UnhookAnswers, answers.write.Whole →
    (sh_inst_unhook s.st h.inst h.target_addr answers = none ↔ s.Waits h answers) ∧
      ∀ out, sh_inst_unhook s.st h.inst h.target_addr answers = some out →
        (out.2 = none ↔ answers.Allows h.inst) ∧
          out.2 ≠ some .UNHOOK_TRAMPO_MISMATCH ∧ out.2 ≠ some .UNHOOK_EXIT_MISMATCH

end Insts

/-! ## Hooking -/

/-- The pieces that a hook holds. -/
def Inst.pieces (self : Inst) : List Piece :=
  .trampo .enter self.enter_addr ::
    if self.exit_addr = 0 then [] else [Ghost.exitPiece self.in_library self.exit_addr]

/-- What the head of a hooked function is. -/
inductive Jumps (target_addr new_addr : ℕ) (inst : Inst) : Prop
  | with_exit (pos : 0 < inst.exit_addr)
      (trampo : inst.trampo = sh_a64_relative_jump (BitVec.ofNat 64 inst.exit_addr)
        (BitVec.ofNat 64 target_addr))
      (exit : inst.exit = bytes (sh_a64_absolute_jump_with_br (BitVec.ofNat 64 new_addr)))
      (low : target_addr ≤ inst.exit_addr + SH_INST_A64_B_RANGE_LOW)
      (high : inst.exit_addr ≤ target_addr + SH_INST_A64_B_RANGE_HIGH)
      (aligned : 4 ∣ inst.exit_addr)
  | without_exit (none : inst.exit_addr = 0)
      (trampo : inst.trampo = sh_a64_absolute_jump_with_br (BitVec.ofNat 64 new_addr))

/-- A hook holds its pieces.  `m` has the function as it was. -/
structure Holds {page : PageSize} (m : Memory) (g : Ghost page) (h : HookedFunction) : Prop where
  jumps : Jumps h.target_addr h.new_addr h.inst
  backup : h.inst.backup = load m (BitVec.ofNat 64 h.target_addr) (size h.inst.trampo)
  exit : h.inst.exit_addr ≠ 0 →
    g.Has (Ghost.exitPiece h.inst.in_library h.inst.exit_addr) h.inst.exit
  enter : ∃ (w : Window) (code : List (BitVec 8)),
    w.target = BitVec.ofNat 64 h.target_addr ∧ w.enter = BitVec.ofNat 64 h.inst.enter_addr ∧
      size w.insts = h.inst.backup_len ∧ CodeAt m w.target w.insts ∧
      g.Has (.trampo .enter h.inst.enter_addr) code ∧ bytes w.code <+: code

section

variable {page : PageSize} {libs : List (ExitLibrary page.bytes)} {g g' : Ghost page}
  {m m' : Memory} {h : HookedFunction} {except : List Piece}
  {target_addr dli_ssize new_addr enter_addr : ℕ}

open Ghost

theorem Jumps.size_eq {inst : Inst} (h : Jumps target_addr new_addr inst) :
    size inst.trampo = 4 ∨ size inst.trampo = 16 := by
  cases h with
  | with_exit _ trampo =>
      rw [trampo]
      exact .inl rfl
  | without_exit _ trampo =>
      rw [trampo]
      exact .inr rfl

theorem Holds.backup_len (hh : Holds m g h) : h.inst.backup_len = size h.inst.trampo := by
  unfold Inst.backup_len
  rw [hh.backup, length_load]

theorem Holds.backup_len_le (hh : Holds m g h) :
    0 < h.inst.backup_len ∧ h.inst.backup_len ≤ 16 := by
  rw [hh.backup_len]
  rcases hh.jumps.size_eq with hsize | hsize
  all_goals omega

theorem Holds.has (hh : Holds m g h) {piece : Piece} (hpiece : piece ∈ h.inst.pieces) :
    ∃ bytes, g.Has piece bytes := by
  rcases List.mem_cons.mp hpiece with rfl | hpiece
  · obtain ⟨-, code, -, -, -, -, hhas, -⟩ := hh.enter
    exact ⟨code, hhas⟩
  · split at hpiece
    · cases hpiece
    · rename_i hexit
      obtain rfl := List.mem_singleton.mp hpiece
      exact ⟨_, hh.exit hexit⟩

/-- The pieces of a hook stay, and what was under its head. -/
theorem Holds.kept (hh : Holds m g h) (hkept : Kept libs except g g')
    (hexcept : ∀ p ∈ h.inst.pieces, p ∉ except)
    (hsame : ∀ x, Inside (BitVec.ofNat 64 h.target_addr) h.inst.backup_len x → m x = m' x) :
    Holds m' g' h := by
  obtain ⟨w, code, htarget, henter, hsize, hcode, hhas, hprefix⟩ := hh.enter
  have hlen := hh.backup_len_le
  refine ⟨hh.jumps, ?_, fun hexit => ?_, w, code, htarget, henter, hsize, ?_, ?_, hprefix⟩
  · have hsize' := hh.backup_len
    rw [hh.backup, ← hsize']
    exact load_congr hsame (by omega)
  · refine hkept.has _ _ (hexcept _ ?_) (hh.exit hexit)
    unfold Inst.pieces
    rw [if_neg hexit]
    exact List.mem_cons_of_mem _ (List.mem_singleton_self _)
  · refine hcode.congr (by omega) fun x hx => hsame x ?_
    rwa [htarget, hsize] at hx
  · exact hkept.has _ _ (hexcept _ (List.mem_cons_self ..)) hhas

/-- An exit is no piece of the other manager. -/
theorem exitPiece_ne_enter (in_library : Bool) (exit_addr : ℕ) :
    exitPiece in_library exit_addr ≠ .trampo .enter enter_addr := by
  intro h
  cases in_library <;> cases h

/-- Before a step, a function has the code that it has afterwards. -/
theorem code_before (hlibs : Exits.LibrariesApart libs) (hkept : Kept libs except g g')
    (hinv : Inv libs g') {ws : List (BitVec 32)} {a : Address}
    (ha : a = BitVec.ofNat 64 target_addr) (hsegment : InSegment libs target_addr (size ws))
    (hbound : target_addr + size ws ≤ 2 ^ 64) (hcode : CodeAt g'.mem a ws) :
    CodeAt g.mem a ws := by
  subst ha
  exact hcode.congr (by omega) fun x hx =>
    hkept.outside x (hinv.outside hlibs hsegment hbound hx)

/-- The window of a function, and a part of `enter`, are written. -/
theorem overwrite (hlibs : Exits.LibrariesApart libs) (h : Inv libs g)
    {trampo : List (BitVec 32)} (hsegment : InSegment libs target_addr (size trampo))
    (hshort : size trampo ≤ 16) (hbound : target_addr + size trampo < 2 ^ 64)
    {old : List (BitVec 8)} (hhas : g.Has (.trampo .enter enter_addr) old)
    {answers : HeadAnswers} (hwhole : answers.write.Whole) :
    ∃ ws, Inv libs (g.write .enter enter_addr (bytes ws)) ∧
      Kept libs [.trampo .enter enter_addr] g (g.write .enter enter_addr (bytes ws)) ∧
      (∃ behind, (g.write .enter enter_addr (bytes ws)).Has (.trampo .enter enter_addr)
        (bytes ws ++ behind)) ∧
      ((∃ e, overwrite_head g.mem target_addr enter_addr trampo answers
          = ((g.write .enter enter_addr (bytes ws)).mem, some e)) ∨
        ∃ w : Window, w.code = ws ∧ w.target = BitVec.ofNat 64 target_addr ∧
          w.enter = BitVec.ofNat 64 enter_addr ∧ size w.insts = size trampo ∧
          CodeAt g.mem w.target w.insts ∧
          overwrite_head g.mem target_addr enter_addr trampo answers
            = (copy (g.write .enter enter_addr (bytes ws)).mem (BitVec.ofNat 64 target_addr)
                (bytes trampo), none)) := by
  have hlength : ∀ {ws}, size ws ≤ 128 → (bytes ws).length ≤ 256 := by
    intro ws hws
    rw [length_bytes]
    omega
  have happart : ∀ x, Inside (BitVec.ofNat 64 target_addr) (size trampo) x →
      ¬ Inside (BitVec.ofNat 64 enter_addr) 128 x := by
    intro x hx hin
    obtain ⟨p, hp, hplaced, hlow, hhigh, -⟩ := h.exists_page hhas
    have hsize : (InstMgr.kind page .enter).trampo_size = 256 := rfl
    refine (h.outside hlibs hsegment (by omega) hx).pages .enter p hp ?_
    exact inside_part hlow (by omega) hplaced.bound hin
  have hout := overwrite_head_cases (m := g.mem) hshort hbound happart hwhole
  generalize overwrite_head g.mem target_addr enter_addr trampo answers = out at hout
  cases hout with
  | ok w htarget henter hinsts =>
      obtain ⟨hinv, hkept, hnew⟩ := h.write hlibs hhas (hlength w.size_code_le)
      have hsize : size w.insts = size trampo := by
        rw [hinsts, size_instsAt]
        exact Nat.mul_div_cancel' (Nat.dvd_mul_right 4 _)
      have hcode : CodeAt g.mem w.target w.insts := by
        rw [hinsts, htarget]
        exact codeAt_instsAt _ _ _
      exact ⟨w.code, hinv, hkept, ⟨_, hnew⟩, .inr ⟨w, rfl, htarget, henter, hsize, hcode, rfl⟩⟩
  | error ws e hws =>
      obtain ⟨hinv, hkept, hnew⟩ := h.write hlibs hhas (hlength hws)
      exact ⟨ws, hinv, hkept, ⟨_, hnew⟩, .inl ⟨e, rfl⟩⟩

/-- What one attempt to hook a function can do. -/
inductive Tried (libs : List (ExitLibrary page.bytes)) (g : Ghost page)
    (target_addr dli_ssize new_addr enter_addr : ℕ) : InstState page × Except InstErrno Inst → Prop
  | ok {g' : Ghost page} {inst : Inst} (locked : Bool) (inv : Inv libs g')
      (kept : Kept libs [.trampo .enter enter_addr] g g')
      (holds : Holds g.mem g' ⟨target_addr, new_addr, inst⟩)
      (enter : inst.enter_addr = enter_addr) (fits : inst.backup_len ≤ dli_ssize)
      (new : inst.exit_addr ≠ 0 → ∀ bytes,
        ¬ g.Has (exitPiece inst.in_library inst.exit_addr) bytes) :
      Tried libs g target_addr dli_ssize new_addr enter_addr
        ({ g'.state locked with
          mem := copy g'.mem (BitVec.ofNat 64 target_addr) (bytes inst.trampo) }, .ok inst)
  | error {g' : Ghost page} (locked : Bool) (e : InstErrno) (inv : Inv libs g')
      (kept : Kept libs [.trampo .enter enter_addr] g g')
      (has : ∃ code, g'.Has (.trampo .enter enter_addr) code) :
      Tried libs g target_addr dli_ssize new_addr enter_addr (g'.state locked, .error e)

theorem InSegment.mono {n k : ℕ} (h : InSegment libs target_addr n) (hk : k ≤ n) :
    InSegment libs target_addr k := by
  obtain ⟨lib, hlib, phdr, hphdr, hload, hlow, hhigh⟩ := h
  exact ⟨lib, hlib, phdr, hphdr, hload, hlow, by omega⟩

theorem InSegment.pos {n : ℕ} (h : InSegment libs target_addr n) : 0 < target_addr := by
  obtain ⟨lib, hlib, phdr, hphdr, hload, hlow, -⟩ := h
  have hinside := lib.inside phdr hphdr hload
  have hpos := lib.low_pos
  omega

/-- The code of an exit is not all zeros. -/
theorem exit_ne_zeros (addr : Address) :
    bytes (sh_a64_absolute_jump_with_br addr) ≠ List.replicate 16 0 := by
  intro h
  have hfirst : (bytes (sh_a64_absolute_jump_with_br addr)).head? = some 0x51 := rfl
  rw [h] at hfirst
  exact absurd hfirst (by decide)

theorem hook_with_exit_cases (hlibs : Exits.LibrariesApart libs) (h : Inv libs g) {locked : Bool}
    {lib : ExitLibrary page.bytes} (hlib : lib ∈ libs) (haligned : 4 ∣ target_addr)
    (hsegment : InSegment libs target_addr dli_ssize)
    (hrange : SH_INST_A64_B_RANGE_HIGH ≤ UINTPTR_MAX - target_addr) {old : List (BitVec 8)}
    (hhas : g.Has (.trampo .enter enter_addr) old) {answers : HookAnswers}
    (hfresh : ∀ p, answers.exit.new_ptr = some p → Fresh libs (g.state locked) p)
    (hwhole : answers.with_exit.write.Whole) {out : InstState page × Except InstErrno Inst}
    (hresult : hook_with_exit (g.state locked) target_addr lib.toExitInfo lib.elf_loaded_by_kernel
      dli_ssize new_addr enter_addr answers = some out) :
    Tried libs g target_addr dli_ssize new_addr enter_addr out := by
  have hbound : target_addr + 4 < 2 ^ 64 := by
    unfold SH_INST_A64_B_RANGE_HIGH UINTPTR_MAX at hrange
    omega
  unfold hook_with_exit at hresult
  split at hresult
  · obtain rfl := Option.some.inj hresult
    exact .error locked _ h (.refl libs _ g) ⟨old, hhas⟩
  · rename_i hsize
    simp only at hresult
    split at hresult
    · cases hresult
    · rename_i s halloc
      obtain rfl := Option.some.inj hresult
      obtain ⟨g₁, locked₁, rfl, hinv, hkept, -⟩ := h.exit_alloc hlibs hlib rfl
        (exit_ne_zeros _) hsegment.pos hrange hfresh halloc
      exact .error locked₁ _ hinv (hkept.mono (List.nil_subset _))
        ⟨old, hkept.has _ _ List.not_mem_nil hhas⟩
    · rename_i s exit_addr in_library halloc
      obtain ⟨g₁, locked₁, rfl, hinv, hkept, hhanded⟩ := h.exit_alloc hlibs hlib rfl
        (exit_ne_zeros _) hsegment.pos hrange hfresh halloc
      obtain ⟨hexit, hlow, hhigh⟩ := hhanded exit_addr in_library rfl
      generalize htrampo : sh_a64_relative_jump (BitVec.ofNat 64 exit_addr)
        (BitVec.ofNat 64 target_addr) = trampo at hresult
      have hfour : size trampo = 4 := by rw [← htrampo]; rfl
      have hhead : InSegment libs target_addr (size trampo) := hsegment.mono (by omega)
      obtain ⟨ws, hinv', hkept', ⟨behind, hcode⟩, hout⟩ := overwrite hlibs hinv hhead
        (by omega) (by omega) (hkept.has _ _ List.not_mem_nil hhas) hwhole
      have hexit' := hkept'.has _ _
        (fun hmem => exitPiece_ne_enter _ _ (List.mem_singleton.mp hmem)) hexit.has
      obtain ⟨g₂, hg₂⟩ : ∃ g₂, g₁.write .enter enter_addr (bytes ws) = g₂ := ⟨_, rfl⟩
      have hstate : ∀ m, { g₁.state locked₁ with mem := m } = { g₂.state locked₁ with mem := m } :=
        fun m => by rw [← hg₂]; rfl
      have hmem : (g₁.state locked₁).mem = g₁.mem := rfl
      rw [hg₂] at hinv' hkept' hcode hout hexit'
      simp only [hmem, hstate] at hresult
      have hkept₂ := (hkept.mono (List.nil_subset [.trampo .enter enter_addr])).trans hkept'
      rcases hout with ⟨e, hout⟩ | ⟨w, rfl, htarget, henter, hinsts, hat, hout⟩
      · rw [hout] at hresult
        obtain ⟨⟨s, e'⟩, hfree, rfl⟩ := Option.map_eq_some_iff.mp hresult
        obtain ⟨g₃, rfl, hinv₃, hkept₃, -⟩ := hinv'.exit_free hlibs hexit' hfree
        refine .error locked₁ e hinv₃ (Kept.drop (.trans (hkept₂.mono ?_) (hkept₃.mono ?_))
          hexit.new) ⟨_, hkept₃.has _ _ ?_ hcode⟩
        · exact List.subset_cons_self ..
        · exact List.cons_subset_cons _ (List.nil_subset _)
        · exact fun hmem => exitPiece_ne_enter _ _ (List.mem_singleton.mp hmem).symm
      · rw [hout] at hresult
        obtain rfl := Option.some.inj hresult
        have hlow' : target_addr ≤ exit_addr + SH_INST_A64_B_RANGE_LOW := by omega
        have hbackup := hkept.load hlibs hinv hhead (by omega)
        have hlength := length_load g₁.mem (BitVec.ofNat 64 target_addr) 4
        have hfits : (load g₁.mem (BitVec.ofNat 64 target_addr) 4).length ≤ dli_ssize := by
          rw [hlength]
          omega
        have hholds : Holds g.mem g₂ ⟨target_addr, new_addr, ⟨trampo,
            load g₁.mem (BitVec.ofNat 64 target_addr) 4, in_library, exit_addr,
            bytes (sh_a64_absolute_jump_with_br (BitVec.ofNat 64 new_addr)), enter_addr⟩⟩ := by
          refine ⟨.with_exit hexit.pos htrampo.symm rfl hlow' hhigh
            (Nat.dvd_trans (by decide) hexit.aligned), ?_, fun _ => hexit',
            w, _, htarget, henter, ?_, ?_, hcode, List.prefix_append _ _⟩
          · rw [← hbackup, hfour]
          · show size w.insts = (load g₁.mem (BitVec.ofNat 64 target_addr) 4).length
            rw [hlength, hinsts, hfour]
          · exact code_before hlibs hkept hinv htarget (hinsts ▸ hhead) (by omega) hat
        exact .ok locked₁ hinv' hkept₂ hholds rfl hfits fun _ => hexit.new

theorem hook_without_exit_cases (hlibs : Exits.LibrariesApart libs) (h : Inv libs g)
    {locked : Bool} (hsegment : InSegment libs target_addr dli_ssize)
    (hrange : SH_INST_A64_B_RANGE_HIGH ≤ UINTPTR_MAX - target_addr) {old : List (BitVec 8)}
    (hhas : g.Has (.trampo .enter enter_addr) old) {answers : HookAnswers}
    (hwhole : answers.without_exit.write.Whole) :
    Tried libs g target_addr dli_ssize new_addr enter_addr
      (hook_without_exit (g.state locked) target_addr dli_ssize new_addr enter_addr answers) := by
  have hbound : target_addr + 16 < 2 ^ 64 := by
    unfold SH_INST_A64_B_RANGE_HIGH UINTPTR_MAX at hrange
    omega
  unfold hook_without_exit
  split
  · exact .error locked _ h (.refl libs _ g) ⟨old, hhas⟩
  · rename_i hsize
    generalize htrampo : sh_a64_absolute_jump_with_br (BitVec.ofNat 64 new_addr) = trampo
    have hsixteen : size trampo = 16 := by rw [← htrampo]; rfl
    have hhead : InSegment libs target_addr (size trampo) := hsegment.mono (by omega)
    obtain ⟨ws, hinv, hkept, ⟨behind, hcode⟩, hout⟩ := overwrite hlibs h hhead (by omega)
      (by omega) hhas hwhole
    obtain ⟨g', hg'⟩ : ∃ g', g.write .enter enter_addr (bytes ws) = g' := ⟨_, rfl⟩
    have hstate : ∀ m, { g.state locked with mem := m } = { g'.state locked with mem := m } :=
      fun m => by rw [← hg']; rfl
    have hmem : (g.state locked).mem = g.mem := rfl
    rw [hg'] at hinv hkept hcode hout
    simp only [hmem, hstate]
    rcases hout with ⟨e, hout⟩ | ⟨w, rfl, htarget, henter, hinsts, hat, hout⟩
    · rw [hout]
      exact .error locked e hinv hkept ⟨_, hcode⟩
    · rw [hout]
      have hlength := length_load g.mem (BitVec.ofNat 64 target_addr) 16
      have hfits : (load g.mem (BitVec.ofNat 64 target_addr) 16).length ≤ dli_ssize := by
        rw [hlength]
        omega
      have hholds : Holds g.mem g' ⟨target_addr, new_addr, ⟨trampo,
          load g.mem (BitVec.ofNat 64 target_addr) 16, false, 0, [], enter_addr⟩⟩ := by
        refine ⟨.without_exit rfl htrampo.symm, ?_, fun hexit => absurd rfl hexit,
          w, _, htarget, henter, ?_, hat, hcode, List.prefix_append _ _⟩
        · rw [hsixteen]
        · show size w.insts = (load g.mem (BitVec.ofNat 64 target_addr) 16).length
          rw [hlength, hinsts, hsixteen]
      exact .ok locked hinv hkept hholds rfl hfits fun hexit => absurd rfl hexit

/-- What `sh_inst_hook` can do. -/
inductive Hooks (libs : List (ExitLibrary page.bytes)) (g : Ghost page)
    (target_addr dli_ssize new_addr : ℕ) : InstState page × Except InstErrno Inst → Prop
  | ok {g' : Ghost page} {inst : Inst} (locked : Bool) (inv : Inv libs g')
      (kept : Kept libs [] g g') (holds : Holds g.mem g' ⟨target_addr, new_addr, inst⟩)
      (fits : inst.backup_len ≤ dli_ssize)
      (new : ∀ piece ∈ inst.pieces, ∀ bytes, ¬ g.Has piece bytes) :
      Hooks libs g target_addr dli_ssize new_addr
        ({ g'.state locked with
          mem := copy g'.mem (BitVec.ofNat 64 target_addr) (bytes inst.trampo) }, .ok inst)
  | error {g' : Ghost page} (locked : Bool) (e : InstErrno) (inv : Inv libs g')
      (kept : Kept libs [] g g') :
      Hooks libs g target_addr dli_ssize new_addr (g'.state locked, .error e)

/-- An attempt that succeeds, after steps that changed `enter` alone. -/
theorem Tried.hooks (hlibs : Exits.LibrariesApart libs) {g₁ : Ghost page} (hinv : Inv libs g₁)
    (hsegment : InSegment libs target_addr dli_ssize) (hbound : target_addr + dli_ssize ≤ 2 ^ 64)
    (hkept : Kept libs [.trampo .enter enter_addr] g g₁)
    (hnew : ∀ bytes, ¬ g.Has (.trampo .enter enter_addr) bytes) {s : InstState page} {inst : Inst}
    (h : Tried libs g₁ target_addr dli_ssize new_addr enter_addr (s, .ok inst)) :
    Hooks libs g target_addr dli_ssize new_addr (s, .ok inst) := by
  cases h with
  | ok locked inv kept holds enter fits new =>
      refine .ok locked inv ((hkept.trans kept).drop hnew) ?_ fits ?_
      · refine holds.kept (.refl libs [] _) (fun _ _ => List.not_mem_nil) fun x hx => ?_
        have hx' := inside_part (Nat.le_refl _) (Nat.add_le_add_left fits _) hbound hx
        exact hkept.outside x (hinv.outside hlibs hsegment hbound hx')
      · intro piece hpiece bytes hold
        rcases List.mem_cons.mp hpiece with rfl | hpiece
        · rw [enter] at hold
          exact hnew bytes hold
        · split at hpiece
          · cases hpiece
          · rename_i hexit
            obtain rfl := List.mem_singleton.mp hpiece
            refine new hexit bytes (hkept.has _ _ (fun hmem => ?_) hold)
            exact exitPiece_ne_enter _ _ (List.mem_singleton.mp hmem)

/-- A page that is not in use is not in use after a step that took another one. -/
theorem Fresh.kept {libs : List (ExitLibrary page.bytes)} {p : ℕ} {locked : Bool}
    (h : Fresh libs (g.state locked) p) (hkept : Kept libs [] g g') (hinv : Inv libs g')
    (hptrs : ∀ k, ∀ q ∈ g'.trampos.ptrs k, q ∈ g.trampos.ptrs k ∨
      Separate p page.bytes q page.bytes) (hlibs : Exits.LibrariesApart libs) :
    Fresh libs (g'.state locked) p := by
  have hapart : ∀ k, ∀ q ∈ g'.trampos.ptrs k, Separate p page.bytes q page.bytes := by
    intro k q hq
    rcases hptrs k q hq with hold | happ
    · obtain ⟨page', hpage, rfl⟩ := List.mem_map.mp hold
      exact h.pages k page' hpage
    · exact happ
  have hbound := h.placed.bound
  refine ⟨h.placed, fun k q hq => hapart k q.ptr (List.mem_map_of_mem hq), ?_⟩
  rw [← h.zeros]
  refine load_congr (fun x hx => hkept.outside x ⟨fun k q hq => ?_, fun gap hgap => ?_⟩) (by omega)
  · exact apart_ofNat hbound (hinv.placed k q hq).bound (hapart k q hq) x hx
  · have hbetween := (Exits.gapsApart (page_pos page) page.aligned hlibs).between gap hgap
    have hlt := hbetween.lt
    have hstop := hbetween.high
    exact apart_ofNat hbound (by omega) (placed_gap h.placed hgap) x hx

theorem hook_cases (hlibs : Exits.LibrariesApart libs) (h : Inv libs g) {s : Insts page}
    {locked : Bool} (hst : s.st = g.state locked) {lib : ExitLibrary page.bytes}
    {answers : HookAnswers} (hmay : s.MayHook libs lib target_addr dli_ssize answers)
    {out : InstState page × Except InstErrno Inst}
    (hresult : sh_inst_hook s.st target_addr lib.toExitInfo lib.elf_loaded_by_kernel dli_ssize
      new_addr answers = some out) : Hooks libs g target_addr dli_ssize new_addr out := by
  have hbound : target_addr + dli_ssize ≤ 2 ^ 64 := by
    obtain ⟨lib', hlib', phdr, hphdr, hload, hlow, hhigh⟩ := hmay.inSegment
    have hinside := lib'.inside phdr hphdr hload
    have hpages := segment_pages lib'.dli_fbase (page_pos page) phdr
    have hle := lib'.high_le
    omega
  rw [hst] at hresult
  unfold sh_inst_hook at hresult
  split at hresult
  · cases hresult
  · rename_i s' halloc
    obtain ⟨g₁, rfl, hinv, hkept, -⟩ := h.alloc hlibs (hst ▸ hmay.enter) halloc
    obtain rfl := Option.some.inj hresult
    exact .error locked _ hinv hkept
  · rename_i s' enter_addr halloc
    obtain ⟨g₁, rfl, hinv, hkept, hptrs, hhanded⟩ := h.alloc hlibs (hst ▸ hmay.enter) halloc
    obtain ⟨henter, -⟩ := hhanded enter_addr rfl
    have hfresh : ∀ p, answers.exit.new_ptr = some p → Fresh libs (g₁.state locked) p := by
      intro p hp
      obtain ⟨hfresh, happ⟩ := hmay.exit p hp
      exact Fresh.kept (hst ▸ hfresh) hkept hinv
        (fun k q hq => (hptrs k q hq).imp_right (happ q)) hlibs
    have hkept₁ := hkept.mono (List.nil_subset [.trampo .enter enter_addr])
    split at hresult
    · cases hresult
    · rename_i s' inst hexit
      obtain rfl := Option.some.inj hresult
      have htried := hook_with_exit_cases hlibs hinv hmay.lib hmay.aligned hmay.inSegment
        hmay.range henter.has hfresh hmay.with_exit hexit
      exact htried.hooks hlibs hinv hmay.inSegment hbound hkept₁ henter.new
    · rename_i s' e hexit
      have htried := hook_with_exit_cases hlibs hinv hmay.lib hmay.aligned hmay.inSegment
        hmay.range henter.has hfresh hmay.with_exit hexit
      cases htried with
      | error locked₂ e inv₂ kept₂ has =>
          rename_i g₂
          obtain ⟨code, hhas⟩ := has
          have hkept₂ := hkept₁.trans kept₂
          have htried : Tried libs g₂ target_addr dli_ssize new_addr enter_addr
              (hook_without_exit (g₂.state locked₂) target_addr dli_ssize new_addr enter_addr
                answers) :=
            hook_without_exit_cases hlibs inv₂ hmay.inSegment hmay.range hhas hmay.without_exit
          split at hresult
          · rename_i s' inst hexit
            obtain rfl := Option.some.inj hresult
            rw [hexit] at htried
            exact htried.hooks hlibs inv₂ hmay.inSegment hbound hkept₂ henter.new
          · rename_i s' e' hexit
            obtain rfl := Option.some.inj hresult
            rw [hexit] at htried
            cases htried with
            | error locked₃ e inv₃ kept₃ has =>
                obtain ⟨code, hhas⟩ := has
                obtain ⟨inv₄, kept₄⟩ := inv₃.free hhas answers.now_enter
                exact .error locked₃ _ inv₄ (((hkept₂.trans kept₃).trans kept₄).drop henter.new)

/-! ## Unhooking -/

/-- The head of a function is changed. -/
theorem stored_head (hlibs : Exits.LibrariesApart libs) (h : Inv libs g) {n : ℕ}
    (hsegment : InSegment libs target_addr n) (hbound : target_addr + n ≤ 2 ^ 64)
    (head : List (BitVec 8)) (hlength : head.length = n) :
    Inv libs (g.gapped (copy g.mem (BitVec.ofNat 64 target_addr) head) g.exits) :=
  h.stored hlibs hbound (fun k p hp => placed_segment (h.placed k p hp) hsegment)
    (fun _ hgap => segment_gap hlibs hsegment hgap)
    fun _ hx => copy_of_not_inside (hlength ▸ hx)

/-- What `sh_inst_unhook` can do: nothing, or restore the head and free the pieces. -/
inductive Unhooks (libs : List (ExitLibrary page.bytes)) (g : Ghost page) (h : HookedFunction)
    (answers : UnhookAnswers) (locked : Bool) : InstState page × Option InstErrno → Prop
  | nothing (e : InstErrno) (kept : restored (some e) = false)
      (found : e ≠ .UNHOOK_TRAMPO_MISMATCH ∧ e ≠ .UNHOOK_EXIT_MISMATCH)
      (refused : ¬ answers.AllowsHead) :
      Unhooks libs g h answers locked (g.state locked, some e)
  | restored {g' : Ghost page} {e : Option InstErrno} (inv : Inv libs g')
      (kept : Kept libs h.inst.pieces
        (g.gapped (copy g.mem (BitVec.ofNat 64 h.target_addr) h.inst.backup) g.exits) g')
      (restored : restored e) (head : answers.AllowsHead)
      (found : e ≠ some .UNHOOK_TRAMPO_MISMATCH ∧ e ≠ some .UNHOOK_EXIT_MISMATCH)
      (allowed : e = none ↔ answers.Allows h.inst) :
      Unhooks libs g h answers locked (g'.state locked, e)

/-- The exit of a hook is freed, if there is one. -/
theorem free_exit_cases (hlibs : Exits.LibrariesApart libs) (hinv : Inv libs g)
    (hh : Holds m g h) {answers : UnhookAnswers} {locked : Bool} {s : InstState page}
    {e : Option InstErrno}
    (hfree : (if h.inst.exit_addr ≠ 0 then
        sh_exit_free (g.state locked) h.inst.exit_addr h.inst.in_library h.inst.exit
          answers.library answers.now_exit
      else some (g.state locked, none)) = some (s, e)) :
    ∃ g', s = g'.state locked ∧ Inv libs g' ∧
      Kept libs (if h.inst.exit_addr = 0 then [] else
        [exitPiece h.inst.in_library h.inst.exit_addr]) g g' ∧
      (e = none ∧ (h.inst.exit_addr ≠ 0 → h.inst.in_library →
          answers.library.faults h.inst.exit_addr = false ∧
            answers.library.mprotect h.inst.exit_addr) ∨
        (e = some .EXIT_MPROT ∨ e = some .UNHOOK_EXIT_CRASH) ∧
          ¬ (h.inst.exit_addr ≠ 0 → h.inst.in_library →
            answers.library.faults h.inst.exit_addr = false ∧
              answers.library.mprotect h.inst.exit_addr)) := by
  by_cases hexit : h.inst.exit_addr = 0
  · rw [if_neg (not_not.mpr hexit)] at hfree
    obtain ⟨rfl, rfl⟩ := Prod.mk.inj (Option.some.inj hfree)
    exact ⟨g, rfl, hinv, .refl libs _ g, .inl ⟨rfl, fun hne => absurd hexit hne⟩⟩
  · rw [if_pos hexit] at hfree
    obtain ⟨g', rfl, hinv', hkept, he⟩ := hinv.exit_free hlibs (hh.exit hexit) hfree
    rw [if_neg hexit]
    refine ⟨g', rfl, hinv', hkept, ?_⟩
    simp only [ne_eq, hexit, not_false_eq_true, forall_const]
    exact he

/-- `sh_exit_free` waits for the lock, which it needs in a library only. -/
theorem exit_free_eq_none_iff {s : InstState page} {exit_addr : ℕ} {in_library : Bool}
    {exit : List (BitVec 8)} {library : ExitAnswers} {now : ℤ} :
    sh_exit_free s exit_addr in_library exit library now = none ↔ in_library ∧ s.locked := by
  unfold sh_exit_free
  split
  case isTrue hin =>
    split
    case isTrue hlocked => simp [hin, hlocked]
    case isFalse hlocked => simp [hlocked]
  case isFalse hin => simp [hin]

/-- When an unhook that finds its jump does not return. -/
theorem unhook_eq_none_iff {s : InstState page} {inst : Inst} {target_addr : ℕ}
    (hhead : load s.mem (BitVec.ofNat 64 target_addr) inst.backup_len = bytes inst.trampo)
    {answers : UnhookAnswers} (hwhole : answers.write.Whole) :
    sh_inst_unhook s inst target_addr answers = none
      ↔ s.locked ∧ answers.AllowsHead ∧ inst.exit_addr ≠ 0 ∧ inst.in_library := by
  unfold sh_inst_unhook UnhookAnswers.AllowsHead
  by_cases hcrash : answers.cmp_crash
  · simp [hcrash]
  rw [if_neg hcrash, if_neg (not_not.mpr hhead)]
  rcases write_inst_cases hwhole with ⟨hmprotect, hnone, hwrite⟩ | ⟨hnot, e, hwrite, -⟩
  · rw [hwrite]
    simp only [Option.map_eq_none_iff, hcrash, hmprotect, hnone]
    by_cases hexit : inst.exit_addr = 0
    · simp [hexit]
    · rw [if_pos hexit, exit_free_eq_none_iff]
      simp [hexit, and_comm]
  · rw [hwrite]
    simp only [reduceCtorEq, false_iff]
    exact fun hwaits => hnot hwaits.2.1.2

theorem unhook_cases (hlibs : Exits.LibrariesApart libs) (hinv : Inv libs g) (hh : Holds m g h)
    (hsegment : InSegment libs h.target_addr h.inst.backup_len)
    (hbound : h.target_addr + h.inst.backup_len ≤ 2 ^ 64)
    (hhead : load g.mem (BitVec.ofNat 64 h.target_addr) h.inst.backup_len = bytes h.inst.trampo)
    {answers : UnhookAnswers} (hwhole : answers.write.Whole) {locked : Bool}
    {out : InstState page × Option InstErrno}
    (hresult : sh_inst_unhook (g.state locked) h.inst h.target_addr answers = some out) :
    Unhooks libs g h answers locked out := by
  unfold sh_inst_unhook at hresult
  split at hresult
  · rename_i hcrash
    obtain rfl := Option.some.inj hresult
    refine .nothing _ rfl ⟨by decide, by decide⟩ fun hallows => ?_
    rw [hallows.1] at hcrash
    cases hcrash
  · rename_i hcrash
    have hcrash' : answers.cmp_crash = false := by simpa using hcrash
    split at hresult
    · rename_i hmismatch
      exact absurd hhead hmismatch
    · have hmem : (g.state locked).mem = g.mem := rfl
      simp only [hmem] at hresult
      rcases write_inst_cases hwhole with ⟨hmprotect, hnone, hwrite⟩ | ⟨hnot, e, hwrite, he⟩
      · rw [hwrite] at hresult
        simp only at hresult
        have hinv₁ := stored_head hlibs hinv hsegment hbound h.inst.backup rfl
        have hh₁ : Holds m (g.gapped (copy g.mem (BitVec.ofNat 64 h.target_addr) h.inst.backup)
            g.exits) h := ⟨hh.jumps, hh.backup, hh.exit, hh.enter⟩
        have hstate : { g.state locked with
            mem := copy g.mem (BitVec.ofNat 64 h.target_addr) h.inst.backup }
          = (g.gapped (copy g.mem (BitVec.ofNat 64 h.target_addr) h.inst.backup) g.exits).state
            locked := rfl
        rw [hstate] at hresult
        generalize hg₁ : g.gapped (copy g.mem (BitVec.ofNat 64 h.target_addr) h.inst.backup)
          g.exits = g₁ at hinv₁ hh₁ hresult
        obtain ⟨⟨s, e⟩, hfree, hout⟩ := Option.map_eq_some_iff.mp hresult
        obtain ⟨g₂, rfl, hinv₂, hkept₂, he⟩ := free_exit_cases hlibs hinv₁ hh₁ hfree
        have hkept₂' : Kept libs h.inst.pieces g₁ g₂ := hkept₂.mono (List.subset_cons_self _ _)
        rcases he with ⟨rfl, hlet⟩ | ⟨he, hlet⟩
        · obtain rfl := hout
          obtain ⟨-, code, -, -, -, -, hhas, -⟩ := hh₁.enter
          have hhas₂ := hkept₂.has _ _ ?_ hhas
          · obtain ⟨hinv₃, hkept₃⟩ := hinv₂.free hhas₂ answers.now_enter
            have hkept₃' : Kept libs h.inst.pieces g₂ _ :=
              hkept₃.mono (List.cons_subset_cons _ (List.nil_subset _))
            exact .restored hinv₃ (hg₁ ▸ hkept₂'.trans hkept₃') rfl ⟨hcrash', hmprotect, hnone⟩
              ⟨by decide, by decide⟩
              ⟨fun _ => ⟨⟨hcrash', hmprotect, hnone⟩, hlet⟩, fun _ => rfl⟩
          · split
            · exact List.not_mem_nil
            · exact fun hmem => exitPiece_ne_enter _ _ (List.mem_singleton.mp hmem).symm
        · rcases he with rfl | rfl
          all_goals
            obtain rfl := hout
            exact .restored hinv₂ (hg₁ ▸ hkept₂') rfl ⟨hcrash', hmprotect, hnone⟩
              ⟨by decide, by decide⟩
              ⟨fun hnone => (by cases hnone), fun hallows => absurd hallows.2 hlet⟩
      · rw [hwrite] at hresult
        obtain rfl := Option.some.inj hresult
        have hrefused : ¬ answers.AllowsHead := fun hallows => hnot hallows.2
        rcases he with rfl | rfl
        · exact .nothing _ rfl ⟨by decide, by decide⟩ hrefused
        · exact .nothing _ rfl ⟨by decide, by decide⟩ hrefused

end

/-! ## The invariant -/

/-- Where the head of a hooked function lies. -/
structure Sits {page : PageSize} (libs : List (ExitLibrary page.bytes)) (h : HookedFunction) :
    Prop where
  segment : InSegment libs h.target_addr h.inst.backup_len
  aligned : 4 ∣ h.target_addr
  bound : h.target_addr + 16 < 2 ^ 64

/-- Two hooks have no byte and no piece in common. -/
structure Clear (h h' : HookedFunction) : Prop where
  heads : Separate h.target_addr h.inst.backup_len h'.target_addr h'.inst.backup_len
  pieces : ∀ piece ∈ h.inst.pieces, piece ∉ h'.inst.pieces

theorem Clear.symm {h h' : HookedFunction} (hclear : Clear h h') : Clear h' h :=
  ⟨hclear.heads.symm, fun piece hpiece hpiece' => hclear.pieces piece hpiece' hpiece⟩

theorem Clear.ne {h h' : HookedFunction} (hclear : Clear h h') : h ≠ h' := by
  rintro rfl
  exact hclear.pieces _ (List.mem_cons_self ..) (List.mem_cons_self ..)

namespace Insts

open Ghost

variable {page : PageSize} {libs : List (ExitLibrary page.bytes)} {s s' : Insts page}
  {g g' : Ghost page} {h : HookedFunction} {except : List Piece}

/-- The hooks hold their pieces, and the memory is `orig` but for them. -/
structure Held (libs : List (ExitLibrary page.bytes)) (s : Insts page) (g : Ghost page) :
    Prop where
  state : s.st = g.state s.st.locked
  inv : Ghost.Inv libs g
  holds : ∀ h ∈ s.hooked, Holds s.orig g h
  sits : ∀ h ∈ s.hooked, Sits libs h
  head : ∀ h ∈ s.hooked,
    load g.mem (BitVec.ofNat 64 h.target_addr) h.inst.backup_len = bytes h.inst.trampo
  clear : s.hooked.Pairwise Clear
  rest : ∀ x, Outside libs g x →
    (∀ h ∈ s.hooked, ¬ Inside (BitVec.ofNat 64 h.target_addr) h.inst.backup_len x) →
      g.mem x = s.orig x

def Inv (libs : List (ExitLibrary page.bytes)) (s : Insts page) : Prop := ∃ g, Held libs s g

theorem inv_start (m : Memory) : (start page m).Inv libs := by
  refine ⟨⟨.start _ m, []⟩, rfl, ⟨Trampos.inv_start m, Exits.inv_start m, ?_⟩, ?_, ?_, ?_, .nil,
    fun _ _ _ => rfl⟩
  all_goals simp [start, Trampos.start, Trampos.ptrs]

theorem Held.head_bound (hs : Held libs s g) (hh : h ∈ s.hooked) :
    h.target_addr + h.inst.backup_len < 2 ^ 64 := by
  have hbound := (hs.sits h hh).bound
  have hlen := (hs.holds h hh).backup_len_le
  omega

/-- `enter` is no address of the function. -/
theorem Held.enter_ne (hs : Held libs s g) (hh : h ∈ s.hooked) :
    0 < h.inst.enter_addr ∧ h.inst.enter_addr ≠ h.target_addr := by
  obtain ⟨-, code, -, -, -, -, hhas, -⟩ := (hs.holds h hh).enter
  obtain ⟨p, -, hplaced, hlow, hhigh, -⟩ := hs.inv.exists_page hhas
  have happart := placed_segment hplaced (hs.sits h hh).segment
  have hlen := (hs.holds h hh).backup_len_le
  have hpos := hplaced.pos
  have hsize : (InstMgr.kind page .enter).trampo_size = 256 := rfl
  unfold Separate at happart
  omega

/-- Steps that keep the pieces of the hooks. -/
theorem Held.kept (hlibs : Exits.LibrariesApart libs) (hs : Held libs s g)
    (hinv : Ghost.Inv libs g') (hkept : Kept libs except g g')
    (hexcept : ∀ h ∈ s.hooked, ∀ piece ∈ h.inst.pieces, piece ∉ except) (locked : Bool) :
    Held libs { s with st := g'.state locked } g' where
  state := rfl
  inv := hinv
  holds := fun h hh => (hs.holds h hh).kept hkept (hexcept h hh) fun _ _ => rfl
  sits := hs.sits
  head := fun h hh =>
    (hkept.load hlibs hinv (hs.sits h hh).segment (Nat.le_of_lt (hs.head_bound hh))).trans
      (hs.head h hh)
  clear := hs.clear
  rest := fun x hx hheads => (hkept.outside x hx).trans
    (hs.rest x ⟨fun k p hp => hx.pages k p (hkept.ptrs k hp), hx.gaps⟩ hheads)

/-- A head that is changed is no other one. -/
theorem load_head (m : Memory) {a n b k : ℕ} {head : List (BitVec 8)} (hlength : head.length = k)
    (happ : Separate a n b k) (ha : a + n ≤ 2 ^ 64) (hb : b + k ≤ 2 ^ 64) :
    load (copy m (BitVec.ofNat 64 b) head) (BitVec.ofNat 64 a) n
      = load m (BitVec.ofNat 64 a) n :=
  load_of_separate happ ha hb fun _ hx => copy_of_not_inside (hlength ▸ hx)

/-- A head is overwritten. -/
theorem Held.add (hlibs : Exits.LibrariesApart libs) (hs : Held libs s g)
    (hh : Holds s.orig g h) (hsits : Sits libs h) (hclear : ∀ h' ∈ s.hooked, Clear h h')
    (locked : Bool) :
    Inv libs {
      s with
      st := { g.state locked with
        mem := copy g.mem (BitVec.ofNat 64 h.target_addr) (bytes h.inst.trampo) }
      hooked := h :: s.hooked } := by
  have hlen := hh.backup_len_le
  have hlength : (bytes h.inst.trampo).length = h.inst.backup_len := by
    rw [length_bytes, hh.backup_len]
  have hbound : h.target_addr + h.inst.backup_len ≤ 2 ^ 64 := by
    have hbound := hsits.bound
    omega
  refine ⟨g.gapped (copy g.mem (BitVec.ofNat 64 h.target_addr) (bytes h.inst.trampo)) g.exits,
    rfl, stored_head hlibs hs.inv hsits.segment hbound _ hlength, ?_, ?_, ?_, ?_, ?_⟩
  · refine List.forall_mem_cons.mpr ⟨⟨hh.jumps, hh.backup, hh.exit, hh.enter⟩, fun h' hmem => ?_⟩
    have hh' := hs.holds h' hmem
    exact ⟨hh'.jumps, hh'.backup, hh'.exit, hh'.enter⟩
  · exact List.forall_mem_cons.mpr ⟨hsits, hs.sits⟩
  · refine List.forall_mem_cons.mpr ⟨?_, fun h' hmem => ?_⟩
    · have hload := load_copy g.mem (BitVec.ofNat 64 h.target_addr)
        (show (bytes h.inst.trampo).length ≤ 2 ^ 64 by omega)
      rwa [hlength] at hload
    · rw [← hs.head h' hmem]
      exact load_head g.mem hlength (hclear h' hmem).heads.symm
        (Nat.le_of_lt (hs.head_bound hmem)) hbound
  · exact List.pairwise_cons.mpr ⟨hclear, hs.clear⟩
  · intro x hx hheads
    obtain ⟨hhead, hheads⟩ := List.forall_mem_cons.mp hheads
    rw [← hs.rest x ⟨hx.pages, hx.gaps⟩ hheads]
    exact copy_of_not_inside (hlength.symm ▸ hhead)

theorem Held.nodup (hs : Held libs s g) : s.hooked.Nodup := hs.clear.imp Clear.ne

/-- The other hooks. -/
theorem Held.mem_erase (hs : Held libs s g) (hh : h ∈ s.hooked) {h' : HookedFunction}
    (hmem : h' ∈ s.hooked.erase h) : h' ∈ s.hooked ∧ Clear h' h := by
  obtain ⟨hne, hmem⟩ := hs.nodup.mem_erase_iff.mp hmem
  have hsymm : Std.Symm Clear := ⟨fun _ _ => Clear.symm⟩
  exact ⟨hmem, hs.clear.forall hmem hh hne⟩

/-- The function that was hooked last is no other one. -/
theorem Held.target_ne (hs : Held libs s g) {hooked : List HookedFunction}
    (hhooked : s.hooked = h :: hooked) {h' : HookedFunction} (hh' : h' ∈ hooked) :
    h'.target_addr ≠ h.target_addr := by
  have hclear := hs.clear
  rw [hhooked] at hclear
  have hheads := ((List.pairwise_cons.mp hclear).1 h' hh').heads
  have hpos := (hs.holds h (hhooked ▸ List.mem_cons_self ..)).backup_len_le
  have hpos' := (hs.holds h' (hhooked ▸ List.mem_cons_of_mem h hh')).backup_len_le
  unfold Separate at hheads
  omega

/-- A head is restored. -/
theorem Held.remove (hlibs : Exits.LibrariesApart libs) (hs : Held libs s g) (hh : h ∈ s.hooked)
    (locked : Bool) :
    Held libs {
        s with
        st := { g.state locked with
          mem := copy g.mem (BitVec.ofNat 64 h.target_addr) h.inst.backup }
        hooked := s.hooked.erase h }
      (g.gapped (copy g.mem (BitVec.ofNat 64 h.target_addr) h.inst.backup) g.exits) := by
  have hbound := Nat.le_of_lt (hs.head_bound hh)
  refine ⟨rfl, stored_head hlibs hs.inv (hs.sits h hh).segment hbound _ rfl, ?_, ?_, ?_, ?_, ?_⟩
  · intro h' hmem
    have hh' := hs.holds h' (hs.mem_erase hh hmem).1
    exact ⟨hh'.jumps, hh'.backup, hh'.exit, hh'.enter⟩
  · exact fun h' hmem => hs.sits h' (hs.mem_erase hh hmem).1
  · intro h' hmem
    obtain ⟨hmem, hclear⟩ := hs.mem_erase hh hmem
    rw [← hs.head h' hmem]
    exact load_head g.mem rfl hclear.heads (Nat.le_of_lt (hs.head_bound hmem)) hbound
  · exact hs.clear.sublist List.erase_sublist
  · intro x hx hheads
    have hlen := (hs.holds h hh).backup_len
    have hbackup := (hs.holds h hh).backup
    rw [← hlen] at hbackup
    show copy g.mem (BitVec.ofNat 64 h.target_addr) h.inst.backup x = s.orig x
    rw [hbackup]
    refine copy_load s.orig g.mem (BitVec.ofNat 64 h.target_addr) (by omega) fun hout => ?_
    refine hs.rest x ⟨hx.pages, hx.gaps⟩ fun h' hmem => ?_
    by_cases hsame : h' = h
    · rw [hsame]
      exact hout
    · exact hheads h' ((List.mem_erase_of_ne hsame).mpr hmem)

/-- The program writes to its own memory. -/
theorem Held.stored (hlibs : Exits.LibrariesApart libs) (hs : Held libs s g) {a : ℕ}
    {bytes : List (BitVec 8)} (hguard : s.Disciplined libs (.store a bytes)) :
    Inv libs {
      s with
      st := { s.st with mem := copy s.st.mem (BitVec.ofNat 64 a) bytes }
      orig := copy s.orig (BitVec.ofNat 64 a) bytes } := by
  obtain ⟨hbound, hpages, hgaps, hheads⟩ := hguard
  have hmem : s.st.mem = g.mem := congrArg InstState.mem hs.state
  have hpages' : ∀ k, ∀ p ∈ g.trampos.ptrs k, Separate a bytes.length p page.bytes := by
    intro k p hp
    obtain ⟨q, hq, rfl⟩ := List.mem_map.mp hp
    exact hpages k q ((congrFun (congrArg InstState.pages hs.state) k).symm ▸ hq)
  have hsame : ∀ (m : Memory) (x : Address), ¬ Inside (BitVec.ofNat 64 a) bytes.length x →
      copy m (BitVec.ofNat 64 a) bytes x = m x := fun _ _ hx => copy_of_not_inside hx
  refine ⟨g.gapped (copy g.mem (BitVec.ofNat 64 a) bytes) g.exits, ?_,
    hs.inv.stored hlibs hbound hpages' hgaps (hsame g.mem), fun h hh => ?_, hs.sits,
    fun h hh => ?_, hs.clear, fun x hx hout => ?_⟩
  · rw [hs.state]
    rfl
  · have hhead := (hheads h hh).symm
    have hlt := hs.head_bound hh
    have hkept := (hs.holds h hh).kept (.refl libs [] g) (fun _ _ => List.not_mem_nil)
      fun x hx => (hsame s.orig x (apart_ofNat (Nat.le_of_lt hlt) hbound hhead x hx)).symm
    exact ⟨hkept.jumps, hkept.backup, hkept.exit, hkept.enter⟩
  · rw [← hs.head h hh]
    exact load_head g.mem rfl (hheads h hh).symm (Nat.le_of_lt (hs.head_bound hh)) hbound
  · show copy g.mem _ bytes x = copy s.orig _ bytes x
    unfold copy
    rw [hs.rest x ⟨hx.pages, hx.gaps⟩ hout]

theorem Held.hook (hlibs : Exits.LibrariesApart libs) (hs : Held libs s g)
    {lib : ExitLibrary page.bytes} {target_addr dli_ssize new_addr : ℕ} {answers : HookAnswers}
    (hmay : s.MayHook libs lib target_addr dli_ssize answers) {r : Except InstErrno Inst}
    (hhook : s.hook lib target_addr dli_ssize new_addr answers = some (s', r)) :
    s'.Inv libs := by
  obtain ⟨out, hresult, hs'⟩ := Option.map_eq_some_iff.mp hhook
  obtain rfl := congrArg Prod.fst hs'
  have hcases := hook_cases hlibs hs.inv hs.state hmay hresult
  cases hcases with
  | ok locked inv kept holds fits new =>
      rename_i g' inst
      have hs' := hs.kept hlibs inv kept (fun _ _ _ _ => List.not_mem_nil) locked
      have hlen := holds.backup_len_le
      have hrange := hmay.range
      unfold SH_INST_A64_B_RANGE_HIGH UINTPTR_MAX at hrange
      have hsits : Sits libs ⟨target_addr, new_addr, inst⟩ :=
        ⟨InSegment.mono hmay.inSegment fits, hmay.aligned, by simp only; omega⟩
      have hheads : ∀ h ∈ s.hooked, Separate target_addr inst.backup_len h.target_addr
          h.inst.backup_len := fun h hh =>
        (hmay.apart h hh).mono (Nat.le_refl _) (Nat.add_le_add_left fits _) (Nat.le_refl _)
          (Nat.le_refl _)
      have hbound : target_addr + inst.backup_len ≤ 2 ^ 64 := by
        simp only at hlen
        omega
      have hholds : Holds s.orig g' ⟨target_addr, new_addr, inst⟩ := by
        refine holds.kept (.refl libs [] g') (fun _ _ => List.not_mem_nil) fun x hx => ?_
        refine hs.rest x (hs.inv.outside hlibs hsits.segment hbound hx) fun h hh => ?_
        exact apart_ofNat hbound (Nat.le_of_lt (hs.head_bound hh)) (hheads h hh) x hx
      refine hs'.add hlibs hholds hsits (fun h hh => ⟨hheads h hh, fun piece hpiece hold => ?_⟩)
        locked
      obtain ⟨bytes, hhas⟩ := (hs.holds h hh).has hold
      exact new piece hpiece bytes hhas
  | error locked e inv kept =>
      exact ⟨_, hs.kept hlibs inv kept (fun _ _ _ _ => List.not_mem_nil) locked⟩

theorem Held.unhooks (hlibs : Exits.LibrariesApart libs) (hs : Held libs s g)
    (hh : h ∈ s.hooked) {answers : UnhookAnswers} (hwhole : answers.write.Whole)
    {out : InstState page × Option InstErrno}
    (hresult : sh_inst_unhook s.st h.inst h.target_addr answers = some out) :
    Unhooks libs g h answers s.st.locked out := by
  rw [hs.state] at hresult
  exact unhook_cases hlibs hs.inv (hs.holds h hh) (hs.sits h hh).segment
    (Nat.le_of_lt (hs.head_bound hh)) (hs.head h hh) hwhole hresult

/-- The head is restored exactly if the system lets it. -/
theorem Held.unhook (hlibs : Exits.LibrariesApart libs) (hs : Held libs s g)
    {answers : UnhookAnswers} (hh : h ∈ s.hooked) (hwhole : answers.write.Whole)
    {r : Option InstErrno} (hunhook : s.unhook h answers = some (s', r)) :
    s'.Inv libs ∧ (restored r ↔ answers.AllowsHead) := by
  obtain ⟨out, hresult, hs'⟩ := Option.map_eq_some_iff.mp hunhook
  obtain rfl := congrArg Prod.fst hs'
  obtain rfl := congrArg Prod.snd hs'
  have hcases := hs.unhooks hlibs hh hwhole hresult
  cases hcases with
  | nothing e kept found refused =>
      simp only [kept, Bool.false_eq_true, if_false, ← hs.state, false_iff]
      exact ⟨⟨g, hs⟩, refused⟩
  | restored inv kept hrestored head =>
      simp only [hrestored, if_true, true_iff]
      have hs' := hs.remove hlibs hh s.st.locked
      exact ⟨⟨_, hs'.kept hlibs inv kept (fun h' hmem => (hs.mem_erase hh hmem).2.pieces) _⟩, head⟩

/-- What every unhook of a hooked function answers. -/
theorem Held.answers (hlibs : Exits.LibrariesApart libs) (hs : Held libs s g) : s.Answers := by
  intro h hh answers hwhole
  have hmem : s.st.mem = g.mem := congrArg InstState.mem hs.state
  have hhead := hs.head h hh
  rw [← hmem] at hhead
  refine ⟨unhook_eq_none_iff hhead hwhole, fun out hresult => ?_⟩
  have hcases := hs.unhooks hlibs hh hwhole hresult
  cases hcases with
  | nothing e kept found refused =>
      exact ⟨⟨fun hnone => (by cases hnone), fun hallows => absurd hallows.1 refused⟩,
        fun heq => found.1 (Option.some.inj heq), fun heq => found.2 (Option.some.inj heq)⟩
  | restored inv kept hrestored head found allowed => exact ⟨allowed, found⟩

theorem Inv.step (hlibs : Exits.LibrariesApart libs) (hs : s.Inv libs) {act : InstAct page}
    (hguard : s.Disciplined libs act) (hstep : s.step act = some s') : s'.Inv libs := by
  obtain ⟨g, hs⟩ := hs
  cases act with
  | hook lib target_addr dli_ssize new_addr answers =>
      obtain ⟨⟨s', r⟩, hhook, rfl⟩ := Option.map_eq_some_iff.mp hstep
      exact hs.hook hlibs hguard hhook
  | unhook h answers =>
      obtain ⟨⟨s', r⟩, hunhook, rfl⟩ := Option.map_eq_some_iff.mp hstep
      exact (hs.unhook hlibs hguard.1 hguard.2 hunhook).1
  | store a bytes =>
      obtain rfl := Option.some.inj hstep
      exact hs.stored hlibs hguard

/-- The first bytes of a range. -/
theorem load_prefix {m : Memory} {a : Address} {n : ℕ} {bytes : List (BitVec 8)}
    (h : bytes <+: load m a n) : load m a bytes.length = bytes := by
  obtain ⟨behind, hbehind⟩ := h
  have hlength := congrArg List.length hbehind
  rw [List.length_append, length_load] at hlength
  have htake : (load m a n).take bytes.length = load m a bytes.length := by
    unfold load
    rw [← List.map_take, List.take_range, Nat.min_eq_left (by omega)]
  rw [← htake, ← hbehind, List.take_left]

theorem Held.sound (hlibs : Exits.LibrariesApart libs) (hs : Held libs s g) : Sound libs s := by
  have hmem : s.st.mem = g.mem := congrArg InstState.mem hs.state
  refine ⟨fun h hh other c hc => ?_, fun h hh => ?_, fun x hpages hgaps hheads => ?_⟩
  · have hholds := hs.holds h hh
    have hsits := hs.sits h hh
    have hbound := hsits.bound
    have hlen := hholds.backup_len_le
    have hhead := hs.head h hh
    rw [hholds.backup_len] at hhead hlen
    rw [← hmem, ← hc] at hhead
    have hcode := codeAt_of_load (by omega) hhead
    cases hholds.jumps with
    | with_exit pos trampo exit low high aligned =>
        obtain ⟨hexit, hexit_bound⟩ := hs.inv.exit hlibs (hholds.exit (Nat.pos_iff_ne_zero.mp pos))
        rw [exit, ← hmem, ← hc] at hexit
        rw [trampo] at hcode
        exact jump_with_exit (by omega) (by omega) low high hsits.aligned aligned hcode
          (codeAt_of_load (show 16 ≤ 2 ^ 64 by omega) hexit)
    | without_exit none trampo =>
        rw [trampo] at hcode
        exact absolute_jump other (.inl decode_br_x17) hcode
  · obtain ⟨w, code, htarget, henter, hsize, hcode, hhas, hprefix⟩ := (hs.holds h hh).enter
    refine ⟨w, htarget, henter, hsize, hcode, ?_⟩
    rw [hmem]
    rw [← hs.inv.load hhas, ← henter] at hprefix
    have hload := load_prefix hprefix
    rw [length_bytes] at hload
    exact codeAt_of_load (by have hle := w.size_code_le; omega) hload
  · rw [hmem]
    refine hs.rest x ⟨fun k p hp => ?_, hgaps⟩ hheads
    obtain ⟨q, hq, rfl⟩ := List.mem_map.mp hp
    exact hpages k q ((congrFun (congrArg InstState.pages hs.state) k).symm ▸ hq)

/-- The pages of the examples. -/
def smallPage : PageSize := ⟨256, by decide, by decide⟩

/-- `mmap` returns a page for `enter`, but none near the library. -/
def smallAnswers : HookAnswers where
  enter := ⟨100, some 0x20000, true, true, true⟩
  exit := ⟨100, none, true, true, true⟩
  library := ⟨fun _ => false, fun _ => true, fun _ => none⟩
  with_exit := ⟨true, none, ⟨true, none⟩⟩
  without_exit := ⟨true, none, ⟨true, none⟩⟩
  now_exit := 101
  now_enter := 101

def smallHook : HookedFunction where
  target_addr := 0x40000
  new_addr := 0x50000
  inst := {
    trampo := [0x14000038]
    backup := [0, 0, 0, 0]
    in_library := true
    exit_addr := 0x400E0
    exit := bytes (sh_a64_absolute_jump_with_br 0x50000)
    enter_addr := 0x20000 }

/-- The first function of the library is hooked and unhooked. -/
def smallActs : List (InstAct smallPage) :=
  [.hook Exits.smallLibrary 0x40000 0x20 0x50000 smallAnswers,
    .unhook smallHook
      ⟨false, ⟨true, none⟩, ⟨fun _ => false, fun _ => true, fun _ => none⟩, 102, 103⟩]

end Insts

end ShadowHook
