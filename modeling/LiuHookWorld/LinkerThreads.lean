/-
# The hooks of the linker on several threads

The hooks of `call_constructors` and `call_destructors` while `sh_linker_init` opens the probe
library, step by step: a step reads or writes one variable of `sh_linker.c`, and what it reads of
a `soinfo` may be anything.  The calls may be on any threads; those on one thread nest, which is
not asked for here.

No offset is read before it is known (`always_known`), whatever the probe finds: `scan_ok` is
only set by a call whose own scan found all offsets, and none is ever forgotten.

* `memory_scan_pre_alone`, `to_dlinfo_alone` : without other calls the steps are the functions of
  the source.
-/
import Mathlib.Logic.Relation
import LiuHookWorld.LinkerInit
import LiuHookWorld.Runs

namespace ShadowHook.Threads

variable {abi : Abi}

/-! ## Offsets one by one -/

/-- The `sh_linker_soinfo_offset_…` -/
inductive Field
  | load_bias
  | name
  | phdr
  | phnum
  | constructors_called
  deriving DecidableEq, Repr

def offset (offsets : Offsets) : Field → Option ℕ
  | .load_bias => offsets.load_bias
  | .name => offsets.name
  | .phdr => offsets.phdr
  | .phnum => offsets.phnum
  | .constructors_called => offsets.constructors_called

def setOffset (offsets : Offsets) (f : Field) (i : ℕ) : Offsets :=
  match f with
  | .load_bias => { offsets with load_bias := some i }
  | .name => { offsets with name := some i }
  | .phdr => { offsets with phdr := some i }
  | .phnum => { offsets with phnum := some i }
  | .constructors_called => { offsets with constructors_called := some i }

/-- In the order in which `sh_linker_soinfo_memory_scan_pre` checks them. -/
def Field.all : List Field := [.load_bias, .name, .phdr, .phnum, .constructors_called]

/-- In the order in which `sh_linker_soinfo_to_dlinfo` reads them. -/
def Field.ofDlinfo : List Field := [.load_bias, .name, .phdr, .phnum]

/-- What `sh_linker_soinfo_to_dlinfo` does with the word at an offset. -/
def setField (dlinfo : DlPhdrInfo abi) (f : Field) (word : Word abi) : DlPhdrInfo abi :=
  match f with
  | .load_bias => { dlinfo with dlpi_addr := word }
  | .name => { dlinfo with dlpi_name := word }
  | .phdr => { dlinfo with dlpi_phdr := word }
  | .phnum => { dlinfo with dlpi_phnum := UInt16.ofBitVec (word.setWidth 16) }
  | .constructors_called => dlinfo

/-! ## Calls of the hooks -/

inductive Proxy
  | call_ctors
  | call_dtors
  deriving DecidableEq, Repr

/-- What a call does next. -/
inductive Pc (abi : Abi)
  | load_scan_tid
  | load_scan_ok
  /-- `TAILQ_EMPTY` -/
  | empty
  /-- `sh_linker_soinfo_is_loading` -/
  | is_loading
  /-- `sh_linker_soinfo_to_dlinfo`, with the offsets that it still reads -/
  | to_dlinfo (rest : List Field) (dlinfo : DlPhdrInfo abi)
  /-- `sh_linker_soinfo_memory_scan_pre`: its loop at a word, with the offsets found there that
  it still writes, and its check of the offsets -/
  | xdl_open
  | scan (dlinfo : DlInfo abi) (i : ℕ)
  | write (found : List (Field × ℕ)) (dlinfo : DlInfo abi) (i : ℕ)
  | check (rest : List Field)
  /-- The original function -/
  | original
  /-- `sh_linker_soinfo_memory_scan_post`, and its store -/
  | memory_scan_post
  | store_scan_ok
  | done

/-- A call of a hook, with its local variables. -/
structure Call (abi : Abi) where
  proxy : Proxy
  tid : ℕ
  pc : Pc abi
  do_callbacks : Bool
  do_memory_scan_pre_ok : Bool

/-- The variables of `sh_linker.c`; a thread 0 is none. -/
structure Vars where
  offsets : Offsets
  scan_tid : Option ℕ
  scan_ok : Bool
  deriving DecidableEq, Repr

/-- What a step sees: the memory of the `soinfo` and the probe library, and whether there are no
callbacks. -/
structure Seen (abi : Abi) where
  scan : Scan abi
  empty : Bool

/-- Where the loop of `sh_linker_soinfo_memory_scan_pre` goes from the word `i`. -/
def scanNext (offsets : Offsets) (scan : Scan abi) (dlinfo : DlInfo abi) (i : ℕ) : Pc abi :=
  if i < 96 then
    if offsets.phdr.isSome && offsets.load_bias.isSome then .check Field.all
    else if scan.soinfo.crashes i then .check Field.all
    else if offsets.phdr.isNone && phdrAt scan dlinfo i then
      .write [(.phdr, i), (.phnum, i + 1)] dlinfo (i + 2)
    else if offsets.load_bias.isNone && linkMapAt scan dlinfo i then
      .write [(.load_bias, i), (.name, i + 1), (.constructors_called, i + 5)] dlinfo (i + 7)
    else if unrelated scan dlinfo i then .scan dlinfo (i + 7)
    else .scan dlinfo (i + 1)
  else .check Field.all

namespace Call

def enter (proxy : Proxy) (tid : ℕ) : Call abi := ⟨proxy, tid, .load_scan_tid, false, false⟩

/-- To the next step, with the local variables as they are. -/
def goto (c : Call abi) (pc : Pc abi) : Call abi := { c with pc := pc }

/-- The callbacks before the original function were called. -/
def called (c : Call abi) : Call abi := { c with pc := .original, do_callbacks := true }

/-- `sh_linker_soinfo_memory_scan_pre` returned 0. -/
def scanned (c : Call abi) : Call abi :=
  { c with pc := .original, do_memory_scan_pre_ok := true }

/-- The next step of a call; none if it is done. -/
def next (v : Vars) (seen : Seen abi) (c : Call abi) : Option (Vars × Call abi) :=
  match c.pc with
  | .load_scan_tid =>
      match v.scan_tid with
      | none => some (v, c.goto .load_scan_ok)
      | some scan_tid =>
          if c.proxy = .call_ctors ∧ c.tid = scan_tid then some (v, c.goto .xdl_open)
          else some (v, c.goto .original)
  | .load_scan_ok =>
      if v.scan_ok then
        match c.proxy with
        | .call_ctors => some (v, c.goto .is_loading)
        | .call_dtors => some (v, c.goto .empty)
      else some (v, c.goto .original)
  | .is_loading =>
      -- a library is loading before its constructors, and is not before its destructors
      match c.proxy, sh_linker_soinfo_is_loading v.offsets seen.scan.soinfo with
      | .call_ctors, true => some (v, c.goto .empty)
      | .call_dtors, false => some (v, c.called)
      | .call_ctors, false | .call_dtors, true => some (v, c.goto .original)
  | .empty =>
      if seen.empty then some (v, c.goto .original)
      else some (v, c.goto (.to_dlinfo Field.ofDlinfo ⟨0, 0, 0, 0⟩))
  | .to_dlinfo (f :: rest) dlinfo =>
      let word := seen.scan.soinfo.at (offset v.offsets f)
      some (v, c.goto (.to_dlinfo rest (setField dlinfo f word)))
  | .to_dlinfo [] dlinfo =>
      match c.proxy with
      | .call_ctors => some (v, c.called)
      | .call_dtors =>
          if dlinfo.dlpi_addr ≠ 0 ∧ dlinfo.dlpi_name ≠ 0 then some (v, c.goto .is_loading)
          else some (v, c.goto .original)
  | .xdl_open =>
      match seen.scan.dlinfo with
      | none => some (v, c.goto .original)
      | some dlinfo =>
          if dlinfo.l_ld = BitVec.allOnes _ then some (v, c.goto (.check Field.all))
          else some (v, c.goto (.scan dlinfo 0))
  | .scan dlinfo i => some (v, c.goto (scanNext v.offsets seen.scan dlinfo i))
  | .write ((f, k) :: found) dlinfo i =>
      some ({ v with offsets := setOffset v.offsets f k }, c.goto (.write found dlinfo i))
  | .write [] dlinfo i => some (v, c.goto (.scan dlinfo i))
  | .check (f :: rest) =>
      if (offset v.offsets f).isNone then some (v, c.goto .original)
      else some (v, c.goto (.check rest))
  | .check [] => some (v, c.scanned)
  | .original =>
      if !c.do_callbacks && c.do_memory_scan_pre_ok then some (v, c.goto .memory_scan_post)
      else some (v, c.goto .done)
  | .memory_scan_post =>
      if seen.scan.soinfo.at v.offsets.constructors_called ≠ 0 then
        some (v, c.goto .store_scan_ok)
      else some (v, c.goto .done)
  | .store_scan_ok => some ({ v with scan_ok := true }, c.goto .done)
  | .done => none

end Call

/-! ## The probe -/

/-- What `sh_linker_hook_call_ctors_dtors` does next. -/
inductive Probe
  | hook_ctors
  | hook_dtors
  | store_scan_tid
  | dlopen
  | dlclose
  | clear_scan_tid
  | returned (r : Int)
  deriving DecidableEq, Repr

/-- Its next step; `r` is what `hook` returns, and the handle from `dlopen`. -/
def Probe.next (tid : ℕ) (v : Vars) (r : Int) : Probe → Option (Vars × Probe)
  | .hook_ctors => some (v, if r ≠ 0 then .returned (-1) else .hook_dtors)
  | .hook_dtors => some (v, if r ≠ 0 then .returned (-1) else .store_scan_tid)
  | .store_scan_tid => some ({ v with scan_tid := some tid }, .dlopen)
  | .dlopen => some (v, if r ≠ 0 then .dlclose else .clear_scan_tid)
  | .dlclose => some (v, .clear_scan_tid)
  | .clear_scan_tid => some ({ v with scan_tid := none }, .returned 0)
  | .returned _ => none

/-- The variables, the probe and all calls of the hooks. -/
structure Sys (abi : Abi) where
  vars : Vars
  probe : Probe
  calls : List (Call abi)

def Sys.start : Sys abi := ⟨⟨.initial, none, false⟩, .hook_ctors, []⟩

inductive Act (abi : Abi)
  | probe (r : Int)
  | enter (proxy : Proxy) (tid : ℕ)
  /-- The call `i` goes on. -/
  | run (i : ℕ) (seen : Seen abi)

/-- The probe is on the thread `tid`. -/
def step (tid : ℕ) (s : Sys abi) : Act abi → Option (Sys abi)
  | .probe r => (s.probe.next tid s.vars r).map fun p => { s with vars := p.1, probe := p.2 }
  | .enter proxy tid => some { s with calls := s.calls ++ [Call.enter proxy tid] }
  | .run i seen =>
      s.calls[i]?.bind fun c =>
        (c.next s.vars seen).map fun p => { s with vars := p.1, calls := s.calls.set i p.2 }

/-- The offsets that the function reads in which a call is. -/
def Pc.reads : Pc abi → List Field
  | .to_dlinfo _ _ => Field.ofDlinfo
  | .is_loading | .memory_scan_post => [.constructors_called]
  | _ => []

/-- All offsets that the calls read are known. -/
def Sys.Known (s : Sys abi) : Prop :=
  ∀ c ∈ s.calls, ∀ f ∈ c.pc.reads, (offset s.vars.offsets f).isSome = true

/-! ## Offsets are not forgotten -/

theorem complete_iff {offsets : Offsets} :
    offsets.complete = true ↔ ∀ f, (offset offsets f).isSome = true := by
  simp only [Offsets.complete, Bool.and_eq_true]
  constructor
  · rintro ⟨⟨⟨⟨hbias, hname⟩, hphdr⟩, hphnum⟩, hcalled⟩ f
    cases f with
    | load_bias => exact hbias
    | name => exact hname
    | phdr => exact hphdr
    | phnum => exact hphnum
    | constructors_called => exact hcalled
  · intro h
    exact ⟨⟨⟨⟨h .load_bias, h .name⟩, h .phdr⟩, h .phnum⟩, h .constructors_called⟩

theorem offset_setOffset (offsets : Offsets) (f g : Field) (i : ℕ) :
    offset (setOffset offsets f i) g = if g = f then some i else offset offsets g := by
  cases f <;> cases g <;> rfl

/-- What is known before is known after. -/
def Grows (before after : Offsets) : Prop :=
  ∀ f, (offset before f).isSome = true → (offset after f).isSome = true

section

variable {before after offsets : Offsets}

theorem Grows.refl (offsets : Offsets) : Grows offsets offsets := fun _ h => h

theorem grows_setOffset (offsets : Offsets) (f : Field) (i : ℕ) :
    Grows offsets (setOffset offsets f i) := by
  intro g hg
  rw [offset_setOffset]
  split
  · rfl
  · exact hg

theorem Grows.complete (h : Grows before after) (hcomplete : before.complete = true) :
    after.complete = true :=
  complete_iff.mpr fun f => h f (complete_iff.mp hcomplete f)

end

/-! ## One step -/

/-- What a call relies on at this place. -/
def Pc.Sound (offsets : Offsets) : Pc abi → Prop
  | .empty | .is_loading | .to_dlinfo _ _ | .memory_scan_post | .store_scan_ok =>
      offsets.complete = true
  | .check rest => ∀ f ∉ rest, (offset offsets f).isSome = true
  | .load_scan_tid | .load_scan_ok | .xdl_open | .scan _ _ | .write _ _ _ | .original | .done =>
      True

structure Call.Sound (offsets : Offsets) (c : Call abi) : Prop where
  pc : c.pc.Sound offsets
  scanned : c.do_memory_scan_pre_ok = true → offsets.complete = true

section

variable {before after : Offsets} {v v' : Vars} {c c' : Call abi} {seen : Seen abi}

theorem Pc.Sound.mono {pc : Pc abi} (h : pc.Sound before) (hgrows : Grows before after) :
    pc.Sound after := by
  cases pc with
  | empty | is_loading | to_dlinfo | memory_scan_post | store_scan_ok => exact hgrows.complete h
  | check rest => exact fun f hf => hgrows f (h f hf)
  | load_scan_tid | load_scan_ok | xdl_open | scan | write | original | done => trivial

theorem Call.Sound.mono (h : c.Sound before) (hgrows : Grows before after) : c.Sound after :=
  ⟨h.pc.mono hgrows, fun hscanned => hgrows.complete (h.scanned hscanned)⟩

theorem Call.Sound.goto (h : c.Sound before) {pc : Pc abi} (hpc : pc.Sound before) :
    (c.goto pc).Sound before :=
  ⟨hpc, h.scanned⟩

/-- The check of the offsets starts with all of them. -/
theorem sound_check_all (offsets : Offsets) : (Pc.check Field.all : Pc abi).Sound offsets := by
  intro f hf
  cases f <;> exact absurd (by decide) hf

theorem sound_scanNext (offsets : Offsets) (scan : Scan abi) (dlinfo : DlInfo abi) (i : ℕ) :
    (scanNext offsets scan dlinfo i).Sound offsets := by
  rw [scanNext]
  split_ifs
  · exact sound_check_all offsets
  · exact sound_check_all offsets
  · trivial
  · trivial
  · trivial
  · trivial
  · exact sound_check_all offsets

/-- `scan_ok` is set, and a call gets to the offsets, only when all offsets are known. -/
structure Kept (v v' : Vars) (c' : Call abi) : Prop where
  grows : Grows v.offsets v'.offsets
  scan_ok : v'.scan_ok = true → v'.offsets.complete = true
  sound : c'.Sound v'.offsets

/-- A step that writes nothing. -/
theorem kept_goto (hok : v.scan_ok = true → v.offsets.complete = true) (h : c.Sound v.offsets)
    {pc : Pc abi} (hnext : some (v, c.goto pc) = some (v', c')) (hpc : pc.Sound v.offsets) :
    Kept v v' c' := by
  obtain ⟨rfl, rfl⟩ := Prod.mk.inj (Option.some.inj hnext)
  exact ⟨.refl _, hok, h.goto hpc⟩

theorem kept_next (hok : v.scan_ok = true → v.offsets.complete = true) (h : c.Sound v.offsets)
    (hnext : c.next v seen = some (v', c')) : Kept v v' c' := by
  have hgoto {pc : Pc abi} (heq : some (v, c.goto pc) = some (v', c')) :
      pc.Sound v.offsets → Kept v v' c' := kept_goto hok h heq
  have hcalled (heq : some (v, c.called) = some (v', c')) : Kept v v' c' := by
    obtain ⟨rfl, rfl⟩ := Prod.mk.inj (Option.some.inj heq)
    exact ⟨.refl _, hok, trivial, h.scanned⟩
  have hpc := h.pc
  cases hat : c.pc with
  | load_scan_tid =>
      simp only [Call.next, hat] at hnext
      split at hnext
      · exact hgoto hnext trivial
      · split at hnext
        · exact hgoto hnext trivial
        · exact hgoto hnext trivial
  | load_scan_ok =>
      simp only [Call.next, hat] at hnext
      split at hnext
      case isTrue hscan =>
        split at hnext
        · exact hgoto hnext (hok hscan)
        · exact hgoto hnext (hok hscan)
      case isFalse => exact hgoto hnext trivial
  | empty =>
      rw [hat] at hpc
      simp only [Call.next, hat] at hnext
      split at hnext
      · exact hgoto hnext trivial
      · exact hgoto hnext hpc
  | is_loading =>
      rw [hat] at hpc
      simp only [Call.next, hat] at hnext
      split at hnext
      · exact hgoto hnext hpc
      · exact hcalled hnext
      · exact hgoto hnext trivial
      · exact hgoto hnext trivial
  | to_dlinfo rest dlinfo =>
      rw [hat] at hpc
      cases rest with
      | cons f rest =>
          simp only [Call.next, hat] at hnext
          exact hgoto hnext hpc
      | nil =>
          simp only [Call.next, hat] at hnext
          split at hnext
          · exact hcalled hnext
          · split at hnext
            · exact hgoto hnext hpc
            · exact hgoto hnext trivial
  | xdl_open =>
      simp only [Call.next, hat] at hnext
      split at hnext
      · exact hgoto hnext trivial
      · split at hnext
        · exact hgoto hnext (sound_check_all _)
        · exact hgoto hnext trivial
  | scan dlinfo i =>
      simp only [Call.next, hat] at hnext
      exact hgoto hnext (sound_scanNext _ _ _ _)
  | write found dlinfo i =>
      cases found with
      | cons place found =>
          obtain ⟨f, k⟩ := place
          simp only [Call.next, hat] at hnext
          obtain ⟨rfl, rfl⟩ := Prod.mk.inj (Option.some.inj hnext)
          have hgrows := grows_setOffset v.offsets f k
          exact ⟨hgrows, fun hscan => hgrows.complete (hok hscan), trivial, (h.mono hgrows).scanned⟩
      | nil =>
          simp only [Call.next, hat] at hnext
          exact hgoto hnext trivial
  | check rest =>
      rw [hat] at hpc
      cases rest with
      | cons f rest =>
          simp only [Call.next, hat] at hnext
          split at hnext
          case isTrue => exact hgoto hnext trivial
          case isFalse hknown =>
            -- one more offset is known
            refine hgoto hnext fun g hg => ?_
            by_cases hgf : g = f
            · rw [hgf, ← Option.not_isNone, Bool.not_eq_true']
              exact Bool.eq_false_iff.mpr hknown
            · exact hpc g fun hmem => (List.mem_cons.mp hmem).elim hgf hg
      | nil =>
          simp only [Call.next, hat] at hnext
          obtain ⟨rfl, rfl⟩ := Prod.mk.inj (Option.some.inj hnext)
          have hcomplete := complete_iff.mpr fun f => hpc f List.not_mem_nil
          exact ⟨.refl _, hok, trivial, fun _ => hcomplete⟩
  | original =>
      simp only [Call.next, hat] at hnext
      split at hnext
      case isTrue hscanned => exact hgoto hnext (h.scanned (Bool.and_eq_true_iff.mp hscanned).2)
      case isFalse => exact hgoto hnext trivial
  | memory_scan_post =>
      rw [hat] at hpc
      simp only [Call.next, hat] at hnext
      split at hnext
      · exact hgoto hnext hpc
      · exact hgoto hnext trivial
  | store_scan_ok =>
      rw [hat] at hpc
      simp only [Call.next, hat] at hnext
      obtain ⟨rfl, rfl⟩ := Prod.mk.inj (Option.some.inj hnext)
      exact ⟨.refl _, fun _ => hpc, trivial, h.scanned⟩
  | done =>
      simp only [Call.next, hat] at hnext
      cases hnext

end

/-! ## Calls without others -/

/-- A step of a call while no other call writes, and the memory stays as it is. -/
def Alone (seen : Seen abi) (before after : Vars × Call abi) : Prop :=
  before.2.next before.1 seen = some after

section

variable {seen : Seen abi} {offsets : Offsets} {scan_tid : Option ℕ} {scan_ok : Bool}
  {c : Call abi}

open Relation (ReflTransGen)

/-- The writes of one place. -/
theorem write_alone (found : List (Field × ℕ)) (dlinfo : DlInfo abi) (i : ℕ) :
    ReflTransGen (Alone seen) (⟨offsets, scan_tid, scan_ok⟩, c.goto (.write found dlinfo i))
      (⟨found.foldl (fun offsets p => setOffset offsets p.1 p.2) offsets, scan_tid, scan_ok⟩,
        c.goto (.scan dlinfo i)) := by
  induction found generalizing offsets with
  | nil => exact .single rfl
  | cons place found ih => exact .head rfl ih

theorem head_scan {dlinfo : DlInfo abi} {i : ℕ} {pc : Pc abi} {after : Vars × Call abi}
    (hpc : scanNext offsets seen.scan dlinfo i = pc)
    (h : ReflTransGen (Alone seen) (⟨offsets, scan_tid, scan_ok⟩, c.goto pc) after) :
    ReflTransGen (Alone seen) (⟨offsets, scan_tid, scan_ok⟩, c.goto (.scan dlinfo i)) after := by
  rw [← hpc] at h
  exact .head rfl h

/-- The loop of the scan. -/
theorem scan_alone (dlinfo : DlInfo abi) (i : ℕ) (offsets : Offsets) :
    ReflTransGen (Alone seen) (⟨offsets, scan_tid, scan_ok⟩, c.goto (.scan dlinfo i))
      (⟨memory_scan seen.scan dlinfo i offsets, scan_tid, scan_ok⟩,
        c.goto (.check Field.all)) := by
  fun_induction memory_scan seen.scan dlinfo i offsets with
  | case1 i offsets hi hfound => exact head_scan (by rw [scanNext, if_pos hi, if_pos hfound]) .refl
  | case2 i offsets hi hfound hcrash =>
      exact head_scan (by rw [scanNext, if_pos hi, if_neg hfound, if_pos hcrash]) .refl
  | case3 i offsets hi hfound hcrash hphdr ih =>
      refine head_scan ?_ ((write_alone [(.phdr, i), (.phnum, i + 1)] dlinfo (i + 2)).trans ih)
      rw [scanNext, if_pos hi, if_neg hfound, if_neg hcrash, if_pos hphdr]
  | case4 i offsets hi hfound hcrash hphdr hlinkMap ih =>
      refine head_scan ?_ ((write_alone
        [(.load_bias, i), (.name, i + 1), (.constructors_called, i + 5)] dlinfo (i + 7)).trans ih)
      rw [scanNext, if_pos hi, if_neg hfound, if_neg hcrash, if_neg hphdr, if_pos hlinkMap]
  | case5 i offsets hi hfound hcrash hphdr hlinkMap hunrelated ih =>
      refine head_scan ?_ ih
      rw [scanNext, if_pos hi, if_neg hfound, if_neg hcrash, if_neg hphdr, if_neg hlinkMap,
        if_pos hunrelated]
  | case6 i offsets hi hfound hcrash hphdr hlinkMap hunrelated ih =>
      refine head_scan ?_ ih
      rw [scanNext, if_pos hi, if_neg hfound, if_neg hcrash, if_neg hphdr, if_neg hlinkMap,
        if_neg hunrelated]
  | case7 i offsets hi => exact head_scan (by rw [scanNext, if_neg hi]) .refl

/-- The check of the offsets. -/
theorem check_alone (rest : List Field) :
    ReflTransGen (Alone seen) (⟨offsets, scan_tid, scan_ok⟩, c.goto (.check rest))
      (⟨offsets, scan_tid, scan_ok⟩,
        if rest.all fun f => (offset offsets f).isSome then c.scanned else c.goto .original) := by
  induction rest with
  | nil => exact .single rfl
  | cons f rest ih =>
      cases hknown : offset offsets f with
      | none =>
          have hnext : Alone seen (⟨offsets, scan_tid, scan_ok⟩, c.goto (.check (f :: rest)))
              (⟨offsets, scan_tid, scan_ok⟩, c.goto .original) := by
            simp [Alone, Call.next, Call.goto, hknown]
          simpa [hknown] using ReflTransGen.single hnext
      | some i =>
          have hnext : Alone seen (⟨offsets, scan_tid, scan_ok⟩, c.goto (.check (f :: rest)))
              (⟨offsets, scan_tid, scan_ok⟩, c.goto (.check rest)) := by
            simp [Alone, Call.next, Call.goto, hknown]
          simpa [hknown] using ih.head hnext

theorem check_all_alone :
    ReflTransGen (Alone seen) (⟨offsets, scan_tid, scan_ok⟩, c.goto (.check Field.all))
      (⟨offsets, scan_tid, scan_ok⟩,
        if offsets.complete then c.scanned else c.goto .original) := by
  have hall : (Field.all.all fun f => (offset offsets f).isSome) = offsets.complete := by
    simp [Field.all, offset, Offsets.complete, Bool.and_assoc]
  rw [← hall]
  exact check_alone Field.all

/-- A scan without other calls is `sh_linker_soinfo_memory_scan_pre`. -/
theorem memory_scan_pre_alone :
    ReflTransGen (Alone seen) (⟨offsets, scan_tid, scan_ok⟩, c.goto .xdl_open)
      (⟨(sh_linker_soinfo_memory_scan_pre seen.scan offsets).2, scan_tid, scan_ok⟩,
        if (sh_linker_soinfo_memory_scan_pre seen.scan offsets).1 = 0 then c.scanned
        else c.goto .original) := by
  have hcheck (offsets : Offsets) (r : Int) (hr : r = if offsets.complete then 0 else -1) :
      (if r = 0 then c.scanned else c.goto .original)
        = if offsets.complete then c.scanned else c.goto .original := by
    cases hcomplete : offsets.complete <;> simp [hr, hcomplete]
  rw [sh_linker_soinfo_memory_scan_pre]
  cases hopen : seen.scan.dlinfo with
  | none =>
      refine .single ?_
      simp [Alone, Call.next, Call.goto, hopen]
  | some dlinfo =>
      by_cases hld : dlinfo.l_ld = BitVec.allOnes _
      · have hnext : Alone seen (⟨offsets, scan_tid, scan_ok⟩, c.goto .xdl_open)
            (⟨offsets, scan_tid, scan_ok⟩, c.goto (.check Field.all)) := by
          simp [Alone, Call.next, Call.goto, hopen, hld]
        simp only [if_pos hld]
        rw [hcheck offsets _ rfl]
        exact .head hnext check_all_alone
      · have hnext : Alone seen (⟨offsets, scan_tid, scan_ok⟩, c.goto .xdl_open)
            (⟨offsets, scan_tid, scan_ok⟩, c.goto (.scan dlinfo 0)) := by
          simp [Alone, Call.next, Call.goto, hopen, hld]
        simp only [if_neg hld]
        rw [hcheck _ _ rfl]
        exact .head hnext ((scan_alone dlinfo 0 offsets).trans check_all_alone)

/-- The reads of `sh_linker_soinfo_to_dlinfo` without other calls. -/
theorem to_dlinfo_alone :
    ReflTransGen (Alone seen)
      (⟨offsets, scan_tid, scan_ok⟩, c.goto (.to_dlinfo Field.ofDlinfo ⟨0, 0, 0, 0⟩))
      (⟨offsets, scan_tid, scan_ok⟩,
        c.goto (.to_dlinfo [] (sh_linker_soinfo_to_dlinfo offsets seen.scan.soinfo))) :=
  .head rfl (.head rfl (.head rfl (.single rfl)))

end

/-! ## Runs -/

/-- What holds in every state. -/
structure Inv (s : Sys abi) : Prop where
  scan_ok : s.vars.scan_ok = true → s.vars.offsets.complete = true
  calls : ∀ c ∈ s.calls, c.Sound s.vars.offsets

section

variable {s s' : Sys abi} {tid : ℕ}

theorem inv_start : Inv (Sys.start : Sys abi) := ⟨nofun, by simp [Sys.start]⟩

/-- The probe writes neither the offsets nor `scan_ok`. -/
theorem probe_next {v v' : Vars} {r : Int} {probe probe' : Probe}
    (h : probe.next tid v r = some (v', probe')) :
    v'.offsets = v.offsets ∧ v'.scan_ok = v.scan_ok := by
  cases probe with
  | returned => cases h
  | hook_ctors | hook_dtors | store_scan_tid | dlopen | dlclose | clear_scan_tid =>
      obtain ⟨rfl, -⟩ := Prod.mk.inj (Option.some.inj h)
      exact ⟨rfl, rfl⟩

theorem Inv.step (hinv : Inv s) {a : Act abi} (hstep : step tid s a = some s') : Inv s' := by
  cases a with
  | probe r =>
      obtain ⟨⟨v', probe'⟩, hnext, rfl⟩ := Option.map_eq_some_iff.mp hstep
      obtain ⟨hoffsets, hok⟩ := probe_next hnext
      constructor
      · show v'.scan_ok = true → v'.offsets.complete = true
        rw [hoffsets, hok]
        exact hinv.scan_ok
      · show ∀ c ∈ s.calls, c.Sound v'.offsets
        rw [hoffsets]
        exact hinv.calls
  | enter proxy tid =>
      obtain rfl := Option.some.inj hstep
      refine ⟨hinv.scan_ok, fun c hc => ?_⟩
      rcases List.mem_append.mp hc with hc | hc
      · exact hinv.calls c hc
      · rw [List.mem_singleton.mp hc]
        exact ⟨trivial, nofun⟩
  | run i seen =>
      obtain ⟨c, hcall, hrun⟩ := Option.bind_eq_some_iff.mp hstep
      obtain ⟨⟨v', c'⟩, hnext, rfl⟩ := Option.map_eq_some_iff.mp hrun
      have hkept := kept_next hinv.scan_ok (hinv.calls c (List.mem_of_getElem? hcall)) hnext
      refine ⟨hkept.scan_ok, fun d hd => ?_⟩
      rcases List.mem_or_eq_of_mem_set hd with hd | rfl
      · exact (hinv.calls d hd).mono hkept.grows
      · exact hkept.sound

theorem Inv.known (hinv : Inv s) : s.Known := by
  intro c hc f hf
  have hpc := (hinv.calls c hc).pc
  have hcomplete : s.vars.offsets.complete = true := by
    cases hat : c.pc with
    | empty | is_loading | to_dlinfo | memory_scan_post | store_scan_ok =>
        rw [hat] at hpc
        exact hpc
    | load_scan_tid | load_scan_ok | xdl_open | scan | write | check | original | done =>
        rw [hat] at hf
        exact absurd hf List.not_mem_nil
  exact complete_iff.mp hcomplete f

/-- **Unset offsets are never used.**  In every state of every run, a call in
`sh_linker_soinfo_to_dlinfo`, `sh_linker_soinfo_is_loading` or
`sh_linker_soinfo_memory_scan_post` finds the offsets known that the function reads. -/
theorem always_known (tid : ℕ) (acts : List (Act abi)) :
    Runs.Always (step tid) Sys.Known Sys.start acts :=
  (Runs.always_of_preserved (fun _ _ _ hinv hstep => Inv.step hinv hstep) acts inv_start).mono
    fun _ => Inv.known

end

/-- Without the probe library, the probe returns 0 all the same. -/
example : let s := Runs.run (step 1) (Sys.start : Sys .arm64_v8a) (List.replicate 5 (.probe 0))
    s.probe = .returned 0 ∧ s.vars = ⟨.initial, none, false⟩ := by decide

end ShadowHook.Threads
