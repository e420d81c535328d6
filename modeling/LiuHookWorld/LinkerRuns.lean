/-
# What the initialisation of the linker reports

When the return value of `sh_linker_init` tells whether the callbacks that are registered
afterwards are called.  It says nothing of the scan, and in shared mode the hub keeps nested calls
from the hook.
-/
import LiuHookWorld.LinkerInit

namespace ShadowHook

open Nesting

variable {abi : Abi}

/-! ## The offsets -/

/-- The offsets after a scan: what is not known yet is searched for. -/
def Offsets.look (offsets : Offsets) (scan : Scan abi) : Offsets :=
  match scan.dlinfo with
  | none => offsets
  | some dlinfo =>
      if dlinfo.l_ld = BitVec.allOnes _ then offsets else search scan dlinfo 0 offsets

theorem memory_scan_zero (scan : Scan abi) (dlinfo : DlInfo abi) (offsets : Offsets) :
    memory_scan scan dlinfo 0 offsets = search scan dlinfo 0 offsets :=
  memory_scan_eq_search fun _ hj => absurd hj (Nat.not_lt_zero _)

theorem memory_scan_pre_snd (scan : Scan abi) (offsets : Offsets) :
    (sh_linker_soinfo_memory_scan_pre scan offsets).2 = offsets.look scan := by
  rw [sh_linker_soinfo_memory_scan_pre, Offsets.look]
  cases scan.dlinfo with
  | none => rfl
  | some dlinfo => simp only [memory_scan_zero]

theorem memory_scan_pre_fst_iff (scan : Scan abi) (offsets : Offsets) :
    (sh_linker_soinfo_memory_scan_pre scan offsets).1 = 0
      ↔ scan.dlinfo.isSome = true ∧ (offsets.look scan).complete = true := by
  rw [← memory_scan_pre_snd, sh_linker_soinfo_memory_scan_pre]
  cases scan.dlinfo with
  | none => simp
  | some dlinfo => simp

/-- The offsets that are known stay. -/
theorem Offsets.look_of_complete {offsets : Offsets} (h : offsets.complete = true)
    (scan : Scan abi) : offsets.look scan = offsets := by
  simp only [Offsets.complete, Bool.and_eq_true] at h
  obtain ⟨load_bias, hlinkMap⟩ := Option.isSome_iff_exists.mp h.1.1.1.1
  obtain ⟨phdr, hphdr⟩ := Option.isSome_iff_exists.mp h.1.1.2
  rw [Offsets.look]
  split
  · rfl
  · split
    · rfl
    · simp only [search, hlinkMap, hphdr]

/-! ## The probe -/

/-- The scans of the thread `tid`. -/
def scans (tid : ℕ) (events : List (Event abi)) : List (Scan abi) :=
  events.filterMap fun
    | .enter thread scan => if thread = tid then some scan else none
    | .leave _ | .register _ _ | .unregister _ | .task_init _ => none

/-- The offsets that the scans of the thread find. -/
def found (tid : ℕ) (events : List (Event abi)) : Offsets :=
  (scans tid events).foldl Offsets.look .initial

/-- In the probe, the thread calls the constructors of a `soinfo` with which all fields are
found, `constructors_called` where it is, and this is set after the constructors. -/
def Located (init : Init abi) (called : ℕ) : Prop :=
  ∃ before scan inner after rest,
    init.dlopen = before ++ .enter init.tid scan :: (inner ++ .leave after :: rest)
      ∧ Nested Event.kind inner ∧ scan.dlinfo.isSome = true
      ∧ ((found init.tid before).look scan).complete = true
      ∧ ((found init.tid before).look scan).constructors_called = some called
      ∧ after.word called ≠ 0

/-- A `soinfo` of nine words, and the library as `xdl` finds it. -/
def exampleScan : Scan .arm64_v8a where
  soinfo := ⟨fun i => [0x40, 1, 0x1000, 0x2000, 0x1020, 0, 0, 0, 0x1000].getD i 0, (· < 100)⟩
  dlinfo := some ⟨0x1000, 0x40, [⟨PT_DYNAMIC, 0x20⟩]⟩
  string address := if address = 0x2000 then some nothingSoName else none

example : Located ⟨.unique, 34, none, 0, 0, 1,
    [.enter 1 exampleScan, .leave ⟨fun _ => 1, fun _ => true⟩],
    .call .nil rfl .nil rfl⟩ 7 :=
  ⟨[], exampleScan, [], _, [], rfl, .nil, rfl, by decide +kernel, by decide +kernel, by decide⟩

section

variable {s s' : State abi} {e : Event abi} {tid : ℕ}

theorem Effect.scan_tid (h : Effect s e s') : s'.scan_tid = s.scan_tid := by
  cases h <;> rfl

theorem Effect.mode (h : Effect s e s') : s'.mode = s.mode := by
  cases h <;> rfl

/-- In unique mode there is no hub. -/
theorem passedOver_of_unique (hmode : s.mode = .unique) (tid : ℕ) : passedOver s tid = false := by
  rw [passedOver, hmode]
  rfl

theorem Effect.scan_ok_mono (h : Effect s e s') (hok : s.scan_ok = true) :
    s'.scan_ok = true := by
  cases h with
  | ok => rfl
  | pre | scan | pass | unmatched | post | left | queues => exact hok

/-- The offsets change with the scans of the thread. -/
theorem Effect.offsets (h : Effect s e s') (hmode : s.mode = .unique)
    (htid : s.scan_tid = some tid) :
    s'.offsets = (scans tid [e]).foldl Offsets.look s.offsets := by
  cases h with
  | pre hnone => rw [hnone] at htid; cases htid
  | scan hsome =>
      obtain rfl := Option.some.inj (hsome.symm.trans htid)
      simp [scans, memory_scan_pre_snd]
  | @pass thread scan hpass =>
      have hne := hpass.resolve_left (Bool.eq_false_iff.mp (passedOver_of_unique hmode thread))
      have hother : thread ≠ tid := fun heq => hne (by rw [htid, heq])
      simp [scans, hother]
  | unmatched | post | ok | left => rfl
  | queues hother => cases e <;> first | rfl | cases hother

end

section

variable {s : State abi} {tid : ℕ} {events : List (Event abi)}

theorem scan_tid_run (s : State abi) (events : List (Event abi)) :
    ((machine abi).run s events).scan_tid = s.scan_tid :=
  (machine abi).run_of_step (P := fun s' => s'.scan_tid = s.scan_tid)
    (fun s' e hs' => ((step_effect s' e).scan_tid).trans hs') rfl events

theorem mode_run (s : State abi) (events : List (Event abi)) :
    ((machine abi).run s events).mode = s.mode :=
  (machine abi).run_of_step (P := fun s' => s'.mode = s.mode)
    (fun s' e hs' => ((step_effect s' e).mode).trans hs') rfl events

theorem scan_ok_run (hok : s.scan_ok = true) (events : List (Event abi)) :
    ((machine abi).run s events).scan_ok = true :=
  (machine abi).run_of_step (P := fun s' => s'.scan_ok = true)
    (fun s' e => (step_effect s' e).scan_ok_mono) hok events

theorem offsets_run (hmode : s.mode = .unique) (htid : s.scan_tid = some tid)
    (events : List (Event abi)) :
    ((machine abi).run s events).offsets
      = (scans tid events).foldl Offsets.look s.offsets := by
  induction events generalizing s with
  | nil => rfl
  | cons e events ih =>
      have heffect := step_effect s e
      have hrest := ih (heffect.mode.trans hmode) (heffect.scan_tid.trans htid)
      have hscans : scans tid (e :: events) = scans tid [e] ++ scans tid events := by
        rw [scans, scans, scans, ← List.filterMap_append]
        rfl
      rw [hscans, List.foldl_append, ← heffect.offsets hmode htid]
      exact hrest

/-- Once all offsets are known, they stay. -/
theorem offsets_run_of_complete (hmode : s.mode = .unique) (htid : s.scan_tid = some tid)
    (h : s.offsets.complete = true) (events : List (Event abi)) :
    ((machine abi).run s events).offsets = s.offsets := by
  rw [offsets_run hmode htid]
  induction scans tid events with
  | nil => rfl
  | cons scan scans ih => rw [List.foldl_cons, s.offsets.look_of_complete h, ih]

/-- A scan that succeeds. -/
theorem frames_of_scan {scan : Scan abi} (hmode : s.mode = .unique)
    (htid : s.scan_tid = some tid)
    (hscan : scan.dlinfo.isSome = true ∧ (s.offsets.look scan).complete = true) :
    (step s (.enter tid scan)).frames = ⟨tid, none, true⟩ :: s.frames
      ∧ (step s (.enter tid scan)).offsets = s.offsets.look scan := by
  have hok := (memory_scan_pre_fst_iff scan s.offsets).mpr hscan
  simp only [step, call_ctors_enter, passedOver_of_unique hmode, htid, hok, memory_scan_pre_snd]
  exact ⟨rfl, rfl⟩

/-- A frame that waits for the end of a scan was pushed by a scan that succeeded. -/
theorem scan_of_frames {thread tid' : ℕ} {scan : Scan abi} (hmode : s.mode = .unique)
    (htid : s.scan_tid = some tid)
    (h : (step s (.enter thread scan)).frames = ⟨tid', none, true⟩ :: s.frames) :
    thread = tid ∧ scan.dlinfo.isSome = true ∧ (s.offsets.look scan).complete = true := by
  have hover : ¬ passedOver s thread = true :=
    Bool.eq_false_iff.mp (passedOver_of_unique hmode thread)
  by_cases hthread : thread = tid
  · refine ⟨hthread, (memory_scan_pre_fst_iff scan s.offsets).mp ?_⟩
    simp only [step, call_ctors_enter, if_neg hover, htid, if_pos hthread] at h
    exact of_decide_eq_true (Frame.mk.inj (List.cons.inj h).1).2.2
  · simp only [step, call_ctors_enter, if_neg hover, htid, if_neg hthread] at h
    cases (Frame.mk.inj (List.cons.inj h).1).2.2

theorem scan_ok_of_frames {soinfo : Soinfo abi} {frames : List (Frame abi)}
    (hframes : s.frames = ⟨tid, none, true⟩ :: frames)
    (hset : soinfo.at s.offsets.constructors_called ≠ 0) :
    (step s (.leave soinfo)).scan_ok = true := by
  simp only [step, call_ctors_leave, hframes, sh_linker_soinfo_memory_scan_post, if_true]
  rw [if_pos hset]

/-- How the scan turns out right. -/
theorem step_ok {e : Event abi} (hok : ¬ s.scan_ok = true) (h : (step s e).scan_ok = true) :
    ∃ soinfo tid frames, e = .leave soinfo ∧ s.frames = ⟨tid, none, true⟩ :: frames
      ∧ soinfo.at s.offsets.constructors_called ≠ 0 := by
  have heffect := step_effect s e
  generalize step s e = s' at h heffect
  cases heffect with
  | @ok soinfo tid frames hframes hset => exact ⟨soinfo, tid, frames, rfl, hframes, hset⟩
  | pre | scan | pass | unmatched | post | left | queues => exact absurd h hok

end

/-- The state in which the probe starts. -/
def State.probing (mode : SwitchMode) (tid : ℕ) : State abi :=
  { State.initial mode with scan_tid := some tid }

/-- When the call returns in which all fields were found, its frame is on top, and the offsets
are those it found. -/
theorem run_of_scan {s : State abi} {tid : ℕ} {scan : Scan abi} {inner : List (Event abi)}
    (hmode : s.mode = .unique) (htid : s.scan_tid = some tid)
    (hscan : scan.dlinfo.isSome = true ∧ (s.offsets.look scan).complete = true)
    (hinner : Nested Event.kind inner) :
    ((machine abi).run (step s (.enter tid scan)) inner).frames = ⟨tid, none, true⟩ :: s.frames
      ∧ ((machine abi).run (step s (.enter tid scan)) inner).offsets = s.offsets.look scan := by
  obtain ⟨hframes, hoffsets⟩ := frames_of_scan hmode htid hscan
  have hmode' := (step_effect s (.enter tid scan)).mode.trans hmode
  have htid' := (step_effect s (.enter tid scan)).scan_tid.trans htid
  refine ⟨(Nested.stack_run (M := machine abi) hinner _).trans hframes, ?_⟩
  rw [offsets_run_of_complete hmode' htid' (by rw [hoffsets]; exact hscan.2), hoffsets]

theorem offsets_probing (tid : ℕ) (events : List (Event abi)) :
    ((machine abi).run (.probing .unique tid) events).offsets = found tid events :=
  offsets_run rfl rfl events

theorem located_of_scan_ok {init : Init abi} {called : ℕ}
    (hok : ((machine abi).run (.probing .unique init.tid) init.dlopen).scan_ok = true)
    (hcalled :
      ((machine abi).run (.probing .unique init.tid) init.dlopen).offsets.constructors_called
      = some called) : Located init called := by
  have hstart : ¬ (State.probing .unique init.tid : State abi).scan_ok = true := Bool.false_ne_true
  obtain ⟨middle, e, rest, hevents, hnot, hstep⟩ :=
    (machine abi).exists_step (P := fun s => s.scan_ok = true) hstart hok
  obtain ⟨after, tid, frames, rfl, hframes, hset⟩ := step_ok hnot hstep
  obtain ⟨before, enter, inner, rfl, henter, hinner, hbefore⟩ :=
    exists_enter (M := machine abi) rfl hframes
  obtain ⟨thread, scan, rfl⟩ : ∃ thread scan, enter = .enter thread scan := by
    cases enter with
    | enter thread scan => exact ⟨thread, scan, rfl⟩
    | leave | register | unregister | task_init => cases henter
  have hmode := mode_run (State.probing .unique init.tid) before
  have htid := scan_tid_run (State.probing .unique init.tid) before
  have hoffsets := offsets_probing init.tid before
  rw [hevents, Machine.run_append, Machine.run_append] at hcalled
  rw [Machine.run_append] at hframes hset
  subst hbefore
  generalize (machine abi).run (State.probing .unique init.tid) before = s at *
  -- the frame was pushed by a scan that found all fields
  have hpushed : (step s (.enter thread scan)).frames = ⟨tid, none, true⟩ :: s.frames :=
    (Nested.stack_run (M := machine abi) hinner _).symm.trans hframes
  obtain ⟨rfl, hscan⟩ := scan_of_frames hmode htid hpushed
  obtain ⟨-, hfound⟩ := run_of_scan hmode htid hscan hinner
  have hmode' := (mode_run s (.enter init.tid scan :: inner)).trans hmode
  have htid' := (scan_tid_run s (.enter init.tid scan :: inner)).trans htid
  have hcomplete : ((machine abi).run s (.enter init.tid scan :: inner)).offsets.complete = true :=
    (congrArg Offsets.complete hfound).trans hscan.2
  rw [offsets_run_of_complete hmode' htid' hcomplete] at hcalled
  rw [hcalled] at hset
  rw [Machine.run_cons] at hcalled
  have hlook : (s.offsets.look scan).constructors_called = some called :=
    (congrArg Offsets.constructors_called hfound).symm.trans hcalled
  rw [hoffsets] at hscan hlook
  exact ⟨before, scan, inner, after, rest, by simp [hevents], hinner, hscan.1, hscan.2, hlook,
    hset⟩

theorem scan_ok_of_located {init : Init abi} {called : ℕ} (h : Located init called) :
    ((machine abi).run (.probing .unique init.tid) init.dlopen).scan_ok = true
      ∧ ((machine abi).run (.probing .unique init.tid) init.dlopen).offsets.constructors_called
        = some called := by
  obtain ⟨before, scan, inner, after, rest, hevents, hinner, hdlinfo, hcomplete, hcalled, hset⟩ := h
  have hmode := mode_run (State.probing .unique init.tid) before
  have htid := scan_tid_run (State.probing .unique init.tid) before
  have hoffsets := offsets_probing init.tid before
  rw [← hoffsets] at hcomplete hcalled
  rw [hevents, Machine.run_append, Machine.run_cons, Machine.run_append]
  generalize (machine abi).run (State.probing .unique init.tid) before = s at *
  obtain ⟨hframes, hfound⟩ := run_of_scan hmode htid ⟨hdlinfo, hcomplete⟩ hinner
  have hmode' := (mode_run s (.enter init.tid scan :: inner)).trans hmode
  have htid' := (scan_tid_run s (.enter init.tid scan :: inner)).trans htid
  have hcomplete' : ((machine abi).run s (.enter init.tid scan :: inner)).offsets.complete = true :=
    (congrArg Offsets.complete hfound).trans hcomplete
  have hcalled' : ((machine abi).run s (.enter init.tid scan :: inner)).offsets.constructors_called
      = some called := (congrArg Offsets.constructors_called hfound).trans hcalled
  refine ⟨?_, by rw [← Machine.run_cons, offsets_run_of_complete hmode' htid' hcomplete', hcalled']⟩
  rw [Machine.run_cons]
  apply scan_ok_run
  apply scan_ok_of_frames hframes
  rw [hfound, hcalled]
  exact hset

/-! ## The callbacks -/

/-- Between the states the function was called with the data. -/
def Invokes (s s' : State abi) (function data : Word abi) : Prop :=
  ∃ info, ⟨function, info, data⟩ ∈ s'.log.drop s.log.length

/-- In every run, whenever the constructors of a `soinfo` are called in which
`constructors_called` is not set, the callbacks that are registered then are called. -/
def Delivers (called : ℕ) (s : State abi) : Prop :=
  ∀ (before inner : List (Event abi)) (tid : ℕ) (scan : Scan abi) (after : Soinfo abi),
    isZeroInt (scan.soinfo.word called) = true → Nested Event.kind inner →
    let start := (machine abi).run s before
    let entered := step start (.enter tid scan)
    let constructed := (machine abi).run entered inner
    ∀ cb ∈ start.dl_init_cbs,
      (cb.pre ≠ 0 → Invokes start entered cb.pre cb.data)
        ∧ (cb ∈ constructed.dl_init_cbs → cb.post ≠ 0 →
          Invokes constructed (step constructed (.leave after)) cb.post cb.data)

/-- No scan is going on. -/
structure Idle (s : State abi) : Prop where
  scan_tid : s.scan_tid = none
  frames : ∀ frame ∈ s.frames, frame.do_memory_scan_pre_ok = false

section

variable {s s' : State abi} {e : Event abi}

theorem Effect.idle (h : Effect s e s') (hs : Idle s) :
    Idle s' ∧ s'.scan_ok = s.scan_ok ∧ s'.offsets = s.offsets := by
  have hpush (frame : Frame abi) (hframe : frame.do_memory_scan_pre_ok = false) :
      ∀ frame' ∈ frame :: s.frames, frame'.do_memory_scan_pre_ok = false :=
    List.forall_mem_cons.mpr ⟨hframe, hs.frames⟩
  have hpop {frame : Frame abi} {frames : List (Frame abi)} (hframes : s.frames = frame :: frames) :
      frame.do_memory_scan_pre_ok = false
        ∧ ∀ frame' ∈ frames, frame'.do_memory_scan_pre_ok = false :=
    List.forall_mem_cons.mp (hframes ▸ hs.frames)
  cases h with
  | pre | pass => exact ⟨⟨hs.scan_tid, hpush _ rfl⟩, rfl, rfl⟩
  | scan htid => rw [hs.scan_tid] at htid; cases htid
  | unmatched | queues => exact ⟨⟨hs.scan_tid, hs.frames⟩, rfl, rfl⟩
  | post hframes | left hframes => exact ⟨⟨hs.scan_tid, (hpop hframes).2⟩, rfl, rfl⟩
  | ok hframes => exact absurd (hpop hframes).1 nofun

theorem Idle.run (hs : Idle s) (events : List (Event abi)) :
    Idle ((machine abi).run s events)
      ∧ ((machine abi).run s events).scan_ok = s.scan_ok
      ∧ ((machine abi).run s events).offsets = s.offsets := by
  apply (machine abi).run_of_step
    (P := fun s' => Idle s' ∧ s'.scan_ok = s.scan_ok ∧ s'.offsets = s.offsets)
  · rintro s' e ⟨hidle, hok, hoffsets⟩
    obtain ⟨hidle', hok', hoffsets'⟩ := (step_effect s' e).idle hidle
    exact ⟨hidle', hok'.trans hok, hoffsets'.trans hoffsets⟩
  · exact ⟨hs, rfl, rfl⟩

theorem mem_invocations {function : Callback abi → Word abi} {cbs : List (Callback abi)}
    {cb : Callback abi} (hcb : cb ∈ cbs) (hne : function cb ≠ 0) (info : DlPhdrInfo abi) :
    ⟨function cb, info, cb.data⟩ ∈ invocations function cbs info :=
  List.mem_filterMap.mpr ⟨cb, hcb, if_pos hne⟩

end

/-- The callbacks before the constructors. -/
theorem enter_of_loading {s : State abi} (hmode : s.mode = .unique) (htid : s.scan_tid = none)
    (hok : s.scan_ok = true) {scan : Scan abi}
    (hloading : sh_linker_soinfo_is_loading s.offsets scan.soinfo = true)
    {cb : Callback abi} (hcb : cb ∈ s.dl_init_cbs) (tid : ℕ) :
    ∃ info, (step s (.enter tid scan)).frames = ⟨tid, some info, false⟩ :: s.frames
      ∧ (step s (.enter tid scan)).log
        = s.log ++ invocations Callback.pre s.dl_init_cbs info := by
  refine ⟨sh_linker_soinfo_to_dlinfo s.offsets scan.soinfo, ?_⟩
  have hne : s.dl_init_cbs.isEmpty = false := by
    rw [List.isEmpty_eq_false_iff]
    exact List.ne_nil_of_mem hcb
  simp only [step, call_ctors_enter, passedOver_of_unique hmode, htid, hok, hloading, hne]
  exact ⟨rfl, rfl⟩

theorem enter_of_not_loading {s : State abi} (htid : s.scan_tid = none) {scan : Scan abi}
    (hloading : sh_linker_soinfo_is_loading s.offsets scan.soinfo = false) (tid : ℕ) :
    (step s (.enter tid scan)).log = s.log := by
  simp only [step, call_ctors_enter]
  split
  · rfl
  · simp only [htid, hloading, Bool.and_false, Bool.false_and, Bool.false_eq_true, if_false]

/-- The hub goes on to the original function. -/
theorem enter_of_passedOver {s : State abi} {tid : ℕ} (hover : passedOver s tid = true)
    (scan : Scan abi) : (step s (.enter tid scan)).log = s.log := by
  rw [step, call_ctors_enter, if_pos hover]

/-- The thread is in a call, and the queues are as before. -/
theorem enter_frame (s : State abi) (tid : ℕ) (scan : Scan abi) :
    ((step s (.enter tid scan)).frames.any fun frame => frame.tid = tid) = true
      ∧ (step s (.enter tid scan)).dl_init_cbs = s.dl_init_cbs := by
  have heffect := step_effect s (.enter tid scan)
  generalize step s (.enter tid scan) = s' at heffect
  cases heffect with
  | pre | scan | pass => simp
  | queues he => cases he

/-- The callbacks after the constructors. -/
theorem leave_of_frames {s : State abi} {tid : ℕ} {info : DlPhdrInfo abi} {ok : Bool}
    {frames : List (Frame abi)} (hframes : s.frames = ⟨tid, some info, ok⟩ :: frames)
    (soinfo : Soinfo abi) :
    (step s (.leave soinfo)).log = s.log ++ invocations Callback.post s.dl_init_cbs info := by
  simp only [step, call_ctors_leave, hframes]

theorem invokes_of_log {s s' : State abi} {function : Callback abi → Word abi}
    {info : DlPhdrInfo abi}
    (hlog : s'.log = s.log ++ invocations function s.dl_init_cbs info) {cb : Callback abi}
    (hcb : cb ∈ s.dl_init_cbs) (hne : function cb ≠ 0) : Invokes s s' (function cb) cb.data := by
  refine ⟨info, ?_⟩
  rw [hlog, List.drop_left]
  exact mem_invocations hcb hne info

/-- If the scan was right, the callbacks are called. -/
theorem delivers_of_ok {s : State abi} {called : ℕ} (hmode : s.mode = .unique) (hs : Idle s)
    (hok : s.scan_ok = true)
    (hcalled : s.offsets.constructors_called = some called) : Delivers called s := by
  intro before inner tid scan after hzero hinner start entered constructed cb hcb
  obtain ⟨hidle, hok', hoffsets⟩ := hs.run before
  have hloading : sh_linker_soinfo_is_loading start.offsets scan.soinfo = true := by
    rw [sh_linker_soinfo_is_loading, hoffsets, hcalled]
    exact hzero
  obtain ⟨info, hframes, hlog⟩ :=
    enter_of_loading ((mode_run s before).trans hmode) hidle.scan_tid (hok'.trans hok) hloading
      hcb tid
  have hconstructed : constructed.frames = ⟨tid, some info, false⟩ :: start.frames :=
    (Nested.stack_run (M := machine abi) hinner entered).trans hframes
  exact ⟨fun hpre => invokes_of_log hlog hcb hpre,
    fun hcb' hpost => invokes_of_log (leave_of_frames hconstructed after) hcb' hpost⟩

/-- A callback that is registered. -/
theorem mem_registerCallback (cbs : List (Callback abi)) (cb : Callback abi) :
    cb ∈ (registerCallback cbs cb false).2 := by
  rw [registerCallback, if_neg Bool.false_ne_true]
  split
  case isTrue hmem => exact hmem
  case isFalse => exact List.mem_append_right cbs List.mem_cons_self

theorem one_not_zeroInt (abi : Abi) : isZeroInt (1 : Word abi) = false := by
  cases abi <;> decide

theorem one_ne_zero_word (abi : Abi) : (1 : Word abi) ≠ 0 := by
  cases abi <;> decide

/-- If the offset is another, a callback is left out. -/
theorem offsets_of_delivers {s : State abi} {called : ℕ} (hs : Idle s)
    (h : Delivers called s) : s.offsets.constructors_called = some called := by
  by_contra hother
  let cb : Callback abi := ⟨1, 0, 0⟩
  let soinfo : Soinfo abi := ⟨fun i => if i = called then 0 else 1, fun _ => true⟩
  let scan : Scan abi := ⟨soinfo, none, fun _ => none⟩
  have hzero : isZeroInt (soinfo.word called) = true := by
    simp only [soinfo, if_true]
    exact decide_eq_true (BitVec.setWidth_zero _ _)
  have hpre : cb.pre ≠ 0 := one_ne_zero_word abi
  obtain ⟨info, hinvoked⟩ := (h [.register cb false] [] 0 scan soinfo hzero .nil cb
    (mem_registerCallback _ cb)).1 hpre
  obtain ⟨hidle, -, hoffsets⟩ := hs.run [.register cb false]
  generalize (machine abi).run s [.register cb false] = start at hidle hoffsets hinvoked
  have hloading : sh_linker_soinfo_is_loading start.offsets scan.soinfo = false := by
    rw [hoffsets, sh_linker_soinfo_is_loading]
    cases hoffset : s.offsets.constructors_called with
    | none => rfl
    | some i =>
        have hi : i ≠ called := fun heq => hother (by rw [hoffset, heq])
        rw [Option.any_some]
        simp only [scan, soinfo, if_neg hi]
        exact one_not_zeroInt abi
  have hlog := enter_of_not_loading hidle.scan_tid hloading 0
  rw [hlog, List.drop_length] at hinvoked
  cases hinvoked

/-- In shared mode a callback is left out in a call within a call. -/
theorem not_delivers_of_shared {s : State abi} (hmode : s.mode = .shared) (called : ℕ) :
    ¬ Delivers called s := by
  intro h
  let cb : Callback abi := ⟨1, 0, 0⟩
  let soinfo : Soinfo abi := ⟨fun _ => 0, fun _ => true⟩
  let scan : Scan abi := ⟨soinfo, none, fun _ => none⟩
  have hzero : isZeroInt (soinfo.word called) = true :=
    decide_eq_true (BitVec.setWidth_zero _ _)
  have hframe := enter_frame (step s (.register cb false)) 0 scan
  have hcb : cb ∈ ((machine abi).run s [.register cb false, .enter 0 scan]).dl_init_cbs :=
    hframe.2 ▸ mem_registerCallback _ cb
  have hmode' := (mode_run s [.register cb false, .enter 0 scan]).trans hmode
  have hover : passedOver ((machine abi).run s [.register cb false, .enter 0 scan]) 0 = true :=
    Bool.and_eq_true_iff.mpr ⟨decide_eq_true hmode', hframe.1⟩
  obtain ⟨info, hinvoked⟩ := (h [.register cb false, .enter 0 scan] [] 0 scan soinfo hzero .nil cb
    hcb).1 (one_ne_zero_word abi)
  rw [enter_of_passedOver hover, List.drop_length] at hinvoked
  cases hinvoked

/-! ## The report -/

/-- If `sh_linker_init` returns 0, the scan was right, and the callbacks that are registered
afterwards are called. -/
def Reports (init : Init abi) (called : ℕ) : Prop :=
  (sh_linker_init init).1 = 0 →
    (sh_linker_init init).2.scan_ok = true ∧ Delivers called (sh_linker_init init).2

section

variable (init : Init abi)

/-- The symbols of the linker are found, and both functions hooked. -/
def Hooked : Prop :=
  sh_linker_get_symbol_info init.api_level init.linker = 0 ∧ init.r_hook_ctors = 0
    ∧ init.r_hook_dtors = 0

/-- The state after the probe. -/
def probed : State abi :=
  { (machine abi).run (.probing init.mode init.tid) init.dlopen with scan_tid := none }

theorem sh_linker_init_of_hooked (h : Hooked init) :
    sh_linker_init init = (0, probed init) := by
  rw [sh_linker_init, if_neg (not_not.mpr h.1), sh_linker_hook_call_ctors_dtors,
    if_neg (not_not.mpr h.2.1), if_neg (not_not.mpr h.2.2)]
  rfl

theorem sh_linker_init_of_not_hooked (h : ¬ Hooked init) :
    (sh_linker_init init).1 = -1 := by
  rw [sh_linker_init, sh_linker_hook_call_ctors_dtors]
  split_ifs with hsymbol hctors hdtors
  · rfl
  · rfl
  · rfl
  · exact absurd ⟨not_not.mp hsymbol, not_not.mp hctors, not_not.mp hdtors⟩ h

theorem idle_probed : Idle (probed init) := by
  refine ⟨rfl, fun frame hframe => ?_⟩
  have hnil : (probed init).frames = [] :=
    Nested.stack_run (M := machine abi) init.nested (State.probing init.mode init.tid)
  rw [hnil] at hframe
  cases hframe

/-- After the probe, the flag and the callbacks tell whether the fields were found. -/
theorem probed_iff (called : ℕ) :
    (probed init).scan_ok = true ∧ Delivers called (probed init)
      ↔ init.mode = .unique ∧ Located init called := by
  have hprobed : (probed init).mode = init.mode :=
    mode_run (.probing init.mode init.tid) init.dlopen
  cases hmode : init.mode with
  | shared =>
      have hnot := not_delivers_of_shared (hprobed.trans hmode) called
      simp [hnot]
  | unique =>
      have hrun : probed init = { (machine abi).run (.probing .unique init.tid) init.dlopen with
          scan_tid := none } := by rw [probed, hmode]
      constructor
      · rintro ⟨hok, hdelivers⟩
        have hcalled := offsets_of_delivers (idle_probed init) hdelivers
        rw [hrun] at hok hcalled
        exact ⟨rfl, located_of_scan_ok hok hcalled⟩
      · rintro ⟨-, h⟩
        obtain ⟨hok, hcalled⟩ := scan_ok_of_located h
        have hok' : (probed init).scan_ok = true := by rw [hrun]; exact hok
        have hcalled' : (probed init).offsets.constructors_called = some called := by
          rw [hrun]; exact hcalled
        exact ⟨hok', delivers_of_ok (hprobed.trans hmode) (idle_probed init) hok' hcalled'⟩

end

/-- `sh_linker_init` returns 0 whatever the scan finds: it reports rightly if a symbol or a hook
is missing, and else exactly if there is no hub and the probe finds the fields of `struct
soinfo`. -/
theorem reports_iff (init : Init abi) (called : ℕ) :
    Reports init called ↔ ¬ Hooked init ∨ init.mode = .unique ∧ Located init called := by
  by_cases hhooked : Hooked init
  · rw [Reports, sh_linker_init_of_hooked init hhooked, probed_iff]
    simp [hhooked]
  · have hfails := sh_linker_init_of_not_hooked init hhooked
    simp only [Reports, hfails, hhooked, not_false_eq_true, true_or, iff_true]
    exact nofun

/-- The probe library that is not there: `dlopen` returns without a call of constructors. -/
theorem not_reports_missingLibrary :
    ¬ ∀ (abi : Abi) (init : Init abi) (called : ℕ), Reports init called := by
  intro h
  have hok := (h .arm64_v8a ⟨.unique, 34, some ⟨true, fun _ => 1⟩, 0, 0, 1, [], .nil⟩ 49 rfl).1
  cases hok

end ShadowHook
