/-
# The hooks of the linker

`sh_linker_init` hooks `soinfo::call_constructors` and has the linker open a probe library, so
that the hook can find the fields of `struct soinfo`; from then on the hook calls the callbacks
that are registered.

The linker holds its mutex while it calls constructors, so that the calls nest.  Reads of a
`soinfo` outside the protected ones are taken not to fault.  The hook of `call_destructors`
changes nothing of the state here.  In shared mode the hooked function leads to a hub, which
passes over the hook in a call within a call on the same thread; its stack is taken to be there
and not to be full.
-/
import LiuHookWorld.HubStack
import LiuHookWorld.Nesting
import LiuHookWorld.SoinfoScan

namespace ShadowHook

variable {abi : Abi}

/-! ## State -/

/-- The callbacks of `sh_linker_dl_info_cb_t`; 0 for `NULL`. -/
structure Callback (abi : Abi) where
  pre : Word abi
  post : Word abi
  data : Word abi
  deriving DecidableEq

/-- `struct dl_phdr_info` -/
structure DlPhdrInfo (abi : Abi) where
  dlpi_addr : Word abi
  dlpi_name : Word abi
  dlpi_phdr : Word abi
  dlpi_phnum : UInt16
  deriving DecidableEq

/-- A call of a callback. -/
structure Invocation (abi : Abi) where
  function : Word abi
  info : DlPhdrInfo abi
  data : Word abi
  deriving DecidableEq

/-- A call, with what the hook keeps over the original function: `dlinfo` if `do_callbacks`. -/
structure Frame (abi : Abi) where
  tid : ℕ
  dlinfo : Option (DlPhdrInfo abi)
  do_memory_scan_pre_ok : Bool
  deriving DecidableEq

/-- The mode, the variables of `sh_linker.c`, the calls of the hooked function that are not
finished, innermost first, and the callbacks called. -/
structure State (abi : Abi) where
  mode : SwitchMode
  offsets : Offsets
  /-- None for 0, which is no thread. -/
  scan_tid : Option ℕ
  scan_ok : Bool
  dl_init_cbs : List (Callback abi)
  dl_fini_cbs : List (Callback abi)
  frames : List (Frame abi)
  log : List (Invocation abi)
  deriving DecidableEq

/-- Nothing is hooked, and the offsets are not known. -/
def State.initial (mode : SwitchMode) : State abi where
  mode
  offsets := .initial
  scan_tid := none
  scan_ok := false
  dl_init_cbs := []
  dl_fini_cbs := []
  frames := []
  log := []

/-! ## Callbacks -/

/-- `SHADOWHOOK_ERRNO_…` -/
def errnoOom : Int := 4
def errnoDup : Int := 36
def errnoNotFound : Int := 37

/-- The queue after a registration, and what it returns; `oom` if there is no memory. -/
def registerCallback (cbs : List (Callback abi)) (cb : Callback abi) (oom : Bool) :
    Int × List (Callback abi) :=
  if oom then (errnoOom, cbs) else if cb ∈ cbs then (errnoDup, cbs) else (0, cbs ++ [cb])

/-- The callbacks of the constructors have a list of their own. -/
def sh_linker_register_dl_init_callback (s : State abi) (cb : Callback abi) (oom : Bool) :
    Int × State abi :=
  let registered := registerCallback s.dl_init_cbs cb oom
  (registered.1, { s with dl_init_cbs := registered.2 })

/-- The callbacks of the destructors have a list of their own. -/
def sh_linker_register_dl_fini_callback (s : State abi) (cb : Callback abi) (oom : Bool) :
    Int × State abi :=
  let registered := registerCallback s.dl_fini_cbs cb oom
  (registered.1, { s with dl_fini_cbs := registered.2 })

def sh_linker_unregister_dl_init_callback (s : State abi) (cb : Callback abi) :
    Int × State abi :=
  if cb ∈ s.dl_init_cbs then (0, { s with dl_init_cbs := s.dl_init_cbs.erase cb })
  else (errnoNotFound, s)

/-- What `sh_task_init` has: the addresses of its callbacks, and whether there is memory. -/
structure TaskInit (abi : Abi) where
  sh_task_dl_init_pre : Word abi
  sh_task_dl_fini_post : Word abi
  oom_init : Bool
  oom_fini : Bool

def sh_task_init (s : State abi) (task : TaskInit abi) : Int × State abi :=
  let init :=
    sh_linker_register_dl_init_callback s ⟨task.sh_task_dl_init_pre, 0, 0⟩ task.oom_init
  if init.1 ≠ 0 then (-1, init.2)
  else
    let fini := sh_linker_register_dl_fini_callback init.2 ⟨0, task.sh_task_dl_fini_post, 0⟩
      task.oom_fini
    if fini.1 ≠ 0 then (-1, fini.2) else (0, fini.2)

/-- The callbacks that are not `NULL`, in order. -/
def invocations (function : Callback abi → Word abi) (cbs : List (Callback abi))
    (info : DlPhdrInfo abi) : List (Invocation abi) :=
  cbs.filterMap fun cb =>
    if function cb ≠ 0 then some ⟨function cb, info, cb.data⟩ else none

/-! ## The hook of `call_constructors` -/

/-- The word at an offset; only known offsets are read. -/
def Soinfo.at (soinfo : Soinfo abi) (offset : Option ℕ) : Word abi :=
  offset.elim 0 soinfo.word

/-- The fields are read at the offsets that the scan found. -/
def sh_linker_soinfo_to_dlinfo (offsets : Offsets) (soinfo : Soinfo abi) : DlPhdrInfo abi where
  dlpi_addr := soinfo.at offsets.load_bias
  dlpi_name := soinfo.at offsets.name
  dlpi_phdr := soinfo.at offsets.phdr
  dlpi_phnum := UInt16.ofBitVec ((soinfo.at offsets.phnum).setWidth 16)

/-- The `int` in a word is 0. -/
def isZeroInt (word : Word abi) : Bool := word.setWidth 32 = 0

/-- The constructors were not called yet. -/
def sh_linker_soinfo_is_loading (offsets : Offsets) (soinfo : Soinfo abi) : Bool :=
  offsets.constructors_called.any fun i => isZeroInt (soinfo.word i)

/-- The scan was right if the field is set after the constructors. -/
def sh_linker_soinfo_memory_scan_post (s : State abi) (soinfo : Soinfo abi) : State abi :=
  if soinfo.at s.offsets.constructors_called ≠ 0 then { s with scan_ok := true } else s

/-- `sh_hub_push_stack` finds a frame of the hub on the stack of the thread. -/
def passedOver (s : State abi) (tid : ℕ) : Bool :=
  s.mode = .shared && s.frames.any fun frame => frame.tid = tid

/-- `sh_linker_proxy_soinfo_call_ctors` up to the original function, or the original function
alone. -/
def call_ctors_enter (s : State abi) (tid : ℕ) (scan : Scan abi) : State abi :=
  if passedOver s tid then { s with frames := ⟨tid, none, false⟩ :: s.frames }
  else
    match s.scan_tid with
    | none =>
        if s.scan_ok && sh_linker_soinfo_is_loading s.offsets scan.soinfo
            && !s.dl_init_cbs.isEmpty then
          let dlinfo := sh_linker_soinfo_to_dlinfo s.offsets scan.soinfo
          { s with
            frames := ⟨tid, some dlinfo, false⟩ :: s.frames
            log := s.log ++ invocations Callback.pre s.dl_init_cbs dlinfo }
        else { s with frames := ⟨tid, none, false⟩ :: s.frames }
    | some scan_tid =>
        if tid = scan_tid then
          let scanned := sh_linker_soinfo_memory_scan_pre scan s.offsets
          { s with offsets := scanned.2, frames := ⟨tid, none, scanned.1 = 0⟩ :: s.frames }
        else { s with frames := ⟨tid, none, false⟩ :: s.frames }

/-- `sh_linker_proxy_soinfo_call_ctors` after the original function. -/
def call_ctors_leave (s : State abi) (soinfo : Soinfo abi) : State abi :=
  match s.frames with
  | [] => s
  | frame :: frames =>
      let s := { s with frames }
      match frame.dlinfo with
      | some dlinfo =>
          { s with log := s.log ++ invocations Callback.post s.dl_init_cbs dlinfo }
      | none =>
          if frame.do_memory_scan_pre_ok then sh_linker_soinfo_memory_scan_post s soinfo else s

/-- What threads do to the linker, and to the callbacks. -/
inductive Event (abi : Abi)
  /-- The thread `tid` calls the constructors of a `soinfo`. -/
  | enter (tid : ℕ) (scan : Scan abi)
  /-- The constructors of the innermost `soinfo` were called. -/
  | leave (soinfo : Soinfo abi)
  | register (cb : Callback abi) (oom : Bool)
  | unregister (cb : Callback abi)
  | task_init (task : TaskInit abi)

/-- Only the calls of constructors nest. -/
def Event.kind : Event abi → Nesting.Kind
  | .enter _ _ => .enter
  | .leave _ => .leave
  | .register _ _ | .unregister _ | .task_init _ => .other

def step (s : State abi) : Event abi → State abi
  | .enter tid scan => call_ctors_enter s tid scan
  | .leave soinfo => call_ctors_leave s soinfo
  | .register cb oom => (sh_linker_register_dl_init_callback s cb oom).2
  | .unregister cb => (sh_linker_unregister_dl_init_callback s cb).2
  | .task_init task => (sh_task_init s task).2

/-! ## What a step does -/

/-- The event leads to the state. -/
inductive Effect (s : State abi) : Event abi → State abi → Prop
  /-- The callbacks are called before the constructors, -/
  | pre {tid : ℕ} {scan : Scan abi} (htid : s.scan_tid = none)
      (hcalled : (s.scan_ok && sh_linker_soinfo_is_loading s.offsets scan.soinfo
        && !s.dl_init_cbs.isEmpty) = true) :
      Effect s (.enter tid scan)
        { s with
          frames := ⟨tid, some (sh_linker_soinfo_to_dlinfo s.offsets scan.soinfo), false⟩
            :: s.frames
          log := s.log ++ invocations Callback.pre s.dl_init_cbs
            (sh_linker_soinfo_to_dlinfo s.offsets scan.soinfo) }
  /-- or the `soinfo` is scanned, -/
  | scan {tid : ℕ} {scan : Scan abi} (htid : s.scan_tid = some tid) :
      Effect s (.enter tid scan)
        { s with
          offsets := (sh_linker_soinfo_memory_scan_pre scan s.offsets).2
          frames := ⟨tid, none, (sh_linker_soinfo_memory_scan_pre scan s.offsets).1 = 0⟩
            :: s.frames }
  /-- or neither. -/
  | pass {tid : ℕ} {scan : Scan abi} (h : passedOver s tid = true ∨ s.scan_tid ≠ some tid) :
      Effect s (.enter tid scan) { s with frames := ⟨tid, none, false⟩ :: s.frames }
  | unmatched {soinfo : Soinfo abi} (hframes : s.frames = []) : Effect s (.leave soinfo) s
  /-- The callbacks are called after the constructors, -/
  | post {soinfo : Soinfo abi} {tid : ℕ} {dlinfo : DlPhdrInfo abi} {ok : Bool}
      {frames : List (Frame abi)} (hframes : s.frames = ⟨tid, some dlinfo, ok⟩ :: frames) :
      Effect s (.leave soinfo)
        { s with frames, log := s.log ++ invocations Callback.post s.dl_init_cbs dlinfo }
  /-- or the scan turns out right, -/
  | ok {soinfo : Soinfo abi} {tid : ℕ} {frames : List (Frame abi)}
      (hframes : s.frames = ⟨tid, none, true⟩ :: frames)
      (hset : soinfo.at s.offsets.constructors_called ≠ 0) :
      Effect s (.leave soinfo) { s with frames, scan_ok := true }
  /-- or neither. -/
  | left {soinfo : Soinfo abi} {tid : ℕ} {ok : Bool} {frames : List (Frame abi)}
      (hframes : s.frames = ⟨tid, none, ok⟩ :: frames)
      (hset : ok = true → soinfo.at s.offsets.constructors_called = 0) :
      Effect s (.leave soinfo) { s with frames }
  | queues {e : Event abi} (he : e.kind = .other) (dl_init_cbs dl_fini_cbs : List (Callback abi)) :
      Effect s e { s with dl_init_cbs, dl_fini_cbs }

/-- The proxy before it calls the original function. -/
theorem effect_enter (s : State abi) (tid : ℕ) (scan : Scan abi) :
    Effect s (.enter tid scan) (call_ctors_enter s tid scan) := by
  rw [call_ctors_enter]
  split
  case isTrue hover => exact .pass (.inl hover)
  case isFalse =>
    split
    case h_1 htid =>
      split
      case isTrue hcalled => exact .pre htid hcalled
      case isFalse => exact .pass (.inr (by rw [htid]; exact nofun))
    case h_2 scan_tid htid =>
      split
      case isTrue heq => exact .scan (by rw [htid, heq])
      case isFalse hne =>
        refine .pass (.inr ?_)
        rw [htid]
        exact fun hsome => hne (Option.some.inj hsome).symm

/-- The proxy after the original function has returned. -/
theorem effect_leave (s : State abi) (soinfo : Soinfo abi) :
    Effect s (.leave soinfo) (call_ctors_leave s soinfo) := by
  rw [call_ctors_leave]
  split
  case h_1 hframes => exact .unmatched hframes
  case h_2 frame frames hframes =>
    obtain ⟨tid, dlinfo, ok⟩ := frame
    cases dlinfo with
    | some dlinfo => exact .post hframes
    | none =>
        cases ok with
        | false => exact .left hframes nofun
        | true =>
            simp only [if_true, sh_linker_soinfo_memory_scan_post]
            split
            case isTrue hset => exact .ok hframes hset
            case isFalse hset => exact .left hframes fun _ => not_not.mp hset

theorem step_effect (s : State abi) (e : Event abi) : Effect s e (step s e) := by
  cases e with
  | enter tid scan => exact effect_enter s tid scan
  | leave soinfo => exact effect_leave s soinfo
  | register cb oom => exact .queues rfl _ s.dl_fini_cbs
  | unregister cb =>
      simp only [step, sh_linker_unregister_dl_init_callback]
      split
      · exact .queues rfl _ s.dl_fini_cbs
      · exact .queues rfl s.dl_init_cbs s.dl_fini_cbs
  | task_init task =>
      simp only [step, sh_task_init]
      split
      · exact .queues rfl _ s.dl_fini_cbs
      · split
        · exact .queues rfl _ _
        · exact .queues rfl _ _

section

variable {s s' : State abi} {e : Event abi}

/-- A call is a frame more. -/
theorem Effect.frames_enter (h : Effect s e s') (he : e.kind = .enter) :
    ∃ frame, s'.frames = frame :: s.frames := by
  cases h with
  | pre | scan | pass => exact ⟨_, rfl⟩
  | unmatched | post | ok | left => cases he
  | queues hother => rw [hother] at he; cases he

/-- Its return takes the frame away. -/
theorem Effect.frames_leave (h : Effect s e s') (he : e.kind = .leave) :
    s'.frames = s.frames.tail := by
  cases h with
  | unmatched hframes => rw [hframes]; rfl
  | post hframes | ok hframes | left hframes => rw [hframes]; rfl
  | pre | scan | pass => cases he
  | queues hother => rw [hother] at he; cases he

theorem Effect.frames_other (h : Effect s e s') (he : e.kind = .other) :
    s'.frames = s.frames := by
  cases h with
  | queues => rfl
  | pre | scan | pass | unmatched | post | ok | left => cases he

end

/-- The events nest as the calls of the hook do. -/
def machine (abi : Abi) : Nesting.Machine (State abi) (Event abi) (Frame abi) where
  kind := Event.kind
  step := step
  stack := State.frames
  stack_enter s e := (step_effect s e).frames_enter
  stack_leave s e := (step_effect s e).frames_leave
  stack_other s e := (step_effect s e).frames_other

/-! ## Initialisation -/

/-- The linker as `xdl` finds it. -/
structure Image (abi : Abi) where
  check_arch : Bool
  /-- The address of a symbol; 0 for `NULL`. -/
  xdl_dsym : String → Word abi

/-- `SH_LINKER_SYM_…` -/
def symCallConstructorsL : String := "__dl__ZN6soinfo16CallConstructorsEv"
def symCallDestructorsL : String := "__dl__ZN6soinfo15CallDestructorsEv"
def symCallConstructorsM : String := "__dl__ZN6soinfo17call_constructorsEv"
def symCallDestructorsM : String := "__dl__ZN6soinfo16call_destructorsEv"
def symGDlMutex : String := "__dl__ZL10g_dl_mutex"
def symGDlMutexUQpr2 : String := "__dl_g_dl_mutex"

/-- `__ANDROID_API_M__` and `__ANDROID_API_U__` -/
def apiM : ℕ := 23
def apiU : ℕ := 34

/-- The mutex is needed in 32 bits only. -/
def g_dl_mutex (api_level : ℕ) (image : Image abi) : Word abi :=
  if api_level > apiU then image.xdl_dsym symGDlMutexUQpr2
  else if api_level = apiU then
    if image.xdl_dsym symGDlMutex = 0 then image.xdl_dsym symGDlMutexUQpr2
    else image.xdl_dsym symGDlMutex
  else image.xdl_dsym symGDlMutex

/-- The names depend on the version of Android. -/
def sh_linker_get_symbol_info (api_level : ℕ) (handle : Option (Image abi)) : Int :=
  match handle with
  | none => -1
  | some image =>
      if !image.check_arch then -1
      else if image.xdl_dsym
          (if api_level ≥ apiM then symCallConstructorsM else symCallConstructorsL) = 0 then -1
      else if image.xdl_dsym
          (if api_level ≥ apiM then symCallDestructorsM else symCallDestructorsL) = 0 then -1
      else if abi = .armeabi_v7a ∧ g_dl_mutex api_level image = 0 then -1
      else 0

/-- What `sh_linker_init` meets. -/
structure Init (abi : Abi) where
  mode : SwitchMode
  api_level : ℕ
  /-- `xdl_open` of the linker -/
  linker : Option (Image abi)
  /-- What the two calls of `hook` return. -/
  r_hook_ctors : Int
  r_hook_dtors : Int
  /-- `gettid()` -/
  tid : ℕ
  /-- What happens until `dlopen` of the probe library has returned. -/
  dlopen : List (Event abi)
  nested : Nesting.Nested Event.kind dlopen

/-- The constructors are hooked first, and then the library is opened that is scanned. -/
def sh_linker_hook_call_ctors_dtors (init : Init abi) : Int × State abi :=
  if init.r_hook_ctors ≠ 0 then (-1, .initial init.mode)
  else if init.r_hook_dtors ≠ 0 then (-1, .initial init.mode)
  else
    -- what `dlopen` returned and what the scan found is not looked at
    let s := (machine abi).run { State.initial init.mode with scan_tid := some init.tid }
      init.dlopen
    (0, { s with scan_tid := none })

/-- From Android 5.0 on. -/
def sh_linker_init (init : Init abi) : Int × State abi :=
  if sh_linker_get_symbol_info init.api_level init.linker ≠ 0 then (-1, .initial init.mode)
  else sh_linker_hook_call_ctors_dtors init

end ShadowHook
