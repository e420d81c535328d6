/-
# The stacks of the hubs

A function that is hooked jumps to the trampoline of its hub, which pushes a frame to the stack
of the thread and goes on to the first proxy that is enabled.  A proxy calls the previous one,
or the original function, by `SHADOWHOOK_CALL_PREV`, and executes `SHADOWHOOK_POP_STACK` before
it returns.

Other threads add and delete proxies meanwhile, between any two steps of a search.  A node of a
list is given by the number of nodes from it to the end, which never changes.  A proxy is taken
to be no function that is hooked itself.
-/
import LiuHookWorld.HubProxies
import LiuHookWorld.Runs

namespace ShadowHook

/-! ## The source -/

/-- `shadowhook_mode_t` -/
inductive SwitchMode where
  | shared
  | unique
deriving DecidableEq

def SH_HUB_STACK_FRAME_MAX : ℕ := 127

/-- `sh_hub_t` -/
structure Hub where
  proxies : List Proxy
  orig_addr : ℕ

/-- The node with `n` nodes from it to the end; `NULL` for 0. -/
def Hub.node (hub : Hub) (n : ℕ) : Option Proxy := hub.proxies[hub.proxies.length - n]?

/-- `sh_hub_frame_t`.  Its list is the one of `hub` from the node `proxies` on. -/
structure HubFrame (η : Type) where
  hub : η
  proxies : ℕ
  orig_addr : ℕ
  return_address : ℕ
  allow_reentrant : Bool

/-- The functions that a thread is in: proxies, and all others.  A proxy is the function of a
node of its hub; the first one was called by a trampoline.  `popped` says that it has executed
`SHADOWHOOK_POP_STACK`. -/
inductive HubCall (η : Type) where
  | plain
  | proxy (hub : η) (func node return_address : ℕ) (first popped : Bool)

/-- Where a thread is: in the function on top, in one of the two searches, or dead. -/
inductive HubPc (η : Type) where
  | run
  | push (hub : η) (return_address node : ℕ)
  | prev (func site node : ℕ) (found : Bool)
  | aborted

/-- `stack` is `none` until it is created. -/
structure HubThread (η : Type) where
  stack : Option (List (HubFrame η))
  reserved : Bool
  calls : List (HubCall η)
  pc : HubPc η

inductive HubThreadAct (η : Type) where
  | call (hub : η) (return_address : ℕ) (created : Bool)
  | look
  | callPrev (site : ℕ)
  | popStack
  | allowReentrant
  | disallowReentrant
  | ret
  | exit

namespace HubThread

variable {η : Type}

/-- `stack->frames`, the last one first. -/
def frames (th : HubThread η) : List (HubFrame η) := th.stack.getD []

/-- Going on to an original function. -/
def enterPlain (th : HubThread η) : HubThread η :=
  { th with calls := .plain :: th.calls, pc := .run }

/-- The check for recursive calls in `sh_hub_push_stack`. -/
def recursive (frames : List (HubFrame η)) (orig_addr : ℕ) : Bool :=
  frames.any fun frame => !frame.allow_reentrant && frame.orig_addr = orig_addr

/-- `sh_hub_push_stack` up to its last loop. -/
def sh_hub_push_stack (th : HubThread η) (self : η) (hub : Hub) (return_address : ℕ)
    (created : Bool) : HubThread η :=
  if th.reserved then th.enterPlain
  else if th.stack.isNone && !created then th.enterPlain
  else
    let th := { th with stack := some th.frames }
    if recursive th.frames hub.orig_addr then th.enterPlain
    else { th with pc := .push self return_address hub.proxies.length }

/-- One turn of the last loop of `sh_hub_push_stack`. -/
def push_look (th : HubThread η) (self : η) (hub : Hub) (return_address node : ℕ) :
    HubThread η :=
  match hub.node node with
  | none => th.enterPlain
  | some proxy =>
      if proxy.enabled then
        if th.frames.length ≥ SH_HUB_STACK_FRAME_MAX then th.enterPlain
        else
          { th with
            stack := some (⟨self, hub.proxies.length, hub.orig_addr, return_address, false⟩
              :: th.frames)
            calls := .proxy self proxy.func node return_address true false :: th.calls
            pc := .run }
      else { th with pc := .push self return_address (node - 1) }

/-- `sh_hub_get_prev_func` up to its loop. -/
def sh_hub_get_prev_func (th : HubThread η) (func site : ℕ) : HubThread η :=
  match th.stack with
  | some (frame :: _) => { th with pc := .prev func site frame.proxies false }
  | _ => { th with pc := .aborted }

/-- One turn of the loop of `sh_hub_get_prev_func`, and the call of what it returns. -/
def prev_look (th : HubThread η) (hubs : η → Hub) (func site node : ℕ) (found : Bool) :
    HubThread η :=
  match th.frames with
  | [] => { th with pc := .aborted }
  | frame :: _ =>
      match (hubs frame.hub).node node with
      | none => th.enterPlain
      | some proxy =>
          if !found then { th with pc := .prev func site (node - 1) (proxy.func = func) }
          else if proxy.enabled then
            { th with
              calls := .proxy frame.hub proxy.func node site false false :: th.calls
              pc := .run }
          else { th with pc := .prev func site (node - 1) true }

/-- `sh_hub_pop_stack`, which does not look for a stack that was not created. -/
def sh_hub_pop_stack (th : HubThread η) (return_address : ℕ) : HubThread η :=
  match th.stack with
  | none => { th with pc := .aborted }
  | some [] => th
  | some (frame :: frames) =>
      if frame.return_address = return_address then { th with stack := some frames } else th

/-- `sh_hub_allow_reentrant` and `sh_hub_disallow_reentrant`. -/
def set_reentrant (th : HubThread η) (return_address : ℕ) (allow : Bool) : HubThread η :=
  match th.stack with
  | none => { th with pc := .aborted }
  | some [] => th
  | some (frame :: frames) =>
      if frame.return_address = return_address then
        { th with stack := some ({ frame with allow_reentrant := allow } :: frames) }
      else th

/-- The steps of a thread.  `SHADOWHOOK_CALL_PREV` and its like are used in proxies only. -/
def step (hubs : η → Hub) (th : HubThread η) : HubThreadAct η → Option (HubThread η)
  | .look =>
      match th.pc with
      | .push hub return_address node =>
          some (th.push_look hub (hubs hub) return_address node)
      | .prev func site node found => some (th.prev_look hubs func site node found)
      | _ => none
  | .call hub return_address created =>
      match th.pc with
      | .run => some (th.sh_hub_push_stack hub (hubs hub) return_address created)
      | _ => none
  | .callPrev site =>
      match th.pc, th.calls with
      | .run, .proxy _ func _ _ _ _ :: _ => some (th.sh_hub_get_prev_func func site)
      | _, _ => none
  | .popStack =>
      match th.pc, th.calls with
      | .run, .proxy hub func node return_address first _ :: calls =>
          some { th.sh_hub_pop_stack return_address with
            calls := .proxy hub func node return_address first true :: calls }
      | _, _ => none
  | .allowReentrant =>
      match th.pc, th.calls with
      | .run, .proxy _ _ _ return_address _ _ :: _ => some (th.set_reentrant return_address true)
      | _, _ => none
  | .disallowReentrant =>
      match th.pc, th.calls with
      | .run, .proxy _ _ _ return_address _ _ :: _ => some (th.set_reentrant return_address false)
      | _, _ => none
  | .ret =>
      match th.pc, th.calls with
      | .run, _ :: calls => some { th with calls := calls }
      | _, _ => none
  | .exit =>
      match th.pc, th.calls with
      | .run, [] => some { th with stack := none, reserved := true }
      | _, _ => none

/-! ## What the programs keep to -/

/-- The function on top is a proxy that still has its frame to pop. -/
def InProxy (th : HubThread η) : Prop :=
  ∃ hub func node return_address first calls,
    th.calls = .proxy hub func node return_address first false :: calls

/-- A proxy does not return without `SHADOWHOOK_POP_STACK` and uses it once, after all else.  It
does not call the previous function from the place that the hooked function was called from. -/
def Disciplined (th : HubThread η) : HubThreadAct η → Prop
  | .callPrev site => th.InProxy ∧ ∀ frame ∈ th.frames.head?, site ≠ frame.return_address
  | .popStack => th.InProxy
  | .allowReentrant => th.InProxy
  | .disallowReentrant => th.InProxy
  | .ret => ¬ th.InProxy
  | _ => True

/-! ## What holds of a thread -/

/-- The first proxies that have not popped their frames. -/
def owner : HubCall η → Option (η × ℕ)
  | .proxy hub _ _ return_address true false => some (hub, return_address)
  | _ => none

/-- There is one frame for each first proxy that has not popped it. -/
def Balanced (th : HubThread η) : Prop :=
  th.frames.map (fun frame => (frame.hub, frame.return_address)) = th.calls.filterMap owner

/-- What `SHADOWHOOK_CALL_PREV` called is a proxy of the hub of its caller, behind it in the
list. -/
def InOrder : List (HubCall η) → Prop
  | .proxy hub _ node _ false _ :: calls =>
      (∃ func' node' return_address' first' calls',
        calls = .proxy hub func' node' return_address' first' false :: calls' ∧ node < node') ∧
          InOrder calls
  | _ :: calls => InOrder calls
  | [] => True

/-- Every proxy is the function of its node. -/
def AtNodes (hubs : η → Hub) (calls : List (HubCall η)) : Prop :=
  ∀ hub func node return_address first popped,
    HubCall.proxy hub func node return_address first popped ∈ calls →
      node ≤ (hubs hub).proxies.length ∧ ((hubs hub).node node).map Proxy.func = some func

/-- A hub has a second frame only above those that allow it. -/
def Reentrant (frames : List (HubFrame η)) : Prop :=
  frames.Pairwise fun upper lower =>
    upper.orig_addr = lower.orig_addr → lower.allow_reentrant

structure Sound (hubs : η → Hub) (th : HubThread η) : Prop where
  alive : th.pc ≠ .aborted
  balanced : th.Balanced
  inOrder : InOrder th.calls
  atNodes : AtNodes hubs th.calls
  reentrant : Reentrant th.frames
  few : th.frames.length ≤ SH_HUB_STACK_FRAME_MAX

end HubThread

end ShadowHook
