/-
# Runs of the hubs

Any number of threads call hooked functions while proxies are added and deleted.  Each thread
is followed by the frames of its first proxies: `Fits` relates a frame to its proxy.
-/
import Mathlib.Data.List.Forall2
import LiuHookWorld.HubStack

namespace ShadowHook

variable {η τ : Type}

/-! ## The system -/

/-- The hubs of the functions that are hooked, and the stacks of the threads. -/
structure Hubs (η τ : Type) where
  hubs : η → Hub
  threads : τ → HubThread η

/-- A step is one of a hub or one of a thread. -/
inductive HubsAct (η τ : Type) where
  | proxies (hub : η) (op : HubOp)
  | thread (thread : τ) (act : HubThreadAct η)

namespace Hubs

variable [DecidableEq η] [DecidableEq τ]

/-- What a thread does depends on the proxies as they are then. -/
def step (s : Hubs η τ) : HubsAct η τ → Option (Hubs η τ)
  | .proxies hub op =>
      some { s with
        hubs := Function.update s.hubs hub
          { s.hubs hub with proxies := (hub_op (s.hubs hub).proxies op).1 } }
  | .thread t act =>
      ((s.threads t).step s.hubs act).map fun th =>
        { s with threads := Function.update s.threads t th }

/-- No function is hooked, and no thread is in one. -/
def start (orig_addr : η → ℕ) : Hubs η τ where
  hubs := fun hub => ⟨[], orig_addr hub⟩
  threads := fun _ => ⟨none, false, [], .run⟩

/-- Each thread calls and pops as a proxy is to. -/
def Disciplined (s : Hubs η τ) : HubsAct η τ → Prop
  | .thread t act => (s.threads t).Disciplined act
  | _ => True

/-- What is asked of each thread. -/
def Sound (s : Hubs η τ) : Prop := ∀ t, (s.threads t).Sound s.hubs

end Hubs

/-! ## Nodes -/

namespace Hub

variable {hub hub' : Hub} {n m : ℕ} {proxy proxy' : Proxy}

/-- The nodes of a list keep their functions while others are inserted before them. -/
def Grows (hub hub' : Hub) : Prop :=
  ∃ funcs, hub'.proxies.map Proxy.func = funcs ++ hub.proxies.map Proxy.func

theorem node_func (hub : Hub) (n : ℕ) : (hub.node n).map Proxy.func
    = (hub.proxies.map Proxy.func)[hub.proxies.length - n]? := by
  unfold node
  rw [List.getElem?_map]

/-- The end of the list. -/
theorem node_zero (hub : Hub) : hub.node 0 = none := by
  unfold node
  exact List.getElem?_eq_none (by omega)

theorem pos_of_node (h : hub.node n = some proxy) : 0 < n := by
  by_contra hn
  obtain rfl : n = 0 := by omega
  rw [node_zero] at h
  cases h

theorem Grows.length_le (h : Grows hub hub') : hub.proxies.length ≤ hub'.proxies.length := by
  obtain ⟨funcs, h⟩ := h
  have hlen := congrArg List.length h
  rw [List.length_append, List.length_map, List.length_map] at hlen
  omega

/-- A node that is in the list has the same function later. -/
theorem Grows.node (h : Grows hub hub') (hle : n ≤ hub.proxies.length) :
    (hub'.node n).map Proxy.func = (hub.node n).map Proxy.func := by
  obtain ⟨funcs, h⟩ := h
  have hlen := congrArg List.length h
  rw [List.length_append, List.length_map, List.length_map] at hlen
  rw [node_func, node_func, h, List.getElem?_append_right (by omega)]
  congr 1
  omega

/-- No two nodes have one function. -/
theorem node_inj (hnodup : (hub.proxies.map Proxy.func).Nodup) (hn : n ≤ hub.proxies.length)
    (hm : m ≤ hub.proxies.length) (h : hub.node n = some proxy) (h' : hub.node m = some proxy')
    (hfunc : proxy.func = proxy'.func) : n = m := by
  have hpos := pos_of_node h
  have hpos' := pos_of_node h'
  have hget := node_func hub n
  have hget' := node_func hub m
  rw [h, Option.map_some] at hget
  rw [h', Option.map_some, ← hfunc, hget] at hget'
  have hlen : (hub.proxies.map Proxy.func).length = hub.proxies.length := List.length_map _
  have hsame := (List.getElem?_inj (by omega) hnodup).mp hget'
  omega

end Hub

/-- Neither operation takes a proxy out of the list. -/
theorem hub_op_grows {hub : Hub} {chain : HookChain} (h : HookChain.Shows hub.proxies chain)
    (op : HubOp) : hub.Grows { hub with proxies := (hub_op hub.proxies op).1 } := by
  have hshows := (h.op op).2
  unfold Hub.Grows
  simp only [hshows.order, h.order]
  cases op with
  | add func malloc =>
      simp only [HookChain.op, HookChain.add]
      split
      · exact ⟨[], rfl⟩
      · split
        · exact ⟨[], rfl⟩
        · split
          · exact ⟨[], rfl⟩
          · exact ⟨[func], rfl⟩
  | del func =>
      simp only [HookChain.op, HookChain.del]
      split
      · exact ⟨[], rfl⟩
      · exact ⟨[], rfl⟩

/-! ## Frames and calls -/

namespace HubThread

/-- The hub, the return address and the node of a first proxy that has not popped its frame. -/
def ownerAt : HubCall η → Option (η × ℕ × ℕ)
  | .proxy hub _ node return_address true false => some (hub, return_address, node)
  | _ => none

/-- What a frame has of the call that it is for. -/
structure FrameFits (hubs : η → Hub) (frame : HubFrame η) (owner : η × ℕ × ℕ) : Prop where
  hub : frame.hub = owner.1
  return_address : frame.return_address = owner.2.1
  node : owner.2.2 ≤ frame.proxies
  proxies : frame.proxies ≤ (hubs frame.hub).proxies.length
  orig_addr : frame.orig_addr = (hubs frame.hub).orig_addr

/-- The other proxies return to places that none of the frames below them has. -/
def SitesApart : List (HubCall η) → Prop
  | .proxy _ _ _ return_address false _ :: calls =>
      (∀ owner ∈ (calls.filterMap ownerAt).head?, return_address ≠ owner.2.1) ∧
        SitesApart calls
  | _ :: calls => SitesApart calls
  | [] => True

/-- The frames of a thread follow its calls. -/
structure Follows (hubs : η → Hub) (frames : List (HubFrame η)) (calls : List (HubCall η)) :
    Prop where
  fits : List.Forall₂ (FrameFits hubs) frames (calls.filterMap ownerAt)
  inOrder : InOrder calls
  atNodes : AtNodes hubs calls
  sites : SitesApart calls
  reentrant : Reentrant frames
  few : frames.length ≤ SH_HUB_STACK_FRAME_MAX

variable {hubs hubs' : η → Hub} {frames : List (HubFrame η)} {calls : List (HubCall η)}
  {frame : HubFrame η} {hub : η} {func node return_address site : ℕ} {first popped : Bool}

/-- The frame on top belongs to the proxy on top. -/
theorem exists_owner (hinOrder : InOrder calls) (hsites : SitesApart calls)
    {rest : List (HubCall η)}
    (hcalls : calls = .proxy hub func node return_address first false :: rest) :
    ∃ owner owners, calls.filterMap ownerAt = owner :: owners ∧ owner.1 = hub ∧
      node ≤ owner.2.2 ∧ (first ↔ return_address = owner.2.1) ∧
        (first → owners = rest.filterMap ownerAt) := by
  induction calls generalizing func node return_address first rest with
  | nil => cases hcalls
  | cons call calls ih =>
      obtain ⟨rfl, rfl⟩ := List.cons.inj hcalls
      cases first with
      | true => exact ⟨_, _, rfl, rfl, Nat.le_refl node, by simp, fun _ => rfl⟩
      | false =>
          obtain ⟨⟨func', node', return_address', first', calls', hcaller, hlt⟩, hrest⟩ :=
            hinOrder
          obtain ⟨owner, owners, howners, hhub, hnode, -, -⟩ := ih hrest hsites.2 hcaller
          refine ⟨owner, owners, howners, hhub, by omega, ?_, fun h => (by cases h)⟩
          have hne := hsites.1 owner (by rw [howners]; rfl)
          exact ⟨fun h => (by cases h), fun h => absurd h hne⟩

/-- The innermost call of a proxy has the innermost frame. -/
theorem Follows.top (h : Follows hubs frames calls) {rest : List (HubCall η)}
    (hcalls : calls = .proxy hub func node return_address first false :: rest) :
    ∃ frame frames', frames = frame :: frames' ∧ frame.hub = hub ∧ node ≤ frame.proxies ∧
      frame.proxies ≤ (hubs hub).proxies.length ∧
        (first ↔ return_address = frame.return_address) ∧
          (first → List.Forall₂ (FrameFits hubs) frames' (rest.filterMap ownerAt)) := by
  obtain ⟨owner, owners, howners, rfl, hnode, hfirst, hrest⟩ :=
    exists_owner h.inOrder h.sites hcalls
  have hfits := h.fits
  rw [howners] at hfits
  obtain ⟨frame, frames', hframe, hframes, rfl⟩ := List.forall₂_cons_right_iff.mp hfits
  refine ⟨frame, frames', rfl, hframe.hub, Nat.le_trans hnode hframe.node, ?_, ?_, ?_⟩
  · rw [← hframe.hub]
    exact hframe.proxies
  · rw [hframe.return_address]
    exact hfirst
  · intro hisFirst
    rw [← hrest hisFirst]
    exact hframes

/-! ## What keeps the frames and the calls together -/

/-- A function that is not hooked has no frame. -/
theorem Follows.plain (h : Follows hubs frames calls) : Follows hubs frames (.plain :: calls) :=
  { h with
    atNodes := fun hub func node return_address first popped hmem =>
      h.atNodes hub func node return_address first popped (by simpa using hmem) }

/-- Returning from a function that has no frame. -/
theorem Follows.ret {call : HubCall η} (h : Follows hubs frames (call :: calls))
    (hcall : ownerAt call = none) : Follows hubs frames calls := by
  have hfits := h.fits
  rw [List.filterMap_cons, hcall] at hfits
  refine { h with fits := hfits, inOrder := ?_, sites := ?_, atNodes := ?_ }
  · have hinOrder := h.inOrder
    cases call with
    | plain => exact hinOrder
    | proxy hub func node return_address first popped =>
        cases first with
        | true => exact hinOrder
        | false => exact hinOrder.2
  · intro hub func node return_address first popped hmem
    exact h.atNodes hub func node return_address first popped (List.mem_cons_of_mem call hmem)
  · have hsites := h.sites
    cases call with
    | plain => exact hsites
    | proxy hub func node return_address first popped =>
        cases first with
        | true => exact hsites
        | false => exact hsites.2

theorem atNodes_cons (h : AtNodes hubs calls) (hle : node ≤ (hubs hub).proxies.length)
    (hnode : ((hubs hub).node node).map Proxy.func = some func) :
    AtNodes hubs (.proxy hub func node return_address first popped :: calls) := by
  intro hub' func' node' return_address' first' popped' hmem
  rcases List.mem_cons.mp hmem with heq | hmem
  · obtain ⟨rfl, rfl, rfl, -⟩ := HubCall.proxy.inj heq
    exact ⟨hle, hnode⟩
  · exact h hub' func' node' return_address' first' popped' hmem

/-- A hub is entered if every frame of it allows it. -/
theorem not_recursive_iff {orig_addr : ℕ} : recursive frames orig_addr = false ↔
    ∀ frame ∈ frames, orig_addr = frame.orig_addr → frame.allow_reentrant := by
  unfold recursive
  rw [List.any_eq_false]
  apply forall₂_congr
  intro frame _
  cases frame.allow_reentrant <;> simp [eq_comm]

/-- A trampoline pushes a frame for the first proxy. -/
theorem Follows.push (h : Follows hubs frames calls) (hle : node ≤ (hubs hub).proxies.length)
    (hnode : ((hubs hub).node node).map Proxy.func = some func)
    (hrecursive : recursive frames (hubs hub).orig_addr = false)
    (hfew : frames.length < SH_HUB_STACK_FRAME_MAX) :
    Follows hubs (⟨hub, (hubs hub).proxies.length, (hubs hub).orig_addr, return_address, false⟩
      :: frames) (.proxy hub func node return_address true false :: calls) where
  fits := .cons ⟨rfl, rfl, hle, Nat.le_refl _, rfl⟩ h.fits
  inOrder := h.inOrder
  atNodes := atNodes_cons h.atNodes hle hnode
  sites := h.sites
  reentrant := List.pairwise_cons.mpr ⟨not_recursive_iff.mp hrecursive, h.reentrant⟩
  few := hfew

/-- The call of the previous proxy. -/
theorem Follows.prev (h : Follows hubs frames calls) {func' node' return_address' : ℕ}
    {first' : Bool} {rest : List (HubCall η)}
    (hcalls : calls = .proxy hub func' node' return_address' first' false :: rest)
    (hlt : node < node') (hnode : ((hubs hub).node node).map Proxy.func = some func)
    (hsite : ∀ frame ∈ frames.head?, site ≠ frame.return_address) :
    Follows hubs frames (.proxy hub func node site false false :: calls) := by
  obtain ⟨frame, frames', rfl, rfl, hnode', hlength, -, -⟩ := h.top hcalls
  refine { h with
    inOrder := ⟨⟨func', node', return_address', first', rest, hcalls, hlt⟩, h.inOrder⟩
    atNodes := atNodes_cons h.atNodes (by omega) hnode
    sites := ⟨?_, h.sites⟩ }
  intro owner howner
  have hfits := h.fits
  obtain ⟨owner', owners, hframe, -, howners⟩ := List.forall₂_cons_left_iff.mp hfits
  rw [howners] at howner
  obtain rfl : owner' = owner := Option.some.inj howner
  rw [← hframe.return_address]
  exact hsite frame rfl

/-- A first proxy pops its frame. -/
theorem Follows.pop_first (h : Follows hubs (frame :: frames)
      (.proxy hub func node return_address true false :: calls)) :
    Follows hubs frames (.proxy hub func node return_address true true :: calls) := by
  obtain ⟨frame', frames', hframes, -, -, -, -, hrest⟩ := h.top rfl
  obtain ⟨rfl, rfl⟩ := List.cons.inj hframes
  have hfew := h.few
  rw [List.length_cons] at hfew
  obtain ⟨hle, hnode⟩ := h.atNodes hub func node return_address true false
    (List.mem_cons_self ..)
  exact
    { fits := hrest rfl
      inOrder := h.inOrder
      atNodes := atNodes_cons (fun hub func node return_address first popped hmem =>
        h.atNodes hub func node return_address first popped (List.mem_cons_of_mem _ hmem))
          hle hnode
      sites := h.sites
      reentrant := (List.pairwise_cons.mp h.reentrant).2
      few := by omega }

/-- The other proxies have no frame. -/
theorem Follows.pop_other (h : Follows hubs frames
      (.proxy hub func node return_address false false :: calls)) :
    Follows hubs frames (.proxy hub func node return_address false true :: calls) := by
  obtain ⟨hle, hnode⟩ := h.atNodes hub func node return_address false false
    (List.mem_cons_self ..)
  exact { h with
    atNodes := atNodes_cons (fun hub func node return_address first popped hmem =>
      h.atNodes hub func node return_address first popped (List.mem_cons_of_mem _ hmem))
        hle hnode }

/-- Whether a frame may be entered again does not matter for the stack. -/
theorem Follows.allow (h : Follows hubs (frame :: frames) calls) (allow : Bool) :
    Follows hubs ({ frame with allow_reentrant := allow } :: frames) calls := by
  obtain ⟨owner, owners, hframe, hframes, howners⟩ := List.forall₂_cons_left_iff.mp h.fits
  refine { h with fits := ?_, reentrant := ?_ }
  · rw [howners]
    exact .cons ⟨hframe.1, hframe.2, hframe.3, hframe.4, hframe.5⟩ hframes
  · exact List.pairwise_cons.mpr (List.pairwise_cons.mp h.reentrant)

/-- Lists that grow keep everything. -/
theorem Follows.grow (h : Follows hubs frames calls)
    (hgrows : ∀ hub, (hubs hub).Grows (hubs' hub) ∧ (hubs' hub).orig_addr = (hubs hub).orig_addr) :
    Follows hubs' frames calls := by
  refine { h with fits := ?_, atNodes := ?_ }
  · apply h.fits.imp
    intro frame owner hframe
    have hlength := (hgrows frame.hub).1.length_le
    exact ⟨hframe.hub, hframe.return_address, hframe.node, Nat.le_trans hframe.proxies hlength,
      hframe.orig_addr.trans (hgrows frame.hub).2.symm⟩
  · intro hub func node return_address first popped hmem
    obtain ⟨hle, hnode⟩ := h.atNodes hub func node return_address first popped hmem
    have hgrow := (hgrows hub).1
    exact ⟨Nat.le_trans hle hgrow.length_le, (hgrow.node hle).trans hnode⟩

/-! ## One step of a thread -/

/-- What is known of a search.  That of `sh_hub_get_prev_func` looks for the caller, and then
for a proxy behind it. -/
def Searching (hubs : η → Hub) (frames : List (HubFrame η)) (calls : List (HubCall η)) :
    HubPc η → Prop
  | .run => True
  | .push hub _ node => node ≤ (hubs hub).proxies.length ∧
      recursive frames (hubs hub).orig_addr = false
  | .prev func site node found => ∃ hub node' return_address first rest,
      calls = .proxy hub func node' return_address first false :: rest ∧
        (∀ frame ∈ frames.head?, site ≠ frame.return_address) ∧
          (found → node < node') ∧ (¬ found → node' ≤ node ∧
            ∀ frame ∈ frames.head?, node ≤ frame.proxies)
  | .aborted => False

/-- The frames fit the calls, and a search of the list is at a node of it. -/
structure Inv (hubs : η → Hub) (th : HubThread η) : Prop where
  follows : Follows hubs th.frames th.calls
  searching : Searching hubs th.frames th.calls th.pc

variable {th th' : HubThread η}

/-- There are as many frames as calls that have not popped. -/
theorem Follows.balanced (h : Follows hubs th.frames th.calls) : th.Balanced := by
  have howner : th.calls.filterMap owner
      = (th.calls.filterMap ownerAt).map fun owner => (owner.1, owner.2.1) := by
    rw [List.map_filterMap]
    congr 1
    funext call
    cases call with
    | plain => rfl
    | proxy hub func node return_address first popped =>
        cases first <;> cases popped <;> rfl
  unfold Balanced
  rw [howner]
  have hfits := h.fits
  generalize th.calls.filterMap ownerAt = owners at hfits
  generalize th.frames = frames at hfits
  induction hfits with
  | nil => rfl
  | cons hframe _ ih =>
      rw [List.map_cons, List.map_cons, ih, hframe.hub, hframe.return_address]

theorem Inv.sound (h : th.Inv hubs) : th.Sound hubs where
  alive := by
    intro hpc
    have hsearching := h.searching
    rw [hpc] at hsearching
    exact hsearching
  balanced := h.follows.balanced
  inOrder := h.follows.inOrder
  atNodes := h.follows.atNodes
  reentrant := h.follows.reentrant
  few := h.follows.few

theorem Inv.enterPlain (h : Follows hubs th.frames th.calls) : th.enterPlain.Inv hubs :=
  ⟨h.plain, trivial⟩

/-- A call of a hooked function gets a frame, or goes on to the original function. -/
theorem Inv.push_stack (h : Follows hubs th.frames th.calls) (hub : η) (return_address : ℕ)
    (created : Bool) :
    (th.sh_hub_push_stack hub (hubs hub) return_address created).Inv hubs := by
  unfold sh_hub_push_stack
  split
  · exact Inv.enterPlain h
  · split
    · exact Inv.enterPlain h
    · simp only
      split
      · exact @Inv.enterPlain _ _ { th with stack := some th.frames } h
      · rename_i hrecursive
        exact ⟨h, Nat.le_refl _, (Bool.not_eq_true _).mp hrecursive⟩

theorem Inv.push_look (h : Follows hubs th.frames th.calls) {hub : η} {return_address node : ℕ}
    (hle : node ≤ (hubs hub).proxies.length)
    (hrecursive : recursive th.frames (hubs hub).orig_addr = false) :
    (th.push_look hub (hubs hub) return_address node).Inv hubs := by
  unfold HubThread.push_look
  split
  · exact Inv.enterPlain h
  · rename_i proxy hnode
    split
    · split
      · exact Inv.enterPlain h
      · rename_i hfew
        exact ⟨h.push hle (by rw [hnode]; rfl) hrecursive (by omega), trivial⟩
    · exact ⟨h, by omega, hrecursive⟩

theorem stack_of_frames (h : th.frames = frame :: frames) : th.stack = some (frame :: frames) := by
  unfold HubThread.frames at h
  cases hstack : th.stack with
  | none => rw [hstack] at h; cases h
  | some frames' => rw [hstack] at h; exact congrArg some h

/-- A proxy that calls the previous one looks for it from its own node. -/
theorem Inv.get_prev_func (h : Follows hubs th.frames th.calls) {rest : List (HubCall η)}
    (hcalls : th.calls = .proxy hub func node return_address first false :: rest)
    (hsite : ∀ frame ∈ th.frames.head?, site ≠ frame.return_address) :
    (th.sh_hub_get_prev_func func site).Inv hubs := by
  obtain ⟨frame, frames, hframes, -, hnode, -⟩ := h.top hcalls
  have heq : th.sh_hub_get_prev_func func site
      = { th with pc := .prev func site frame.proxies false } := by
    simp only [sh_hub_get_prev_func, stack_of_frames hframes]
  have hhead : ∀ frame' ∈ th.frames.head?, frame.proxies ≤ frame'.proxies := by
    intro frame' hframe'
    rw [hframes] at hframe'
    obtain rfl := Option.some.inj hframe'
    exact Nat.le_refl _
  rw [heq]
  exact ⟨h, hub, node, return_address, first, rest, hcalls, hsite, fun h => (by cases h),
    fun _ => ⟨hnode, hhead⟩⟩

/-- The search does not miss its caller: a node that is not the caller's has another function. -/
theorem Inv.prev_look (hnodup : ∀ hub, ((hubs hub).proxies.map Proxy.func).Nodup)
    (h : th.Inv hubs) {found : Bool} (hpc : th.pc = .prev func site node found) :
    (th.prev_look hubs func site node found).Inv hubs := by
  have hsearching := h.searching
  rw [hpc] at hsearching
  obtain ⟨hub, node', return_address, first, rest, hcalls, hsite, hbehind, hbefore⟩ :=
    hsearching
  obtain ⟨frame, frames, hframes, rfl, hnode', hlength, -, -⟩ := h.follows.top hcalls
  obtain ⟨hle, hfunc⟩ := h.follows.atNodes _ _ _ _ _ _ (hcalls ▸ List.mem_cons_self ..)
  obtain ⟨caller, hcaller, hcallerFunc⟩ := Option.map_eq_some_iff.mp hfunc
  have hpos := Hub.pos_of_node hcaller
  unfold HubThread.prev_look
  rw [hframes]
  simp only
  split
  · exact Inv.enterPlain h.follows
  · rename_i proxy hnode
    cases found with
    | false =>
        obtain ⟨hafter, hsnapshot⟩ := hbefore Bool.false_ne_true
        have hin : node ≤ frame.proxies := hsnapshot frame (by rw [hframes]; rfl)
        refine ⟨h.follows, frame.hub, node', return_address, first, rest, hcalls, hsite, ?_, ?_⟩
        · intro hhit
          have hsame := Hub.node_inj (hnodup frame.hub) (Nat.le_trans hin hlength) hle hnode
            hcaller ((of_decide_eq_true hhit).trans hcallerFunc.symm)
          omega
        · intro hmiss
          have hne : node ≠ node' := by
            rintro rfl
            rw [hcaller] at hnode
            obtain rfl := Option.some.inj hnode
            exact hmiss (decide_eq_true hcallerFunc)
          exact ⟨by omega, fun frame' hframe' =>
            Nat.le_trans (Nat.sub_le _ _) (hsnapshot frame' hframe')⟩
    | true =>
        have hlt := hbehind rfl
        simp only [Bool.not_true, Bool.false_eq_true, if_false]
        split
        · exact ⟨h.follows.prev hcalls hlt (by rw [hnode]; rfl) hsite, trivial⟩
        · exact ⟨h.follows, frame.hub, node', return_address, first, rest, hcalls, hsite,
            fun _ => by omega, fun h => absurd rfl h⟩

/-- The innermost proxy pops its own frame. -/
theorem Inv.pop_stack (h : Follows hubs th.frames th.calls) {rest : List (HubCall η)}
    (hpc : th.pc = .run)
    (hcalls : th.calls = .proxy hub func node return_address first false :: rest) :
    ({ th.sh_hub_pop_stack return_address with
      calls := .proxy hub func node return_address first true :: rest }).Inv hubs := by
  obtain ⟨frame, frames, hframes, -, -, -, hfirst, -⟩ := h.top hcalls
  rw [hframes, hcalls] at h
  have hsearching : ∀ frames' calls', Searching hubs frames' calls' th.pc := by
    intro _ _
    rw [hpc]
    trivial
  unfold sh_hub_pop_stack
  rw [stack_of_frames hframes]
  cases first with
  | true =>
      simp only [if_pos (hfirst.mp rfl).symm]
      exact ⟨h.pop_first, hsearching _ _⟩
  | false =>
      have hne : frame.return_address ≠ return_address := fun heq =>
        Bool.false_ne_true (hfirst.mpr heq.symm)
      simp only [if_neg hne]
      refine ⟨?_, hsearching _ _⟩
      show Follows hubs th.frames _
      rw [hframes]
      exact h.pop_other

theorem Inv.set_reentrant (h : th.Inv hubs) (hpc : th.pc = .run) (hproxy : th.InProxy)
    (return_address : ℕ) (allow : Bool) : (th.set_reentrant return_address allow).Inv hubs := by
  obtain ⟨hub, func, node, return_address', first, rest, hcalls⟩ := hproxy
  have hfollows := h.follows
  obtain ⟨frame, frames, hframes, -⟩ := hfollows.top hcalls
  rw [hframes] at hfollows
  unfold HubThread.set_reentrant
  rw [stack_of_frames hframes]
  simp only
  split
  · refine ⟨hfollows.allow allow, ?_⟩
    simp only [hpc]
    trivial
  · exact h

/-- What every step of a thread keeps. -/
theorem Inv.step (hnodup : ∀ hub, ((hubs hub).proxies.map Proxy.func).Nodup) (h : th.Inv hubs)
    {act : HubThreadAct η} (hguard : th.Disciplined act) (hstep : th.step hubs act = some th') :
    th'.Inv hubs := by
  have hfollows := h.follows
  have hsearching := h.searching
  unfold HubThread.step at hstep
  cases act with
  | call hub return_address created =>
      simp only at hstep
      split at hstep
      · obtain rfl := Option.some.inj hstep
        exact Inv.push_stack hfollows hub return_address created
      · cases hstep
  | look =>
      simp only at hstep
      split at hstep
      · rename_i hub return_address node hpc
        obtain rfl := Option.some.inj hstep
        rw [hpc] at hsearching
        exact Inv.push_look hfollows hsearching.1 hsearching.2
      · rename_i func site node found hpc
        obtain rfl := Option.some.inj hstep
        exact h.prev_look hnodup hpc
      · cases hstep
  | callPrev site =>
      simp only at hstep
      split at hstep
      · rename_i hub func node return_address first popped rest hpc hcalls
        obtain rfl := Option.some.inj hstep
        obtain ⟨⟨_, _, _, _, _, _, hproxy⟩, hsite⟩ := hguard
        rw [hproxy] at hcalls
        obtain ⟨heq, rfl⟩ := List.cons.inj hcalls
        obtain ⟨rfl, rfl, rfl, rfl, rfl, rfl⟩ := HubCall.proxy.inj heq
        exact Inv.get_prev_func hfollows hproxy hsite
      · cases hstep
  | popStack =>
      simp only at hstep
      split at hstep
      · rename_i hub func node return_address first popped rest hpc hcalls
        obtain rfl := Option.some.inj hstep
        obtain ⟨_, _, _, _, _, _, hproxy⟩ := hguard
        rw [hproxy] at hcalls
        obtain ⟨heq, rfl⟩ := List.cons.inj hcalls
        obtain ⟨rfl, rfl, rfl, rfl, rfl, rfl⟩ := HubCall.proxy.inj heq
        exact Inv.pop_stack hfollows hpc hproxy
      · cases hstep
  | allowReentrant =>
      simp only at hstep
      split at hstep
      · rename_i hpc _
        obtain rfl := Option.some.inj hstep
        exact h.set_reentrant hpc hguard _ true
      · cases hstep
  | disallowReentrant =>
      simp only at hstep
      split at hstep
      · rename_i hpc _
        obtain rfl := Option.some.inj hstep
        exact h.set_reentrant hpc hguard _ false
      · cases hstep
  | ret =>
      simp only at hstep
      split at hstep
      · rename_i call calls hpc hcalls
        obtain rfl := Option.some.inj hstep
        have hnone : ownerAt call = none := by
          cases call with
          | plain => rfl
          | proxy hub func node return_address first popped =>
              cases popped with
              | true => cases first <;> rfl
              | false => exact absurd ⟨hub, func, node, return_address, first, calls, hcalls⟩ hguard
        rw [hcalls] at hfollows
        refine ⟨hfollows.ret hnone, ?_⟩
        simp only [hpc]
        trivial
      · cases hstep
  | exit =>
      simp only at hstep
      split at hstep
      · rename_i hpc hcalls
        obtain rfl := Option.some.inj hstep
        rw [hcalls] at hfollows
        have hframes : th.frames = [] := List.forall₂_nil_right_iff.mp hfollows.fits
        rw [hframes] at hfollows
        refine ⟨?_, ?_⟩
        · show Follows hubs [] th.calls
          rw [hcalls]
          exact hfollows
        · simp only [hpc]
          trivial
      · cases hstep

/-- Changes of the lists do not disturb a search. -/
theorem Inv.grow (h : th.Inv hubs)
    (hgrows : ∀ hub, (hubs hub).Grows (hubs' hub) ∧ (hubs' hub).orig_addr = (hubs hub).orig_addr) :
    th.Inv hubs' := by
  refine ⟨h.follows.grow hgrows, ?_⟩
  have hsearching := h.searching
  cases hpc : th.pc with
  | push hub return_address node =>
      rw [hpc] at hsearching
      refine ⟨Nat.le_trans hsearching.1 (hgrows hub).1.length_le, ?_⟩
      rw [(hgrows hub).2]
      exact hsearching.2
  | _ =>
      rw [hpc] at hsearching
      exact hsearching

end HubThread

/-! ## A whole search -/

namespace HubThread

variable {hubs : η → Hub} {th : HubThread η} {frame : HubFrame η} {frames : List (HubFrame η)}
  {func site node : ℕ}

end HubThread

/-! ## Runs -/

namespace Hubs

structure Inv (s : Hubs η τ) : Prop where
  shows : ∀ hub, ∃ chain, HookChain.Shows (s.hubs hub).proxies chain
  threads : ∀ t, (s.threads t).Inv s.hubs

theorem inv_start (orig_addr : η → ℕ) : (start orig_addr : Hubs η τ).Inv where
  shows := fun _ => ⟨.empty, HookChain.shows_empty⟩
  threads := fun _ => ⟨⟨.nil, trivial, fun _ _ _ _ _ _ hmem => (by cases hmem), trivial, .nil,
    Nat.zero_le _⟩, trivial⟩

theorem Inv.nodup {s : Hubs η τ} (h : s.Inv) (hub : η) :
    ((s.hubs hub).proxies.map Proxy.func).Nodup := by
  obtain ⟨chain, hshows⟩ := h.shows hub
  rw [hshows.order]
  exact hshows.nodup

variable [DecidableEq η] [DecidableEq τ]

/-- One step of a hub or of a thread. -/
theorem Inv.step {s s' : Hubs η τ} {act : HubsAct η τ} (h : s.Inv) (hguard : s.Disciplined act)
    (hstep : s.step act = some s') : s'.Inv := by
  cases act with
  | proxies hub op =>
      obtain rfl := Option.some.inj hstep
      obtain ⟨chain, hshows⟩ := h.shows hub
      refine ⟨fun hub' => ?_, fun t => (h.threads t).grow fun hub' => ?_⟩
      · by_cases hsame : hub' = hub
        · subst hsame
          simp only [Function.update_self]
          exact ⟨_, (hshows.op op).2⟩
        · simp only [Function.update_of_ne hsame]
          exact h.shows hub'
      · by_cases hsame : hub' = hub
        · subst hsame
          simp only [Function.update_self]
          exact ⟨hub_op_grows hshows op, trivial⟩
        · simp only [Function.update_of_ne hsame]
          exact ⟨⟨[], rfl⟩, trivial⟩
  | thread t act =>
      obtain ⟨th, hth, rfl⟩ := Option.map_eq_some_iff.mp hstep
      refine ⟨h.shows, fun t' => ?_⟩
      by_cases hsame : t' = t
      · subst hsame
        simp only [Function.update_self]
        exact (h.threads t').step h.nodup hguard hth
      · simp only [Function.update_of_ne hsame]
        exact h.threads t'

end Hubs

end ShadowHook
