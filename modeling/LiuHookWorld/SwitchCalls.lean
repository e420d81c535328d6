/-
# What the calls of `sh_switch.c` do

Each call is done, at one of its steps, on a set of pairs: of a function that is hooked and one
that it is hooked to.
-/
import LiuHookWorld.Switch
import Mathlib.Data.Set.Insert

namespace ShadowHook

/-! ## The tree -/

section

variable {target_addr : ℕ} {self : Switch} {tree : List Switch}

/-- The nodes are looked through in their order. -/
theorem rb_find_cons (node : Switch) (nodes : List Switch) :
    rb_find target_addr (node :: nodes)
      = if node.target_addr = target_addr then some node else rb_find target_addr nodes := by
  unfold rb_find
  rw [List.find?_cons]
  split
  · rename_i h
    rw [if_pos (of_decide_eq_true h)]
  · rename_i h
    rw [if_neg (of_decide_eq_false h)]

/-- What is found has the address. -/
theorem rb_find_some (h : rb_find target_addr tree = some self) :
    self.target_addr = target_addr := by
  have hfound := List.find?_some h
  exact of_decide_eq_true hfound

/-- A node that is inserted is found, and every other one as before. -/
theorem rb_find_insert (hnew : rb_find self.target_addr tree = none) :
    rb_find target_addr (rb_insert self tree)
      = if self.target_addr = target_addr then some self else rb_find target_addr tree := by
  induction tree with
  | nil => exact rb_find_cons self []
  | cons node nodes ih =>
      rw [rb_find_cons] at hnew
      split at hnew
      · cases hnew
      · rename_i hne
        unfold rb_insert
        split
        · rw [rb_find_cons]
        · rw [rb_find_cons, rb_find_cons, ih hnew]
          split
          · rename_i heq
            rw [if_neg (fun hself => hne (heq.trans hself.symm))]
          · rfl

/-- Only the nodes that are kept are found. -/
theorem rb_find_filter (keep : ℕ → Bool) :
    rb_find target_addr (tree.filter fun self => keep self.target_addr)
      = if keep target_addr then rb_find target_addr tree else none := by
  induction tree with
  | nil => exact (ite_self none).symm
  | cons node nodes ih =>
      rw [List.filter_cons, rb_find_cons]
      split
      · rename_i hkeep
        rw [rb_find_cons, ih]
        split
        · rename_i heq
          rw [← heq, if_pos hkeep]
        · rfl
      · rename_i hdrop
        rw [ih]
        by_cases heq : node.target_addr = target_addr
        · rw [← heq, if_neg hdrop, if_neg hdrop]
        · rw [if_neg heq]

/-- A node that is removed is not found. -/
theorem rb_find_remove (removed : ℕ) :
    rb_find target_addr (rb_remove removed tree)
      = if target_addr = removed then none else rb_find target_addr tree := by
  have hfilter := @rb_find_filter target_addr tree fun addr => decide (addr ≠ removed)
  unfold rb_remove
  rw [hfilter]
  simp only [decide_eq_true_eq, ite_not]

/-- A node is found with its new proxies. -/
theorem rb_find_set_proxies (changed : ℕ) (proxies : List Proxy) :
    rb_find target_addr (set_proxies changed proxies tree)
      = if target_addr = changed then (rb_find target_addr tree).map (·.with_proxies proxies)
        else rb_find target_addr tree := by
  unfold set_proxies
  induction tree with
  | nil => exact (ite_self none).symm
  | cons node nodes ih =>
      rw [List.map_cons, rb_find_cons, rb_find_cons, ih]
      have hsame : ∀ c : Prop, [Decidable c] →
          (if c then node.with_proxies proxies else node).target_addr = node.target_addr := by
        intro c _
        split <;> rfl
      rw [hsame]
      split
      · rename_i heq
        rw [← heq]
        split <;> rfl
      · rfl
end

/-! ## The safe addresses -/

section

variable {target_addr : ℕ} {safe : List SafeAddr}

/-- The safe address of a function is not in use. -/
def Unused (target_addr : ℕ) (safe : List SafeAddr) : Prop :=
  ∀ addr ∈ safe, addr.target_addr = target_addr → addr.orig_addr = 0

/-- A function without a safe address has nothing stored. -/
theorem store_safe_eq (orig_addr : ℕ) (h : ∀ addr ∈ safe, addr.target_addr ≠ target_addr) :
    store_safe target_addr orig_addr safe = safe := by
  induction safe with
  | nil => rfl
  | cons addr addrs ih =>
      obtain ⟨hne, h⟩ := List.forall_mem_cons.mp h
      rw [store_safe, if_neg hne, ih h]

theorem store_safe_zero (h : Unused target_addr safe) : store_safe target_addr 0 safe = safe := by
  induction safe with
  | nil => rfl
  | cons addr addrs ih =>
      obtain ⟨hzero, h⟩ := List.forall_mem_cons.mp h
      unfold store_safe
      split
      · rename_i heq
        rw [← hzero heq]
      · rw [ih h]

/-- In either mode, an address that is not in use gets what `sh_inst_hook` stores. -/
theorem store_orig_addr2_ok (mode : SwitchMode) (h : Unused target_addr safe) (inst : Inst) :
    store_orig_addr2 mode target_addr (.ok inst) safe
      = store_safe target_addr inst.enter_addr safe := by
  cases mode with
  | shared => rfl
  | unique =>
      simp only [store_orig_addr2, orig_stored]
      cases hfind : sh_safe_get_orig_addr_addr safe target_addr with
      | none =>
          refine (store_safe_eq _ fun addr haddr heq => ?_).symm
          exact List.find?_eq_none.mp hfind addr haddr (decide_eq_true heq)
      | some addr =>
          have htarget := List.find?_some hfind
          have hzero := h addr (List.mem_of_find?_eq_some hfind) (of_decide_eq_true htarget)
          obtain ⟨_, orig_addr⟩ := addr
          obtain rfl := hzero
          rfl

/-- A hook that fails leaves the safe address of a function that is not hooked. -/
theorem store_orig_addr2_error (mode : SwitchMode) (h : Unused target_addr safe) (e : InstErrno) :
    store_orig_addr2 mode target_addr (.error e) safe = safe := by
  have hzero := store_safe_zero h
  unfold store_orig_addr2
  split
  · rfl
  · rename_i orig_addr hstored
    obtain rfl : orig_addr = 0 := by
      cases e with
      | HOOK_ENTER => cases hstored
      | _ => exact (Option.some.inj hstored).symm
    cases mode with
    | shared => exact hzero
    | unique =>
        simp only
        split
        · exact hzero
        · rfl

@[simp] theorem store_safe_targets (orig_addr : ℕ) :
    (store_safe target_addr orig_addr safe).map SafeAddr.target_addr
      = safe.map SafeAddr.target_addr := by
  induction safe with
  | nil => rfl
  | cons addr addrs ih =>
      unfold store_safe
      split
      · rfl
      · rw [List.map_cons, List.map_cons, ih]

/-- Each function has one safe address. -/
theorem store_safe_values {f : ℕ → ℕ} (orig_addr : ℕ)
    (hnodup : (safe.map SafeAddr.target_addr).Nodup)
    (h : ∀ addr ∈ safe, addr.orig_addr = f addr.target_addr) :
    ∀ addr ∈ store_safe target_addr orig_addr safe,
      addr.orig_addr = Function.update f target_addr orig_addr addr.target_addr := by
  induction safe with
  | nil => exact fun _ haddr => absurd haddr List.not_mem_nil
  | cons addr addrs ih =>
      obtain ⟨hnew, hnodup⟩ := List.nodup_cons.mp hnodup
      obtain ⟨hhead, htail⟩ := List.forall_mem_cons.mp h
      unfold store_safe
      split
      · rename_i heq
        refine List.forall_mem_cons.mpr ⟨?_, fun other hmem => ?_⟩
        · rw [heq, Function.update_self]
        · have hne : other.target_addr ≠ target_addr := fun hother =>
            hnew (heq.trans hother.symm ▸ List.mem_map_of_mem hmem)
          rw [Function.update_of_ne hne]
          exact htail other hmem
      · rename_i hne
        refine List.forall_mem_cons.mpr ⟨?_, ih hnodup htail⟩
        rw [Function.update_of_ne hne]
        exact hhead

end

/-! ## The pairs that are hooked -/

/-- A function is hooked to another one by the switch. -/
def Switch.Calls (self : Switch) (func : ℕ) : Prop :=
  match self.hub with
  | none => self.new_addr = func
  | some hub => ∃ proxy ∈ hub.proxies, proxy.enabled ∧ proxy.func = func

/-- A switch of the mode: a hub has a proxy that is enabled, and gets to the original function. -/
def Switch.Formed (mode : SwitchMode) (self : Switch) : Prop :=
  match mode with
  | .unique => self.hub = none
  | .shared => ∃ hub chain, self.hub = some hub ∧ hub.orig_addr = self.inst.enter_addr ∧
      HookChain.Shows hub.proxies chain ∧ ∃ func, chain.on func

/-- What a call that is done shows. -/
inductive SwitchEvent where
  | hook (target_addr new_addr : ℕ) (r : HookReturn)
  | unhook (target_addr new_addr : ℕ) (errno : Option SwitchErrno)
  | close (dlinfo : ExitInfo)

/-- The pairs that a hook excludes and an unhook ends: in unique mode, all of the function. -/
def Hits (mode : SwitchMode) (target_addr new_addr : ℕ) (p : ℕ × ℕ) : Prop :=
  p.1 = target_addr ∧ (mode = .shared → p.2 = new_addr)

/-- What hooks and unhooks are for: they keep a set of pairs, of a function and the one that it
is hooked to. -/
inductive RegistryStep (mode : SwitchMode) (R : Set (ℕ × ℕ)) : SwitchEvent → Set (ℕ × ℕ) → Prop
  | hooked {target_addr new_addr : ℕ} {r : HookReturn} (errno : r.errno = none)
      (free : ∀ p ∈ R, ¬ Hits mode target_addr new_addr p) :
      RegistryStep mode R (.hook target_addr new_addr r) (insert (target_addr, new_addr) R)
  | dup {target_addr new_addr : ℕ} {r : HookReturn} (errno : r.errno = some .HOOK_DUP)
      (hit : ∃ p ∈ R, Hits mode target_addr new_addr p) :
      RegistryStep mode R (.hook target_addr new_addr r) R
  | refused {target_addr new_addr : ℕ} {r : HookReturn} {e : SwitchErrno}
      (errno : r.errno = some e) (ne : e ≠ .HOOK_DUP) :
      RegistryStep mode R (.hook target_addr new_addr r) R
  | unhooked {target_addr new_addr : ℕ} {errno : Option SwitchErrno}
      (ne : errno ≠ some .UNHOOK_NOTFOUND) :
      RegistryStep mode R (.unhook target_addr new_addr errno)
        {p ∈ R | ¬ Hits mode target_addr new_addr p}
  | notFound {target_addr new_addr : ℕ} (free : ∀ p ∈ R, ¬ Hits mode target_addr new_addr p) :
      RegistryStep mode R (.unhook target_addr new_addr (some .UNHOOK_NOTFOUND)) R
  | closed {dlinfo : ExitInfo} :
      RegistryStep mode R (.close dlinfo) {p ∈ R | ¬ sh_util_is_in_elf_pt_load dlinfo p.1}

/-- Only the error of a hook counts. -/
theorem RegistryStep.congr {mode : SwitchMode} {R R' : Set (ℕ × ℕ)} {target_addr new_addr : ℕ}
    {r r' : HookReturn} (h : RegistryStep mode R (.hook target_addr new_addr r) R')
    (herrno : r'.errno = r.errno) : RegistryStep mode R (.hook target_addr new_addr r') R' := by
  cases h with
  | hooked errno free => exact .hooked (herrno.trans errno) free
  | dup errno hit => exact .dup (herrno.trans errno) hit
  | refused errno ne => exact .refused (herrno.trans errno) ne

/-- A switch calls the functions that its chain has on. -/
theorem calls_iff {self : Switch} {hub : Hub} {chain : HookChain} (hhub : self.hub = some hub)
    (hshows : HookChain.Shows hub.proxies chain) {func : ℕ} :
    self.Calls func ↔ chain.on func := by
  unfold Switch.Calls
  rw [hhub, ← hshows.any_enabled_iff]
  simp only [List.any_eq_true, Bool.and_eq_true, decide_eq_true_eq]

/-- What adding a function to a chain can do. -/
inductive Added (chain : HookChain) (func : ℕ) : HookChain × AddProxy → Prop
  | ok {chain' : HookChain} (off : ¬ chain.on func)
      (on : ∀ f, chain'.on f ↔ f = func ∨ chain.on f) : Added chain func (chain', .ok)
  | hookDup (on : chain.on func) : Added chain func (chain, .hookDup)
  | oom : Added chain func (chain, .oom)

/-- What adding a proxy does to the chain. -/
theorem added (chain : HookChain) (func : ℕ) (malloc : Bool) :
    Added chain func (chain.add func malloc) := by
  have hon : ∀ f, Function.update chain.on func true f ↔ f = func ∨ chain.on f := by
    intro f
    rw [Function.update_apply]
    split
    · rename_i heq
      simp only [heq, true_or]
    · rename_i hne
      simp only [hne, false_or]
  unfold HookChain.add
  split
  · rename_i h
    exact .hookDup h
  · rename_i hoff
    split
    · exact .ok hoff hon
    · split
      · exact .oom
      · exact .ok hoff hon

/-- What deleting a function from a chain can do. -/
inductive Deleted (chain : HookChain) (func : ℕ) : HookChain × Option Bool → Prop
  | notFound (off : ¬ chain.on func) : Deleted chain func (chain, none)
  | deleted {chain' : HookChain} {b : Bool} (on : ∀ f, chain'.on f ↔ f ≠ func ∧ chain.on f)
      (more : b ↔ ∃ f, f ≠ func ∧ chain.on f) : Deleted chain func (chain', some b)

/-- What deleting a proxy does to the chain. -/
theorem deleted {proxies : List Proxy} {chain : HookChain} (hshows : HookChain.Shows proxies chain)
    (func : ℕ) : Deleted chain func (chain.del func) := by
  have hon : ∀ f, Function.update chain.on func false f ↔ f ≠ func ∧ chain.on f := by
    intro f
    rw [Function.update_apply]
    split
    · rename_i heq
      simp [heq]
    · rename_i hne
      simp [hne]
  unfold HookChain.del
  split
  · refine .deleted hon ?_
    rw [List.any_eq_true]
    constructor
    · rintro ⟨f, -, hf⟩
      exact ⟨f, (hon f).mp hf⟩
    · rintro ⟨f, hf⟩
      exact ⟨f, hshows.on f hf.2, (hon f).mpr hf⟩
  · rename_i hmem
    exact .notFound fun h => hmem (hshows.on func h)

namespace Switches

variable {page : PageSize} {mode : SwitchMode} {s s' : Switches page} {self : Switch}
  {target_addr new_addr : ℕ}

/-- The pairs of a function and the one that it is hooked to. -/
def Active (s : Switches page) : Set (ℕ × ℕ) :=
  {p | ∃ self, s.find p.1 = some self ∧ self.Calls p.2}

/-- Every switch in the tree is one of the mode. -/
def Formed (mode : SwitchMode) (s : Switches page) : Prop :=
  ∀ target_addr self, s.find target_addr = some self → self.Formed mode

/-- How a function is hooked. -/
def hookedAt (s : Switches page) (target_addr : ℕ) : Option HookedFunction :=
  (s.find target_addr).map Switch.hooked

/-- A hook that succeeds returns where the original function is, and how much of it was
overwritten. -/
def Returned (s : Switches page) (target_addr : ℕ) (r : HookReturn) : Prop :=
  r.errno = none → ∃ h, s.hookedAt target_addr = some h ∧ r.orig_addr = some h.inst.enter_addr ∧
    r.backup_len = some h.inst.backup_len

/-- The proxies of the hubs may differ. -/
structure Same (s s' : Switches page) : Prop where
  insts : s'.insts = s.insts
  safe : s'.safe = s.safe
  invisible : s'.invisible = s.invisible
  hookedAt : ∀ target_addr, s'.hookedAt target_addr = s.hookedAt target_addr

theorem Same.refl (s : Switches page) : Same s s := ⟨rfl, rfl, rfl, fun _ => rfl⟩

/-- In unique mode a switch is the one pair of its function. -/
theorem Formed.exists_active (hs : s.Formed mode) (hfind : s.find target_addr = some self) :
    ∃ func, (target_addr, func) ∈ s.Active := by
  have hself := hs _ _ hfind
  cases mode with
  | unique =>
      refine ⟨self.new_addr, self, hfind, ?_⟩
      unfold Switch.Calls
      rw [show self.hub = none from hself]
  | shared =>
      obtain ⟨hub, chain, hhub, -, hshows, func, hon⟩ := hself
      exact ⟨func, self, hfind, (calls_iff hhub hshows).mpr hon⟩

/-- A function without a switch has no pair. -/
theorem not_active (hfind : s.find target_addr = none) {p : ℕ × ℕ} (hp : p ∈ s.Active) :
    p.1 ≠ target_addr := by
  rintro rfl
  obtain ⟨self, hself, -⟩ := hp
  rw [hfind] at hself
  cases hself

/-- One switch is changed. -/
def Changed (s s' : Switches page) (target_addr : ℕ) (changed : Option Switch) : Prop :=
  ∀ addr, s'.find addr = if addr = target_addr then changed else s.find addr

/-- A switch that is formed takes the place of another one. -/
theorem Changed.formed (h : Changed s s' target_addr (some self)) (hs : s.Formed mode)
    (hself : self.Formed mode) : s'.Formed mode := by
  intro addr other hfind
  rw [h] at hfind
  split at hfind
  · obtain rfl := Option.some.inj hfind
    exact hself
  · exact hs _ _ hfind

theorem Changed.formed_none (h : Changed s s' target_addr none) (hs : s.Formed mode) :
    s'.Formed mode := by
  intro addr other hfind
  rw [h] at hfind
  split at hfind
  · cases hfind
  · exact hs _ _ hfind

/-- The pairs of the function are those of its new switch, and the others stay. -/
theorem Changed.active_eq (h : Changed s s' target_addr (some self)) {R : Set (ℕ × ℕ)}
    (hcalls : ∀ func, self.Calls func ↔ (target_addr, func) ∈ R)
    (hrest : ∀ p, p.1 ≠ target_addr → (p ∈ s.Active ↔ p ∈ R)) : s'.Active = R := by
  ext ⟨addr, func⟩
  show (∃ self', s'.find addr = some self' ∧ self'.Calls func) ↔ _
  rw [h]
  split
  · rename_i heq
    rw [heq, ← hcalls]
    simp only [Option.some.injEq, exists_eq_left']
  · rename_i hne
    exact hrest (addr, func) hne

/-- A switch that is gone takes its pairs with it. -/
theorem Changed.active_eq_none (h : Changed s s' target_addr none) :
    s'.Active = {p ∈ s.Active | p.1 ≠ target_addr} := by
  ext ⟨addr, func⟩
  show (∃ self', s'.find addr = some self' ∧ self'.Calls func) ↔ _ ∧ addr ≠ target_addr
  rw [h]
  split
  · rename_i heq
    simp [heq]
  · rename_i hne
    exact (and_iff_left hne).symm

/-- The pairs of a function are what its switch calls. -/
theorem mem_active (hfind : s.find target_addr = some self) {func : ℕ} :
    (target_addr, func) ∈ s.Active ↔ self.Calls func := by
  show (∃ self', s.find target_addr = some self' ∧ self'.Calls func) ↔ _
  simp only [hfind, Option.some.injEq, exists_eq_left']

/-- Other proxies are other pairs of the one function. -/
theorem changed_set_proxies (hfind : s.find target_addr = some self) (proxies : List Proxy) :
    Changed s { s with tree := set_proxies target_addr proxies s.tree } target_addr
      (some (self.with_proxies proxies)) := by
  intro addr
  show rb_find addr (set_proxies target_addr proxies s.tree) = _
  rw [rb_find_set_proxies]
  split
  · rename_i heq
    rw [heq, show rb_find target_addr s.tree = some self from hfind]
    rfl
  · rfl

/-- The switch of a function gets other proxies. -/
theorem same_set_proxies (hfind : s.find target_addr = some self) (proxies : List Proxy) :
    Same s { s with tree := set_proxies target_addr proxies s.tree } := by
  refine ⟨rfl, rfl, rfl, fun addr => ?_⟩
  unfold hookedAt
  rw [changed_set_proxies hfind proxies]
  split
  · rename_i heq
    rw [heq, hfind]
    rfl
  · rfl

/-- In shared mode an unhook is of one pair. -/
theorem hits_shared {p : ℕ × ℕ} : Hits .shared target_addr new_addr p ↔
    p = (target_addr, new_addr) := by
  unfold Hits
  rw [Prod.ext_iff]
  simp only [forall_const]

/-- A proxy is added to the hub of a function. -/
theorem add_proxy_spec (hs : s.Formed .shared) (hfind : s.find target_addr = some self) {hub : Hub}
    (hhub : self.hub = some hub) {malloc : Bool} {out : Switches page × HookReturn}
    (hout : s.add_proxy self hub new_addr malloc = out) :
    out.1.Formed .shared ∧ Same s out.1 ∧ out.1.Returned target_addr out.2 ∧
      RegistryStep .shared s.Active (.hook target_addr new_addr out.2) out.1.Active := by
  obtain ⟨hub', chain, hhub', horig, hshows, hon⟩ := hs _ _ hfind
  obtain rfl := Option.some.inj (hhub.symm.trans hhub')
  obtain ⟨hresult, hshows'⟩ := hshows.add new_addr malloc
  obtain rfl := rb_find_some hfind
  have hadded := added chain new_addr malloc
  unfold add_proxy at hout
  simp only [hresult] at hout
  generalize (sh_hub_add_proxy hub.proxies new_addr malloc).1 = proxies at hout hshows'
  have hchanged := changed_set_proxies hfind proxies
  have hsame := same_set_proxies hfind proxies
  have hhub'' : (self.with_proxies proxies).hub = some { hub with proxies := proxies } := by
    unfold Switch.with_proxies
    rw [hhub]
    rfl
  have hcalls : ∀ f, (self.with_proxies proxies).Calls f ↔ (chain.add new_addr malloc).1.on f :=
    fun f => calls_iff hhub'' hshows'
  have hformed : ∀ f, (chain.add new_addr malloc).1.on f →
      (self.with_proxies proxies).Formed .shared := fun f hf =>
    ⟨_, _, hhub'', horig, hshows', f, hf⟩
  have hactive : ∀ f, (self.target_addr, f) ∈ s.Active ↔ chain.on f :=
    fun f => (mem_active hfind).trans (calls_iff hhub hshows)
  have hreturned : out.1.Returned self.target_addr out.2 := by
    subst hout
    refine fun _ => ⟨self.hooked, ?_, congrArg some horig, rfl⟩
    rw [hsame.hookedAt, hookedAt, hfind]
    rfl
  subst hout
  generalize chain.add new_addr malloc = result at hadded hcalls hformed hreturned ⊢
  obtain ⟨func, hfunc⟩ := hon
  cases hadded with
  | ok off on =>
      refine ⟨hchanged.formed hs (hformed func ((on func).mpr (.inr hfunc))), hsame, hreturned, ?_⟩
      rw [hchanged.active_eq (R := insert (self.target_addr, new_addr) s.Active)
        (fun f => ?_) fun p hp => ?_]
      · refine .hooked rfl fun p hp hhit => ?_
        obtain rfl := hits_shared.mp hhit
        exact off ((hactive new_addr).mp hp)
      · rw [hcalls, on, ← hactive, Set.mem_insert_iff, Prod.mk.injEq, eq_self, true_and]
      · exact ⟨.inr, fun h => h.resolve_left fun heq => hp (congrArg Prod.fst heq)⟩
  | hookDup on =>
      refine ⟨hchanged.formed hs (hformed func hfunc), hsame, hreturned, ?_⟩
      rw [hchanged.active_eq (fun f => (hcalls f).trans (hactive f).symm) fun _ _ => Iff.rfl]
      exact .dup rfl ⟨_, (hactive new_addr).mpr on, hits_shared.mpr rfl⟩
  | oom =>
      refine ⟨hchanged.formed hs (hformed func hfunc), hsame, hreturned, ?_⟩
      rw [hchanged.active_eq (fun f => (hcalls f).trans (hactive f).symm) fun _ _ => Iff.rfl]
      exact .refused rfl nofun

/-- In unique mode, a function that has a switch is hooked. -/
theorem dup_unique (hs : s.Formed .unique) (hfind : s.find target_addr = some self)
    {r : HookReturn} (hdup : r.errno = some .HOOK_DUP) :
    RegistryStep .unique s.Active (.hook target_addr new_addr r) s.Active := by
  obtain ⟨func, hfunc⟩ := hs.exists_active hfind
  exact .dup hdup ⟨_, hfunc, rfl, nofun⟩

/-- A switch is created, or an error returned. -/
theorem create_cases (mode : SwitchMode) (answers : FindAnswers) :
    (∃ e, e ≠ .HOOK_DUP ∧ sh_switch_create mode answers = .done ⟨some e, none, none⟩) ∨
      ∃ hub_trampo, (hub_trampo = none ↔ mode = .unique) ∧
        sh_switch_create mode answers = .create hub_trampo := by
  unfold sh_switch_create
  split
  · exact .inl ⟨.OOM, nofun, rfl⟩
  · cases mode with
    | unique => exact .inr ⟨none, ⟨fun _ => rfl, fun _ => rfl⟩, rfl⟩
    | shared =>
        cases answers.hub with
        | none => exact .inl ⟨.HUB_CREAT, nofun, rfl⟩
        | some hub_trampo => exact .inr ⟨some hub_trampo, ⟨nofun, nofun⟩, rfl⟩

/-- A hook has added a proxy to the switch with the `inst`, and has returned where the original
function is. -/
structure ProxyAdded (s : Switches page) (target_addr : ℕ) (r : HookReturn) (inst : Inst) :
    Prop where
  hookedAt : ∃ h, s.hookedAt target_addr = some h ∧ h.inst = inst
  orig_addr : r.orig_addr = some inst.enter_addr

/-- What the first part of a hook leads to. -/
def FindSpec (mode : SwitchMode) (s s' : Switches page) (call : SwitchHook page) :
    SwitchFound → Prop
  | .create hub_trampo => s'.Active = s.Active ∧ (hub_trampo = none ↔ mode = .unique)
  | .done r => r.errno ≠ none ∧
      RegistryStep mode s.Active (.hook call.target_addr call.new_addr r) s'.Active
  | .added r inst => s'.ProxyAdded call.target_addr r inst ∧
      RegistryStep mode s.Active (.hook call.target_addr call.new_addr r) s'.Active

/-- The first part of a hook changes the tree only where it adds a proxy. -/
theorem find_or_create_spec (hs : s.Formed mode) {call : SwitchHook page} {answers : FindAnswers}
    {found : SwitchFound} (hresult : s.find_or_create mode call answers = some (s', found)) :
    s'.Formed mode ∧ Same s s' ∧ FindSpec mode s s' call found := by
  unfold find_or_create at hresult
  split at hresult
  · obtain ⟨rfl, rfl⟩ := Prod.mk.inj (Option.some.inj hresult)
    refine ⟨hs, .refl s, ?_⟩
    rcases create_cases mode answers with ⟨e, hne, hcreate⟩ | ⟨hub_trampo, hmode, hcreate⟩
    · rw [hcreate]
      exact ⟨nofun, .refused rfl hne⟩
    · rw [hcreate]
      exact ⟨rfl, hmode⟩
  · rename_i self hfind
    cases mode with
    | unique =>
        obtain ⟨rfl, rfl⟩ := Prod.mk.inj (Option.some.inj hresult)
        exact ⟨hs, .refl s, nofun, dup_unique hs hfind rfl⟩
    | shared =>
        obtain ⟨hub, hhub, hout⟩ := Option.map_eq_some_iff.mp hresult
        obtain ⟨rfl, rfl⟩ := Prod.mk.inj hout
        obtain ⟨hs', hsame, -, hspec⟩ := add_proxy_spec hs hfind hhub rfl
        obtain ⟨hub', -, hhub', horig, -⟩ := hs _ _ hfind
        obtain rfl := Option.some.inj (hhub.symm.trans hhub')
        refine ⟨hs', hsame, ⟨⟨self.hooked, ?_, rfl⟩, congrArg some horig⟩, hspec.congr rfl⟩
        rw [hsame.hookedAt, hookedAt, hfind]
        rfl

/-! ## Inserting a switch -/

/-- What inserting a switch can do, if the function has none. -/
inductive Inserted (mode : SwitchMode) (s : Switches page) (call : SwitchHook page) (dest : ℕ)
    (answers : InsertAnswers) : Switches page × HookReturn → Prop
  | error {insts : Insts page} {e : InstErrno} {orig_addr : Option ℕ}
      (hook : s.insts.hook call.lib call.target_addr call.dli_ssize dest answers.inst
        = some (insts, .error e)) :
      Inserted mode s call dest answers
        ({ s with insts, safe := store_orig_addr2 mode call.target_addr (.error e) s.safe },
          ⟨some (.INST e), orig_addr, none⟩)
  | ok {insts : Insts page} {inst : Inst} {hub : Option Hub}
      (proxy : mode = .shared → answers.proxy)
      (hook : s.insts.hook call.lib call.target_addr call.dli_ssize dest answers.inst
        = some (insts, .ok inst))
      (formed : (Switch.mk call.target_addr dest inst hub).Formed mode)
      (calls : ∀ func,
        (Switch.mk call.target_addr dest inst hub).Calls func ↔ func = call.new_addr) :
      Inserted mode s call dest answers
        ({ s with
          tree := rb_insert ⟨call.target_addr, dest, inst, hub⟩ s.tree
          insts
          safe := store_orig_addr2 mode call.target_addr (.ok inst) s.safe },
          ⟨none, some inst.enter_addr, some inst.backup_len⟩)
  | oom {insts insts' : Insts page} {inst : Inst} {r : Option InstErrno} (mode_eq : mode = .shared)
      (proxy : answers.proxy = false)
      (hook : s.insts.hook call.lib call.target_addr call.dli_ssize dest answers.inst
        = some (insts, .ok inst))
      (unhook : insts.unhook ⟨call.target_addr, dest, inst⟩ answers.unhook = some (insts', r)) :
      Inserted mode s call dest answers
        ({ s with
            insts := insts'
            safe := store_orig_addr2 mode call.target_addr (.ok inst) s.safe },
          ⟨some .OOM, some inst.enter_addr, some 0⟩)

variable {call : SwitchHook page} {answers : InsertAnswers} {r : HookReturn} {hub_trampo : ℕ}

/-- The second part of a hook in unique mode. -/
theorem insert_unique_cases (hfind : s.find call.target_addr = none)
    (hresult : s.insert_unique call answers = some (s', r)) :
    Inserted .unique s call call.new_addr answers (s', r) := by
  unfold insert_unique at hresult
  simp only [hfind] at hresult
  obtain ⟨⟨insts, result⟩, hhook, hout⟩ := Option.map_eq_some_iff.mp hresult
  cases result with
  | error e =>
      obtain ⟨rfl, rfl⟩ := Prod.mk.inj hout
      exact .error hhook
  | ok inst =>
      obtain ⟨rfl, rfl⟩ := Prod.mk.inj hout
      exact .ok nofun hhook rfl fun func => eq_comm

/-- The second part of a hook in shared mode. -/
theorem insert_shared_cases (hfind : s.find call.target_addr = none)
    (hresult : s.insert_shared call hub_trampo answers = some (s', r)) :
    Inserted .shared s call hub_trampo answers (s', r) := by
  unfold insert_shared at hresult
  simp only [hfind] at hresult
  obtain ⟨⟨insts, result⟩, hhook, hout⟩ := Option.bind_eq_some_iff.mp hresult
  cases result with
  | error e =>
      obtain ⟨rfl, rfl⟩ := Prod.mk.inj (Option.some.inj hout)
      exact .error hhook
  | ok inst =>
      cases hproxy : answers.proxy with
      | true =>
          simp only [hproxy] at hout
          obtain ⟨rfl, rfl⟩ := Prod.mk.inj (Option.some.inj hout)
          obtain ⟨-, hshows⟩ := HookChain.shows_empty.add call.new_addr true
          have hon : ∀ f, (HookChain.empty.add call.new_addr true).1.on f ↔ f = call.new_addr := by
            intro f
            simp [HookChain.add, HookChain.empty, Function.update_apply]
          exact .ok (fun _ => hproxy) hhook ⟨_, _, rfl, rfl, hshows, call.new_addr, (hon _).mpr rfl⟩
            fun f => (calls_iff rfl hshows).trans (hon f)
      | false =>
          simp only [hproxy] at hout
          obtain ⟨⟨insts', e⟩, hunhook, hout⟩ := Option.map_eq_some_iff.mp hout
          obtain ⟨rfl, rfl⟩ := Prod.mk.inj hout
          exact .oom rfl hproxy hhook hunhook

theorem changed_insert {self : Switch} (hfind : s.find self.target_addr = none)
    (insts : Insts page) (safe : List SafeAddr) :
    Changed s { s with tree := rb_insert self s.tree, insts, safe } self.target_addr
      (some self) := by
  intro addr
  refine (rb_find_insert hfind).trans ?_
  simp only [eq_comm (a := addr)]
  rfl

/-- The switches that are there stay. -/
theorem Inserted.hookedAt_kept {dest : ℕ} (hfind : s.find call.target_addr = none)
    (h : Inserted mode s call dest answers (s', r)) {addr : ℕ} {f : HookedFunction}
    (hat : s.hookedAt addr = some f) : s'.hookedAt addr = some f := by
  cases h with
  | error _ | oom _ _ _ _ => exact hat
  | ok proxy hook formed calls =>
      rename_i insts inst hub
      have hchanged := changed_insert (show s.find (Switch.mk call.target_addr dest inst hub).1 = _
        from hfind) insts (store_orig_addr2 mode call.target_addr (.ok inst) s.safe)
      have hne : addr ≠ call.target_addr := by
        rintro rfl
        rw [Switches.hookedAt, hfind] at hat
        cases hat
      rw [Switches.hookedAt, hchanged, if_neg hne]
      exact hat

/-- What the second part of a hook stores, and what it does to the pairs. -/
theorem Inserted.spec {dest : ℕ} (hs : s.Formed mode)
    (hfind : s.find call.target_addr = none)
    (h : Inserted mode s call dest answers (s', r)) :
    s'.Formed mode ∧ s'.Returned call.target_addr r ∧
      RegistryStep mode s.Active (.hook call.target_addr call.new_addr r) s'.Active := by
  cases h with
  | error _ => exact ⟨hs, nofun, .refused rfl nofun⟩
  | ok proxy hook formed calls =>
      rename_i insts inst hub
      have hchanged := changed_insert (show s.find (Switch.mk call.target_addr dest inst hub).1 = _
        from hfind) insts (store_orig_addr2 mode call.target_addr (.ok inst) s.safe)
      refine ⟨hchanged.formed hs formed,
        fun _ => ⟨⟨call.target_addr, dest, inst⟩, ?_, rfl, rfl⟩, ?_⟩
      · rw [hookedAt, hchanged, if_pos rfl]
        rfl
      rw [hchanged.active_eq (R := insert (call.target_addr, call.new_addr) s.Active)
        (fun func => ?_) fun p hp => ?_]
      · exact .hooked rfl fun p hp hhit => not_active hfind hp hhit.1
      · rw [calls, Set.mem_insert_iff, Prod.mk.injEq, eq_self, true_and]
        exact ⟨.inl, fun h => h.resolve_right fun hmem => not_active hfind hmem rfl⟩
      · exact ⟨.inr, fun h => h.resolve_left fun heq => hp (congrArg Prod.fst heq)⟩
  | oom _ _ _ _ => exact ⟨hs, nofun, .refused rfl nofun⟩

/-! ## Unhooking -/

/-- The pairs that an unhook ends are the last ones of the function. -/
def Last (mode : SwitchMode) (s : Switches page) (target_addr new_addr : ℕ) : Prop :=
  (∃ func, (target_addr, func) ∈ s.Active) ∧
    ∀ p ∈ s.Active, p.1 = target_addr → Hits mode target_addr new_addr p

/-- What an unhook can do. -/
inductive Unhooked (mode : SwitchMode) (s : Switches page) (target_addr new_addr : ℕ)
    (answers : UnhookAnswers) : Switches page × Option SwitchErrno → Prop
  | kept {s' : Switches page} {errno : Option SwitchErrno}
      (more : ¬ Last mode s target_addr new_addr) (formed : s'.Formed mode) (same : Same s s')
      (step : RegistryStep mode s.Active (.unhook target_addr new_addr errno) s'.Active) :
      Unhooked mode s target_addr new_addr answers (s', errno)
  | removed {s' : Switches page} {self : Switch} {insts : Insts page} {r : Option InstErrno}
      (last : Last mode s target_addr new_addr) (find : s.find target_addr = some self)
      (unhook : s.insts.unhook self.hooked answers = some (insts, r))
      (changed : Changed s s' target_addr none) (insts_eq : s'.insts = insts)
      (safe_eq : s'.safe = store_safe target_addr 0 s.safe)
      (invisible_eq : s'.invisible = s.invisible) :
      Unhooked mode s target_addr new_addr answers (s', r.map .INST)

variable {answers : UnhookAnswers} {errno : Option SwitchErrno}

/-- A function without a switch cannot be unhooked. -/
theorem unhooked_not_found (hs : s.Formed mode) (hfind : s.find target_addr = none) :
    Unhooked mode s target_addr new_addr answers (s, some .UNHOOK_NOTFOUND) :=
  .kept (fun h => h.1.elim fun _ hmem => not_active hfind hmem rfl) hs (.refl s)
    (.notFound fun _ hp hhit => not_active hfind hp hhit.1)

theorem unhook_unique_cases (hs : s.Formed .unique)
    (hresult : s.sh_switch_unhook_unique target_addr answers = some (s', errno)) :
    Unhooked .unique s target_addr new_addr answers (s', errno) := by
  unfold sh_switch_unhook_unique at hresult
  split at hresult
  · rename_i hfind
    obtain ⟨rfl, rfl⟩ := Prod.mk.inj (Option.some.inj hresult)
    exact unhooked_not_found hs hfind
  · rename_i self hfind
    obtain ⟨⟨insts, r⟩, hunhook, hout⟩ := Option.map_eq_some_iff.mp hresult
    obtain ⟨rfl, rfl⟩ := Prod.mk.inj hout
    obtain rfl := rb_find_some hfind
    refine .removed ⟨hs.exists_active hfind, fun p _ hp => ⟨hp, nofun⟩⟩ hfind hunhook
      (fun addr => rb_find_remove _) rfl rfl rfl

theorem unhook_shared_cases (hs : s.Formed .shared)
    (hresult : s.sh_switch_unhook_shared target_addr new_addr answers = some (s', errno)) :
    Unhooked .shared s target_addr new_addr answers (s', errno) := by
  unfold sh_switch_unhook_shared at hresult
  split at hresult
  · rename_i hfind
    obtain ⟨rfl, rfl⟩ := Prod.mk.inj (Option.some.inj hresult)
    exact unhooked_not_found hs hfind
  · rename_i self hfind
    obtain ⟨hub, hhub, hout⟩ := Option.bind_eq_some_iff.mp hresult
    obtain ⟨hub', chain, hhub', horig, hshows, func, hfunc⟩ := hs _ _ hfind
    obtain rfl := Option.some.inj (hhub.symm.trans hhub')
    obtain ⟨hdel, hshows'⟩ := hshows.del new_addr
    obtain rfl := rb_find_some hfind
    have hdeleted := deleted hshows new_addr
    simp only [hdel] at hout
    generalize (sh_hub_del_proxy hub.proxies new_addr).1 = proxies at hout hshows'
    have hchanged := changed_set_proxies hfind proxies
    have hsame := same_set_proxies hfind proxies
    have hhub'' : (self.with_proxies proxies).hub = some { hub with proxies := proxies } := by
      unfold Switch.with_proxies
      rw [hhub]
      rfl
    have hactive : ∀ f, (self.target_addr, f) ∈ s.Active ↔ chain.on f :=
      fun f => (mem_active hfind).trans (calls_iff hhub hshows)
    generalize chain.del new_addr = result at hout hdeleted hshows'
    have hcalls : ∀ f, (self.with_proxies proxies).Calls f ↔ result.1.on f :=
      fun f => calls_iff hhub'' hshows'
    cases hdeleted with
    | notFound off =>
        obtain ⟨rfl, rfl⟩ := Prod.mk.inj (Option.some.inj hout)
        refine .kept (fun h => ?_)
          (hchanged.formed hs ⟨_, _, hhub'', horig, hshows', func, hfunc⟩) hsame ?_
        · obtain rfl := (h.2 _ ((hactive func).mpr hfunc) rfl).2 rfl
          exact off hfunc
        · rw [hchanged.active_eq (fun f => (hcalls f).trans (hactive f).symm) fun _ _ => Iff.rfl]
          refine .notFound fun p hp hhit => ?_
          obtain rfl := hits_shared.mp hhit
          exact off ((hactive new_addr).mp hp)
    | deleted on more =>
        rename_i chain' b
        have hset : ∀ f, (self.with_proxies proxies).Calls f ↔ (self.target_addr, f) ∈
            {p ∈ s.Active | ¬ Hits .shared self.target_addr new_addr p} := by
          intro f
          show _ ↔ (self.target_addr, f) ∈ s.Active ∧ ¬ Hits .shared self.target_addr new_addr _
          rw [hcalls, on, hactive, hits_shared, Prod.mk.injEq, eq_self, true_and, and_comm]
        cases b with
        | true =>
            obtain ⟨other, hne, hother⟩ := more.mp rfl
            obtain ⟨rfl, rfl⟩ := Prod.mk.inj (Option.some.inj hout)
            refine .kept (fun h => ?_) (hchanged.formed hs
              ⟨_, _, hhub'', horig, hshows', other, (on other).mpr ⟨hne, hother⟩⟩) hsame ?_
            · exact hne ((h.2 _ ((hactive other).mpr hother) rfl).2 rfl)
            · rw [hchanged.active_eq hset fun p hp => ?_]
              · exact .unhooked nofun
              · exact ⟨fun h => ⟨h, fun hhit => hp hhit.1⟩, And.left⟩
        | false =>
            have honly : ∀ f, chain.on f → f = new_addr := by
              intro f hf
              by_contra hne
              cases more.mpr ⟨f, hne, hf⟩
            obtain ⟨⟨insts, r⟩, hunhook, hout⟩ := Option.map_eq_some_iff.mp hout
            obtain ⟨rfl, rfl⟩ := Prod.mk.inj hout
            refine .removed ⟨⟨func, (hactive func).mpr hfunc⟩, fun p hp heq => ⟨heq, fun _ => ?_⟩⟩
              hfind hunhook (fun addr => ?_) rfl rfl rfl
            · obtain ⟨addr, f⟩ := p
              obtain rfl := heq
              exact honly f ((hactive f).mp hp)
            · refine (rb_find_remove _).trans ?_
              split
              · rfl
              · rename_i hne
                refine (hchanged addr).trans ?_
                rw [if_neg hne]

/-- An unhook is done on the set of pairs. -/
theorem Unhooked.spec (hs : s.Formed mode)
    (h : Unhooked mode s target_addr new_addr answers (s', errno)) : s'.Formed mode ∧
      RegistryStep mode s.Active (.unhook target_addr new_addr errno) s'.Active := by
  cases h with
  | kept more formed same step => exact ⟨formed, step⟩
  | removed last find unhook changed insts_eq safe_eq invisible_eq =>
      rename_i r
      refine ⟨changed.formed_none hs, ?_⟩
      have hset : s'.Active = {p ∈ s.Active | ¬ Hits mode target_addr new_addr p} := by
        rw [changed.active_eq_none]
        ext p
        refine and_congr_right fun hp => not_congr ?_
        exact ⟨last.2 p hp, And.left⟩
      rw [hset]
      refine .unhooked fun h => ?_
      cases r with
      | none => cases h
      | some e => cases h

/-- The switches that are left are as before. -/
theorem Unhooked.hookedAt_left
    (h : Unhooked mode s target_addr new_addr answers (s', errno)) {addr : ℕ}
    (hleft : (s'.find addr).isSome) : s'.hookedAt addr = s.hookedAt addr := by
  cases h with
  | kept more formed same step => exact same.hookedAt addr
  | removed last find unhook changed insts_eq safe_eq invisible_eq =>
      rw [changed] at hleft
      rw [Switches.hookedAt, changed]
      split at hleft
      · cases hleft
      · rename_i hne
        rw [if_neg hne]
        rfl

/-- An unhook in either mode. -/
theorem unhook_cases (hs : s.Formed mode)
    (hresult : s.sh_switch_unhook mode target_addr new_addr answers = some (s', errno)) :
    Unhooked mode s target_addr new_addr answers (s', errno) := by
  cases mode with
  | unique => exact unhook_unique_cases hs hresult
  | shared => exact unhook_shared_cases hs hresult

/-! ## Hooking without a switch -/

section

variable {call : SwitchHook page} {answers : HookAnswers} {r : HookReturn}

/-- What a hook without a switch can do. -/
theorem invisible_cases (hresult : s.sh_switch_hook_unique_invisible call answers = some (s', r)) :
    (∃ insts e, s.insts.hook call.lib call.target_addr call.dli_ssize call.new_addr answers
        = some (insts, .error e) ∧ s' = { s with insts }) ∨
      ∃ insts inst, s.insts.hook call.lib call.target_addr call.dli_ssize call.new_addr answers
        = some (insts, .ok inst) ∧ s' = { s with
          insts
          invisible := ⟨call.target_addr, call.new_addr, inst⟩ :: s.invisible } := by
  obtain ⟨⟨insts, result⟩, hhook, hout⟩ := Option.map_eq_some_iff.mp hresult
  cases result with
  | error e => exact .inl ⟨insts, e, hhook, (Prod.mk.inj hout).1.symm⟩
  | ok inst => exact .inr ⟨insts, inst, hhook, (Prod.mk.inj hout).1.symm⟩

theorem tree_of_invisible
    (hresult : s.sh_switch_hook_unique_invisible call answers = some (s', r)) :
    s'.tree = s.tree := by
  rcases invisible_cases hresult with ⟨insts, e, -, rfl⟩ | ⟨insts, inst, -, rfl⟩
  · rfl
  · rfl

/-- Everything is read from the tree. -/
theorem find_congr (h : s'.tree = s.tree) (addr : ℕ) : s'.find addr = s.find addr :=
  congrArg (rb_find addr) h

theorem hookedAt_congr (h : s'.tree = s.tree) (addr : ℕ) : s'.hookedAt addr = s.hookedAt addr :=
  congrArg (Option.map Switch.hooked) (find_congr h addr)

theorem Formed.congr (hs : s.Formed mode) (h : s'.tree = s.tree) : s'.Formed mode :=
  fun addr self hfind => hs addr self ((find_congr h addr).symm.trans hfind)

theorem active_congr (h : s'.tree = s.tree) : s'.Active = s.Active := by
  unfold Active
  simp only [find_congr h]

end

/-! ## Closing a library -/

theorem find_free_after_dlclose (dlinfo : ExitInfo) (now : ℕ → ℤ) (addr : ℕ) :
    (s.sh_switch_free_after_dlclose dlinfo now).find addr
      = if sh_util_is_in_elf_pt_load dlinfo addr then none else s.find addr := by
  have hfilter := @rb_find_filter addr s.tree fun addr => !sh_util_is_in_elf_pt_load dlinfo addr
  refine hfilter.trans ?_
  cases sh_util_is_in_elf_pt_load dlinfo addr <;> rfl

theorem hookedAt_free_after_dlclose {dlinfo : ExitInfo} {now : ℕ → ℤ} {addr : ℕ}
    (hleft : ((s.sh_switch_free_after_dlclose dlinfo now).find addr).isSome) :
    (s.sh_switch_free_after_dlclose dlinfo now).hookedAt addr = s.hookedAt addr := by
  rw [find_free_after_dlclose] at hleft
  rw [hookedAt, find_free_after_dlclose]
  split at hleft
  · cases hleft
  · rename_i hopen
    rw [if_neg hopen]
    rfl

/-- The pairs of a library that is closed are gone. -/
theorem free_after_dlclose_spec (hs : s.Formed mode) (dlinfo : ExitInfo) (now : ℕ → ℤ) :
    (s.sh_switch_free_after_dlclose dlinfo now).Formed mode ∧
      RegistryStep mode s.Active (.close dlinfo)
        (s.sh_switch_free_after_dlclose dlinfo now).Active := by
  constructor
  · intro addr self hfind
    rw [find_free_after_dlclose] at hfind
    split at hfind
    · cases hfind
    · exact hs _ _ hfind
  · have hset : (s.sh_switch_free_after_dlclose dlinfo now).Active
        = {p ∈ s.Active | ¬ sh_util_is_in_elf_pt_load dlinfo p.1} := by
      ext ⟨addr, func⟩
      show (∃ self, (s.sh_switch_free_after_dlclose dlinfo now).find addr = some self ∧ _) ↔
        (addr, func) ∈ s.Active ∧ ¬ sh_util_is_in_elf_pt_load dlinfo addr
      rw [find_free_after_dlclose]
      split
      · rename_i hclosed
        simp [hclosed]
      · rename_i hopen
        exact (and_iff_left hopen).symm
    rw [hset]
    exact .closed

end Switches

end ShadowHook
