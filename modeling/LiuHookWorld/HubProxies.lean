/-
# The proxies of a hub

`sh_hub.c` keeps the functions that were hooked to one target in a list.  A function is inserted
at the head when it is hooked for the first time; unhooking only disables it, and hooking it
again enables it in its old place.

The abstract list has an order and a set of functions that are on; the source's one refines it.
-/
import Mathlib.Data.List.Basic
import Mathlib.Logic.Function.Basic

namespace ShadowHook

/-! ## The source -/

/-- `sh_hub_proxy_t` -/
structure Proxy where
  func : ℕ
  enabled : Bool
deriving DecidableEq

/-- What `sh_hub_add_proxy` returns: `SHADOWHOOK_ERRNO_OK` and its errors. -/
inductive AddProxy where
  | ok
  | hookDup
  | oom
deriving DecidableEq

/-- The second loop of `sh_hub_add_proxy`. -/
def re_enable (proxy_func : ℕ) : List Proxy → List Proxy
  | [] => []
  | proxy :: proxies =>
      if proxy.func = proxy_func then { proxy with enabled := true } :: proxies
      else proxy :: re_enable proxy_func proxies

/-- `malloc` is the answer of the system. -/
def sh_hub_add_proxy (proxies : List Proxy) (proxy_func : ℕ) (malloc : Bool) :
    List Proxy × AddProxy :=
  if proxies.any fun proxy => proxy.enabled && proxy.func = proxy_func then (proxies, .hookDup)
  else if proxies.any fun proxy => proxy.func = proxy_func then
    (re_enable proxy_func proxies, .ok)
  else if !malloc then (proxies, .oom)
  else (⟨proxy_func, true⟩ :: proxies, .ok)

/-- The loop of `sh_hub_del_proxy`, with its two variables. -/
def del_loop (proxy_func : ℕ) : List Proxy → Bool → Bool → List Proxy × Bool × Bool
  | [], deleted, have_enabled_proxy => ([], deleted, have_enabled_proxy)
  | proxy :: proxies, deleted, have_enabled_proxy =>
      let hit := proxy.func = proxy_func
      let proxy := if hit then { proxy with enabled := false } else proxy
      let deleted := if hit then true else deleted
      let have_enabled_proxy :=
        if proxy.enabled && !have_enabled_proxy then true else have_enabled_proxy
      if deleted && have_enabled_proxy then (proxy :: proxies, deleted, have_enabled_proxy)
      else
        let rest := del_loop proxy_func proxies deleted have_enabled_proxy
        (proxy :: rest.1, rest.2)

/-- `none` is the return value -1; otherwise the result is `*have_enabled_proxy`. -/
def sh_hub_del_proxy (proxies : List Proxy) (proxy_func : ℕ) : List Proxy × Option Bool :=
  let result := del_loop proxy_func proxies false false
  (result.1, if result.2.1 then some result.2.2 else none)

/-! ## What the list is for -/

/-- The functions that were ever hooked, the last one first, and those that are hooked. -/
structure HookChain where
  order : List ℕ
  on : ℕ → Bool

namespace HookChain

/-- A function that is on is refused; one that was on before is on again, in its old place. -/
def add (chain : HookChain) (func : ℕ) (malloc : Bool) : HookChain × AddProxy :=
  if chain.on func then (chain, .hookDup)
  else if func ∈ chain.order then ({ chain with on := Function.update chain.on func true }, .ok)
  else if !malloc then (chain, .oom)
  else (⟨func :: chain.order, Function.update chain.on func true⟩, .ok)

/-- A function is off; the result says whether any other one is on. -/
def del (chain : HookChain) (func : ℕ) : HookChain × Option Bool :=
  let on := Function.update chain.on func false
  if func ∈ chain.order then ({ chain with on := on }, some (chain.order.any on))
  else (chain, none)

/-- No function was added yet. -/
def empty : HookChain where
  order := []
  on := fun _ => false

/-- The list of the source is the chain. -/
structure Shows (proxies : List Proxy) (chain : HookChain) : Prop where
  order : proxies.map Proxy.func = chain.order
  nodup : chain.order.Nodup
  enabled : ∀ proxy ∈ proxies, proxy.enabled = chain.on proxy.func
  on : ∀ func, chain.on func → func ∈ chain.order

variable {proxies : List Proxy} {chain : HookChain} {func : ℕ}

/-- The empty list has no function. -/
theorem shows_empty : Shows [] empty := by
  constructor <;> simp [empty]

theorem any_func_iff : (proxies.any fun proxy => proxy.func = func) = true ↔
    func ∈ proxies.map Proxy.func := by
  simp only [List.any_eq_true, decide_eq_true_eq, List.mem_map]

/-- A proxy that is enabled is one that is on. -/
theorem Shows.any_enabled_iff (h : Shows proxies chain) :
    (proxies.any fun proxy => proxy.enabled && proxy.func = func) = true ↔ chain.on func := by
  simp only [List.any_eq_true, Bool.and_eq_true, decide_eq_true_eq]
  constructor
  · rintro ⟨proxy, hproxy, henabled, rfl⟩
    rw [← h.enabled proxy hproxy]
    exact henabled
  · intro hon
    have hmem := h.on func hon
    rw [← h.order] at hmem
    obtain ⟨proxy, hproxy, rfl⟩ := List.mem_map.mp hmem
    exact ⟨proxy, hproxy, (h.enabled proxy hproxy).trans hon, rfl⟩

/-- Setting the flag of a function. -/
def setFlag (func : ℕ) (value : Bool) (proxy : Proxy) : Proxy :=
  if proxy.func = func then { proxy with enabled := value } else proxy

@[simp] theorem setFlag_func (value : Bool) (proxy : Proxy) :
    (setFlag func value proxy).func = proxy.func := by
  unfold setFlag
  split <;> rfl

theorem map_setFlag_of_not_mem (value : Bool) (h : func ∉ proxies.map Proxy.func) :
    proxies.map (setFlag func value) = proxies := by
  have hsame : ∀ proxy ∈ proxies, setFlag func value proxy = proxy := by
    intro proxy hmem
    refine if_neg fun heq => h ?_
    exact List.mem_map.mpr ⟨proxy, hmem, heq⟩
  exact (List.map_congr_left hsame).trans (List.map_id _)

/-! ## Adding -/

theorem re_enable_eq (hnodup : (proxies.map Proxy.func).Nodup) :
    re_enable func proxies = proxies.map (setFlag func true) := by
  induction proxies with
  | nil => rfl
  | cons proxy proxies ih =>
      rw [List.map_cons, List.nodup_cons] at hnodup
      rw [re_enable, List.map_cons, setFlag]
      split
      · rename_i hhit
        rw [map_setFlag_of_not_mem true (hhit ▸ hnodup.1)]
      · rw [ih hnodup.2]

/-- One flag changes in the list as in the chain. -/
theorem Shows.set (h : Shows proxies chain) (value : Bool) (hmem : func ∈ chain.order) :
    Shows (proxies.map (setFlag func value))
      { chain with on := Function.update chain.on func value } := by
  constructor
  · have hfunc : Proxy.func ∘ setFlag func value = Proxy.func := by
      funext proxy
      exact setFlag_func value proxy
    rw [List.map_map, hfunc, h.order]
  · exact h.nodup
  · intro proxy hproxy
    obtain ⟨proxy', hmem', rfl⟩ := List.mem_map.mp hproxy
    unfold setFlag
    split
    · rename_i hhit
      simp only [hhit, Function.update_self]
    · rename_i hhit
      simp only [Function.update_of_ne hhit]
      exact h.enabled proxy' hmem'
  · intro func' hon
    by_cases heq : func' = func
    · rw [heq]
      exact hmem
    · simp only [Function.update_of_ne heq] at hon
      exact h.on func' hon

/-- Adding a proxy is adding its function. -/
theorem Shows.add (h : Shows proxies chain) (func : ℕ) (malloc : Bool) :
    (sh_hub_add_proxy proxies func malloc).2 = (chain.add func malloc).2 ∧
      Shows (sh_hub_add_proxy proxies func malloc).1 (chain.add func malloc).1 := by
  unfold sh_hub_add_proxy HookChain.add
  simp only [h.any_enabled_iff, any_func_iff, h.order]
  split
  · exact ⟨rfl, h⟩
  · rename_i hoff
    split
    · rename_i hmem
      refine ⟨rfl, ?_⟩
      rw [re_enable_eq (h.order ▸ h.nodup)]
      exact h.set true hmem
    · rename_i hnew
      split
      · exact ⟨rfl, h⟩
      · refine ⟨rfl, ?_, ?_, ?_, ?_⟩
        · rw [List.map_cons, h.order]
        · exact List.nodup_cons.mpr ⟨hnew, h.nodup⟩
        · intro proxy hproxy
          rcases List.mem_cons.mp hproxy with rfl | hproxy
          · simp only [Function.update_self]
          · have hne : proxy.func ≠ func := by
              intro heq
              rw [← h.order] at hnew
              exact hnew (List.mem_map.mpr ⟨proxy, hproxy, heq⟩)
            simp only [Function.update_of_ne hne]
            exact h.enabled proxy hproxy
        · intro func' hon
          by_cases heq : func' = func
          · exact List.mem_cons.mpr (.inl heq)
          · simp only [Function.update_of_ne heq] at hon
            exact List.mem_cons_of_mem _ (h.on func' hon)

/-! ## Deleting -/

theorem del_loop_cons (proxy : Proxy) (proxies : List Proxy) (deleted found : Bool) :
    del_loop func (proxy :: proxies) deleted found =
      let proxy' := setFlag func false proxy
      let deleted' := deleted || decide (proxy.func = func)
      let found' := found || proxy'.enabled
      let rest := del_loop func proxies deleted' found'
      if deleted' && found' then (proxy' :: proxies, deleted', found')
      else (proxy' :: rest.1, rest.2) := by
  have hhit : (if proxy.func = func then true else deleted)
      = (deleted || decide (proxy.func = func)) := by
    split
    · rename_i h
      rw [decide_eq_true h, Bool.or_true]
    · rename_i h
      rw [decide_eq_false h, Bool.or_false]
  have hfound : ∀ enabled : Bool, (if (enabled && !found) = true then true else found)
      = (found || enabled) := by
    cases found <;> decide
  rw [del_loop]
  simp only [hhit, hfound]
  rfl

/-- The early exit of the loop changes nothing: the function does not occur behind it. -/
theorem del_loop_eq (hnodup : (proxies.map Proxy.func).Nodup) (deleted found : Bool)
    (hdeleted : deleted → func ∉ proxies.map Proxy.func) :
    del_loop func proxies deleted found = (proxies.map (setFlag func false),
      (deleted || decide (func ∈ proxies.map Proxy.func)),
      (found || (proxies.map (setFlag func false)).any Proxy.enabled)) := by
  induction proxies generalizing deleted found with
  | nil => simp [del_loop]
  | cons proxy proxies ih =>
      rw [List.map_cons, List.nodup_cons] at hnodup
      have hmem : decide (func ∈ (proxy :: proxies).map Proxy.func)
          = (decide (proxy.func = func) || decide (func ∈ proxies.map Proxy.func)) := by
        rw [List.map_cons, Bool.eq_iff_iff, Bool.or_eq_true, decide_eq_true_iff,
          decide_eq_true_iff, decide_eq_true_iff, List.mem_cons, eq_comm]
      have hbehind : (deleted || decide (proxy.func = func)) = true →
          func ∉ proxies.map Proxy.func := by
        intro h
        rcases Bool.or_eq_true_iff.mp h with h | h
        · exact fun hmem => hdeleted h (List.mem_cons_of_mem _ hmem)
        · exact of_decide_eq_true h ▸ hnodup.1
      rw [del_loop_cons, hmem, ← Bool.or_assoc, List.map_cons, List.any_cons, ← Bool.or_assoc]
      simp only
      split
      · rename_i hexit
        obtain ⟨h, hfound⟩ := Bool.and_eq_true_iff.mp hexit
        rw [map_setFlag_of_not_mem false (hbehind h), h, hfound, Bool.true_or, Bool.true_or]
      · rw [ih hnodup.2 _ _ hbehind]

/-- Deleting a proxy is taking its function off. -/
theorem Shows.del (h : Shows proxies chain) (func : ℕ) :
    (sh_hub_del_proxy proxies func).2 = (chain.del func).2 ∧
      Shows (sh_hub_del_proxy proxies func).1 (chain.del func).1 := by
  have hany : (proxies.map (setFlag func false)).any Proxy.enabled
      = chain.order.any (Function.update chain.on func false) := by
    rw [← h.order, List.any_map, List.any_map, Bool.eq_iff_iff, List.any_eq_true,
      List.any_eq_true]
    apply exists_congr
    intro proxy
    apply and_congr_right
    intro hproxy
    simp only [Function.comp_apply, setFlag]
    split
    · rename_i hhit
      rw [hhit, Function.update_self]
    · rename_i hhit
      rw [Function.update_of_ne hhit, h.enabled proxy hproxy]
  have hnone : false → func ∉ proxies.map Proxy.func := by simp
  have hloop := del_loop_eq (h.order ▸ h.nodup) false false hnone
  unfold sh_hub_del_proxy HookChain.del
  rw [hloop, h.order]
  split
  · rename_i hmem
    rw [decide_eq_true hmem, hany]
    exact ⟨rfl, h.set false hmem⟩
  · rename_i hmem
    rw [decide_eq_false hmem]
    exact ⟨rfl, by rw [map_setFlag_of_not_mem false (h.order ▸ hmem)]; exact h⟩

end HookChain

/-! ## Runs of one hub -/

/-- The two operations on the proxies of a hub. -/
inductive HubOp where
  | add (func : ℕ) (malloc : Bool)
  | del (func : ℕ)

/-- What an operation returns. -/
inductive HubResult where
  | added (result : AddProxy)
  | deleted (result : Option Bool)
deriving DecidableEq

/-- An operation on the list of the source. -/
def hub_op (proxies : List Proxy) : HubOp → List Proxy × HubResult
  | .add func malloc =>
      let result := sh_hub_add_proxy proxies func malloc
      (result.1, .added result.2)
  | .del func =>
      let result := sh_hub_del_proxy proxies func
      (result.1, .deleted result.2)

/-- The operation on the chain. -/
def HookChain.op (chain : HookChain) : HubOp → HookChain × HubResult
  | .add func malloc => ((chain.add func malloc).1, .added (chain.add func malloc).2)
  | .del func => ((chain.del func).1, .deleted (chain.del func).2)

/-- The results of a run of operations, and the state after it. -/
def results {σ : Type} (op : σ → HubOp → σ × HubResult) : σ → List HubOp → List HubResult × σ
  | s, [] => ([], s)
  | s, o :: os =>
      let rest := results op (op s o).1 os
      ((op s o).2 :: rest.1, rest.2)

variable {proxies : List Proxy} {chain : HookChain}

theorem HookChain.Shows.op (h : HookChain.Shows proxies chain) (o : HubOp) :
    (hub_op proxies o).2 = (chain.op o).2 ∧
      HookChain.Shows (hub_op proxies o).1 (chain.op o).1 := by
  cases o with
  | add func malloc =>
      obtain ⟨hresult, hshows⟩ := h.add func malloc
      exact ⟨congrArg HubResult.added hresult, hshows⟩
  | del func =>
      obtain ⟨hresult, hshows⟩ := h.del func
      exact ⟨congrArg HubResult.deleted hresult, hshows⟩

/-- The results of every sequence of operations are those of the chain. -/
theorem HookChain.Shows.results (h : HookChain.Shows proxies chain) (ops : List HubOp) :
    (results hub_op proxies ops).1 = (results HookChain.op chain ops).1 ∧
      HookChain.Shows (results hub_op proxies ops).2 (results HookChain.op chain ops).2 := by
  induction ops generalizing proxies chain with
  | nil => exact ⟨rfl, h⟩
  | cons o ops ih =>
      obtain ⟨hresult, hshows⟩ := h.op o
      obtain ⟨hresults, hlast⟩ := ih hshows
      exact ⟨congrArg₂ List.cons hresult hresults, hlast⟩

/-- Every run of the list of proxies returns what the chain returns, and shows the chain. -/
theorem proxies_refine (ops : List HubOp) :
    (results hub_op [] ops).1 = (results HookChain.op .empty ops).1 ∧
      HookChain.Shows (results hub_op [] ops).2 (results HookChain.op .empty ops).2 :=
  HookChain.shows_empty.results ops

end ShadowHook
