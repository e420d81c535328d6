/-
# Requests for inline hooks

`skHookAdapter::inline_hook_func_address` of `framework/sk_hook_adapter/sk_adapter.cpp` keeps a
list of the hooks it has made, and refuses a request whose hash is in the list.  The hash is
made of the three numbers of the request, printed one after the other; the function that
hashes the text is a parameter here, and so are the answers of the two engines.
-/
import Mathlib.Data.List.Nodup
import LiuHookWorld.Decimal

namespace HookAdapter

/-! ## The source -/

/-- What is asked for; addresses and pointers are numbers, `NULL` is zero. -/
structure HookRequest where
  address : ℕ
  cb : ℕ
  ori_cb : ℕ
  deriving DecidableEq, Repr

/-- The answers of `sk_inline_hook` and `dft_inline_hook`. -/
structure Engines where
  sk_inline_hook : Bool
  dft_inline_hook : Bool
  deriving DecidableEq, Repr

/-- A call of `inline_hook_func_address`, with what the engines answer to it. -/
structure HookCall where
  request : HookRequest
  ignore_dft : Bool
  engines : Engines
  deriving DecidableEq, Repr

structure SkHookInfo (H : Type) where
  stub : ℕ
  hash : H
  address : ℕ
  deriving DecidableEq, Repr

/-- How a call ends; `hooked` is `true`, the others are `false`, each with its message. -/
inductive Answer
  | invalid
  | duplicate
  | failed
  | hooked
  deriving DecidableEq, Repr

namespace HookRequest

/-- The test of the arguments. -/
def Valid (r : HookRequest) : Prop := ¬ (r.address = 0 ∨ r.cb = 0 ∨ r.ori_cb = 0)

instance (r : HookRequest) : Decidable r.Valid := inferInstanceAs (Decidable (¬ _))

/-- `"%lu%lu%lu"` with the three numbers. -/
def text (r : HookRequest) : List Char := Decimal.concat [r.address, r.cb, r.ori_cb]

end HookRequest

section

variable {H : Type} [DecidableEq H] (sk_hash_hook_hash : List Char → H)

/-- `new skHookInfo { NULL, hash, address }`. -/
def HookRequest.info (r : HookRequest) : SkHookInfo H := ⟨0, sk_hash_hook_hash r.text, r.address⟩

/-- The search of the list for a hash. -/
def has_hook (sk_hooks : List (SkHookInfo H)) (hash : H) : Bool :=
  sk_hooks.any fun v => v.hash = hash

def inline_hook_func_address (sk_hooks : List (SkHookInfo H)) (c : HookCall) :
    List (SkHookInfo H) × Answer :=
  if ¬ c.request.Valid then (sk_hooks, .invalid)
  else if has_hook sk_hooks (sk_hash_hook_hash c.request.text) then (sk_hooks, .duplicate)
  else if c.engines.sk_inline_hook ∨ (!c.ignore_dft ∧ c.engines.dft_inline_hook) then
    (sk_hooks ++ [c.request.info sk_hash_hook_hash], .hooked)
  else (sk_hooks, .failed)

/-- The list of hooks, and the requests that were recorded in it. -/
structure Adapter (H : Type) where
  sk_hooks : List (SkHookInfo H)
  recorded : List HookRequest
  deriving DecidableEq, Repr

/-- After one more call. -/
def Adapter.call (s : Adapter H) (c : HookCall) : Adapter H :=
  let result := inline_hook_func_address sk_hash_hook_hash s.sk_hooks c
  ⟨result.1, if result.2 = .hooked then s.recorded ++ [c.request] else s.recorded⟩

/-- After a history of calls, from the empty list. -/
def Adapter.after (history : List HookCall) : Adapter H :=
  history.foldl (Adapter.call sk_hash_hook_hash) ⟨[], []⟩

/-- The request of the call is refused as a duplicate only if it was recorded before. -/
def RefusedOnlyAgain (history : List HookCall) (c : HookCall) : Prop :=
  let s := Adapter.after sk_hash_hook_hash history
  (inline_hook_func_address sk_hash_hook_hash s.sk_hooks c).2 = .duplicate →
    c.request ∈ s.recorded

end

/-! ## What one call does -/

section

variable {H : Type} [DecidableEq H] {sk_hash_hook_hash : List Char → H}

theorem has_hook_iff {sk_hooks : List (SkHookInfo H)} {hash : H} :
    has_hook sk_hooks hash = true ↔ hash ∈ sk_hooks.map SkHookInfo.hash := by
  simp [has_hook]

omit [DecidableEq H] in
/-- One more entry is no duplicate where its hash is new. -/
theorem nodup_append_info {sk_hooks : List (SkHookInfo H)} {r : HookRequest} :
    ((sk_hooks ++ [r.info sk_hash_hook_hash]).map SkHookInfo.hash).Nodup
      ↔ (sk_hooks.map SkHookInfo.hash).Nodup
        ∧ sk_hash_hook_hash r.text ∉ sk_hooks.map SkHookInfo.hash := by
  rw [List.map_append, List.map_singleton, ← List.concat_eq_append, List.nodup_concat, and_comm]
  rfl

/-- A call leaves the list as it is, or it was valid and no duplicate, and is recorded. -/
theorem call_cases (s : Adapter H) (c : HookCall) : s.call sk_hash_hook_hash c = s
    ∨ c.request.Valid ∧ sk_hash_hook_hash c.request.text ∉ s.sk_hooks.map SkHookInfo.hash
      ∧ s.call sk_hash_hook_hash c
        = ⟨s.sk_hooks ++ [c.request.info sk_hash_hook_hash], s.recorded ++ [c.request]⟩ := by
  unfold Adapter.call inline_hook_func_address
  split_ifs with hvalid hdup hengine
  · exact Or.inl rfl
  · exact Or.inr ⟨hvalid, fun hmem => hdup (has_hook_iff.mpr hmem), rfl⟩
  · exact Or.inl rfl
  · exact Or.inl rfl

/-- A valid call is refused as a duplicate when its hash is in the list, whatever the engines
would answer. -/
theorem duplicate_iff {c : HookCall} (hvalid : c.request.Valid) (sk_hooks : List (SkHookInfo H)) :
    (inline_hook_func_address sk_hash_hook_hash sk_hooks c).2 = .duplicate
      ↔ sk_hash_hook_hash c.request.text ∈ sk_hooks.map SkHookInfo.hash := by
  rw [inline_hook_func_address, if_neg (not_not.mpr hvalid), ← has_hook_iff]
  by_cases hdup : has_hook sk_hooks (sk_hash_hook_hash c.request.text)
  · simp [hdup]
  · rw [if_neg hdup]
    split_ifs <;> simp [hdup]

/-! ## The list after a history -/

/-- The entries are those of the recorded requests, which were valid and have different
hashes. -/
structure Consistent (sk_hash_hook_hash : List Char → H) (s : Adapter H) : Prop where
  entries : s.sk_hooks = s.recorded.map (HookRequest.info sk_hash_hook_hash)
  valid : ∀ r ∈ s.recorded, r.Valid
  distinct : (s.sk_hooks.map SkHookInfo.hash).Nodup

theorem Consistent.call {s : Adapter H} (h : Consistent sk_hash_hook_hash s) (c : HookCall) :
    Consistent sk_hash_hook_hash (s.call sk_hash_hook_hash c) := by
  rcases call_cases s c with heq | ⟨hvalid, hnew, heq⟩
  · rw [heq]
    exact h
  · rw [heq]
    constructor
    · show s.sk_hooks ++ _ = (s.recorded ++ _).map _
      rw [List.map_append, ← h.entries, List.map_singleton]
    · intro r hr
      rcases List.mem_append.mp hr with hr | hr
      · exact h.valid r hr
      · rw [List.mem_singleton.mp hr]
        exact hvalid
    · exact nodup_append_info.mpr ⟨h.distinct, hnew⟩

theorem consistent_foldl (history : List HookCall) {s : Adapter H}
    (h : Consistent sk_hash_hook_hash s) :
    Consistent sk_hash_hook_hash (history.foldl (Adapter.call sk_hash_hook_hash) s) := by
  induction history generalizing s with
  | nil => exact h
  | cons c history ih => exact ih (h.call c)

theorem consistent_after (history : List HookCall) :
    Consistent sk_hash_hook_hash (Adapter.after sk_hash_hook_hash history) :=
  consistent_foldl history ⟨rfl, by simp, List.nodup_nil⟩

omit [DecidableEq H] in
/-- The hashes in the list are those of the recorded requests. -/
theorem Consistent.hashes {s : Adapter H} (h : Consistent sk_hash_hook_hash s) :
    s.sk_hooks.map SkHookInfo.hash
      = s.recorded.map fun r => sk_hash_hook_hash r.text := by
  rw [h.entries, List.map_map]
  rfl

omit [DecidableEq H] in
/-- Two recorded requests of one text are the same. -/
theorem Consistent.eq_of_text {s : Adapter H} (h : Consistent sk_hash_hook_hash s)
    {q r : HookRequest} (hq : q ∈ s.recorded) (hr : r ∈ s.recorded) (htext : q.text = r.text) :
    q = r := by
  have hdistinct := h.distinct
  rw [h.hashes] at hdistinct
  exact List.inj_on_of_nodup_map hdistinct hq hr (congrArg sk_hash_hook_hash htext)

/-! ## Refused requests -/

/-- A valid request is refused as a duplicate when a recorded request has its text. -/
theorem duplicate_iff_text (hinj : Function.Injective sk_hash_hook_hash)
    (history : List HookCall) {c : HookCall} (hvalid : c.request.Valid) :
    (inline_hook_func_address sk_hash_hook_hash
        (Adapter.after sk_hash_hook_hash history).sk_hooks c).2 = .duplicate
      ↔ ∃ q ∈ (Adapter.after sk_hash_hook_hash history).recorded, q.text = c.request.text := by
  rw [duplicate_iff hvalid, (consistent_after history).hashes, List.mem_map]
  constructor
  · rintro ⟨q, hq, heq⟩
    exact ⟨q, hq, hinj heq⟩
  · rintro ⟨q, hq, heq⟩
    exact ⟨q, hq, congrArg sk_hash_hook_hash heq⟩

/-- **Refused as a duplicate.**  Where the hash keeps texts apart, a valid request is refused as
a duplicate only if it was recorded before, if and only if no other recorded request has the
same three numerals run together. -/
theorem refusedOnlyAgain_iff (hinj : Function.Injective sk_hash_hook_hash)
    (history : List HookCall) (c : HookCall) (hvalid : c.request.Valid) :
    RefusedOnlyAgain sk_hash_hook_hash history c
      ↔ ∀ q ∈ (Adapter.after sk_hash_hook_hash history).recorded,
        q.text = c.request.text → q = c.request := by
  unfold RefusedOnlyAgain
  dsimp only
  rw [duplicate_iff_text hinj history hvalid]
  constructor
  · intro h q hq htext
    exact (consistent_after history).eq_of_text hq (h ⟨q, hq, htext⟩) htext
  · rintro h ⟨q, hq, htext⟩
    rw [← h q hq htext]
    exact hq

/-- After one recorded request, another one. -/
theorem refusedOnlyAgain_two :
    let engines : Engines := ⟨true, false⟩
    RefusedOnlyAgain id [⟨⟨10, 20, 30⟩, false, engines⟩] ⟨⟨11, 20, 30⟩, false, engines⟩
      ↔ ∀ q ∈ (Adapter.after id [⟨⟨10, 20, 30⟩, false, engines⟩]).recorded,
        q.text = HookRequest.text ⟨11, 20, 30⟩ → q = ⟨11, 20, 30⟩ :=
  refusedOnlyAgain_iff Function.injective_id _ _ (by decide)

end

/-- Two requests with one text: the second is refused, and was never made before. -/
theorem not_refusedOnlyAgain_shifted :
    let engines : Engines := ⟨true, false⟩
    let first : HookCall := ⟨⟨123456789, 1234567890, 4096⟩, false, engines⟩
    let second : HookCall := ⟨⟨1234567891, 234567890, 4096⟩, false, engines⟩
    (inline_hook_func_address id (Adapter.after id [first]).sk_hooks second).2 = .duplicate
      ∧ ¬ RefusedOnlyAgain id [first] second := by
  intro engines first second
  obtain ⟨hrefused, hnew⟩ :
      (inline_hook_func_address id (Adapter.after id [first]).sk_hooks second).2 = .duplicate
        ∧ second.request ∉ (Adapter.after id [first]).recorded := by
    decide +kernel
  exact ⟨hrefused, fun h => hnew (h hrefused)⟩

end HookAdapter
