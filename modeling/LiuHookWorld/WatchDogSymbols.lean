/-
# Hooking a function of the linker by its symbol

`fuck_linker_init_array` and `fuck_find_libraries` of
`framework/sk_hook_adapter/sk_watch_dog.cpp` take the first symbol of the linker whose name
passes a substring test, in the order in which the symbols are enumerated.  The two are the
same function of the test, the task type and the replacement, and depend on the order as
soon as two symbols at different addresses pass.

`ECStr` is the identity on strings.  The events for the server are left out.
-/
import LiuHookWorld.WatchDogRegistry

namespace WatchDog

/-! ## Symbols and hook attempts -/

/-- An `skSymbolDetails`, as far as the watch dog reads it. -/
structure SkSymbolDetails where
  name : Name
  address : ℕ
  deriving DecidableEq, Repr

/-- `enum_symbol(func, user_data)`: `func` on one symbol after the other until it returns
`SK_FALSE`; it returns its result and what it leaves behind `user_data`. -/
def enum_symbol {σ : Type} (func : SkSymbolDetails → σ → Bool × σ) :
    List SkSymbolDetails → σ → σ
  | [], user_data => user_data
  | detail :: rest, user_data =>
      match func detail user_data with
      | (true, user_data) => enum_symbol func rest user_data
      | (false, user_data) => user_data

/-- The functions that `_SK_BUILD_REPLACE_FUNC` builds. -/
inductive Replacement
  | do_dlopen_2
  | do_dlopen_3
  | do_dlopen_4
  | call_array
  | find_libraries
  deriving DecidableEq, Repr

/-- A call `inline_hook_func_address(address, replace, &implement)`. -/
structure Attempt where
  address : ℕ
  replace : Replacement
  deriving DecidableEq, Repr

/-- The hook attempts a function makes, and what it returns. -/
structure Outcome where
  attempts : List Attempt
  result : Bool
  deriving DecidableEq, Repr

/-- `return _SK_HOOK_FUNC(…)`, where the adapter answers as `hook` does. -/
def Outcome.hooking (hook : Attempt → Bool) (attempt : Attempt) : Outcome :=
  ⟨[attempt], hook attempt⟩

/-- A return without an attempt. -/
def Outcome.quiet (result : Bool) : Outcome := ⟨[], result⟩

@[simp] theorem hooking_inj {hook : Attempt → Bool} {a b : Attempt} :
    Outcome.hooking hook a = Outcome.hooking hook b ↔ a = b := by
  constructor
  · intro h
    exact List.singleton_inj.mp (congrArg Outcome.attempts h)
  · rintro rfl
    rfl

@[simp] theorem hooking_ne_quiet {hook : Attempt → Bool} {a : Attempt} {result : Bool} :
    Outcome.hooking hook a ≠ .quiet result := by
  intro h
  have := congrArg Outcome.attempts h
  simp [Outcome.hooking, Outcome.quiet] at this

/-- `find_task(type)`: the position of the first task of the type. -/
def find_task_of_type (tasks : List SkDogeTaskInfo) (type : SkLinkerTaskType) : Option ℕ :=
  tasks.findIdx? fun curr => if curr.type ≠ type then false else true

/-! ## The first symbol that passes -/

structure SkWD_FoundSymbolContext where
  name : Option Name
  address : ℕ
  deriving DecidableEq, Repr

/-- A callback that takes the first symbol whose name passes the test. -/
def found_symbol (test : Name → Bool) (detail : SkSymbolDetails)
    (ctx : SkWD_FoundSymbolContext) : Bool × SkWD_FoundSymbolContext :=
  if test detail.name then (false, ⟨some detail.name, detail.address⟩) else (true, ctx)

/-- The test of `found_init_array`. -/
def isCallArray (name : Name) : Bool := (CString.strstr name "call_array".toList).isSome

def found_init_array := found_symbol isCallArray

/-- The test of `found_find_libraries`: symbols with a dot are told apart from the wanted one. -/
def isFindLibraries (name : Name) : Bool :=
  (CString.strstr name "find_libraries".toList).isSome && (CString.strstr name ".".toList).isNone

def found_find_libraries := found_symbol isFindLibraries

/-- Hook what the enumeration finds, if a task of the type is installed. -/
def hook_found (type : SkLinkerTaskType)
    (found : SkSymbolDetails → SkWD_FoundSymbolContext → Bool × SkWD_FoundSymbolContext)
    (replace : Replacement) (tasks : List SkDogeTaskInfo) (hook : Attempt → Bool)
    (symbols : List SkSymbolDetails) : Outcome :=
  if find_task_of_type tasks type = none then .quiet true
  else
    let ctx := enum_symbol found symbols ⟨none, 0⟩
    if ctx.address ≠ 0 then .hooking hook ⟨ctx.address, replace⟩ else .quiet false

def fuck_linker_init_array := hook_found .kTaskInit found_init_array .call_array

def fuck_find_libraries := hook_found .kTaskFind_Libraries found_find_libraries .find_libraries

/-! ## What the enumeration finds -/

section

variable {test : Name → Bool} {type : SkLinkerTaskType} {replace : Replacement}
  {tasks : List SkDogeTaskInfo} {hook : Attempt → Bool}

/-- The enumeration ends at the first symbol that passes. -/
theorem enum_found_symbol (symbols : List SkSymbolDetails) (ctx : SkWD_FoundSymbolContext) :
    enum_symbol (found_symbol test) symbols ctx
      = match symbols.find? fun d => test d.name with
        | none => ctx
        | some d => ⟨some d.name, d.address⟩ := by
  induction symbols with
  | nil => rfl
  | cons d symbols ih =>
      rw [enum_symbol, found_symbol, List.find?_cons]
      cases test d.name with
      | false => exact ih
      | true => rfl

/-- What the function does at the address that is found; `0` where nothing is. -/
def hookAt (hook : Attempt → Bool) (replace : Replacement) (address : ℕ) : Outcome :=
  if address ≠ 0 then .hooking hook ⟨address, replace⟩ else .quiet false

theorem hookAt_inj {a b : ℕ} (h : hookAt hook replace a = hookAt hook replace b) : a = b := by
  unfold hookAt at h
  split_ifs at h with ha hb hb
  · exact congrArg Attempt.address (hooking_inj.mp h)
  · exact absurd h hooking_ne_quiet
  · exact absurd h.symm hooking_ne_quiet
  · omega

theorem hook_found_eq (htask : find_task_of_type tasks type ≠ none)
    (symbols : List SkSymbolDetails) :
    hook_found type (found_symbol test) replace tasks hook symbols = hookAt hook replace
      (((symbols.find? fun d => test d.name).map SkSymbolDetails.address).getD 0) := by
  rw [hook_found, if_neg htask, enum_found_symbol]
  cases symbols.find? fun d => test d.name <;> rfl

/-! ## Enumeration orders -/

/-- The outcome is the same in every order of the symbols. -/
def SameInEveryOrder (fuck : List SkSymbolDetails → Outcome) (symbols : List SkSymbolDetails) :
    Prop :=
  ∀ other, other.Perm symbols → fuck other = fuck symbols

/-- All symbols that pass the test have one address. -/
def OneAddress (test : Name → Bool) (symbols : List SkSymbolDetails) : Prop :=
  ∀ d ∈ symbols, ∀ e ∈ symbols, test d.name = true → test e.name = true →
    d.address = e.address

/-- A symbol that passes is found when it comes first. -/
theorem find?_first {symbols : List SkSymbolDetails} {d : SkSymbolDetails} (hd : d ∈ symbols)
    (htest : test d.name = true) : ∃ other : List SkSymbolDetails, other.Perm symbols
      ∧ (other.find? fun d => test d.name) = some d :=
  ⟨d :: symbols.erase d, (List.perm_cons_erase hd).symm, List.find?_cons_of_pos htest⟩

/-- Where the symbols that pass have one address, it is found in every order. -/
theorem address_find?_perm {symbols other : List SkSymbolDetails} (h : OneAddress test symbols)
    (hperm : other.Perm symbols) :
    (other.find? fun d => test d.name).map SkSymbolDetails.address
      = (symbols.find? fun d => test d.name).map SkSymbolDetails.address := by
  cases hother : other.find? fun d => test d.name with
  | none =>
      have hnone : (symbols.find? fun d => test d.name) = none := by
        rw [List.find?_eq_none] at hother ⊢
        intro d hd
        exact hother d (hperm.symm.subset hd)
      rw [hnone]
  | some d =>
      have hd := hperm.subset (List.mem_of_find?_eq_some hother)
      have htest := List.find?_some (p := fun d : SkSymbolDetails => test d.name) hother
      cases hsymbols : symbols.find? fun d => test d.name with
      | none => exact absurd htest (List.find?_eq_none.mp hsymbols d hd)
      | some e =>
          have hteste := List.find?_some (p := fun d : SkSymbolDetails => test d.name) hsymbols
          have heq := h d hd e (List.mem_of_find?_eq_some hsymbols) htest hteste
          rw [Option.map_some, Option.map_some, heq]

/-- One hook does not depend on the order if and only if there is nothing to hook, or one
address to hook. -/
theorem hook_found_sameInEveryOrder_iff (type : SkLinkerTaskType) (test : Name → Bool)
    (replace : Replacement) (tasks : List SkDogeTaskInfo) (hook : Attempt → Bool)
    (symbols : List SkSymbolDetails) :
    SameInEveryOrder (hook_found type (found_symbol test) replace tasks hook) symbols
      ↔ find_task_of_type tasks type = none ∨ OneAddress test symbols := by
  by_cases htask : find_task_of_type tasks type = none
  · refine iff_of_true ?_ (Or.inl htask)
    intro other _
    rw [hook_found, hook_found, if_pos htask, if_pos htask]
  · rw [or_iff_right htask]
    constructor
    · intro h d hd e he htestd hteste
      obtain ⟨first, hfirst, hfindd⟩ := find?_first hd htestd
      obtain ⟨second, hsecond, hfinde⟩ := find?_first he hteste
      have heq := (h first hfirst).trans (h second hsecond).symm
      rw [hook_found_eq htask, hook_found_eq htask, hfindd, hfinde] at heq
      exact hookAt_inj heq
    · intro h other hperm
      rw [hook_found_eq htask, hook_found_eq htask, address_find?_perm h hperm]

end

/-- **Enumeration order.**  `fuck_linker_init_array` and `fuck_find_libraries` hook the same
address and return the same in every order of the linker's symbols if and only if, for each
of them, no task of its type is installed or all symbols that pass its test have one
address. -/
theorem sameInEveryOrder_iff (tasks : List SkDogeTaskInfo) (hook : Attempt → Bool)
    (symbols : List SkSymbolDetails) :
    SameInEveryOrder (fuck_linker_init_array tasks hook) symbols
        ∧ SameInEveryOrder (fuck_find_libraries tasks hook) symbols
      ↔ (find_task_of_type tasks .kTaskInit = none ∨ OneAddress isCallArray symbols)
        ∧ (find_task_of_type tasks .kTaskFind_Libraries = none
          ∨ OneAddress isFindLibraries symbols) :=
  and_congr
    (hook_found_sameInEveryOrder_iff .kTaskInit isCallArray .call_array tasks hook symbols)
    (hook_found_sameInEveryOrder_iff .kTaskFind_Libraries isFindLibraries .find_libraries tasks
      hook symbols)

/-- Two instantiations of `call_array` at different addresses, in both orders. -/
theorem not_sameInEveryOrder_instantiations :
    let tasks := [SkDogeTaskInfo.init ['a'] (some 1) none true]
    let constructors : SkSymbolDetails := ⟨"__dl__ZL10call_arrayIPFviPPcS1_EE".toList, 0x1000⟩
    let destructors : SkSymbolDetails := ⟨"__dl__ZL10call_arrayIPFvvEE".toList, 0x2000⟩
    fuck_linker_init_array tasks (fun _ => true) [constructors, destructors]
        = ⟨[⟨0x1000, .call_array⟩], true⟩
      ∧ fuck_linker_init_array tasks (fun _ => true) [destructors, constructors]
        = ⟨[⟨0x2000, .call_array⟩], true⟩
      ∧ ¬ SameInEveryOrder (fuck_linker_init_array tasks fun _ => true)
        [constructors, destructors] := by
  intro tasks constructors destructors
  have hfirst : fuck_linker_init_array tasks (fun _ => true) [constructors, destructors]
      = ⟨[⟨0x1000, .call_array⟩], true⟩ := by decide +kernel
  have hsecond : fuck_linker_init_array tasks (fun _ => true) [destructors, constructors]
      = ⟨[⟨0x2000, .call_array⟩], true⟩ := by decide +kernel
  refine ⟨hfirst, hsecond, ?_⟩
  intro h
  have hsame := h [destructors, constructors] (List.Perm.swap _ _ _)
  rw [hfirst, hsecond] at hsame
  simp at hsame

end WatchDog
