/-
# Hooking `do_dlopen`

`fuck_linker_do_dlopen` of `framework/sk_hook_adapter/sk_watch_dog.cpp` has a table of nine
symbol names, best first.  The enumeration copies the details of every symbol in the table,
past a substring test; a loop then hooks the first entry that has details.  One name of the
table does not pass the test.
-/
import LiuHookWorld.WatchDogSymbols

namespace WatchDog

/-! ## The source -/

structure SkWD_FoundMatchInfo where
  name : Name
  arg_count : ℕ
  detail : Option SkSymbolDetails
  deriving DecidableEq, Repr

/-- `skWD_FoundMatchInfo(name, count)`. -/
def SkWD_FoundMatchInfo.new (name : String) (count : ℕ) : SkWD_FoundMatchInfo :=
  ⟨name.toList, count, none⟩

/-- `sym_info` of `fuck_linker_do_dlopen`. -/
def sym_info : List SkWD_FoundMatchInfo :=
  [.new "__dl__Z9do_dlopenPKciPK17android_dlextinfoPKv" 4,
   .new "__dl__Z9do_dlopenPKciPK17android_dlextinfoPv" 4,
   .new "__dl__ZL10dlopen_extPKciPK17android_dlextinfoPv" 4,
   .new "__dl__Z20__android_dlopen_extPKciPK17android_dlextinfoPKv" 4,
   .new "__dl___loader_android_dlopen_ext" 4,
   .new "__dl__Z9do_dlopenPKciPK17android_dlextinfo" 3,
   .new "__dl__Z8__dlopenPKciPKv" 3,
   .new "__dl___loader_dlopen" 3,
   .new "__dl_dlopen" 2]

/-- The test that `found_do_dlopen` makes first. -/
def isDlopen (name : Name) : Bool := (CString.strstr name "_dlopen".toList).isSome

/-- `found_do_dlopen`: the details go to every entry of the name, and the enumeration goes on. -/
def found_do_dlopen (detail : SkSymbolDetails) (sym_info : List SkWD_FoundMatchInfo) :
    Bool × List SkWD_FoundMatchInfo :=
  if isDlopen detail.name then
    (true, sym_info.map fun info =>
      if info.name = detail.name then { info with detail := some detail } else info)
  else (true, sym_info)

/-- The replacement for an `arg_count`, where there is one. -/
def replacement : ℕ → Option Replacement
  | 2 => some .do_dlopen_2
  | 3 => some .do_dlopen_3
  | 4 => some .do_dlopen_4
  | _ => none

/-- The loop that hooks the first entry with details. -/
def hook_first (hook : Attempt → Bool) : List SkWD_FoundMatchInfo → Outcome
  | [] => .quiet false
  | info :: rest =>
      match info.detail with
      | none => hook_first hook rest
      | some detail =>
          match replacement info.arg_count with
          | none => .quiet false
          | some replace => .hooking hook ⟨detail.address, replace⟩

def fuck_linker_do_dlopen (tasks : List SkDogeTaskInfo) (hook : Attempt → Bool)
    (symbols : List SkSymbolDetails) : Outcome :=
  if find_task_of_type tasks .kTaskLinker = none then .quiet true
  else hook_first hook (enum_symbol found_do_dlopen symbols sym_info)

/-! ## What the enumeration leaves in the table -/

/-- The last symbol of the name: every one overwrites the one before. -/
def lastNamed (symbols : List SkSymbolDetails) (name : Name) : Option SkSymbolDetails :=
  symbols.reverse.find? fun d => d.name = name

theorem lastNamed_cons (d : SkSymbolDetails) (symbols : List SkSymbolDetails) (name : Name) :
    lastNamed (d :: symbols) name
      = (lastNamed symbols name).or (if d.name = name then some d else none) := by
  rw [lastNamed, List.reverse_cons, List.find?_append]
  congr 1
  by_cases h : d.name = name <;> simp [h]

theorem lastNamed_mem {symbols : List SkSymbolDetails} {name : Name} {d : SkSymbolDetails}
    (h : lastNamed symbols name = some d) : d ∈ symbols ∧ d.name = name :=
  ⟨List.mem_reverse.mp (List.mem_of_find?_eq_some h), by simpa using List.find?_some h⟩

theorem lastNamed_isSome_iff {symbols : List SkSymbolDetails} {name : Name} :
    (lastNamed symbols name).isSome ↔ ∃ d ∈ symbols, d.name = name := by
  simp [lastNamed, List.find?_isSome]

/-- The details of an entry after the enumeration. -/
def fill (symbols : List SkSymbolDetails) (info : SkWD_FoundMatchInfo) : SkWD_FoundMatchInfo :=
  { info with
    detail := (if isDlopen info.name then lastNamed symbols info.name else none).or info.detail }

theorem fill_nil (info : SkWD_FoundMatchInfo) : fill [] info = info := by
  simp [fill, lastNamed]

/-- A symbol of another name, or one that does not pass the test, changes nothing. -/
theorem fill_cons_of_ne {d : SkSymbolDetails} {info : SkWD_FoundMatchInfo}
    (h : d.name = info.name → isDlopen d.name = false) (symbols : List SkSymbolDetails) :
    fill (d :: symbols) info = fill symbols info := by
  unfold fill
  by_cases hname : d.name = info.name
  · rw [← hname, h hname]
    simp
  · rw [lastNamed_cons, if_neg hname, Option.or_none]

/-- A symbol of the name that passes the test stays unless a later one of the name comes. -/
theorem fill_cons_of_eq {d : SkSymbolDetails} {info : SkWD_FoundMatchInfo}
    (hname : info.name = d.name) (htest : isDlopen d.name = true)
    (symbols : List SkSymbolDetails) :
    fill (d :: symbols) info = fill symbols { info with detail := some d } := by
  unfold fill
  dsimp only
  rw [lastNamed_cons, if_pos hname.symm, hname, if_pos htest, if_pos htest, Option.or_assoc,
    Option.some_or]

/-- The enumeration fills every entry, and never stops. -/
theorem enum_found_do_dlopen (symbols : List SkSymbolDetails) :
    ∀ infos, enum_symbol found_do_dlopen symbols infos = infos.map (fill symbols) := by
  induction symbols with
  | nil =>
      intro infos
      rw [enum_symbol, List.map_congr_left fun info _ => fill_nil info, List.map_id']
  | cons d symbols ih =>
      intro infos
      rw [enum_symbol, found_do_dlopen]
      by_cases htest : isDlopen d.name
      · rw [if_pos htest]
        dsimp only
        rw [ih, List.map_map]
        apply List.map_congr_left
        intro info _
        rw [Function.comp_apply]
        by_cases hname : info.name = d.name
        · rw [if_pos hname, fill_cons_of_eq hname htest]
        · rw [if_neg hname, fill_cons_of_ne fun h => absurd h.symm hname]
      · rw [if_neg htest]
        dsimp only
        rw [ih]
        apply List.map_congr_left
        intro info _
        rw [fill_cons_of_ne fun _ => by simpa using htest]

/-! ## The choice -/

/-- Some symbol has the name of the entry. -/
def Present (symbols : List SkSymbolDetails) (info : SkWD_FoundMatchInfo) : Prop :=
  ∃ d ∈ symbols, d.name = info.name

instance (symbols : List SkSymbolDetails) : DecidablePred (Present symbols) := fun info =>
  inferInstanceAs (Decidable (∃ d ∈ symbols, d.name = info.name))

/-- The first entry of the table that is present. -/
def firstPresent (symbols : List SkSymbolDetails) : Option SkWD_FoundMatchInfo :=
  sym_info.find? fun info => Present symbols info

/-- The first one whose name passes the test, too. -/
def firstFound (symbols : List SkSymbolDetails) : Option SkWD_FoundMatchInfo :=
  sym_info.find? fun info => isDlopen info.name && Present symbols info

/-- The attempt for an entry. -/
def attempt (symbols : List SkSymbolDetails) (info : SkWD_FoundMatchInfo) : Option Attempt :=
  match lastNamed symbols info.name, replacement info.arg_count with
  | some d, some replace => some ⟨d.address, replace⟩
  | _, _ => none

/-- The loop takes the first entry that is present and passes the test. -/
theorem hook_first_fill (hook : Attempt → Bool) (symbols : List SkSymbolDetails)
    {infos : List SkWD_FoundMatchInfo} (hnone : ∀ info ∈ infos, info.detail = none) :
    hook_first hook (infos.map (fill symbols))
      = match infos.find? fun info => isDlopen info.name && Present symbols info with
        | none => .quiet false
        | some info => ((attempt symbols info).map (Outcome.hooking hook)).getD (.quiet false) := by
  induction infos with
  | nil => rfl
  | cons info infos ih =>
      have hrest := ih fun other hother => hnone other (List.mem_cons_of_mem info hother)
      have hdetail : (fill symbols info).detail
          = if isDlopen info.name then lastNamed symbols info.name else none := by
        show Option.or _ info.detail = _
        rw [hnone info List.mem_cons_self, Option.or_none]
      rw [List.map_cons, hook_first, hdetail, List.find?_cons]
      by_cases htest : isDlopen info.name
      · rw [if_pos htest, htest, Bool.true_and]
        cases hlast : lastNamed symbols info.name with
        | none =>
            have habsent : ¬ Present symbols info := by
              rw [Present, ← lastNamed_isSome_iff, hlast]
              simp
            rw [decide_eq_false habsent]
            exact hrest
        | some d =>
            have hpresent : Present symbols info := by
              rw [Present, ← lastNamed_isSome_iff, hlast]
              rfl
            rw [decide_eq_true hpresent]
            show (match replacement info.arg_count with
              | none => Outcome.quiet false
              | some replace => .hooking hook ⟨d.address, replace⟩)
                = ((attempt symbols info).map (Outcome.hooking hook)).getD (.quiet false)
            unfold attempt
            rw [hlast]
            cases replacement info.arg_count <;> rfl
      · rw [if_neg htest, Bool.eq_false_iff.mpr htest, Bool.false_and]
        exact hrest

/-- What the function does. -/
theorem fuck_linker_do_dlopen_eq {tasks : List SkDogeTaskInfo}
    (htask : find_task_of_type tasks .kTaskLinker ≠ none) (hook : Attempt → Bool)
    (symbols : List SkSymbolDetails) :
    fuck_linker_do_dlopen tasks hook symbols
      = match firstFound symbols with
        | none => .quiet false
        | some info =>
            ((attempt symbols info).map (Outcome.hooking hook)).getD (.quiet false) := by
  have hall : sym_info.all (fun info => info.detail.isNone) = true := by decide
  have hnone : ∀ info ∈ sym_info, info.detail = none := by
    intro info hinfo
    exact Option.isNone_iff_eq_none.mp (List.all_eq_true.mp hall info hinfo)
  rw [fuck_linker_do_dlopen, if_neg htask, enum_found_do_dlopen, hook_first_fill hook symbols hnone]
  rfl

/-! ## The table's own order -/

/-- How many parameters a replacement for `do_dlopen` has. -/
def Replacement.params : Replacement → Option ℕ
  | do_dlopen_2 => some 2
  | do_dlopen_3 => some 3
  | do_dlopen_4 => some 4
  | call_array | find_libraries => none

/-- A hook for the entry: on the address of a symbol of its name, with the replacement of as
many parameters. -/
def Hooks (hook : Attempt → Bool) (symbols : List SkSymbolDetails) (info : SkWD_FoundMatchInfo)
    (outcome : Outcome) : Prop :=
  ∃ d ∈ symbols, d.name = info.name ∧ ∃ replace : Replacement,
    replace.params = some info.arg_count ∧ outcome = .hooking hook ⟨d.address, replace⟩

/-- The first entry of the table that is present is hooked, nothing where none is, and the
order of the symbols does not matter where no name of the table occurs twice. -/
structure ChoosesFirst (hook : Attempt → Bool) (fuck : List SkSymbolDetails → Outcome)
    (symbols : List SkSymbolDetails) : Prop where
  present : ∀ info, firstPresent symbols = some info → Hooks hook symbols info (fuck symbols)
  absent : firstPresent symbols = none → fuck symbols = .quiet false
  order : (∀ info ∈ sym_info, symbols.countP (fun d => d.name = info.name) ≤ 1) →
    SameInEveryOrder fuck symbols

/-- The entry whose name does not pass the test. -/
def dlopen_ext : SkWD_FoundMatchInfo := .new "__dl__ZL10dlopen_extPKciPK17android_dlextinfoPv" 4

/-- What there is to compute about the names of the table. -/
theorem table_facts : sym_info.Nodup
    ∧ sym_info.all (fun info => isDlopen info.name == decide (info ≠ dlopen_ext)) = true := by
  decide +kernel

/-- Every other entry passes. -/
theorem isDlopen_iff : ∀ info ∈ sym_info, isDlopen info.name = true ↔ info ≠ dlopen_ext := by
  intro info hinfo
  have h := List.all_eq_true.mp table_facts.2 info hinfo
  rw [beq_iff_eq] at h
  rw [h, decide_eq_true_iff]

/-- Every entry has a replacement, of as many parameters. -/
theorem exists_replacement : ∀ info ∈ sym_info, ∃ replace,
    replacement info.arg_count = some replace ∧ replace.params = some info.arg_count := by
  have hall : sym_info.all (fun info => (replacement info.arg_count).any fun replace =>
      replace.params == some info.arg_count) = true := by decide
  intro info hinfo
  obtain ⟨replace, hreplace, hparams⟩ :=
    (Option.any_eq_true _ _).mp (List.all_eq_true.mp hall info hinfo)
  exact ⟨replace, hreplace, by simpa using hparams⟩

/-! ## The order of the symbols -/

/-- Where a name occurs once at most, its last symbol is the same in every order. -/
theorem lastNamed_perm {symbols other : List SkSymbolDetails} {name : Name}
    (hcount : symbols.countP (fun d => d.name = name) ≤ 1) (hperm : other.Perm symbols) :
    lastNamed other name = lastNamed symbols name := by
  have hfilter : ∀ l : List SkSymbolDetails,
      lastNamed l name = (l.filter fun d => d.name = name).reverse.head? := by
    intro l
    rw [lastNamed, ← List.filter_reverse, List.head?_filter]
  have hsame : (other.filter fun d => d.name = name) = symbols.filter fun d => d.name = name := by
    have hfiltered := hperm.filter fun d => decide (d.name = name)
    rw [List.countP_eq_length_filter] at hcount
    rcases hl : symbols.filter fun d => d.name = name with _ | ⟨d, _ | ⟨e, rest⟩⟩
    · rw [hl] at hfiltered
      rw [hl, List.perm_nil.mp hfiltered]
    · rw [hl] at hfiltered
      rw [hl, List.perm_singleton.mp hfiltered]
    · rw [hl] at hcount
      simp at hcount
  rw [hfilter, hfilter, hsame]

theorem present_perm {symbols other : List SkSymbolDetails} (hperm : other.Perm symbols)
    (info : SkWD_FoundMatchInfo) : Present other info ↔ Present symbols info := by
  constructor
  · rintro ⟨d, hd, hname⟩
    exact ⟨d, hperm.subset hd, hname⟩
  · rintro ⟨d, hd, hname⟩
    exact ⟨d, hperm.symm.subset hd, hname⟩

theorem fuck_linker_do_dlopen_order {tasks : List SkDogeTaskInfo}
    (htask : find_task_of_type tasks .kTaskLinker ≠ none) (hook : Attempt → Bool)
    {symbols : List SkSymbolDetails}
    (hcount : ∀ info ∈ sym_info, symbols.countP (fun d => d.name = info.name) ≤ 1) :
    SameInEveryOrder (fuck_linker_do_dlopen tasks hook) symbols := by
  intro other hperm
  have hfound : firstFound other = firstFound symbols := by
    unfold firstFound
    congr 1
    funext info
    rw [decide_eq_decide.mpr (present_perm hperm info)]
  rw [fuck_linker_do_dlopen_eq htask, fuck_linker_do_dlopen_eq htask, hfound]
  cases hinfo : firstFound symbols with
  | none => rfl
  | some info =>
      have hmem : info ∈ sym_info := List.mem_of_find?_eq_some hinfo
      have hattempt : attempt other info = attempt symbols info := by
        rw [attempt, attempt, lastNamed_perm (hcount info hmem) hperm]
      dsimp only
      rw [hattempt]

/-! ## What is chosen -/

section

variable {tasks : List SkDogeTaskInfo} (htask : find_task_of_type tasks .kTaskLinker ≠ none)
  (hook : Attempt → Bool) {symbols : List SkSymbolDetails}

include htask

/-- The first entry that is present and passes the test is hooked, at its last symbol. -/
theorem hooked_of_firstFound {info : SkWD_FoundMatchInfo} (h : firstFound symbols = some info) :
    ∃ d replace, lastNamed symbols info.name = some d ∧ replace.params = some info.arg_count
      ∧ fuck_linker_do_dlopen tasks hook symbols = .hooking hook ⟨d.address, replace⟩ := by
  have hpresent := List.find?_some h
  rw [Bool.and_eq_true, decide_eq_true_iff] at hpresent
  obtain ⟨d, hd⟩ := Option.isSome_iff_exists.mp (lastNamed_isSome_iff.mpr hpresent.2)
  obtain ⟨replace, hreplace, hparams⟩ := exists_replacement info (List.mem_of_find?_eq_some h)
  refine ⟨d, replace, hd, hparams, ?_⟩
  rw [fuck_linker_do_dlopen_eq htask, h]
  dsimp only
  rw [attempt, hd, hreplace]
  rfl

theorem quiet_of_not_firstFound (h : firstFound symbols = none) :
    fuck_linker_do_dlopen tasks hook symbols = .quiet false := by
  rw [fuck_linker_do_dlopen_eq htask, h]

end

/-- The test only ever passes over `dlopen_ext`. -/
theorem firstFound_of_firstPresent {symbols : List SkSymbolDetails} {info : SkWD_FoundMatchInfo}
    (h : firstPresent symbols = some info) (hne : info ≠ dlopen_ext) :
    firstFound symbols = some info := by
  have hmem : info ∈ sym_info := List.mem_of_find?_eq_some h
  have htest := (isDlopen_iff info hmem).mpr hne
  obtain ⟨hpresent, before, after, hsplit, hbefore⟩ := List.find?_eq_some_iff_append.mp h
  refine List.find?_eq_some_iff_append.mpr ⟨?_, before, after, hsplit, ?_⟩
  · rw [htest, Bool.true_and]
    exact hpresent
  · intro other hother
    have habsent := hbefore other hother
    rw [Bool.not_eq_true'] at habsent ⊢
    rw [habsent, Bool.and_false]

theorem firstFound_eq_none {symbols : List SkSymbolDetails} (h : firstPresent symbols = none) :
    firstFound symbols = none := by
  unfold firstPresent at h
  unfold firstFound
  rw [List.find?_eq_none] at h ⊢
  intro info hinfo hfound
  exact h info hinfo (Bool.and_eq_true_iff.mp hfound).2

/-- `dlopen_ext` is the first entry that is present when the two before it are not. -/
theorem firstPresent_eq_dlopen_ext_iff {symbols : List SkSymbolDetails} :
    firstPresent symbols = some dlopen_ext ↔ Present symbols dlopen_ext
      ∧ ∀ info ∈ sym_info.take 2, ¬ Present symbols info := by
  have hsplit : firstPresent symbols = ((sym_info.take 2).find? fun info => Present symbols info).or
      ((dlopen_ext :: sym_info.drop 3).find? fun info => Present symbols info) := by
    rw [← List.find?_append]
    rfl
  have hnodup : (sym_info.take 2 ++ dlopen_ext :: sym_info.drop 3).Nodup := table_facts.1
  obtain ⟨-, hrest, hbefore⟩ := List.nodup_append.mp hnodup
  rw [hsplit]
  cases hfind : (sym_info.take 2).find? fun info => Present symbols info with
  | some info =>
      have hmem := List.mem_of_find?_eq_some hfind
      have hpresent : Present symbols info := by simpa using List.find?_some hfind
      refine iff_of_false ?_ fun h => h.2 info hmem hpresent
      rw [Option.some_or]
      intro h
      rw [Option.some.inj h] at hmem
      exact hbefore dlopen_ext hmem dlopen_ext List.mem_cons_self rfl
  | none =>
      have hnone : ∀ info ∈ sym_info.take 2, ¬ Present symbols info := by
        intro info hinfo
        simpa using List.find?_eq_none.mp hfind info hinfo
      rw [Option.none_or, List.find?_cons, and_iff_left hnone]
      by_cases hext : Present symbols dlopen_ext
      · rw [decide_eq_true hext]
        exact iff_of_true rfl hext
      · rw [decide_eq_false hext]
        refine iff_of_false (fun h => ?_) hext
        exact (List.nodup_cons.mp hrest).1 (List.mem_of_find?_eq_some h)

/-- The entry hooked in the place of `dlopen_ext` has as many parameters, and its last symbol
has the address of a symbol of that name. -/
def Alias (symbols : List SkSymbolDetails) : Prop :=
  ∃ info, firstFound symbols = some info ∧ info.arg_count = dlopen_ext.arg_count
    ∧ ∃ d, lastNamed symbols info.name = some d
      ∧ ∃ e ∈ symbols, e.name = dlopen_ext.name ∧ e.address = d.address

/-- Where `dlopen_ext` should be chosen, it is only if another entry is the same function. -/
theorem hooks_dlopen_ext_iff {tasks : List SkDogeTaskInfo}
    (htask : find_task_of_type tasks .kTaskLinker ≠ none) (hook : Attempt → Bool)
    (symbols : List SkSymbolDetails) :
    Hooks hook symbols dlopen_ext (fuck_linker_do_dlopen tasks hook symbols)
      ↔ Alias symbols := by
  cases hfound : firstFound symbols with
  | none =>
      refine iff_of_false ?_ ?_
      · rintro ⟨d, -, -, replace, -, heq⟩
        rw [quiet_of_not_firstFound htask hook hfound] at heq
        exact hooking_ne_quiet heq.symm
      · rintro ⟨info, hinfo, -⟩
        rw [hfound] at hinfo
        simp at hinfo
  | some info =>
      obtain ⟨d, replace, hd, hparams, hfuck⟩ := hooked_of_firstFound htask hook hfound
      rw [hfuck]
      constructor
      · rintro ⟨e, he, hname, replace', hparams', heq⟩
        obtain ⟨haddress, rfl⟩ : d.address = e.address ∧ replace = replace' := by
          simpa using hooking_inj.mp heq
        refine ⟨info, hfound, ?_, d, hd, e, he, hname, haddress.symm⟩
        exact Option.some.inj (hparams.symm.trans hparams')
      · rintro ⟨info', hinfo', hcount, d', hd', e, he, hname, haddress⟩
        obtain rfl := Option.some.inj (hfound.symm.trans hinfo')
        obtain rfl := Option.some.inj (hd.symm.trans hd')
        exact ⟨e, he, hname, replace, by rw [hparams, hcount], by rw [haddress]⟩

/-- **The choice of `do_dlopen`.**  With a linker task installed, the function chooses by the
order of its table if and only if `dlopen_ext` is absent, or one of the two entries before
it is present, or what is hooked instead is the same function. -/
theorem choosesFirst_iff {tasks : List SkDogeTaskInfo}
    (htask : find_task_of_type tasks .kTaskLinker ≠ none) (hook : Attempt → Bool)
    (symbols : List SkSymbolDetails) :
    ChoosesFirst hook (fuck_linker_do_dlopen tasks hook) symbols
      ↔ (Present symbols dlopen_ext →
        (∃ info ∈ sym_info.take 2, Present symbols info) ∨ Alias symbols) := by
  constructor
  · intro h hpresent
    by_cases hearlier : ∃ info ∈ sym_info.take 2, Present symbols info
    · exact Or.inl hearlier
    · push Not at hearlier
      have hfirst := firstPresent_eq_dlopen_ext_iff.mpr ⟨hpresent, hearlier⟩
      exact Or.inr ((hooks_dlopen_ext_iff htask hook symbols).mp (h.present dlopen_ext hfirst))
  · intro h
    refine ⟨?_, ?_, fuck_linker_do_dlopen_order htask hook⟩
    · intro info hinfo
      by_cases hext : info = dlopen_ext
      · subst hext
        obtain ⟨hpresent, hnone⟩ := firstPresent_eq_dlopen_ext_iff.mp hinfo
        rcases h hpresent with ⟨info, hmem, hearlier⟩ | halias
        · exact absurd hearlier (hnone info hmem)
        · exact (hooks_dlopen_ext_iff htask hook symbols).mpr halias
      · obtain ⟨d, replace, hd, hparams, hfuck⟩ :=
          hooked_of_firstFound htask hook (firstFound_of_firstPresent hinfo hext)
        obtain ⟨hmem, hname⟩ := lastNamed_mem hd
        exact ⟨d, hmem, hname, replace, hparams, hfuck⟩
    · intro hnone
      exact quiet_of_not_firstFound htask hook (firstFound_eq_none hnone)

/-- With `do_dlopen` itself present, the choice is the table's. -/
theorem choosesFirst_do_dlopen :
    let symbols : List SkSymbolDetails :=
      [⟨dlopen_ext.name, 0x2000⟩,
        ⟨"__dl__Z9do_dlopenPKciPK17android_dlextinfoPKv".toList, 0x1000⟩]
    ChoosesFirst (fun _ => true)
        (fuck_linker_do_dlopen [.linker ['a'] (some 1) none true] fun _ => true) symbols
      ↔ (Present symbols dlopen_ext →
        (∃ info ∈ sym_info.take 2, Present symbols info) ∨ Alias symbols) :=
  choosesFirst_iff (by decide) _ _

/-- `dlopen_ext` and `dlopen`: the second is hooked, with two parameters. -/
theorem not_choosesFirst_dlopen_ext :
    let tasks := [SkDogeTaskInfo.linker ['a'] (some 1) none true]
    let symbols : List SkSymbolDetails :=
      [⟨"__dl__ZL10dlopen_extPKciPK17android_dlextinfoPv".toList, 0x1000⟩,
        ⟨"__dl_dlopen".toList, 0x2000⟩]
    firstPresent symbols = some dlopen_ext
      ∧ fuck_linker_do_dlopen tasks (fun _ => true) symbols = ⟨[⟨0x2000, .do_dlopen_2⟩], true⟩
      ∧ ¬ ChoosesFirst (fun _ => true) (fuck_linker_do_dlopen tasks fun _ => true) symbols := by
  intro tasks symbols
  obtain ⟨hfirst, hfuck⟩ : firstPresent symbols = some dlopen_ext
      ∧ fuck_linker_do_dlopen tasks (fun _ => true) symbols = ⟨[⟨0x2000, .do_dlopen_2⟩], true⟩ := by
    decide +kernel
  refine ⟨hfirst, hfuck, ?_⟩
  intro h
  obtain ⟨d, -, -, replace, hparams, heq⟩ := h.present dlopen_ext hfirst
  rw [hfuck] at heq
  obtain rfl : Replacement.do_dlopen_2 = replace :=
    congrArg Attempt.replace (List.singleton_inj.mp (congrArg Outcome.attempts heq))
  exact absurd hparams (by decide)

end WatchDog
