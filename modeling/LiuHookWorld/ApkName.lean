/-
# The package name

`NameToApkName` takes the name of the package out of the path of a library, and
`init_dump_log` makes it a component of the path of the dump file (`unityDumper.h`).
-/
import LiuHookWorld.CString
import LiuHookWorld.DumperTraversal
import LiuHookWorld.Runs
import Mathlib.Data.Bool.AllAny

namespace Dumper

/-! ## `NameToApkName` -/

/-- The characters the scan accepts: letters, digits, dot and underscore. -/
def legal (c : UInt8) : Bool :=
  (0x61 ≤ c && c ≤ 0x7A) || (0x41 ≤ c && c ≤ 0x5A) || (0x30 ≤ c && c ≤ 0x39)
    || c == 0x2E || c == 0x5F

/-- The scan from `start`: the distance to the first character that is not accepted. -/
def scan : Text → ℕ
  | [] => 0
  | c :: cs => if legal c then scan cs + 1 else 0

/-- `NameToApkName`: the global `apkname` afterwards, if `malloc` succeeds. -/
def NameToApkName (apkname : Option Text) (name : Option Text) : Option Text :=
  match name with
  | none => apkname
  | some name =>
      match CString.strstr name (ascii "/com") with
      | none => apkname
      | some found =>
          let start := found.drop 1
          if !(ascii "com").isPrefixOf start then apkname
          else
            let len := scan start
            if len = 0 then apkname else some (start.take len)

/-- A call, as a step on `apkname`. -/
def nameCall (apkname : Option Text) (name : Option Text) : Option (Option Text) :=
  some (NameToApkName apkname name)

theorem take_scan (start : Text) : start.take (scan start) = start.takeWhile legal := by
  induction start with
  | nil => rfl
  | cons c cs ih =>
      rw [scan, List.takeWhile_cons]
      split
      · rw [List.take_succ_cons, ih]
      · rfl

/-- A path without an occurrence leaves the name as it is. -/
theorem NameToApkName_of_absent {name : Text} (apkname : Option Text)
    (hname : ¬ ascii "/com" <:+: name) : NameToApkName apkname (some name) = apkname := by
  simp only [NameToApkName, CString.strstr_eq_none_iff.mpr hname]

/-- Otherwise the name is what the scan accepts after the `/` of the first occurrence. -/
theorem NameToApkName_of_first {name rest : Text} (apkname : Option Text)
    (hfirst : CString.First name (ascii "/com") (ascii "/com" ++ rest)) :
    NameToApkName apkname (some name) = some ((ascii "com" ++ rest).takeWhile legal) := by
  have hcom : (ascii "com").isPrefixOf (ascii "com" ++ rest) = true :=
    List.isPrefixOf_iff_prefix.mpr (List.prefix_append _ _)
  have hscan : scan (ascii "com" ++ rest) ≠ 0 := Nat.succ_ne_zero _
  have hdrop : (ascii "/com" ++ rest).drop 1 = ascii "com" ++ rest := rfl
  simp only [NameToApkName, CString.strstr_eq_some_iff.mpr hfirst, hdrop, hcom, hscan,
    Bool.not_true, Bool.false_eq_true, if_false, take_scan]

/-! ## Package names -/

/-- `com[A-Za-z0-9._]*`. -/
def IsApkName (name : Text) : Prop :=
  ∃ more, name = ascii "com" ++ more ∧ ∀ c ∈ more, legal c = true

/-- One component of a path that names a directory below the one before it. -/
structure IsComponent (name : Text) : Prop where
  nonempty : name ≠ []
  no_slash : 0x2F ∉ name
  no_nul : 0 ∉ name
  ne_dot : name ≠ ascii "."
  ne_dotdot : name ≠ ascii ".."

theorem takeWhile_com (rest : Text) :
    (ascii "com" ++ rest).takeWhile legal = ascii "com" ++ rest.takeWhile legal := rfl

theorem isApkName_takeWhile (rest : Text) :
    IsApkName ((ascii "com" ++ rest).takeWhile legal) :=
  ⟨rest.takeWhile legal, takeWhile_com rest, List.all_eq_true.mp List.all_takeWhile⟩

theorem legal_append {initial more : Text} (hinitial : initial.all legal = true)
    (hmore : ∀ c ∈ more, legal c = true) : ∀ c ∈ initial ++ more, legal c = true := by
  intro c hc
  rcases List.mem_append.mp hc with hc | hc
  · exact List.all_eq_true.mp hinitial c hc
  · exact hmore c hc

theorem IsApkName.isComponent {name : Text} (h : IsApkName name) : IsComponent name := by
  obtain ⟨more, rfl, hmore⟩ := h
  have hlegal : ∀ c ∈ ascii "com" ++ more, legal c = true := legal_append (by decide) hmore
  have hhead : (ascii "com" ++ more).head? = some 0x63 := rfl
  refine ⟨List.cons_ne_nil _ _, fun hc => ?_, fun hc => ?_, fun hdot => ?_, fun hdot => ?_⟩
  · exact absurd (hlegal _ hc) (by decide)
  · exact absurd (hlegal _ hc) (by decide)
  · rw [hdot] at hhead
    exact absurd hhead (by decide)
  · rw [hdot] at hhead
    exact absurd hhead (by decide)

/-! ## The dump file -/

/-- The place of a dump: the directory of an application. -/
def IsDumpPath (path : Text) : Prop :=
  ∃ name, IsComponent name ∧
    path = ascii "/storage/emulated/0/Android/data/" ++ name ++ ascii "/files/dump.txt"

/-- `init_dump_log` on this name opens the file at `path` and no other. -/
def Opens (apkname path : Text) : Prop :=
  ∀ host s, init_dump_log host apkname s =
    .ok ((), if host.fopen path then { s with g_dump_fp := some path, dump_txt := [] }
      else { s with g_dump_fp := none })

theorem opens_of_isComponent {name : Text} (h : IsComponent name) :
    Opens name (ascii "/storage/emulated/0/Android/data/" ++ name ++ ascii "/files/dump.txt") := by
  intro host s
  have hc : c_str name = name := c_str_of_not_mem h.no_nul
  have hne : name.isEmpty = false := List.isEmpty_eq_false_iff.mpr h.nonempty
  show Except.ok _ = _
  simp only [hc, hne, filepath, Bool.false_eq_true, if_false]

/-! ## Sequences of calls -/

/-- What `apkname` is after any sequence of calls. -/
def NameKept (apkname : Option Text) : Prop :=
  ∀ name ∈ apkname, IsApkName name ∧ ∃ path, IsDumpPath path ∧ Opens name path

theorem nameKept_some {name : Text} (h : IsApkName name) : NameKept (some name) := by
  intro name' hname'
  obtain rfl := Option.mem_some_iff.mp hname'
  exact ⟨h, _, ⟨name, h.isComponent, rfl⟩, opens_of_isComponent h.isComponent⟩

/-- A call keeps the name as it is or makes it a package name. -/
theorem nameKept_step {apkname : Option Text} (name : Option Text) (h : NameKept apkname) :
    NameKept (NameToApkName apkname name) := by
  cases name with
  | none => exact h
  | some name =>
      by_cases hname : ascii "/com" <:+: name
      · obtain ⟨found, hfound⟩ :=
          Option.isSome_iff_exists.mp (CString.strstr_isSome_iff.mpr hname)
        have hfirst := CString.first_of_strstr hfound
        obtain ⟨rest, rfl⟩ := hfirst.starts
        rw [NameToApkName_of_first apkname hfirst]
        exact nameKept_some (isApkName_takeWhile rest)
      · rw [NameToApkName_of_absent apkname hname]
        exact h

theorem nameKept_always (names : List (Option Text)) :
    Runs.Always nameCall NameKept none names := by
  apply Runs.always_of_preserved (P := NameKept)
  · intro apkname name apkname' h hstep
    obtain rfl := Option.some.inj hstep
    exact nameKept_step name h
  · intro name hname
    cases hname

/-- The path of a library of an installed package, in which `-` ends the name. -/
theorem NameToApkName_of_path {before more : Text} (apkname : Option Text) (after : Text)
    (hbefore : ¬ ascii "/com" <:+: before) (hmore : ∀ c ∈ more, legal c = true) :
    NameToApkName apkname
        (some (before ++ ascii "/" ++ (ascii "com." ++ more) ++ ascii "-" ++ after))
      = some (ascii "com." ++ more) := by
  have hfirst : CString.First
      (before ++ (ascii "/com" ++ (ascii "." ++ more ++ ascii "-" ++ after)))
      (ascii "/com") (ascii "/com" ++ (ascii "." ++ more ++ ascii "-" ++ after)) :=
    CString.First.of_append (by decide) hbefore (List.prefix_append _ _)
  have hpath : before ++ ascii "/" ++ (ascii "com." ++ more) ++ ascii "-" ++ after
      = before ++ (ascii "/com" ++ (ascii "." ++ more ++ ascii "-" ++ after)) := by
    simp only [List.append_assoc]
    rfl
  rw [hpath, NameToApkName_of_first apkname hfirst]
  have hsplit : ascii "com" ++ (ascii "." ++ more ++ ascii "-" ++ after)
      = (ascii "com." ++ more) ++ (ascii "-" ++ after) := by
    simp only [List.append_assoc]
    rfl
  rw [hsplit, List.takeWhile_append_of_pos (legal_append (by decide) hmore)]
  exact congrArg some (List.append_nil _)

/-- Over any sequence of calls the name is null or a package name, from which the dump file
lies in the directory of an application; and what one call does to it. -/
theorem apkname_calls :
    (∀ names, Runs.Always nameCall
      (fun apkname => ∀ name ∈ apkname,
        IsApkName name ∧ ∃ path, IsDumpPath path ∧ Opens name path) none names)
    ∧ (∀ apkname name, ¬ ascii "/com" <:+: name →
        NameToApkName apkname (some name) = apkname)
    ∧ (∀ apkname name rest, CString.First name (ascii "/com") (ascii "/" ++ rest) →
        ∃ run, CString.LongestRun (fun c => legal c = true) rest run
          ∧ NameToApkName apkname (some name) = some run)
    ∧ (∀ apkname before more after, ¬ ascii "/com" <:+: before → (∀ c ∈ more, legal c = true) →
        NameToApkName apkname
            (some (before ++ ascii "/" ++ (ascii "com." ++ more) ++ ascii "-" ++ after))
          = some (ascii "com." ++ more)) := by
  refine ⟨nameKept_always, fun apkname name => NameToApkName_of_absent apkname, ?_,
    fun apkname before more after => NameToApkName_of_path apkname after⟩
  intro apkname name rest hfirst
  refine ⟨rest.takeWhile legal, CString.longestRun_takeWhile legal rest, ?_⟩
  obtain ⟨after, hafter⟩ := hfirst.starts
  obtain rfl : ascii "com" ++ after = rest := (List.cons.inj hafter).2
  exact NameToApkName_of_first apkname hfirst

theorem apkname_of_game :
    NameToApkName none (some (ascii "/data/app/~~x==" ++ ascii "/"
        ++ (ascii "com." ++ ascii "example.game") ++ ascii "-" ++ ascii "1==/libil2cpp.so"))
      = some (ascii "com." ++ ascii "example.game") :=
  apkname_calls.2.2.2 none _ _ _ (by decide) (List.all_iff_forall_prop.mp (by decide))

end Dumper
