/-
# The scan of `struct soinfo`

`sh_linker_soinfo_memory_scan_pre` looks for two patterns in the words of a `soinfo` of the
linker: the program headers of the library with their number, and its `link_map` with
`constructors_called` and `load_bias` behind it.

* `memory_scan_eq_search` : the loop, which skips words, finds what a search place by place
  finds.
-/
import LiuHookWorld.SizeT
import Mathlib.Tactic.SplitIfs

namespace ShadowHook

/-! ## Data -/

/-- `uintptr_t` -/
abbrev Word (abi : Abi) := BitVec abi.sizeBits

variable {abi : Abi}

structure Phdr (abi : Abi) where
  p_type : UInt32
  p_vaddr : Word abi

def PT_DYNAMIC : UInt32 := 2

/-- What `xdl_info` says of a library. -/
structure DlInfo (abi : Abi) where
  dli_fbase : Word abi
  /-- The address of the program headers, and the headers. -/
  dlpi_phdr : Word abi
  phdrs : List (Phdr abi)

/-- The number of program headers. -/
def DlInfo.dlpi_phnum (dlinfo : DlInfo abi) : Word abi := BitVec.ofNat _ dlinfo.phdrs.length

/-- The memory from a `soinfo` on, word by word. -/
structure Soinfo (abi : Abi) where
  word : ℕ → Word abi
  readable : ℕ → Bool

/-- What the scan reads. -/
structure Scan (abi : Abi) where
  soinfo : Soinfo abi
  /-- `xdl_open` of the probe library, and `xdl_info` of it. -/
  dlinfo : Option (DlInfo abi)
  /-- The string at an address, if it can be read. -/
  string : Word abi → Option (List UInt8)

/-- The `sh_linker_soinfo_offset_…` in words; none for `SIZE_MAX`. -/
structure Offsets where
  load_bias : Option ℕ
  name : Option ℕ
  phdr : Option ℕ
  phnum : Option ℕ
  constructors_called : Option ℕ
  deriving DecidableEq, Repr

/-- Nothing was found yet. -/
def Offsets.initial : Offsets := ⟨none, none, none, none, none⟩

/-- `SH_LINKER_NOTHING_SO_NAME` -/
def nothingSoName : List UInt8 := "libmyhook.so".toList.map fun c => UInt8.ofNat c.toNat

/-- The comparison of the last bytes. -/
def sh_util_ends_with (str ending : List UInt8) : Bool :=
  if ending.length > str.length then false
  else str.drop (str.length - ending.length) = ending

/-! ## The loop -/

/-- `UINTPTR_MAX` without a dynamic section. -/
def DlInfo.l_ld (dlinfo : DlInfo abi) : Word abi :=
  match dlinfo.phdrs.find? (fun phdr => phdr.p_type = PT_DYNAMIC) with
  | none => BitVec.allOnes _
  | some phdr => dlinfo.dli_fbase + phdr.p_vaddr

/-- Reading `val_0` to `val_6` faults. -/
def Soinfo.crashes (soinfo : Soinfo abi) (i : ℕ) : Bool :=
  (List.range 7).any fun k => !soinfo.readable (i + k)

section

variable (scan : Scan abi) (dlinfo : DlInfo abi)

/-- The program headers are at `i`. -/
def phdrAt (i : ℕ) : Bool :=
  scan.soinfo.word i = dlinfo.dlpi_phdr && scan.soinfo.word (i + 1) = dlinfo.dlpi_phnum

/-- The `link_map` is at `i`: `l_addr`, `l_name`, `l_ld`, `l_next`, `l_prev`, and
`constructors_called`, which is not set, and `load_bias`. -/
def linkMapAt (i : ℕ) : Bool :=
  scan.soinfo.word i = dlinfo.dli_fbase && scan.soinfo.word (i + 2) = dlinfo.l_ld
    && scan.soinfo.word (i + 5) = 0 && scan.soinfo.word (i + 6) = scan.soinfo.word i
    && (scan.string (scan.soinfo.word (i + 1))).any (sh_util_ends_with · nothingSoName)

/-- No word of the seven starts a pattern. -/
def unrelated (i : ℕ) : Bool :=
  (List.range 7).all fun k => scan.soinfo.word (i + k) ≠ dlinfo.dlpi_phdr
    && scan.soinfo.word (i + k) ≠ dlinfo.dli_fbase

/-- The program headers and their number stand in two words. -/
def Offsets.setPhdr (offsets : Offsets) (i : ℕ) : Offsets :=
  { offsets with phdr := some i, phnum := some (i + 1) }

/-- The fields that stand together with the link map. -/
def Offsets.setLinkMap (offsets : Offsets) (i : ℕ) : Offsets :=
  { offsets with
    load_bias := some i, name := some (i + 1), constructors_called := some (i + 5) }

/-- The loop of `sh_linker_soinfo_memory_scan_pre`, from `i` on. -/
def memory_scan (i : ℕ) (offsets : Offsets) : Offsets :=
  if i < 96 then
    if offsets.phdr.isSome && offsets.load_bias.isSome then offsets
    else if scan.soinfo.crashes i then offsets
    else if offsets.phdr.isNone && phdrAt scan dlinfo i then
      memory_scan (i + 2) (offsets.setPhdr i)
    else if offsets.load_bias.isNone && linkMapAt scan dlinfo i then
      memory_scan (i + 7) (offsets.setLinkMap i)
    else if unrelated scan dlinfo i then memory_scan (i + 7) offsets
    else memory_scan (i + 1) offsets
  else offsets
termination_by 96 - i

end

/-- All offsets are known. -/
def Offsets.complete (offsets : Offsets) : Bool :=
  offsets.load_bias.isSome && offsets.name.isSome && offsets.phdr.isSome
    && offsets.phnum.isSome && offsets.constructors_called.isSome

/-- The offsets after the scan, and what it returns. -/
def sh_linker_soinfo_memory_scan_pre (scan : Scan abi) (offsets : Offsets) : Int × Offsets :=
  match scan.dlinfo with
  | none => (-1, offsets)
  | some dlinfo =>
      let offsets :=
        if dlinfo.l_ld = BitVec.allOnes _ then offsets else memory_scan scan dlinfo 0 offsets
      (if offsets.complete then 0 else -1, offsets)

/-! ## The places of the patterns -/

/-- The first place from `i` on, among the 96 that are looked at. -/
def first (P : ℕ → Bool) (i : ℕ) : Option ℕ := (List.range' i (96 - i)).find? P

section

variable {P Q : ℕ → Bool} {i : ℕ}

theorem first_eq_none (h : ∀ j, i ≤ j → P j = false) : first P i = none := by
  rw [first, List.find?_eq_none]
  intro j hj
  rw [h j (List.mem_range'_1.mp hj).1]
  exact Bool.false_ne_true

theorem first_of_le (hi : ¬ i < 96) : first P i = none := by
  rw [first, Nat.sub_eq_zero_of_le (Nat.le_of_not_lt hi)]
  rfl

theorem first_self (hi : i < 96) (h : P i = true) : first P i = some i := by
  obtain ⟨n, hn⟩ : ∃ n, 96 - i = n + 1 := ⟨95 - i, by omega⟩
  rw [first, hn, List.range'_succ]
  exact List.find?_cons_of_pos h

theorem first_succ (h : P i = false) : first P i = first P (i + 1) := by
  by_cases hi : i < 96
  · obtain ⟨n, hn⟩ : ∃ n, 96 - i = n + 1 := ⟨95 - i, by omega⟩
    rw [first, first, hn, List.range'_succ, List.find?_cons_of_neg (by rw [h]; exact nofun),
      show 96 - (i + 1) = n by omega]
  · rw [first_of_le hi, first_of_le (by omega)]

/-- Places that do not match are passed over. -/
theorem first_skip {n : ℕ} (h : ∀ k < n, P (i + k) = false) : first P i = first P (i + n) := by
  induction n with
  | zero => rfl
  | succ n ih =>
      rw [ih fun k hk => h k (Nat.lt_succ_of_lt hk), first_succ (h n (Nat.lt_succ_self n))]
      rfl

end

section

variable (scan : Scan abi) (dlinfo : DlInfo abi)

/-- The words up to the seventh after `i` can be read. -/
def inReach (i : ℕ) : Bool := (List.range (i + 7)).all scan.soinfo.readable

def phdrPlace (i : ℕ) : Bool := inReach scan i && phdrAt scan dlinfo i

def linkMapPlace (i : ℕ) : Bool := inReach scan i && linkMapAt scan dlinfo i

/-- The places of the patterns that are not known yet: the first place of either, and after its
words the first place of the other. -/
def search (i : ℕ) (offsets : Offsets) : Offsets :=
  match offsets.phdr, offsets.load_bias with
  | some _, some _ => offsets
  | none, some _ => (first (phdrPlace scan dlinfo) i).elim offsets offsets.setPhdr
  | some _, none => (first (linkMapPlace scan dlinfo) i).elim offsets offsets.setLinkMap
  | none, none =>
      match first (fun j => phdrPlace scan dlinfo j || linkMapPlace scan dlinfo j) i with
      | none => offsets
      | some j =>
          if phdrPlace scan dlinfo j then
            (first (linkMapPlace scan dlinfo) (j + 2)).elim (offsets.setPhdr j)
              (offsets.setPhdr j).setLinkMap
          else
            (first (phdrPlace scan dlinfo) (j + 7)).elim (offsets.setLinkMap j)
              (offsets.setLinkMap j).setPhdr

end

/-! ## The loop is a search -/

section

variable {scan : Scan abi} {dlinfo : DlInfo abi} {i : ℕ} {offsets : Offsets}

/-- The search looks at the first places only. -/
theorem search_congr {i' : ℕ}
    (hphdr : offsets.phdr = none →
      first (phdrPlace scan dlinfo) i = first (phdrPlace scan dlinfo) i')
    (hlinkMap : offsets.load_bias = none →
      first (linkMapPlace scan dlinfo) i = first (linkMapPlace scan dlinfo) i')
    (hboth : offsets.phdr = none → offsets.load_bias = none →
      first (fun j => phdrPlace scan dlinfo j || linkMapPlace scan dlinfo j) i
        = first (fun j => phdrPlace scan dlinfo j || linkMapPlace scan dlinfo j) i') :
    search scan dlinfo i offsets = search scan dlinfo i' offsets := by
  obtain ⟨load_bias, name, phdr, phnum, constructors_called⟩ := offsets
  cases phdr with
  | none =>
      cases load_bias with
      | none => simp only [search, hboth rfl rfl]
      | some _ => simp only [search, hphdr rfl]
  | some _ =>
      cases load_bias with
      | none => simp only [search, hlinkMap rfl]
      | some _ => rfl

/-- A search that finds no place more ends. -/
theorem search_of_none (hphdr : first (phdrPlace scan dlinfo) i = none)
    (hlinkMap : first (linkMapPlace scan dlinfo) i = none)
    (hboth : first (fun j => phdrPlace scan dlinfo j || linkMapPlace scan dlinfo j) i = none) :
    search scan dlinfo i offsets = offsets := by
  rw [search]
  split
  · rfl
  · rw [hphdr]; rfl
  · rw [hlinkMap]; rfl
  · rw [hboth]

/-- Nothing is found behind a word that cannot be read. -/
theorem inReach_of_crashes (h : scan.soinfo.crashes i = true) {j : ℕ} (hj : i ≤ j) :
    inReach scan j = false := by
  obtain ⟨k, hk, hread⟩ := List.any_eq_true.mp h
  rw [inReach, List.all_eq_false]
  refine ⟨i + k, ?_, by simpa using hread⟩
  rw [List.mem_range] at hk ⊢
  omega

theorem inReach_of_not_crashes (hread : ∀ j < i, scan.soinfo.readable j = true)
    (h : scan.soinfo.crashes i = false) : inReach scan i = true := by
  rw [inReach, List.all_eq_true]
  intro j hj
  rw [List.mem_range] at hj
  by_cases hji : j < i
  · exact hread j hji
  · have hk := List.any_eq_false.mp h (j - i) (List.mem_range.mpr (by omega))
    rw [Nat.add_sub_cancel' (Nat.le_of_not_lt hji)] at hk
    simpa using hk

/-- A skipped word starts no pattern. -/
theorem places_of_unrelated (h : unrelated scan dlinfo i = true) {k : ℕ} (hk : k < 7) :
    phdrPlace scan dlinfo (i + k) = false ∧ linkMapPlace scan dlinfo (i + k) = false := by
  have hword := List.all_eq_true.mp h k (List.mem_range.mpr hk)
  simp only [Bool.and_eq_true, decide_eq_true_eq] at hword
  simp [phdrPlace, phdrAt, linkMapPlace, linkMapAt, hword.1, hword.2]

/-- The words before a place in reach were read. -/
theorem readable_of_inReach (h : inReach scan i = true) {n : ℕ} (hn : n ≤ 7) :
    ∀ j < i + n, scan.soinfo.readable j = true :=
  fun j hj => List.all_eq_true.mp h j (List.mem_range.mpr (by omega))

/-- The program headers are found at `i`. -/
theorem search_of_phdrPlace (hi : i < 96) (hnone : offsets.phdr = none)
    (hphdr : phdrPlace scan dlinfo i = true) :
    search scan dlinfo i offsets = search scan dlinfo (i + 2) (offsets.setPhdr i) := by
  obtain ⟨load_bias, name, phdr, phnum, constructors_called⟩ := offsets
  obtain rfl : phdr = none := hnone
  cases load_bias with
  | none =>
      have hfirst := first_self hi
        (P := fun j => phdrPlace scan dlinfo j || linkMapPlace scan dlinfo j) (by simp [hphdr])
      simp only [search, Offsets.setPhdr, hfirst, hphdr, if_true]
  | some _ =>
      simp only [search, Offsets.setPhdr, first_self hi hphdr, Option.elim_some]

/-- The `link_map` is found at `i`. -/
theorem search_of_linkMapPlace (hi : i < 96) (hnone : offsets.load_bias = none)
    (hphdr : offsets.phdr = none → phdrPlace scan dlinfo i = false)
    (hlinkMap : linkMapPlace scan dlinfo i = true) :
    search scan dlinfo i offsets = search scan dlinfo (i + 7) (offsets.setLinkMap i) := by
  obtain ⟨load_bias, name, phdr, phnum, constructors_called⟩ := offsets
  obtain rfl : load_bias = none := hnone
  cases phdr with
  | none =>
      have hfirst := first_self hi
        (P := fun j => phdrPlace scan dlinfo j || linkMapPlace scan dlinfo j) (by simp [hlinkMap])
      simp only [search, Offsets.setLinkMap, hfirst, hphdr rfl, Bool.false_eq_true, if_false]
  | some _ =>
      simp only [search, Offsets.setLinkMap, first_self hi hlinkMap, Option.elim_some]

/-- The loop finds what the search finds. -/
theorem memory_scan_eq_search (hread : ∀ j < i, scan.soinfo.readable j = true) :
    memory_scan scan dlinfo i offsets = search scan dlinfo i offsets := by
  fun_induction memory_scan scan dlinfo i offsets with
  | case1 i offsets hi hfound =>
      obtain ⟨hphdr, hlinkMap⟩ := Bool.and_eq_true_iff.mp hfound
      obtain ⟨phdr, hphdr⟩ := Option.isSome_iff_exists.mp hphdr
      obtain ⟨load_bias, hlinkMap⟩ := Option.isSome_iff_exists.mp hlinkMap
      simp only [search, hphdr, hlinkMap]
  | case2 i offsets hi hfound hcrash =>
      have hreach (j : ℕ) (hj : i ≤ j) := inReach_of_crashes hcrash hj
      refine (search_of_none ?_ ?_ ?_).symm <;> refine first_eq_none fun j hj => ?_ <;>
        simp [phdrPlace, linkMapPlace, hreach j hj]
  | case3 i offsets hi hfound hcrash hphdr ih =>
      have hreach := inReach_of_not_crashes hread (Bool.eq_false_iff.mpr hcrash)
      obtain ⟨hnone, hphdr⟩ := Bool.and_eq_true_iff.mp hphdr
      rw [ih (readable_of_inReach hreach (by decide))]
      have hplace : phdrPlace scan dlinfo i = true := by simp [phdrPlace, hreach, hphdr]
      exact (search_of_phdrPlace hi (Option.isNone_iff_eq_none.mp hnone) hplace).symm
  | case4 i offsets hi hfound hcrash hphdr hlinkMap ih =>
      have hreach := inReach_of_not_crashes hread (Bool.eq_false_iff.mpr hcrash)
      obtain ⟨hnone, hlinkMap⟩ := Bool.and_eq_true_iff.mp hlinkMap
      rw [ih (readable_of_inReach hreach (Nat.le_refl 7))]
      have hplace : linkMapPlace scan dlinfo i = true := by
        simp [linkMapPlace, hreach, hlinkMap]
      have hother (hphdrNone : offsets.phdr = none) : phdrPlace scan dlinfo i = false := by
        simpa [phdrPlace, hreach, hphdrNone] using hphdr
      exact (search_of_linkMapPlace hi (Option.isNone_iff_eq_none.mp hnone) hother hplace).symm
  | case5 i offsets hi hfound hcrash hphdr hlinkMap hunrelated ih =>
      have hreach := inReach_of_not_crashes hread (Bool.eq_false_iff.mpr hcrash)
      rw [ih (readable_of_inReach hreach (Nat.le_refl 7))]
      have hplaces (k : ℕ) (hk : k < 7) := places_of_unrelated hunrelated hk
      apply Eq.symm
      apply search_congr
      · exact fun _ => first_skip fun k hk => (hplaces k hk).1
      · exact fun _ => first_skip fun k hk => (hplaces k hk).2
      · refine fun _ _ => first_skip fun k hk => ?_
        rw [(hplaces k hk).1, (hplaces k hk).2]
        rfl
  | case6 i offsets hi hfound hcrash hphdr hlinkMap hunrelated ih =>
      have hreach := inReach_of_not_crashes hread (Bool.eq_false_iff.mpr hcrash)
      rw [ih (readable_of_inReach hreach (by decide))]
      have hphdrPlace (hnone : offsets.phdr = none) : phdrPlace scan dlinfo i = false := by
        simpa [phdrPlace, hreach, hnone] using hphdr
      have hlinkMapPlace (hnone : offsets.load_bias = none) :
          linkMapPlace scan dlinfo i = false := by
        simpa [linkMapPlace, hreach, hnone] using hlinkMap
      apply Eq.symm
      apply search_congr
      · exact fun hnone => first_succ (hphdrPlace hnone)
      · exact fun hnone => first_succ (hlinkMapPlace hnone)
      · refine fun hnone hnone' => first_succ ?_
        rw [hphdrPlace hnone, hlinkMapPlace hnone']
        rfl
  | case7 i offsets hi =>
      exact (search_of_none (first_of_le hi) (first_of_le hi) (first_of_le hi)).symm

end

end ShadowHook
