/-
# The memory map

`get_base` (`unityDumper.h`): the search of `/proc/self/maps` for a library, on the pieces
in which `fgets` delivers the file.
-/
import LiuHookWorld.ApkName
import LiuHookWorld.Fgets
import Mathlib.Data.Nat.Digits.Defs

namespace Dumper

/-! ## `strtoul` -/

/-- `isspace`. -/
def isspace (c : UInt8) : Bool := c == 0x20 || (0x09 ≤ c && c ≤ 0x0D)

/-- A hexadecimal digit. -/
def xdigit (c : UInt8) : Option ℕ :=
  if 0x30 ≤ c ∧ c ≤ 0x39 then some (c.toNat - 0x30)
  else if 0x61 ≤ c ∧ c ≤ 0x66 then some (c.toNat - 0x61 + 10)
  else if 0x41 ≤ c ∧ c ≤ 0x46 then some (c.toNat - 0x41 + 10)
  else none

/-- The digits at the start of a text: the number they make with `acc` before them. -/
def xvalue (acc : ℕ) : Text → ℕ
  | [] => acc
  | c :: cs =>
      match xdigit c with
      | some d => xvalue (acc * 16 + d) cs
      | none => acc

/-- What `strtoul` reports: whether there was a number, whether it was out of range, and
the result. -/
structure Strtoul where
  converted : Bool
  erange : Bool
  result : ℕ

/-- The optional `0x` before a digit. -/
def skip0x : Text → Text
  | 0x30 :: x :: c :: cs =>
      if (x = 0x78 ∨ x = 0x58) ∧ (xdigit c).isSome then c :: cs else 0x30 :: x :: c :: cs
  | cs => cs

/-- `strtoul(s, &endptr, 16)` with `endptr != s` as `converted` and `ERANGE` as `erange`. -/
def strtoul (abi : Abi) (s : Text) : Strtoul :=
  let s := s.dropWhile isspace
  let negative := s.head? = some 0x2D
  let s := if s.head? = some 0x2D ∨ s.head? = some 0x2B then s.tail else s
  let s := skip0x s
  match s.head?.bind xdigit with
  | none => ⟨false, false, 0⟩
  | some _ =>
      let value := xvalue 0 s
      if 2 ^ abi.sizeBits ≤ value then ⟨true, true, 2 ^ abi.sizeBits - 1⟩
      else ⟨true, false, if negative then abi.sub 0 value else value⟩

/-! ## `get_base` -/

/-- `strchr`: what comes before the first `c`. -/
def strchr (s : Text) (c : UInt8) : Option Text :=
  if c ∈ s then some (s.takeWhile (· ≠ c)) else none

/-- One round of the loop of `get_base`: the address to return, or `continue`. -/
def lineBase (abi : Abi) (basename line : Text) : Option ℕ :=
  let line := c_str line
  if (CString.strstr line basename).isSome then
    if (CString.strstr line (ascii "[anon:")).isSome
        || (CString.strstr line (ascii "]")).isSome then
      none
    else
      match strchr line 0x2D with
      | none => none
      | some start =>
          let r := strtoul abi start
          if r.converted && !r.erange then some r.result else none
  else none

/-- `sizeof(line) - 1`: what `fgets` reads at most. -/
def lineCapacity : ℕ := 511

/-- The results of `fgets(line, sizeof(line), fp)`. -/
def pieces (content : Text) : List Text := Fgets.chunks 0x0A lineCapacity content

/-- `get_base`; `maps` is the content of `/proc/self/maps`, null if it cannot be opened. -/
def get_base (abi : Abi) (maps : Option Text) (basename : Text) : ℕ :=
  match maps with
  | none => 0
  | some content => ((pieces content).findSome? (lineBase abi basename)).getD 0

/-- The position in the file of the piece at which the loop returns. -/
def stopFrom (abi : Abi) (basename : Text) (position : ℕ) : List Text → Option ℕ
  | [] => none
  | line :: lines =>
      if (lineBase abi basename line).isSome then some position
      else stopFrom abi basename (position + line.length) lines

/-! ## The lines of the map -/

/-- The number that hexadecimal digits denote. -/
def hexNumber (digits : Text) : ℕ :=
  Nat.ofDigits 16 (digits.map fun c => (xdigit c).getD 0).reverse

/-- A line of `/proc/self/maps`: the digits of the start address, the dash, and the rest up to
the newline, of any length. -/
structure MapsLine (abi : Abi) where
  start : Text
  rest : Text
  start_ne_nil : start ≠ []
  start_length : start.length ≤ 16
  start_digits : ∀ c ∈ start, c ∈ ascii "0123456789abcdef"
  start_lt : hexNumber start < 2 ^ abi.sizeBits
  rest_newline : 0x0A ∉ rest
  rest_nul : 0 ∉ rest

namespace MapsLine

variable {abi : Abi}

/-- The line in the file. -/
def text (l : MapsLine abi) : Text := l.start ++ ascii "-" ++ l.rest ++ ascii "\n"

/-- The start address. -/
def address (l : MapsLine abi) : ℕ := hexNumber l.start

/-- What the search is for: the name occurs, and no `]`. -/
def Matches (basename : Text) (l : MapsLine abi) : Prop :=
  basename <:+: l.text ∧ 0x5D ∉ l.text

instance (basename : Text) (l : MapsLine abi) : Decidable (Matches basename l) :=
  inferInstanceAs (Decidable (_ ∧ _))

end MapsLine

/-- The file made of these lines. -/
def mapsOf {abi : Abi} (lines : List (MapsLine abi)) : Text := lines.flatMap MapsLine.text

/-! ## The start address -/

/-- Reading digits from the left adds up to the number they denote. -/
theorem xvalue_eq (acc : ℕ) (digits : Text) (hdigits : ∀ c ∈ digits, (xdigit c).isSome) :
    xvalue acc digits = acc * 16 ^ digits.length + hexNumber digits := by
  induction digits generalizing acc with
  | nil => simp [xvalue, hexNumber]
  | cons c cs ih =>
      obtain ⟨d, hd⟩ := Option.isSome_iff_exists.mp (hdigits c List.mem_cons_self)
      rw [xvalue, hd]
      simp only
      rw [ih _ fun c' hc' => hdigits c' (List.mem_cons_of_mem c hc')]
      rw [hexNumber, hexNumber, List.map_cons, Nat.ofDigits_reverse_cons, hd]
      simp only [Option.getD_some, List.length_map, List.length_cons, pow_succ]
      ring

namespace MapsLine

variable {abi : Abi} (l : MapsLine abi)

/-- What all digits are, the characters of the start address are. -/
theorem start_of_digits {p : UInt8 → Prop} [DecidablePred p]
    (h : ((ascii "0123456789abcdef").all fun c => p c) = true) : ∀ c ∈ l.start, p c :=
  fun c hc => List.all_iff_forall_prop.mp h c (l.start_digits c hc)

theorem start_xdigit : ∀ c ∈ l.start, (xdigit c).isSome :=
  l.start_of_digits (p := fun c => (xdigit c).isSome) (by decide)

/-- The digits are characters `strtoul` does not skip. -/
theorem start_plain : ∀ c ∈ l.start,
    isspace c = false ∧ c ≠ 0x2D ∧ c ≠ 0x2B ∧ c ≠ 0x78 ∧ c ≠ 0x58 ∧ c ≠ 0 ∧ c ≠ 0x0A :=
  l.start_of_digits (by decide)

theorem skip0x_start : skip0x l.start = l.start := by
  rw [skip0x.eq_def]
  split
  case h_1 x c cs heq =>
    have hx := l.start_plain x (by rw [heq]; simp)
    rw [if_neg (by rintro ⟨rfl | rfl, -⟩ <;> simp at hx)]
    exact heq.symm
  case h_2 => rfl

/-- `strtoul` reads the start address. -/
theorem strtoul_start : strtoul abi l.start = ⟨true, false, l.address⟩ := by
  obtain ⟨c, cs, hstart⟩ := List.exists_cons_of_ne_nil l.start_ne_nil
  have hc := l.start_plain c (by rw [hstart]; exact List.mem_cons_self)
  have hdrop : l.start.dropWhile isspace = l.start := by
    rw [hstart, List.dropWhile_cons_of_neg (by rw [hc.1]; decide)]
  have hhead : l.start.head? = some c := by rw [hstart]; rfl
  have hminus : ¬ some c = some (0x2D : UInt8) := fun h => hc.2.1 (Option.some.inj h)
  have hplus : ¬ some c = some (0x2B : UInt8) := fun h => hc.2.2.1 (Option.some.inj h)
  obtain ⟨d, hd⟩ := Option.isSome_iff_exists.mp
    (l.start_xdigit c (by rw [hstart]; exact List.mem_cons_self))
  have hvalue : xvalue 0 l.start = l.address := by
    rw [xvalue_eq 0 l.start l.start_xdigit, Nat.zero_mul, Nat.zero_add, address]
  have hlt : ¬ 2 ^ abi.sizeBits ≤ l.address := Nat.not_le.mpr l.start_lt
  simp only [strtoul, hdrop, hhead, hminus, hplus, or_self, if_false, skip0x_start,
    Option.bind_some, hd, hvalue, hlt]

/-! ## The pieces of a line -/

/-- The piece that `fgets` delivers first. -/
def beginning : Text := l.text.take lineCapacity

theorem text_isLine : Fgets.IsLine 0x0A l.text := by
  refine ⟨l.start ++ ascii "-" ++ l.rest, rfl, ?_⟩
  rw [List.mem_append, List.mem_append, not_or, not_or]
  exact ⟨⟨fun h => (l.start_plain _ h).2.2.2.2.2.2 rfl, by decide⟩, l.rest_newline⟩

theorem text_nul : 0 ∉ l.text := by
  rw [text, List.mem_append, List.mem_append, List.mem_append, not_or, not_or, not_or]
  exact ⟨⟨⟨fun h => (l.start_plain _ h).2.2.2.2.2.1 rfl, by decide⟩, l.rest_nul⟩, by decide⟩

theorem pieces_text :
    pieces l.text = l.beginning :: pieces (l.text.drop lineCapacity) :=
  Fgets.chunks_line l.text_isLine (by decide)

theorem beginning_eq :
    ∃ more, l.beginning = l.start ++ 0x2D :: more := by
  refine ⟨(l.rest ++ ascii "\n").take (lineCapacity - l.start.length - 1), ?_⟩
  have hlength := l.start_length
  have htext : l.text = l.start ++ (0x2D :: (l.rest ++ ascii "\n")) := by
    simp only [text, List.append_assoc]
    rfl
  obtain ⟨n, hn⟩ : ∃ n, lineCapacity - l.start.length = n + 1 :=
    ⟨_, (Nat.succ_pred (by rw [lineCapacity]; omega)).symm⟩
  rw [beginning, htext, List.take_append, hn, List.take_succ_cons, Nat.add_sub_cancel,
    List.take_of_length_le (by rw [lineCapacity]; omega)]

theorem strchr_beginning : strchr l.beginning 0x2D = some l.start := by
  obtain ⟨more, hmore⟩ := l.beginning_eq
  rw [strchr, hmore, if_pos (List.mem_append_right _ List.mem_cons_self),
    List.takeWhile_append_of_pos fun c hc => decide_eq_true (l.start_plain c hc).2.1,
    List.takeWhile_cons_of_neg (by simp), List.append_nil]

theorem c_str_beginning : c_str l.beginning = l.beginning :=
  c_str_of_not_mem fun h => l.text_nul (List.mem_of_mem_take h)

/-- The name is in the part of the line that the first piece holds, and no `[anon:` is. -/
def Visible (basename : Text) : Prop :=
  basename <:+: l.beginning ∧ ¬ ascii "[anon:" <:+: l.beginning

instance (basename : Text) : Decidable (l.Visible basename) :=
  inferInstanceAs (Decidable (_ ∧ _))

variable {l} {basename : Text}

/-- On the first piece of a line that matches the loop returns the start address if it finds
the name there. -/
theorem lineBase_of_visible (hl : l.Matches basename) (hv : l.Visible basename) :
    lineBase abi basename l.beginning = some l.address := by
  have hname : (CString.strstr l.beginning basename).isSome = true :=
    CString.strstr_isSome_iff.mpr hv.1
  have hanon : (CString.strstr l.beginning (ascii "[anon:")).isSome = false := by
    rw [CString.strstr_eq_none_iff.mpr hv.2]
    rfl
  have hbracket : (CString.strstr l.beginning (ascii "]")).isSome = false := by
    rw [CString.strstr_eq_none_iff.mpr fun h => ?_]
    · rfl
    · exact hl.2 (List.mem_of_mem_take (h.subset List.mem_cons_self))
  simp only [lineBase, c_str_beginning, hname, hanon, hbracket, Bool.or_false, if_true,
    Bool.false_eq_true, if_false, strchr_beginning, strtoul_start, Bool.not_false, Bool.and_true]

/-- Otherwise it goes on. -/
theorem lineBase_of_not_visible (hv : ¬ l.Visible basename) :
    lineBase abi basename l.beginning = none := by
  by_cases hname : basename <:+: l.beginning
  · have hanon : (CString.strstr l.beginning (ascii "[anon:")).isSome = true :=
      CString.strstr_isSome_iff.mpr (by_contra fun h => hv ⟨hname, h⟩)
    simp only [lineBase, c_str_beginning, hanon, Bool.true_or, if_true, ite_self]
  · simp only [lineBase, c_str_beginning, CString.strstr_eq_none_iff.mpr hname, Option.isSome_none,
      Bool.false_eq_true, if_false]

end MapsLine

end Dumper
