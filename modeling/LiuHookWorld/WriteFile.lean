/-
# The command of `writeFile`

`RootUtils.writeFile` puts the content between double quotes, with a backslash before each of
its double quotes, and `executeRootCommandSync` writes the low byte of each character of the line
to `su`.  The shell gives the content to `echo` exactly if it is ASCII and nothing else of it is
special between double quotes (`echoed_iff`).

Strings are UTF-16 code units.  The shell reads bytes, and the content is its UTF-8 bytes.
-/
import LiuHookWorld.RootHelpers
import Mathlib.Data.Bool.AllAny

namespace RootUtils

open Shell

/-- `content.replace("\"", "\\\"")` -/
def replace (content : Text) : Text :=
  content.flatMap fun c => if c = doubleQuote then [backslash, doubleQuote] else [c]

/-- `cmd` of `writeFile` -/
def cmd (path content : Text) : Text :=
  chars "echo \"" ++ replace content ++ chars "\" > " ++ path

/-- The characters of which a path is made. -/
def isPathCharacter (c : UInt16) : Bool :=
  c ∈ chars "abcdefghijklmnopqrstuvwxyzABCDEFGHIJKLMNOPQRSTUVWXYZ0123456789/._-"

/-- A path of letters, digits and `/`, `.`, `_`, `-`. -/
structure PlainPath where
  text : Text
  plain : ∀ c ∈ text, isPathCharacter c = true

/-- The content stands for itself between double quotes once its double quotes are escaped. -/
def Literal : Text → Prop
  | [] => True
  | c :: content =>
      c ≠ backquote
        ∧ (c = backslash → content.head?.any fun next => !isEscapable next)
        ∧ (c = dollar → content.head?.all fun next => !startsExpansion next)
        ∧ Literal content

/-- The line is one `echo` of the content, with its output to the path, `su` reads nothing after
it but `exit`, and the content can be an argument: there is no NUL in it. -/
structure Echoed (path content : Text) : Prop where
  command : parse (writeBytes (cmd path content)) = some ⟨[chars "echo", bytes content], [path]⟩
  stdin : lex (stdin (cmd path content))
    = some [.word (chars "echo"), .word (bytes content), .great, .word path, .newline,
        .word (chars "exit"), .newline]
  argument : 0 ∉ content

/-! ## The path -/

/-- A character of a path stands for itself anywhere in a word. -/
theorem stands_path {c : UInt16} (h : isPathCharacter c = true) :
    isBare c = true ∧ c ≠ hash ∧ c ≠ tilde ∧ c ≠ dollar ∧ c ≠ closeBracket := by
  have hall : ∀ c ∈ chars "abcdefghijklmnopqrstuvwxyzABCDEFGHIJKLMNOPQRSTUVWXYZ0123456789/._-",
      (isBare c && c ≠ hash && c ≠ tilde && c ≠ dollar && c ≠ closeBracket) = true :=
    List.all_eq_true.mp (by decide +kernel)
  have hc := hall c (of_decide_eq_true h)
  simpa [and_assoc] using hc

/-- A character of the path is added to the word. -/
theorem step_path {c : UInt16} (h : isPathCharacter c = true) (tokens : List Token)
    (word : Option Text) :
    step ⟨tokens, .unquoted word false⟩ c
      = some ⟨tokens, .unquoted (some (word.getD [] ++ [c])) false⟩ := by
  obtain ⟨hbare, hhash, htilde, hdollar, hbracket⟩ := stands_path h
  have hstep : step ⟨tokens, .unquoted word false⟩ c = _ :=
    unquotedStep_of_stands ⟨hbare, fun _ => ⟨hhash, htilde⟩, fun hc => absurd hc hbracket⟩
  rw [hstep, if_neg hdollar]

/-- A path is read as one word. -/
theorem run_path {tokens : List Token} {path : Text}
    (hpath : ∀ c ∈ path, isPathCharacter c = true) (word : Text) :
    run ⟨tokens, .unquoted (some word) false⟩ path
      = some ⟨tokens, .unquoted (some (word ++ path)) false⟩ := by
  induction path generalizing word with
  | nil => rw [List.append_nil]; rfl
  | cons c path ih =>
      obtain ⟨hc, hpath⟩ := List.forall_mem_cons.mp hpath
      rw [run_cons (step_path hc tokens (some word)), Option.getD_some, ih hpath,
        List.append_assoc, List.singleton_append]

/-! ## The content -/

theorem replace_doubleQuote (content : Text) :
    replace (doubleQuote :: content) = backslash :: doubleQuote :: replace content := by
  rw [replace, List.flatMap_cons, if_pos rfl]
  rfl

theorem replace_of_ne {c : UInt16} (hc : c ≠ doubleQuote) (content : Text) :
    replace (c :: content) = c :: replace content := by
  rw [replace, List.flatMap_cons, if_neg hc]
  rfl

section

variable (tokens : List Token) (word : Text) (line : Text)

/-- A double quote of the content. -/
theorem run_escaped_doubleQuote :
    run ⟨tokens, .double word⟩ (backslash :: doubleQuote :: line)
      = run ⟨tokens, .double (word ++ [doubleQuote])⟩ line := rfl

theorem run_backslash :
    run ⟨tokens, .double word⟩ (backslash :: line) = run ⟨tokens, .doubleEscape word⟩ line := rfl

theorem run_dollar :
    run ⟨tokens, .double word⟩ (dollar :: line) = run ⟨tokens, .doubleParameter word⟩ line := rfl

end

/-- After a backslash that is literal, the line goes on with a character that it does not
quote. -/
theorem replace_of_literal_backslash {content : Text}
    (h : content.head?.any (fun next => !isEscapable next) = true) (rest : Text) :
    ∃ c line, replace content ++ rest = c :: line ∧ isEscapable c = false := by
  cases content with
  | nil => cases h
  | cons c content =>
      rw [List.head?_cons, Option.any_some, Bool.not_eq_true'] at h
      have hc : c ≠ doubleQuote := by
        rintro rfl
        cases h
      rw [replace_of_ne hc]
      exact ⟨c, replace content ++ rest, rfl, h⟩

/-- After a `$` that is literal, the line goes on with a character that starts no expansion. -/
theorem replace_of_literal_dollar {content : Text}
    (h : content.head?.all (fun next => !startsExpansion next) = true) (rest : Text) :
    ∃ c line, replace content ++ doubleQuote :: rest = c :: line
      ∧ startsExpansion c = false := by
  cases content with
  | nil => exact ⟨doubleQuote, rest, rfl, by decide +kernel⟩
  | cons c content =>
      rw [List.head?_cons, Option.all_some, Bool.not_eq_true'] at h
      by_cases hc : c = doubleQuote
      · rw [hc, replace_doubleQuote]
        exact ⟨backslash, doubleQuote :: replace content ++ doubleQuote :: rest, rfl,
          by decide +kernel⟩
      · rw [replace_of_ne hc]
        exact ⟨c, replace content ++ doubleQuote :: rest, rfl, h⟩

/-- The shell reads a literal content back. -/
theorem run_replace {content : Text} (h : Literal content) (tokens : List Token)
    (word rest : Text) :
    run ⟨tokens, .double word⟩ (replace content ++ doubleQuote :: rest)
      = run ⟨tokens, .double (word ++ content)⟩ (doubleQuote :: rest) := by
  induction content generalizing word with
  | nil => rw [List.append_nil]; rfl
  | cons c content ih =>
      obtain ⟨hbackquote, hbackslash, hdollar, hcontent⟩ := h
      have hrest := ih hcontent (word ++ [c])
      rw [List.append_assoc, List.singleton_append] at hrest
      rw [← hrest]
      by_cases hquote : c = doubleQuote
      · rw [hquote, replace_doubleQuote]
        exact run_escaped_doubleQuote tokens word (replace content ++ doubleQuote :: rest)
      rw [replace_of_ne hquote, List.cons_append]
      by_cases hc : c = backslash
      · obtain ⟨next, line, hline, hnext⟩ :=
          replace_of_literal_backslash (hbackslash hc) (doubleQuote :: rest)
        rw [hc, run_backslash, hline, run_doubleEscape hnext]
      by_cases hd : c = dollar
      · obtain ⟨next, line, hline, hnext⟩ := replace_of_literal_dollar (hdollar hd) rest
        rw [hd, run_dollar, hline, run_doubleParameter hnext]
      · have hstep : step ⟨tokens, .double word⟩ c = some ⟨tokens, .double (word ++ [c])⟩ := by
          simp only [step, doubleStep]
          rw [if_neg hquote, if_neg hc, if_neg hd, if_neg hbackquote]
        rw [run_cons hstep]

section

variable {tokens : List Token} {word content rest : Text}

/-- A backslash of the content that is kept has a character after it that it does not quote. -/
theorem head_of_survives_backslash (hrest : doubleQuote ∉ rest)
    (h : Survives ⟨tokens, .doubleEscape word⟩ (replace content ++ doubleQuote :: rest)) :
    content.head?.any (fun next => !isEscapable next) = true := by
  cases content with
  | nil =>
      -- it quotes the double quote that closes the content
      have hopen : Survives ⟨tokens, .double (word ++ [doubleQuote])⟩ rest := (h.cons rfl).2
      exact absurd (hopen.mem_doubleQuote rfl) hrest
  | cons next content =>
      by_cases hquote : next = doubleQuote
      · -- it quotes the backslash of an escaped double quote
        rw [hquote, replace_doubleQuote] at h
        exact absurd (h.not_isEscapable (by decide)) (by decide)
      · rw [replace_of_ne hquote] at h
        rw [List.head?_cons, Option.any_some, h.not_isEscapable hquote]
        rfl

theorem head_of_survives_dollar
    (h : Survives ⟨tokens, .doubleParameter word⟩ (replace content ++ doubleQuote :: rest)) :
    content.head?.all (fun next => !startsExpansion next) = true := by
  cases content with
  | nil => rfl
  | cons next content =>
      by_cases hquote : next = doubleQuote
      · rw [hquote]
        rfl
      · rw [replace_of_ne hquote] at h
        rw [List.head?_cons, Option.all_some, h.not_startsExpansion]
        rfl

/-- What the shell reads without a loss is literal. -/
theorem literal_of_survives (hrest : doubleQuote ∉ rest)
    (h : Survives ⟨tokens, .double word⟩ (replace content ++ doubleQuote :: rest)) :
    Literal content := by
  induction content generalizing word with
  | nil => trivial
  | cons c content ih =>
      by_cases hquote : c = doubleQuote
      · rw [hquote, replace_doubleQuote] at h
        have hrest : Survives ⟨tokens, .double (word ++ [doubleQuote])⟩ _ :=
          ((h.cons rfl).2.cons rfl).2
        rw [hquote]
        exact ⟨by decide, nofun, nofun, ih hrest⟩
      rw [replace_of_ne hquote, List.cons_append] at h
      by_cases hbackslash : c = backslash
      · rw [hbackslash] at h
        have hescape : Survives ⟨tokens, .doubleEscape word⟩ _ := (h.cons rfl).2
        have hhead := head_of_survives_backslash hrest hescape
        obtain ⟨next, line, hline, hnext⟩ :=
          replace_of_literal_backslash hhead (doubleQuote :: rest)
        rw [hline] at hescape
        have hliteral := hescape.literal_backslash hnext
        rw [← hline] at hliteral
        rw [hbackslash]
        exact ⟨by decide, fun _ => hhead, nofun, ih hliteral⟩
      by_cases hdollar : c = dollar
      · rw [hdollar] at h
        have hparameter : Survives ⟨tokens, .doubleParameter word⟩ _ := (h.cons rfl).2
        have hhead := head_of_survives_dollar hparameter
        obtain ⟨next, line, hline, hnext⟩ := replace_of_literal_dollar hhead rest
        rw [hline] at hparameter
        have hliteral := hparameter.literal_dollar hnext
        rw [← hline] at hliteral
        rw [hdollar]
        exact ⟨by decide, nofun, fun _ => hhead, ih hliteral⟩
      by_cases hbackquote : c = backquote
      · rw [hbackquote] at h
        obtain ⟨final, hrun, -, -⟩ := h
        cases hrun
      · have hstep : step ⟨tokens, .double word⟩ c = some ⟨tokens, .double (word ++ [c])⟩ := by
          simp only [step, doubleStep]
          rw [if_neg hquote, if_neg hbackslash, if_neg hdollar, if_neg hbackquote]
        exact ⟨hbackquote, fun hc => absurd hc hbackslash, fun hc => absurd hc hdollar,
          ih (h.cons hstep).2⟩

end

theorem count_replace_singleQuote (content : Text) :
    (replace content).count singleQuote = content.count singleQuote := by
  induction content with
  | nil => rfl
  | cons c content ih =>
      by_cases hc : c = doubleQuote
      · rw [hc, replace_doubleQuote, List.count_cons_of_ne (by decide),
          List.count_cons_of_ne (by decide), List.count_cons_of_ne (by decide), ih]
      · rw [replace_of_ne hc, List.count_cons, List.count_cons, ih]

/-- There is a backslash more for each double quote. -/
theorem count_replace_backslash (content : Text) :
    (replace content).count backslash
      = content.count doubleQuote + content.count backslash := by
  induction content with
  | nil => rfl
  | cons c content ih =>
      by_cases hc : c = doubleQuote
      · rw [hc, replace_doubleQuote, List.count_cons_self, List.count_cons_of_ne (by decide),
          List.count_cons_self, List.count_cons_of_ne (by decide), ih]
        omega
      · rw [replace_of_ne hc, List.count_cons, List.count_cons_of_ne hc, List.count_cons, ih]
        omega

/-! ## The command -/

/-- The state of the shell in the content. -/
theorem run_echo : run start (chars "echo \"") = some ⟨[.word (chars "echo")], .double []⟩ := by
  decide +kernel

/-- What follows the content. -/
theorem run_redirection {path : Text} (hpath : ∀ c ∈ path, isPathCharacter c = true)
    (hne : path ≠ []) (tokens : List Token) (content : Text) :
    run ⟨tokens, .double content⟩ (chars "\" > " ++ path)
      = some ⟨tokens ++ [.word content, .great], .unquoted (some path) false⟩ := by
  have hrun : run ⟨tokens, .double content⟩ (chars "\" > ")
      = some ⟨tokens ++ [.word content] ++ [.great], .unquoted none false⟩ := rfl
  rw [run_append, hrun, Option.bind_some, List.append_assoc]
  cases path with
  | nil => exact absurd rfl hne
  | cons c path =>
      obtain ⟨hc, hpath⟩ := List.forall_mem_cons.mp hpath
      rw [run_cons (step_path hc _ none), run_path hpath]
      rfl

/-- The command in three parts: up to the content, the content, and the path. -/
theorem cmd_eq (path content : Text) :
    cmd path content = chars "echo \""
      ++ (replace content ++ doubleQuote :: (chars " > " ++ path)) := by
  rw [cmd, List.append_assoc, List.append_assoc]
  rfl

/-- The state of the shell after the command. -/
theorem run_line_of_literal {path content : Text} (hpath : ∀ c ∈ path, isPathCharacter c = true)
    (hne : path ≠ []) (hcontent : Literal content) :
    run start (cmd path content)
      = some ⟨[.word (chars "echo"), .word content, .great], .unquoted (some path) false⟩ := by
  rw [cmd_eq, run_append, run_echo, Option.bind_some, run_replace hcontent]
  exact run_redirection hpath hne [.word (chars "echo")] content

/-- A literal content is the argument of one `echo`. -/
theorem parse_cmd {path content : Text} (hpath : ∀ c ∈ path, isPathCharacter c = true)
    (hne : path ≠ []) (hcontent : Literal content) :
    parse (cmd path content) = some ⟨[chars "echo", content], [path]⟩ := by
  rw [parse, lex, run_line_of_literal hpath hne hcontent]
  rfl

/-- Without a path there is nothing to redirect to. -/
theorem parse_cmd_nil {content : Text} (hcontent : Literal content) :
    parse (cmd [] content) = none := by
  rw [parse, lex, cmd_eq, run_append, run_echo, Option.bind_some, run_replace hcontent]
  rfl

/-- The characters of a path are no quotes. -/
theorem count_path {path : Text} (hpath : ∀ c ∈ path, isPathCharacter c = true) {a : UInt16}
    (ha : isQuote a = true) : path.count a = 0 := by
  rw [List.count_eq_zero]
  intro hmem
  obtain ⟨-, -, -, -, hbackslash, hsingle, hdouble, -⟩ :=
    isBare_iff.mp (stands_path (hpath a hmem)).1
  rcases isQuote_iff.mp ha with h | h | h
  · exact hsingle h
  · exact hdouble h
  · exact hbackslash h

theorem survives_cmd {path content : Text} (hpath : ∀ c ∈ path, isPathCharacter c = true)
    (h : parse (cmd path content) = some ⟨[chars "echo", content], [path]⟩) :
    Survives start (cmd path content) := by
  have hecho {a : UInt16} (ha : isQuote a = true) : (chars "echo").count a = 0 := by
    rw [List.count_eq_zero]
    rcases isQuote_iff.mp ha with rfl | rfl | rfl <;> decide +kernel
  have hwords {a : UInt16} (ha : isQuote a = true) :
      ([chars "echo", content] ++ [path]).flatten.count a = content.count a := by
    simp [count_path hpath ha, hecho ha]
  have hcmd {a : UInt16} (ha : isQuote a = true)
      (hends : (chars "echo \"").count a = 0 ∧ (chars "\" > ").count a = 0) :
      (cmd path content).count a = (replace content).count a := by
    simp [cmd, count_path hpath ha, hends.1, hends.2]
  apply survives_of_parse h
  · rw [hwords rfl, hcmd rfl (by decide +kernel), count_replace_singleQuote]
  · rw [hwords rfl, hwords rfl, hcmd rfl (by decide +kernel), count_replace_backslash]

/-- The command without what is written to `su`. -/
theorem parse_cmd_iff {path content : Text} (hpath : ∀ c ∈ path, isPathCharacter c = true) :
    parse (cmd path content) = some ⟨[chars "echo", content], [path]⟩
      ↔ path ≠ [] ∧ Literal content := by
  constructor
  · intro h
    have hsurvives := survives_cmd hpath h
    rw [cmd_eq] at hsurvives
    have hrest : doubleQuote ∉ chars " > " ++ path := by
      rw [List.mem_append, not_or]
      exact ⟨by decide +kernel, List.count_eq_zero.mp (count_path hpath rfl)⟩
    have hcontent := literal_of_survives hrest (hsurvives.append run_echo).2
    refine ⟨?_, hcontent⟩
    rintro rfl
    rw [parse_cmd_nil hcontent] at h
    cases h
  · rintro ⟨hne, hcontent⟩
    exact parse_cmd hpath hne hcontent

/-! ## What is written -/

theorem isAscii_append {s t : Text} : IsAscii (s ++ t) ↔ IsAscii s ∧ IsAscii t :=
  List.forall_mem_append

theorem isAscii_of_all {s : Text} (h : (s.all fun c => decide (c.toNat < 0x80)) = true) :
    IsAscii s := fun c hc => of_decide_eq_true (List.all_eq_true.mp h c hc)

theorem isAscii_path {path : Text} (hpath : ∀ c ∈ path, isPathCharacter c = true) :
    IsAscii path := by
  have hall : IsAscii (chars
      "abcdefghijklmnopqrstuvwxyzABCDEFGHIJKLMNOPQRSTUVWXYZ0123456789/._-") :=
    isAscii_of_all (by decide +kernel)
  exact fun c hc => hall c (of_decide_eq_true (hpath c hc))

theorem isAscii_replace {content : Text} (h : IsAscii content) : IsAscii (replace content) := by
  intro c hc
  obtain ⟨a, ha, hmem⟩ := List.mem_flatMap.mp hc
  split_ifs at hmem with hquote
  · rcases List.mem_pair.mp hmem with rfl | rfl <;> decide
  · obtain rfl := List.mem_singleton.mp hmem
    exact h c ha

theorem isAscii_cmd {path content : Text} (hpath : ∀ c ∈ path, isPathCharacter c = true)
    (h : IsAscii content) : IsAscii (cmd path content) := by
  have hecho : IsAscii (chars "echo \"") := isAscii_of_all (by decide +kernel)
  have hgreat : IsAscii (chars "\" > ") := isAscii_of_all (by decide +kernel)
  rw [cmd, isAscii_append, isAscii_append, isAscii_append]
  exact ⟨⟨⟨hecho, isAscii_replace h⟩, hgreat⟩, isAscii_path hpath⟩

/-- The characters of a string that are not ASCII. -/
def wide (s : Text) : ℕ := s.countP fun c => Utf16.isWide c.toNat

theorem wide_append (s t : Text) : wide (s ++ t) = wide s + wide t := List.countP_append

theorem wide_eq_zero_iff {s : Text} : wide s = 0 ↔ IsAscii s := by
  simp [wide, Utf16.isWide, IsAscii, List.countP_eq_zero]

/-- The low byte of an ASCII character is one. -/
theorem wide_writeBytes_le (s : Text) : wide (writeBytes s) ≤ wide s := by
  rw [wide, writeBytes, List.countP_map]
  refine List.countP_mono_left fun c _ hc => ?_
  have hle : (c &&& 0xFF).toNat ≤ c.toNat := by
    rw [UInt16.toNat_and]
    exact Nat.and_le_left
  exact decide_eq_true ((of_decide_eq_true hc).trans hle)

/-- The escapes are ASCII. -/
theorem wide_replace (content : Text) : wide (replace content) = wide content := by
  induction content with
  | nil => rfl
  | cons c content ih =>
      by_cases hc : c = doubleQuote
      · rw [hc, replace_doubleQuote]
        exact ih
      · rw [replace_of_ne hc, wide, List.countP_cons, wide, List.countP_cons]
        exact congrArg (· + _) ih

/-- The line has the characters of the content that are not ASCII. -/
theorem wide_cmd {path content : Text} (hpath : ∀ c ∈ path, isPathCharacter c = true) :
    wide (cmd path content) = wide content := by
  have hecho : wide (chars "echo \"") = 0 := by decide +kernel
  have hgreat : wide (chars "\" > ") = 0 := by decide +kernel
  rw [cmd, wide_append, wide_append, wide_append, hecho, hgreat, wide_replace,
    wide_eq_zero_iff.mpr (isAscii_path hpath), Nat.zero_add]
  rfl

/-- A character beyond ASCII has two bytes at least that are beyond ASCII. -/
theorem wide_bytes (content : Text) : 2 * wide content ≤ wide (bytes content) := by
  rw [wide, wide, bytes, List.countP_map]
  exact Utf16.countP_utf8 content

/-- The shell makes no byte that is not ASCII, and a character that is none has two. -/
theorem isAscii_of_parse {path content : Text} (hpath : ∀ c ∈ path, isPathCharacter c = true)
    (h : parse (writeBytes (cmd path content)) = some ⟨[chars "echo", bytes content], [path]⟩) :
    IsAscii content := by
  have hline : wide ([chars "echo", bytes content] ++ [path]).flatten
      ≤ wide (writeBytes (cmd path content)) := countP_parse_le (by decide) (by decide) h
  have hwords : wide ([chars "echo", bytes content] ++ [path]).flatten
      = wide (chars "echo") + wide (bytes content) + wide path := by
    simp [wide_append, Nat.add_assoc]
  have hwrite := wide_writeBytes_le (cmd path content)
  rw [wide_cmd hpath] at hwrite
  have hbytes := wide_bytes content
  rw [← wide_eq_zero_iff]
  omega

/-! ## Echo -/

/-- An ASCII content that is literal comes through. -/
theorem echoed_of_literal {path content : Text} (hpath : ∀ c ∈ path, isPathCharacter c = true)
    (hne : path ≠ []) (hascii : IsAscii content) (hnul : 0 ∉ content)
    (hcontent : Literal content) : Echoed path content := by
  have hcmd := writeBytes_of_ascii (isAscii_cmd hpath hascii)
  have hbytes := bytes_of_ascii hascii
  refine ⟨?_, ?_, hnul⟩
  · rw [hcmd, hbytes]
    exact parse_cmd hpath hne hcontent
  · have hexit : writeBytes [newline] ++ writeBytes (chars "exit\n")
        = newline :: chars "exit\n" := by decide +kernel
    rw [stdin, writeBytes_append, hcmd, List.append_assoc, hexit, hbytes, lex, run_append,
      run_line_of_literal hpath hne hcontent]
    rfl

/-- **The command of `writeFile`.**  The shell makes of it an `echo` of the content, with its
output to the path, if and only if there is a path and the content is ASCII, without NUL and
literal. -/
theorem echoed_iff (path : PlainPath) (content : Text) :
    Echoed path.text content
      ↔ path.text ≠ [] ∧ IsAscii content ∧ 0 ∉ content ∧ Literal content := by
  constructor
  · intro h
    have hascii := isAscii_of_parse path.plain h.command
    have hparse := h.command
    rw [writeBytes_of_ascii (isAscii_cmd path.plain hascii), bytes_of_ascii hascii] at hparse
    obtain ⟨hne, hcontent⟩ := (parse_cmd_iff path.plain).mp hparse
    exact ⟨hne, hascii, h.argument, hcontent⟩
  · rintro ⟨hne, hascii, hnul, hcontent⟩
    exact echoed_of_literal path.plain hne hascii hnul hcontent

/-- A backslash before a double quote ends the content, and the line goes on with a second
command. -/
theorem not_echoed_secondCommand :
    ¬ ∀ (path : PlainPath) (content : Text), Echoed path.text content := by
  intro h
  have hcmd := (h ⟨chars "/data/local/tmp/a.txt", List.all_eq_true.mp (by decide +kernel)⟩
    (chars "\\\";id #")).command
  revert hcmd
  decide +kernel

example : lex (writeBytes (cmd (chars "/data/local/tmp/a.txt") (chars "\\\";id #")))
    = some [.word (chars "echo"), .word (chars "\\"), .other, .word (chars "id")] := by
  decide +kernel

/-- The low byte of a character can be a double quote. -/
example : lex (writeBytes (cmd (chars "/data/local/tmp/a.txt") (0x0122 :: chars ";id #")))
    = some [.word (chars "echo"), .word [], .other, .word (chars "id")] := by
  decide +kernel

end RootUtils
