/-
# Command lines of the POSIX shell

The token recognition and the quote removal of the shell, for command lines in which nothing
is expanded, as an automaton over 16-bit characters; and the one simple command that a line
is, if it is one.  A line with an expansion or a substitution, with an unquoted pattern or
with an unterminated quote is no such line.  What a first word alone may be (a reserved word,
an alias, an assignment) is not told apart.

* `run_balance` : what the shell takes away of a line.  A double quote costs a backslash or
  stands between single quotes.
* `survives_of_parse` : a command with as many quotes as the line pays for lost nothing.
-/
import Mathlib.Data.List.Basic
import Mathlib.Tactic.SplitIfs

namespace Shell

/-! ## Characters -/

/-- A string of Java, as UTF-16 code units. -/
abbrev Text := List UInt16

/-- A literal of the line. -/
def chars (s : String) : Text := s.toList.map fun c => UInt16.ofNat c.toNat

def newline : UInt16 := 0x0A
def doubleQuote : UInt16 := 0x22
def hash : UInt16 := 0x23
def dollar : UInt16 := 0x24
def singleQuote : UInt16 := 0x27
def greater : UInt16 := 0x3E
def bang : UInt16 := 0x21
def slash : UInt16 := 0x2F
def openBracket : UInt16 := 0x5B
def backslash : UInt16 := 0x5C
def closeBracket : UInt16 := 0x5D
def backquote : UInt16 := 0x60
def tilde : UInt16 := 0x7E

/-- Blanks separate words. -/
def isBlank (c : UInt16) : Bool := c ∈ chars " \t"

/-- Every operator but `>` starts with one of these. -/
def isOperator (c : UInt16) : Bool := c ∈ chars "&;|()<"

/-- The characters of pathname patterns, besides bracket expressions. -/
def isPattern (c : UInt16) : Bool := c ∈ chars "*?"

/-- A `]` after the word ends a bracket expression: there is a `[` since the last slash, and
something between the two, other than a `!` alone.  A `[` that no `]` ends is literal. -/
def endsBracket (word : Text) : Bool :=
  match (word.reverse.takeWhile (· ≠ slash)).reverse.dropWhile (· ≠ openBracket) with
  | [] => false
  | _ :: inner => inner ≠ [] ∧ inner ≠ [bang]

def isDigit (c : UInt16) : Bool := c ∈ chars "0123456789"

/-- After a `$` these start an expansion or a substitution: a name, a positional or special
parameter, an opening brace or parenthesis. -/
def startsExpansion (c : UInt16) : Bool :=
  c ∈ chars "abcdefghijklmnopqrstuvwxyzABCDEFGHIJKLMNOPQRSTUVWXYZ_0123456789@*#?-$!"
    || c = 0x7B || c = 0x28

/-- Between double quotes a backslash quotes these; before any other character it stands for
itself. -/
def isEscapable (c : UInt16) : Bool :=
  c = dollar || c = backquote || c = doubleQuote || c = backslash || c = newline

/-! ## Tokens -/

inductive Token
  /-- A word, after quote removal. -/
  | word (value : Text)
  /-- `>` -/
  | great
  | newline
  /-- Another operator, or the number before one. -/
  | other
  deriving DecidableEq, Repr

/-- Where the recognition stands; `word` is what it has of the current word. -/
inductive Mode
  /-- Outside quotes, without a word between two tokens; `quoted` if a part of the word was. -/
  | unquoted (word : Option Text) (quoted : Bool)
  /-- After a backslash, and after a `$`. -/
  | escape (word : Option Text) (quoted : Bool)
  | parameter (word : Text) (quoted : Bool)
  | comment
  | single (word : Text)
  | double (word : Text)
  | doubleEscape (word : Text)
  | doubleParameter (word : Text)
  deriving DecidableEq, Repr

structure State where
  tokens : List Token
  mode : Mode
  deriving DecidableEq, Repr

/-- The tokens after the end of a word. -/
def State.delimit (tokens : List Token) (word : Option Text) : List Token :=
  match word with
  | none => tokens
  | some word => tokens ++ [.word word]

/-- The tokens at a redirection: an unquoted number before it is part of it. -/
def State.redirect (tokens : List Token) (word : Option Text) (quoted : Bool) : List Token :=
  if !quoted && word.any (fun word => word.all isDigit) then tokens ++ [.other, .great]
  else State.delimit tokens word ++ [.great]

/-- A character outside quotes. -/
def unquotedStep (tokens : List Token) (word : Option Text) (quoted : Bool) (c : UInt16) :
    Option State :=
  if isBlank c then some ⟨State.delimit tokens word, .unquoted none false⟩
  else if c = newline then
    some ⟨State.delimit tokens word ++ [.newline], .unquoted none false⟩
  else if c = hash ∧ word = none then some ⟨tokens, .comment⟩
  else if c = greater then some ⟨State.redirect tokens word quoted, .unquoted none false⟩
  else if isOperator c then some ⟨State.delimit tokens word ++ [.other], .unquoted none false⟩
  else if c = backslash then some ⟨tokens, .escape word quoted⟩
  else if c = singleQuote then some ⟨tokens, .single (word.getD [])⟩
  else if c = doubleQuote then some ⟨tokens, .double (word.getD [])⟩
  else if c = dollar then some ⟨tokens, .parameter (word.getD []) quoted⟩
  else if c = backquote ∨ isPattern c ∨ c = closeBracket ∧ word.any endsBracket
      ∨ c = tilde ∧ word = none then none
  else some ⟨tokens, .unquoted (some (word.getD [] ++ [c])) quoted⟩

/-- A character between double quotes. -/
def doubleStep (tokens : List Token) (word : Text) (c : UInt16) : Option State :=
  if c = doubleQuote then some ⟨tokens, .unquoted (some word) true⟩
  else if c = backslash then some ⟨tokens, .doubleEscape word⟩
  else if c = dollar then some ⟨tokens, .doubleParameter word⟩
  else if c = backquote then none
  else some ⟨tokens, .double (word ++ [c])⟩

/-- The next character; none if something is expanded there. -/
def step (s : State) (c : UInt16) : Option State :=
  match s.mode with
  | .unquoted word quoted => unquotedStep s.tokens word quoted c
  | .escape word quoted =>
      -- a backslash joins two lines, and quotes any other character
      if c = newline then some ⟨s.tokens, .unquoted word quoted⟩
      else some ⟨s.tokens, .unquoted (some (word.getD [] ++ [c])) true⟩
  | .parameter word quoted =>
      -- a `$` that starts nothing is literal
      if startsExpansion c || c = singleQuote then none
      else unquotedStep s.tokens (some (word ++ [dollar])) quoted c
  | .comment =>
      if c = newline then some ⟨s.tokens ++ [.newline], .unquoted none false⟩ else some s
  | .single word =>
      if c = singleQuote then some ⟨s.tokens, .unquoted (some word) true⟩
      else some ⟨s.tokens, .single (word ++ [c])⟩
  | .double word => doubleStep s.tokens word c
  | .doubleEscape word =>
      if c = newline then some ⟨s.tokens, .double word⟩
      else if isEscapable c then some ⟨s.tokens, .double (word ++ [c])⟩
      else some ⟨s.tokens, .double (word ++ [backslash, c])⟩
  | .doubleParameter word =>
      if startsExpansion c then none else doubleStep s.tokens (word ++ [dollar]) c

/-- The characters of a line, one after the other. -/
def run (s : State) : Text → Option State
  | [] => some s
  | c :: cs => (step s c).bind fun s' => run s' cs

/-- The end of the line; none inside quotes. -/
def finish (s : State) : Option (List Token) :=
  match s.mode with
  | .unquoted word _ => some (State.delimit s.tokens word)
  | .parameter word _ => some (s.tokens ++ [.word (word ++ [dollar])])
  | .comment => some s.tokens
  | .escape _ _ | .single _ | .double _ | .doubleEscape _ | .doubleParameter _ => none

/-- At the start of a line. -/
def start : State := ⟨[], .unquoted none false⟩

/-- The tokens of a line. -/
def lex (line : Text) : Option (List Token) := (run start line).bind finish

/-! ## Simple commands -/

/-- A simple command without assignments: its words, and the files its output goes to. -/
structure Simple where
  words : List Text
  outputs : List Text
  deriving DecidableEq, Repr

/-- The tokens of one simple command, and nothing more than line ends after it. -/
def simple : List Token → Option Simple
  | [] => some ⟨[], []⟩
  | .word value :: tokens =>
      (simple tokens).map fun command => { command with words := value :: command.words }
  | .great :: .word value :: tokens =>
      (simple tokens).map fun command => { command with outputs := value :: command.outputs }
  | .newline :: tokens => if tokens.all (· = .newline) then some ⟨[], []⟩ else none
  | _ => none

/-- The simple command that the line is, if it is one in which nothing is expanded. -/
def parse (line : Text) : Option Simple := (lex line).bind simple

example : parse (chars "echo \"a $ b\" 'c\\' > /tmp/f")
    = some ⟨[chars "echo", chars "a $ b", chars "c\\"], [chars "/tmp/f"]⟩ := by decide +kernel

example : parse (chars "rm a[b c[]") = some ⟨[chars "rm", chars "a[b", chars "c[]"], []⟩
    ∧ parse (chars "rm a[b]") = none := by decide +kernel

/-! ## Outside quotes -/

/-- The characters of a token. -/
def Token.text : Token → Text
  | .word value => value
  | .great | .newline | .other => []

/-- The character stands for itself outside quotes; `$` does so unless it starts something, and `]`
unless it ends a bracket expression. -/
def isBare (c : UInt16) : Bool :=
  !(isBlank c || c = newline || c = greater || isOperator c || c = backslash || c = singleQuote
    || c = doubleQuote || c = backquote || isPattern c)

/-- The character is taken into the word as it is. -/
structure Stands (word : Option Text) (c : UInt16) : Prop where
  bare : isBare c = true
  start : word = none → c ≠ hash ∧ c ≠ tilde
  bracket : c = closeBracket → word.any endsBracket = false

/-- The state after a character outside quotes. -/
inductive Unquoted (tokens : List Token) (word : Option Text) (quoted : Bool) (c : UInt16) :
    State → Prop
  | blank : Unquoted tokens word quoted c ⟨State.delimit tokens word, .unquoted none false⟩
  | operator (token : Token) (htoken : token.text = []) :
      Unquoted tokens word quoted c ⟨State.delimit tokens word ++ [token], .unquoted none false⟩
  | comment (hword : word = none) : Unquoted tokens word quoted c ⟨tokens, .comment⟩
  | redirect :
      Unquoted tokens word quoted c ⟨State.redirect tokens word quoted, .unquoted none false⟩
  | escape (hc : c = backslash) : Unquoted tokens word quoted c ⟨tokens, .escape word quoted⟩
  | single (hc : c = singleQuote) : Unquoted tokens word quoted c ⟨tokens, .single (word.getD [])⟩
  | double : Unquoted tokens word quoted c ⟨tokens, .double (word.getD [])⟩
  | parameter (hc : c = dollar) (hstands : Stands word c) :
      Unquoted tokens word quoted c ⟨tokens, .parameter (word.getD []) quoted⟩
  | kept (hstands : Stands word c) :
      Unquoted tokens word quoted c ⟨tokens, .unquoted (some (word.getD [] ++ [c])) quoted⟩

section

variable {tokens : List Token} {word : Option Text} {quoted : Bool} {c : UInt16} {s : State}

/-- A bare character is none of the special ones. -/
theorem isBare_iff : isBare c = true ↔ ¬ isBlank c = true ∧ c ≠ newline ∧ c ≠ greater
    ∧ ¬ isOperator c = true ∧ c ≠ backslash ∧ c ≠ singleQuote ∧ c ≠ doubleQuote ∧ c ≠ backquote
    ∧ ¬ isPattern c = true := by
  simp [isBare, and_assoc]

/-- A bare character stands in a word, unless it closes a bracket there. -/
theorem stands_some {word : Text} (h : isBare c = true)
    (hbracket : c = closeBracket → endsBracket word = false) : Stands (some word) c :=
  ⟨h, fun hword => absurd hword (Option.some_ne_none word), hbracket⟩

/-- A dollar stands in any word, if nothing follows that it could expand. -/
theorem stands_dollar (word : Option Text) : Stands word dollar :=
  ⟨by decide +kernel, fun _ => by decide, fun h => absurd h (by decide)⟩

/-- What a character that stands for itself does. -/
theorem unquotedStep_of_stands (h : Stands word c) :
    unquotedStep tokens word quoted c
      = some (if c = dollar then ⟨tokens, .parameter (word.getD []) quoted⟩
        else ⟨tokens, .unquoted (some (word.getD [] ++ [c])) quoted⟩) := by
  obtain ⟨hblank, hnewline, hgreater, hoperator, hbackslash, hsingle, hdouble, hbackquote,
    hpattern⟩ := isBare_iff.mp h.bare
  rw [unquotedStep, if_neg hblank, if_neg hnewline, if_neg fun hhash => (h.start hhash.2).1 hhash.1,
    if_neg hgreater, if_neg hoperator, if_neg hbackslash, if_neg hsingle, if_neg hdouble]
  by_cases hdollar : c = dollar
  · rw [if_pos hdollar, if_pos hdollar]
  · rw [if_neg hdollar, if_neg hdollar, if_neg]
    rintro (hc | hc | ⟨hc, hends⟩ | ⟨hc, hword⟩)
    · exact hbackquote hc
    · exact hpattern hc
    · exact Bool.false_ne_true ((h.bracket hc).symm.trans hends)
    · exact (h.start hword).2 hc

/-- A step outside of quotes is one of the few that `Unquoted` lists. -/
theorem unquotedStep_effect (h : unquotedStep tokens word quoted c = some s) :
    Unquoted tokens word quoted c s := by
  rw [unquotedStep] at h
  by_cases hblank : isBlank c = true
  · rw [if_pos hblank] at h
    cases h
    exact .blank
  rw [if_neg hblank] at h
  by_cases hnewline : c = newline
  · rw [if_pos hnewline] at h
    cases h
    exact .operator .newline rfl
  rw [if_neg hnewline] at h
  by_cases hhash : c = hash ∧ word = none
  · rw [if_pos hhash] at h
    cases h
    exact .comment hhash.2
  rw [if_neg hhash] at h
  by_cases hgreater : c = greater
  · rw [if_pos hgreater] at h
    cases h
    exact .redirect
  rw [if_neg hgreater] at h
  by_cases hoperator : isOperator c = true
  · rw [if_pos hoperator] at h
    cases h
    exact .operator .other rfl
  rw [if_neg hoperator] at h
  by_cases hbackslash : c = backslash
  · rw [if_pos hbackslash] at h
    cases h
    exact .escape hbackslash
  rw [if_neg hbackslash] at h
  by_cases hsingle : c = singleQuote
  · rw [if_pos hsingle] at h
    cases h
    exact .single hsingle
  rw [if_neg hsingle] at h
  by_cases hdouble : c = doubleQuote
  · rw [if_pos hdouble] at h
    cases h
    exact .double
  rw [if_neg hdouble] at h
  by_cases hdollar : c = dollar
  · rw [if_pos hdollar] at h
    cases h
    exact .parameter hdollar (hdollar ▸ stands_dollar word)
  rw [if_neg hdollar] at h
  -- what is expanded there has no next state
  by_cases hexpanded : c = backquote ∨ isPattern c ∨ c = closeBracket ∧ word.any endsBracket
      ∨ c = tilde ∧ word = none
  · rw [if_pos hexpanded] at h
    cases h
  · rw [if_neg hexpanded] at h
    cases h
    rw [not_or, not_or, not_or, not_and, not_and] at hexpanded
    obtain ⟨hbackquote, hpattern, hbracket, htilde⟩ := hexpanded
    exact .kept ⟨isBare_iff.mpr ⟨hblank, hnewline, hgreater, hoperator, hbackslash, hsingle,
      hdouble, hbackquote, hpattern⟩, fun hword => ⟨fun hc => hhash ⟨hc, hword⟩,
      fun hc => htilde hc hword⟩, fun hc => Bool.eq_false_iff.mpr (hbracket hc)⟩

end

/-! ## What is lost of a line -/

/-- The characters of the current word. -/
def Mode.text : Mode → Text
  | .unquoted word _ | .escape word _ => word.getD []
  | .parameter word _ | .single word | .double word | .doubleEscape word
  | .doubleParameter word => word
  | .comment => []

/-- The backslashes that are not in the text yet. -/
def Mode.held : Mode → ℕ
  | .escape _ _ | .doubleEscape _ => 1
  | _ => 0

def Mode.isSingle : Mode → Bool
  | .single _ => true
  | _ => false

/-- What was read so far, without the quotes. -/
def State.text (s : State) : Text := s.tokens.flatMap Token.text ++ s.mode.text

/-- The characters that outside quotes quote others. -/
def isQuote (c : UInt16) : Bool := c = singleQuote || c = doubleQuote || c = backslash

/-- The single quotes that are kept. -/
def State.singles (s : State) : ℕ := s.text.count singleQuote

/-- The double quotes and the backslashes that are kept. -/
def State.doubles (s : State) : ℕ :=
  s.text.count doubleQuote + s.text.count backslash + s.mode.held

/-- Single quotes only get lost, and until one is lost, a double quote that is kept costs a
backslash. -/
structure Loses (s : State) (line : Text) (s' : State) : Prop where
  singles : s'.singles ≤ s.singles + line.count singleQuote
  doubles : s'.singles = s.singles + line.count singleQuote → s.mode.isSingle = false →
    s'.mode.isSingle = false ∧ s'.doubles ≤ s.doubles + line.count backslash

/-- Nothing is lost but a backslash for each double quote. -/
structure Exact (s : State) (line : Text) (s' : State) : Prop where
  unquoted : s.mode.isSingle = false
  singles : s'.singles = s.singles + line.count singleQuote
  doubles : s'.doubles = s.doubles + line.count backslash

theorem isQuote_iff {c : UInt16} :
    isQuote c = true ↔ c = singleQuote ∨ c = doubleQuote ∨ c = backslash := by
  simp only [isQuote, Bool.or_eq_true, decide_eq_true_eq, or_assoc]

theorem Loses.refl (s : State) : Loses s [] s :=
  ⟨Nat.le_refl _, fun _ hsingle => ⟨hsingle, Nat.le_refl _⟩⟩

section

variable {s s' s'' : State} {line line' : Text}

/-- What two parts of a line lose adds up. -/
theorem Loses.append (h : Loses s line s') (h' : Loses s' line' s'') :
    Loses s (line ++ line') s'' := by
  have hle := h.singles
  have hle' := h'.singles
  refine ⟨by rw [List.count_append]; omega, fun heq hsingle => ?_⟩
  rw [List.count_append] at heq ⊢
  obtain ⟨hsingle', hdoubles⟩ := h.doubles (by omega) hsingle
  obtain ⟨hsingle'', hdoubles'⟩ := h'.doubles (by omega) hsingle'
  exact ⟨hsingle'', by omega⟩

/-- What is lost in neither part of a line is lost in none. -/
theorem Exact.split (h : Loses s line s') (h' : Loses s' line' s'')
    (hexact : Exact s (line ++ line') s'') : Exact s line s' ∧ Exact s' line' s'' := by
  have hle := h.singles
  have hle' := h'.singles
  have heq := hexact.singles
  have hdoubles := hexact.doubles
  rw [List.count_append] at heq hdoubles
  obtain ⟨hsingle', hdoubles₁⟩ := h.doubles (by omega) hexact.unquoted
  obtain ⟨-, hdoubles₂⟩ := h'.doubles (by omega) hsingle'
  exact ⟨⟨hexact.unquoted, by omega, by omega⟩, ⟨hsingle', by omega, by omega⟩⟩

end

/-- What a character does after a text of which nothing is held back. -/
inductive Reads (text : Text) (c : UInt16) (s : State) : Prop
  | read (htext : s.text.filter isQuote = text.filter isQuote) (hheld : s.mode.held = 0)
      (hsingle : s.mode.isSingle = true → c = singleQuote)
  | held (hc : c = backslash) (htext : s.text = text) (hheld : s.mode.held = 1)
      (hsingle : s.mode.isSingle = false)
  | kept (hc : c ≠ doubleQuote) (htext : s.text = text ++ [c]) (hheld : s.mode.held = 0)
      (hsingle : s.mode.isSingle = false)

/-- A delimiter keeps the text. -/
theorem flatMap_delimit (tokens : List Token) (word : Option Text) :
    (State.delimit tokens word).flatMap Token.text
      = tokens.flatMap Token.text ++ word.getD [] := by
  cases word with
  | none => simp [State.delimit]
  | some word => simp [State.delimit, Token.text]

theorem filter_dollar : [dollar].filter isQuote = [] := rfl

/-- A number is without quotes. -/
theorem filter_isQuote_digits {word : Text} (h : word.all isDigit = true) :
    word.filter isQuote = [] := by
  rw [List.filter_eq_nil_iff]
  intro c hc hquote
  have hdigit := List.all_eq_true.mp h c hc
  rcases isQuote_iff.mp hquote with rfl | rfl | rfl <;> exact absurd hdigit (by decide)

theorem filter_redirect (tokens : List Token) (word : Option Text) (quoted : Bool) :
    ((State.redirect tokens word quoted).flatMap Token.text).filter isQuote
      = (tokens.flatMap Token.text ++ word.getD []).filter isQuote := by
  rw [State.redirect]
  split
  case isTrue h =>
    cases word with
    | none => simp at h
    | some word =>
        simp only [Option.any_some, Bool.and_eq_true] at h
        simp [Token.text, filter_isQuote_digits h.2]
  case isFalse => simp [flatMap_delimit, Token.text]

/-- What a character outside quotes does. -/
theorem reads_unquotedStep {tokens : List Token} {word : Option Text} {quoted : Bool}
    {c : UInt16} {s : State} (h : unquotedStep tokens word quoted c = some s) :
    Reads (tokens.flatMap Token.text ++ word.getD []) c s := by
  cases unquotedStep_effect h with
  | blank => exact .read (by simp [State.text, Mode.text, flatMap_delimit]) rfl nofun
  | operator token htoken =>
      exact .read (by simp [State.text, Mode.text, flatMap_delimit, htoken]) rfl nofun
  | comment hword => exact .read (by simp [State.text, Mode.text, hword]) rfl nofun
  | redirect => exact .read (by simp [State.text, Mode.text, filter_redirect]) rfl nofun
  | escape hc => exact .held hc rfl rfl rfl
  | single hc => exact .read rfl rfl fun _ => hc
  | double => exact .read rfl rfl nofun
  | parameter => exact .read rfl rfl nofun
  | kept hstands =>
      have hdouble : c ≠ doubleQuote := (isBare_iff.mp hstands.bare).2.2.2.2.2.2.1
      exact .kept hdouble (by simp [State.text, Mode.text]) rfl rfl

/-- What a character between double quotes does. -/
theorem reads_doubleStep {tokens : List Token} {word : Text} {c : UInt16} {s : State}
    (h : doubleStep tokens word c = some s) :
    Reads (tokens.flatMap Token.text ++ word) c s := by
  rw [doubleStep] at h
  split_ifs at h with hdouble hbackslash hdollar hexpanded <;> cases h
  · exact .read rfl rfl nofun
  · exact .held hbackslash rfl rfl rfl
  · exact .read rfl rfl nofun
  · exact .kept hdouble (by simp [State.text, Mode.text]) rfl rfl

theorem count_of_filter {a : UInt16} (ha : isQuote a = true) {text text' : Text}
    (h : text.filter isQuote = text'.filter isQuote) : text.count a = text'.count a := by
  rw [← List.count_filter ha, h, List.count_filter ha]

theorem Reads.loses {s s' : State} {c : UInt16} {text : Text} (h : Reads text c s')
    (htext : text.filter isQuote = s.text.filter isQuote) (hheld : s.mode.held = 0) :
    Loses s [c] s' := by
  have hsingle : text.count singleQuote = s.singles := count_of_filter rfl htext
  have hdouble : text.count doubleQuote = s.text.count doubleQuote := count_of_filter rfl htext
  have hback : text.count backslash = s.text.count backslash := count_of_filter rfl htext
  cases h with
  | read htext' hheld' hmode =>
      have hsingles : s'.singles = s.singles :=
        (count_of_filter rfl htext').trans hsingle
      have hdoubles : s'.doubles = s.doubles := by
        rw [State.doubles, State.doubles, count_of_filter rfl htext', count_of_filter rfl htext',
          hdouble, hback, hheld, hheld']
      refine ⟨by omega, fun heq _ => ⟨?_, by omega⟩⟩
      rw [Bool.eq_false_iff]
      intro hin
      simp [hsingles, hmode hin] at heq
  | held hc htext' hheld' hmode =>
      have hsingles : s'.singles = s.singles := by rw [State.singles, htext', hsingle]
      have hdoubles : s'.doubles = s.doubles + 1 := by
        rw [State.doubles, State.doubles, htext', hdouble, hback, hheld, hheld']
      exact ⟨by omega, fun _ _ => ⟨hmode, by simp [hdoubles, hc]⟩⟩
  | kept hc htext' hheld' hmode =>
      have hsingles : s'.singles = s.singles + [c].count singleQuote := by
        rw [State.singles, htext', List.count_append, hsingle]
      have hdoubles : s'.doubles = s.doubles + [c].count backslash := by
        rw [State.doubles, State.doubles, htext', List.count_append, List.count_append, hdouble,
          hback, hheld, hheld', List.count_singleton, beq_eq_false_iff_ne.mpr hc]
        simp only [Bool.false_eq_true, if_false]
        omega
      exact ⟨by omega, fun _ _ => ⟨hmode, by omega⟩⟩

/-- The character after a backslash. -/
theorem loses_escaped {s s' : State} {c : UInt16} (text : Text)
    (hheld : s.mode.held = 1) (htext : s'.text = s.text ++ text)
    (hmode : s'.mode.isSingle = false ∧ s'.mode.held = 0)
    (hsingle : text.count singleQuote ≤ [c].count singleQuote)
    (hdouble : text.count doubleQuote + text.count backslash ≤ 1 + [c].count backslash) :
    Loses s [c] s' := by
  have hsingles : s'.singles = s.singles + text.count singleQuote := by
    rw [State.singles, htext, List.count_append, State.singles]
  have hdoubles : s'.doubles + 1
      = s.doubles + text.count doubleQuote + text.count backslash := by
    rw [State.doubles, State.doubles, htext, List.count_append, List.count_append, hheld, hmode.2]
    omega
  exact ⟨by omega, fun _ _ => ⟨hmode.1, by omega⟩⟩

theorem count_one_le (c : UInt16) :
    [c].count doubleQuote + [c].count backslash ≤ 1 + [c].count backslash :=
  Nat.add_le_add_right List.count_le_length _

/-- A backslash before a character that it does not quote. -/
theorem count_backslash_le {c : UInt16} (h : ¬ isEscapable c) :
    [backslash, c].count singleQuote ≤ [c].count singleQuote
      ∧ [backslash, c].count doubleQuote + [backslash, c].count backslash
        ≤ 1 + [c].count backslash := by
  have hbackslash (a : UInt16) (ha : backslash ≠ a) : [backslash, c].count a = [c].count a :=
    List.count_cons_of_ne ha
  have hdouble : [c].count doubleQuote = 0 := by
    rw [List.count_eq_zero, List.mem_singleton]
    rintro rfl
    exact h rfl
  rw [hbackslash singleQuote (by decide), hbackslash doubleQuote (by decide), hdouble,
    List.count_cons_self]
  omega

/-- What one character takes away. -/
theorem loses_step {s s' : State} {c : UInt16} (h : step s c = some s') : Loses s [c] s' := by
  obtain ⟨tokens, mode⟩ := s
  cases mode with
  | unquoted word quoted => exact (reads_unquotedStep h).loses rfl rfl
  | escape word quoted =>
      simp only [step] at h
      split_ifs at h <;> cases h
      · exact loses_escaped [] rfl (by simp [State.text, Mode.text]) ⟨rfl, rfl⟩ (by simp) (by simp)
      · exact loses_escaped [c] rfl (by simp [State.text, Mode.text]) ⟨rfl, rfl⟩ (Nat.le_refl _)
          (count_one_le c)
  | parameter word quoted =>
      simp only [step] at h
      split_ifs at h
      exact (reads_unquotedStep h).loses (by simp [State.text, Mode.text, filter_dollar]) rfl
  | comment =>
      simp only [step] at h
      split_ifs at h <;> cases h
      · have hreads : Reads (tokens.flatMap Token.text) c
            ⟨tokens ++ [.newline], .unquoted none false⟩ :=
          .read (by simp [State.text, Mode.text, Token.text]) rfl nofun
        exact hreads.loses (by simp [State.text, Mode.text]) rfl
      · have hreads : Reads (tokens.flatMap Token.text) c ⟨tokens, .comment⟩ :=
          .read (by simp [State.text, Mode.text]) rfl nofun
        exact hreads.loses (by simp [State.text, Mode.text]) rfl
  | single word =>
      simp only [step] at h
      refine ⟨?_, nofun⟩
      split_ifs at h <;> cases h
      · exact Nat.le_add_right _ _
      · simp [State.singles, State.text, Mode.text, Nat.add_assoc]
  | double word => exact (reads_doubleStep h).loses rfl rfl
  | doubleEscape word =>
      simp only [step] at h
      split_ifs at h with hnewline hescapable <;> cases h
      · exact loses_escaped [] rfl (by simp [State.text, Mode.text]) ⟨rfl, rfl⟩ (by simp) (by simp)
      · exact loses_escaped [c] rfl (by simp [State.text, Mode.text]) ⟨rfl, rfl⟩ (Nat.le_refl _)
          (count_one_le c)
      · obtain ⟨hsingle, hdouble⟩ := count_backslash_le hescapable
        exact loses_escaped [backslash, c] rfl (by simp [State.text, Mode.text]) ⟨rfl, rfl⟩
          hsingle hdouble
  | doubleParameter word =>
      simp only [step] at h
      split_ifs at h
      exact (reads_doubleStep h).loses (by simp [State.text, Mode.text, filter_dollar]) rfl

/-- What the shell takes away of a line. -/
theorem run_balance {s s' : State} {line : Text} (h : run s line = some s') :
    Loses s line s' := by
  induction line generalizing s with
  | nil =>
      obtain rfl : s = s' := Option.some.inj h
      exact Loses.refl s
  | cons c line ih =>
      obtain ⟨middle, hstep, hrun⟩ := Option.bind_eq_some_iff.mp h
      exact (loses_step hstep).append (ih hrun)

/-- The end of the line keeps the text. -/
theorem finish_filter {s : State} {tokens : List Token} (h : finish s = some tokens) :
    (tokens.flatMap Token.text).filter isQuote = s.text.filter isQuote ∧ s.mode.held = 0 := by
  obtain ⟨tokens', mode⟩ := s
  cases mode with
  | unquoted word quoted =>
      obtain rfl := Option.some.inj h
      exact ⟨by rw [flatMap_delimit]; rfl, rfl⟩
  | parameter word quoted =>
      obtain rfl := Option.some.inj h
      refine ⟨?_, rfl⟩
      simp only [State.text, Mode.text, List.flatMap_append, List.flatMap_singleton, Token.text,
        List.filter_append, filter_dollar, List.append_nil]
  | comment =>
      obtain rfl := Option.some.inj h
      exact ⟨by rw [State.text, Mode.text, List.append_nil], rfl⟩
  | escape word quoted => cases h
  | single word => cases h
  | double word => cases h
  | doubleEscape word => cases h
  | doubleParameter word => cases h

/-- A simple command has the characters of its tokens. -/
theorem simple_perm {tokens : List Token} {command : Simple} (h : simple tokens = some command) :
    (tokens.flatMap Token.text).Perm (command.words ++ command.outputs).flatten := by
  induction tokens using simple.induct generalizing command with
  | case1 =>
      obtain rfl := Option.some.inj h
      exact .refl _
  | case2 value tokens ih =>
      obtain ⟨command, hcommand, rfl⟩ := Option.map_eq_some_iff.mp h
      exact (ih hcommand).append_left value
  | case3 value tokens ih =>
      obtain ⟨command, hcommand, rfl⟩ := Option.map_eq_some_iff.mp h
      have hrest := (ih hcommand).append_left value
      simp only [List.flatten_append, List.flatten_cons] at hrest ⊢
      -- the words come before the outputs
      exact hrest.trans (List.perm_append_comm_assoc _ _ _)
  | case4 tokens hall =>
      rw [simple, if_pos hall] at h
      obtain rfl := Option.some.inj h
      have hnil (token : Token) (htoken : token ∈ .newline :: tokens) : token.text = [] := by
        rcases List.mem_cons.mp htoken with rfl | htoken
        · rfl
        · have hnewline := List.all_eq_true.mp hall token htoken
          rw [of_decide_eq_true hnewline]
          rfl
      rw [List.flatMap_eq_nil_iff.mpr hnil]
      exact .refl _
  | case5 tokens hall =>
      rw [simple, if_neg hall] at h
      cases h
  | case6 tokens hnil hword hgreat hnewline =>
      rw [simple] at h
      · cases h
      all_goals assumption

/-! ## What is made of a line -/

section

variable {p : UInt16 → Bool}

theorem countP_redirect (tokens : List Token) (word : Option Text) (quoted : Bool) :
    ((State.redirect tokens word quoted).flatMap Token.text).countP p
      ≤ (tokens.flatMap Token.text ++ word.getD []).countP p := by
  rw [State.redirect]
  split
  case isTrue => simp [Token.text]
  case isFalse => simp [flatMap_delimit, Token.text]

/-- A character outside quotes is kept at most. -/
theorem countP_unquotedStep {tokens : List Token} {word : Option Text} {quoted : Bool}
    {c : UInt16} {s : State} (h : unquotedStep tokens word quoted c = some s) :
    s.text.countP p
      ≤ (tokens.flatMap Token.text ++ word.getD []).countP p + [c].countP p := by
  cases unquotedStep_effect h with
  | blank => simp [State.text, Mode.text, flatMap_delimit]
  | operator token htoken => simp [State.text, Mode.text, flatMap_delimit, htoken]
  | comment => simp [State.text, Mode.text, Nat.add_assoc]
  | redirect =>
      have hle := countP_redirect (p := p) tokens word quoted
      simp only [State.text, Mode.text, Option.getD_none, List.append_nil]
      omega
  | escape | single | double | parameter => exact Nat.le_add_right _ _
  | kept => simp [State.text, Mode.text, Nat.add_assoc]

/-- A character between double quotes is kept at most. -/
theorem countP_doubleStep {tokens : List Token} {word : Text} {c : UInt16} {s : State}
    (h : doubleStep tokens word c = some s) :
    s.text.countP p ≤ (tokens.flatMap Token.text ++ word).countP p + [c].countP p := by
  rw [doubleStep] at h
  split_ifs at h <;> cases h <;> simp [State.text, Mode.text, Nat.add_assoc]

/-- A character adds itself, and what was held back. -/
theorem countP_step (hbackslash : p backslash = false) (hdollar : p dollar = false) {s s' : State}
    {c : UInt16} (h : step s c = some s') :
    s'.text.countP p ≤ s.text.countP p + [c].countP p := by
  obtain ⟨tokens, mode⟩ := s
  cases mode with
  | unquoted word quoted => exact countP_unquotedStep h
  | escape word quoted =>
      simp only [step] at h
      split_ifs at h <;> cases h <;> simp [State.text, Mode.text, Nat.add_assoc]
  | parameter word quoted =>
      simp only [step] at h
      split_ifs at h
      have hle := countP_unquotedStep (p := p) h
      simpa [State.text, Mode.text, hdollar] using hle
  | comment =>
      simp only [step] at h
      split_ifs at h <;> cases h <;> simp [State.text, Mode.text, Token.text]
  | single word =>
      simp only [step] at h
      split_ifs at h <;> cases h <;> simp [State.text, Mode.text, Nat.add_assoc]
  | double word => exact countP_doubleStep h
  | doubleEscape word =>
      simp only [step] at h
      split_ifs at h <;> cases h <;>
        simp [State.text, Mode.text, Nat.add_assoc, hbackslash, List.countP_cons]
  | doubleParameter word =>
      simp only [step] at h
      split_ifs at h
      have hle := countP_doubleStep (p := p) h
      simpa [State.text, Mode.text, hdollar] using hle

theorem countP_run (hbackslash : p backslash = false) (hdollar : p dollar = false) {s s' : State}
    {line : Text} (h : run s line = some s') :
    s'.text.countP p ≤ s.text.countP p + line.countP p := by
  induction line generalizing s with
  | nil =>
      obtain rfl : s = s' := Option.some.inj h
      exact Nat.le_refl _
  | cons c line ih =>
      obtain ⟨middle, hstep, hrun⟩ := Option.bind_eq_some_iff.mp h
      have hone := countP_step hbackslash hdollar hstep
      have hrest := ih hrun
      have hcons : (c :: line).countP p = [c].countP p + line.countP p :=
        @List.countP_append _ p [c] line
      omega

theorem countP_finish (hdollar : p dollar = false) {s : State} {tokens : List Token}
    (h : finish s = some tokens) : (tokens.flatMap Token.text).countP p = s.text.countP p := by
  obtain ⟨tokens', mode⟩ := s
  cases mode with
  | unquoted word quoted =>
      obtain rfl := Option.some.inj h
      rw [flatMap_delimit]
      rfl
  | parameter word quoted =>
      obtain rfl := Option.some.inj h
      simp [State.text, Mode.text, Token.text, hdollar]
  | comment =>
      obtain rfl := Option.some.inj h
      rw [State.text, Mode.text, List.append_nil]
  | escape word quoted => cases h
  | single word => cases h
  | double word => cases h
  | doubleEscape word => cases h
  | doubleParameter word => cases h

/-- The shell makes no characters: those of a kind, the backslash and the `$` apart, are in the
line as often as in the command. -/
theorem countP_parse_le (hbackslash : p backslash = false) (hdollar : p dollar = false)
    {line : Text} {command : Simple} (h : parse line = some command) :
    (command.words ++ command.outputs).flatten.countP p ≤ line.countP p := by
  obtain ⟨tokens, hlex, hsimple⟩ := Option.bind_eq_some_iff.mp h
  obtain ⟨final, hrun, hfinish⟩ := Option.bind_eq_some_iff.mp hlex
  rw [← (simple_perm hsimple).countP_eq, countP_finish hdollar hfinish]
  have hle := countP_run hbackslash hdollar hrun
  have hstart : start.text.countP p = 0 := rfl
  omega

end

/-! ## Lines that survive -/

/-- The line is read to its end, outside quotes, and nothing is lost. -/
def Survives (s : State) (line : Text) : Prop :=
  ∃ s', run s line = some s' ∧ Exact s line s' ∧ (finish s').isSome

section

variable {s s' : State} {c : UInt16} {line line' : Text}

/-- A line is read in two parts. -/
theorem run_append (s : State) (line line' : Text) :
    run s (line ++ line') = (run s line).bind fun s' => run s' line' := by
  induction line generalizing s with
  | nil => rfl
  | cons c line ih =>
      rw [List.cons_append, run, run, Option.bind_assoc]
      exact congrArg _ (funext fun middle => ih middle)

/-- A line that survives does so part by part. -/
theorem Survives.append (h : Survives s (line ++ line')) (hline : run s line = some s') :
    Exact s line s' ∧ Survives s' line' := by
  obtain ⟨final, hrun, hexact, hfinish⟩ := h
  rw [run_append, hline, Option.bind_some] at hrun
  obtain ⟨hfirst, hrest⟩ := Exact.split (run_balance hline) (run_balance hrun) hexact
  exact ⟨hfirst, final, hrun, hrest, hfinish⟩

theorem Survives.cons (h : Survives s (c :: line)) (hstep : step s c = some s') :
    Exact s [c] s' ∧ Survives s' line := by
  have hrun : run s [c] = some s' := by rw [run, hstep, Option.bind_some, run]
  exact Survives.append h hrun

/-- Two states that keep the same and read the line in the same way. -/
theorem Survives.congr (h : Survives s line) (hrun : run s line = run s' line)
    (hmode : s'.mode.isSingle = false) (hsingles : s.singles = s'.singles)
    (hdoubles : s.doubles = s'.doubles) : Survives s' line := by
  obtain ⟨final, hfinal, hexact, hfinish⟩ := h
  rw [hrun] at hfinal
  exact ⟨final, hfinal, ⟨hmode, hsingles ▸ hexact.singles, hdoubles ▸ hexact.doubles⟩, hfinish⟩

/-- A simple command that has the single quotes of the line, and as many double quotes and
backslashes as the line has backslashes, lost nothing. -/
theorem survives_of_parse {command : Simple} (h : parse line = some command)
    (hsingle : (command.words ++ command.outputs).flatten.count singleQuote
      = line.count singleQuote)
    (hdouble : (command.words ++ command.outputs).flatten.count doubleQuote
      + (command.words ++ command.outputs).flatten.count backslash = line.count backslash) :
    Survives start line := by
  obtain ⟨tokens, hlex, hsimple⟩ := Option.bind_eq_some_iff.mp h
  obtain ⟨final, hrun, hfinish⟩ := Option.bind_eq_some_iff.mp hlex
  obtain ⟨hfilter, hheld⟩ := finish_filter hfinish
  have hcount {a : UInt16} (ha : isQuote a = true) :
      final.text.count a = (command.words ++ command.outputs).flatten.count a :=
    (count_of_filter ha hfilter).symm.trans ((simple_perm hsimple).count_eq a)
  refine ⟨final, hrun, ⟨rfl, ?_, ?_⟩, by rw [hfinish]; rfl⟩
  · rw [State.singles, hcount rfl, hsingle]
    exact (Nat.zero_add _).symm
  · rw [State.doubles, hcount rfl, hcount rfl, hheld, hdouble]
    exact (Nat.zero_add _).symm

end

/-! ## Between double quotes -/

section

variable {s s' : State} {tokens : List Token} {word : Text} {c : UInt16} {line : Text}

theorem run_cons (h : step s c = some s') (line : Text) : run s (c :: line) = run s' line := by
  rw [run, h, Option.bind_some]

/-- A backslash is literal before a character that it does not quote. -/
theorem run_doubleEscape (h : isEscapable c = false) (line : Text) :
    run ⟨tokens, .doubleEscape word⟩ (c :: line)
      = run ⟨tokens, .double (word ++ [backslash])⟩ (c :: line) := by
  have hc : ¬ isEscapable c = true := Bool.eq_false_iff.mp h
  simp only [isEscapable, Bool.or_eq_false_iff, decide_eq_false_iff_not] at h
  obtain ⟨⟨⟨⟨hdollar, hbackquote⟩, hdouble⟩, hbackslash⟩, hnewline⟩ := h
  have hstep : step ⟨tokens, .doubleEscape word⟩ c
      = some ⟨tokens, .double (word ++ [backslash, c])⟩ := by
    simp only [step]
    rw [if_neg hnewline, if_neg hc]
  have hstep' : step ⟨tokens, .double (word ++ [backslash])⟩ c
      = some ⟨tokens, .double (word ++ [backslash] ++ [c])⟩ := by
    simp only [step, doubleStep]
    rw [if_neg hdouble, if_neg hbackslash, if_neg hdollar, if_neg hbackquote]
  rw [run_cons hstep, run_cons hstep', List.append_assoc]
  rfl

/-- A `$` is literal before a character that starts no expansion. -/
theorem run_doubleParameter (h : startsExpansion c = false) (line : Text) :
    run ⟨tokens, .doubleParameter word⟩ (c :: line)
      = run ⟨tokens, .double (word ++ [dollar])⟩ (c :: line) := by
  simp only [run, step]
  rw [h]
  rfl

def Mode.isDouble : Mode → Bool
  | .double _ | .doubleEscape _ | .doubleParameter _ => true
  | _ => false

theorem isDouble_doubleStep (h : doubleStep tokens word c = some s) (hc : c ≠ doubleQuote) :
    s.mode.isDouble = true := by
  rw [doubleStep, if_neg hc] at h
  split_ifs at h <;> cases h <;> rfl

/-- Only a double quote leaves the quotes. -/
theorem isDouble_step (h : step s c = some s') (hc : c ≠ doubleQuote)
    (hdouble : s.mode.isDouble = true) : s'.mode.isDouble = true := by
  obtain ⟨tokens, mode⟩ := s
  cases mode with
  | double word => exact isDouble_doubleStep h hc
  | doubleEscape word =>
      simp only [step] at h
      split_ifs at h <;> cases h <;> rfl
  | doubleParameter word =>
      simp only [step] at h
      split_ifs at h
      exact isDouble_doubleStep h hc
  | unquoted word quoted => cases hdouble
  | escape word quoted => cases hdouble
  | parameter word quoted => cases hdouble
  | comment => cases hdouble
  | single word => cases hdouble

/-- Without a double quote the line ends between double quotes. -/
theorem isDouble_run (h : run s line = some s') (hline : doubleQuote ∉ line)
    (hdouble : s.mode.isDouble = true) : s'.mode.isDouble = true := by
  induction line generalizing s with
  | nil =>
      obtain rfl : s = s' := Option.some.inj h
      exact hdouble
  | cons c line ih =>
      obtain ⟨middle, hstep, hrun⟩ := Option.bind_eq_some_iff.mp h
      rw [List.mem_cons, not_or] at hline
      exact ih hrun hline.2 (isDouble_step hstep (Ne.symm hline.1) hdouble)

/-- A quote that is left open is an error. -/
theorem finish_eq_none (h : s.mode.isDouble = true) : finish s = none := by
  obtain ⟨tokens, mode⟩ := s
  cases mode <;> first | rfl | cases h

/-- The quotes are closed. -/
theorem Survives.mem_doubleQuote (h : Survives s line) (hdouble : s.mode.isDouble = true) :
    doubleQuote ∈ line := by
  obtain ⟨final, hrun, -, hfinish⟩ := h
  by_contra hline
  rw [finish_eq_none (isDouble_run hrun hline hdouble)] at hfinish
  cases hfinish

/-- After a backslash, a double quote at most is kept at no cost. -/
theorem Survives.not_isEscapable (h : Survives ⟨tokens, .doubleEscape word⟩ (c :: line))
    (hc : c ≠ doubleQuote) : isEscapable c = false := by
  rw [Bool.eq_false_iff]
  intro hescapable
  have hcount : [c].count doubleQuote = 0 := by
    rw [List.count_eq_zero, List.mem_singleton]
    exact hc.symm
  by_cases hnewline : c = newline
  · have hstep : step ⟨tokens, .doubleEscape word⟩ c = some ⟨tokens, .double word⟩ :=
      if_pos hnewline
    have hdoubles := (h.cons hstep).1.doubles
    simp only [State.doubles, State.text, Mode.text, Mode.held] at hdoubles
    omega
  · have hstep : step ⟨tokens, .doubleEscape word⟩ c = some ⟨tokens, .double (word ++ [c])⟩ :=
      (if_neg hnewline).trans (if_pos hescapable)
    have hdoubles := (h.cons hstep).1.doubles
    simp only [State.doubles, State.text, Mode.text, Mode.held, List.count_append, hcount]
      at hdoubles
    omega

/-- A backslash before an ordinary character is kept. -/
theorem Survives.literal_backslash (h : Survives ⟨tokens, .doubleEscape word⟩ (c :: line))
    (hc : isEscapable c = false) :
    Survives ⟨tokens, .double (word ++ [backslash])⟩ (c :: line) := by
  apply h.congr (run_doubleEscape hc line) rfl
  · simp only [State.singles, State.text, Mode.text, List.count_append]
    rfl
  · simp only [State.doubles, State.text, Mode.text, List.count_append, ← Nat.add_assoc]
    rfl

theorem Survives.not_startsExpansion
    (h : Survives ⟨tokens, .doubleParameter word⟩ (c :: line)) : startsExpansion c = false := by
  rw [Bool.eq_false_iff]
  intro hc
  obtain ⟨final, hrun, -, -⟩ := h
  have hstep : step ⟨tokens, .doubleParameter word⟩ c = none := if_pos hc
  rw [run, hstep] at hrun
  cases hrun

/-- A dollar that expands nothing is kept. -/
theorem Survives.literal_dollar (h : Survives ⟨tokens, .doubleParameter word⟩ (c :: line))
    (hc : startsExpansion c = false) :
    Survives ⟨tokens, .double (word ++ [dollar])⟩ (c :: line) := by
  apply h.congr (run_doubleParameter hc line) rfl
  · simp only [State.singles, State.text, Mode.text, List.count_append]
    rfl
  · simp only [State.doubles, State.text, Mode.text, List.count_append]
    rfl

end

end Shell
