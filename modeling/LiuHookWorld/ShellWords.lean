/-
# Bare words

Which texts the shell reads as one word that is the text itself, when nothing quotes them
(`parse_bare_iff`).  A state cannot hold more characters than were read, and a text of which
none is lost was read character by character, outside quotes.
-/
import LiuHookWorld.Shell

namespace Shell

/-! ## Bare words -/

/-- Every character stands for itself within a word. -/
def Bare : Text → Prop
  | [] => True
  | c :: text =>
      isBare c = true ∧ (c = dollar → text.head?.all fun next => !startsExpansion next)
        ∧ Bare text

/-- No `]` of the text ends a bracket expression after the word. -/
def Unbracketed (word text : Text) : Prop :=
  ∀ before after, text = before ++ closeBracket :: after → endsBracket (word ++ before) = false

/-- The text is a word, and every character of it stands for itself. -/
structure BareWord (text : Text) : Prop where
  ne_nil : text ≠ []
  bare : Bare text
  bracket : Unbracketed [] text
  not_hash : text.head? ≠ some hash
  not_tilde : text.head? ≠ some tilde

/-- The first character ends none, and then no other one does. -/
theorem unbracketed_cons {word text : Text} {c : UInt16} : Unbracketed word (c :: text) ↔
    (c = closeBracket → endsBracket word = false) ∧ Unbracketed (word ++ [c]) text := by
  constructor
  · refine fun h => ⟨fun hc => ?_, fun before after heq => ?_⟩
    · have hhead := h [] text (by rw [hc]; rfl)
      rwa [List.append_nil] at hhead
    · have htail := h (c :: before) after (by rw [heq]; rfl)
      rwa [List.append_cons] at htail
  · rintro ⟨hhead, htail⟩ before after heq
    cases before with
    | nil =>
        rw [List.append_nil]
        exact hhead (List.cons.inj heq).1
    | cons c' before =>
        obtain ⟨rfl, hrest⟩ := List.cons.inj heq
        rw [List.append_cons]
        exact htail before after hrest

/-! ## Characters held -/

/-- The characters read that are not in the text yet. -/
def Mode.pending : Mode → ℕ
  | .parameter _ _ | .doubleEscape _ | .doubleParameter _ => 1
  | _ => 0

def State.size (s : State) : ℕ := s.text.length + s.mode.pending

theorem length_redirect (tokens : List Token) (word : Option Text) (quoted : Bool) :
    ((State.redirect tokens word quoted).flatMap Token.text).length
      ≤ (tokens.flatMap Token.text ++ word.getD []).length := by
  rw [State.redirect]
  split
  case isTrue => simp [Token.text]
  case isFalse => simp [flatMap_delimit, Token.text]

section

variable {tokens : List Token} {word : Option Text} {quoted : Bool} {c : UInt16} {s : State}

/-- A character outside quotes is kept only if it stands for itself. -/
theorem size_unquotedStep (h : unquotedStep tokens word quoted c = some s) :
    Stands word c ∧ s.size = (tokens.flatMap Token.text ++ word.getD []).length + 1
      ∨ s.size ≤ (tokens.flatMap Token.text ++ word.getD []).length := by
  cases unquotedStep_effect h with
  | blank =>
      right
      simp [State.size, State.text, Mode.text, Mode.pending, flatMap_delimit]
  | operator token htoken =>
      right
      simp [State.size, State.text, Mode.text, Mode.pending, flatMap_delimit, htoken]
  | comment => exact Or.inr (by simp [State.size, State.text, Mode.text, Mode.pending])
  | redirect =>
      right
      simpa [State.size, State.text, Mode.text, Mode.pending]
        using length_redirect tokens word quoted
  | escape => exact Or.inr (Nat.le_refl _)
  | single => exact Or.inr (Nat.le_refl _)
  | double => exact Or.inr (Nat.le_refl _)
  | parameter hc hstands => exact Or.inl ⟨hstands, rfl⟩
  | kept hstands =>
      refine Or.inl ⟨hstands, ?_⟩
      simp [State.size, State.text, Mode.text, Mode.pending, Nat.add_assoc]

theorem size_unquotedStep_le (h : unquotedStep tokens word quoted c = some s) :
    s.size ≤ (tokens.flatMap Token.text ++ word.getD []).length + 1 := by
  rcases size_unquotedStep h with ⟨-, heq⟩ | hle
  · exact Nat.le_of_eq heq
  · exact Nat.le_succ_of_le hle

theorem size_doubleStep {word : Text} (h : doubleStep tokens word c = some s) :
    s.size ≤ (tokens.flatMap Token.text ++ word).length + 1 := by
  rw [doubleStep] at h
  split_ifs at h <;> cases h
  · simp [State.size, State.text, Mode.text, Mode.pending]
  · simp [State.size, State.text, Mode.text, Mode.pending]
  · simp [State.size, State.text, Mode.text, Mode.pending]
  · simp [State.size, State.text, Mode.text, Mode.pending, Nat.add_assoc]

end

/-- A character read is one character more at most. -/
theorem size_step {s s' : State} {c : UInt16} (h : step s c = some s') :
    s'.size ≤ s.size + 1 := by
  obtain ⟨tokens, mode⟩ := s
  cases mode with
  | unquoted word quoted => exact size_unquotedStep_le h
  | escape word quoted =>
      simp only [step] at h
      split_ifs at h <;> cases h
      · simp [State.size, State.text, Mode.text, Mode.pending]
      · simp [State.size, State.text, Mode.text, Mode.pending, Nat.add_assoc]
  | parameter word quoted =>
      simp only [step] at h
      split_ifs at h
      have hle := size_unquotedStep_le h
      simp [State.size, State.text, Mode.text, Mode.pending] at hle ⊢
      omega
  | comment =>
      simp only [step] at h
      split_ifs at h <;> cases h
      · simp [State.size, State.text, Mode.text, Mode.pending, Token.text]
      · exact Nat.le_succ _
  | single word =>
      simp only [step] at h
      split_ifs at h <;> cases h
      · simp [State.size, State.text, Mode.text, Mode.pending]
      · simp [State.size, State.text, Mode.text, Mode.pending, Nat.add_assoc]
  | double word => exact size_doubleStep h
  | doubleEscape word =>
      simp only [step] at h
      split_ifs at h <;> cases h
      · simp [State.size, State.text, Mode.text, Mode.pending]
        omega
      · simp [State.size, State.text, Mode.text, Mode.pending]
        omega
      · simp [State.size, State.text, Mode.text, Mode.pending]
        omega
  | doubleParameter word =>
      simp only [step] at h
      split_ifs at h
      have hle := size_doubleStep h
      simp [State.size, State.text, Mode.text, Mode.pending] at hle ⊢
      omega

theorem size_run {s s' : State} {line : Text} (h : run s line = some s') :
    s'.size ≤ s.size + line.length := by
  induction line generalizing s with
  | nil =>
      obtain rfl : s = s' := Option.some.inj h
      exact Nat.le_refl _
  | cons c line ih =>
      obtain ⟨middle, hstep, hrun⟩ := Option.bind_eq_some_iff.mp h
      have hone := size_step hstep
      have hrest := ih hrun
      rw [List.length_cons]
      omega

theorem size_finish {s : State} {tokens : List Token} (h : finish s = some tokens) :
    (tokens.flatMap Token.text).length = s.size := by
  obtain ⟨tokens', mode⟩ := s
  cases mode with
  | unquoted word quoted =>
      obtain rfl := Option.some.inj h
      rw [flatMap_delimit]
      rfl
  | parameter word quoted =>
      obtain rfl := Option.some.inj h
      simp [State.size, State.text, Mode.text, Mode.pending, Token.text, Nat.add_assoc]
  | comment =>
      obtain rfl := Option.some.inj h
      simp [State.size, State.text, Mode.text, Mode.pending]
  | escape word quoted => cases h
  | single word => cases h
  | double word => cases h
  | doubleEscape word => cases h
  | doubleParameter word => cases h

/-! ## Reading a bare word -/

section

variable {tokens : List Token} {word : Text} {quoted : Bool}

/-- A `$` is literal before a character that starts nothing. -/
theorem run_parameter {c : UInt16} (hc : startsExpansion c = false) (hsingle : c ≠ singleQuote)
    (line : Text) :
    run ⟨tokens, .parameter word quoted⟩ (c :: line)
      = run ⟨tokens, .unquoted (some (word ++ [dollar])) quoted⟩ (c :: line) := by
  simp only [run, step]
  rw [if_neg (by simp [hc, hsingle])]

/-- What comes of the end of a word: `f` of the state there, if a `$` is literal before it. -/
theorem run_bare {β : Type} {f : State → Option β} {tokens : List Token}
    (hf : ∀ word, f ⟨tokens, .parameter word quoted⟩
      = f ⟨tokens, .unquoted (some (word ++ [dollar])) quoted⟩)
    {text : Text} (h : Bare text) (word : Text) (hbracket : Unbracketed word text) :
    (run ⟨tokens, .unquoted (some word) quoted⟩ text).bind f
      = f ⟨tokens, .unquoted (some (word ++ text)) quoted⟩ := by
  induction text generalizing word with
  | nil => rw [List.append_nil]; rfl
  | cons c text ih =>
      obtain ⟨hbare, hdollar, htext⟩ := h
      obtain ⟨hends, hbracket⟩ := unbracketed_cons.mp hbracket
      have hrest := ih htext (word ++ [c]) hbracket
      rw [List.append_assoc, List.singleton_append] at hrest
      rw [← hrest, run]
      have hstep : step ⟨tokens, .unquoted (some word) quoted⟩ c = _ :=
        unquotedStep_of_stands (stands_some hbare hends)
      rw [hstep, Option.bind_some, Option.getD_some]
      by_cases hc : c = dollar
      · rw [if_pos hc, hc]
        cases text with
        | nil => exact hf word
        | cons next text =>
            have hnext := hdollar hc
            rw [List.head?_cons, Option.all_some, Bool.not_eq_true'] at hnext
            have hsingle : next ≠ singleQuote := (isBare_iff.mp htext.1).2.2.2.2.2.1
            rw [run_parameter hnext hsingle]
      · rw [if_neg hc]

/-- The first character of a word is read like the others. -/
theorem run_bareWord {β : Type} {f : State → Option β} {tokens : List Token}
    (hf : ∀ word, f ⟨tokens, .parameter word quoted⟩
      = f ⟨tokens, .unquoted (some (word ++ [dollar])) quoted⟩)
    {text : Text} (h : BareWord text) :
    (run ⟨tokens, .unquoted none quoted⟩ text).bind f
      = f ⟨tokens, .unquoted (some text) quoted⟩ := by
  have hsome := run_bare hf h.bare [] h.bracket
  rw [List.nil_append] at hsome
  rw [← hsome]
  cases text with
  | nil => exact absurd rfl h.ne_nil
  | cons c text =>
      have hc : c ≠ hash ∧ c ≠ tilde :=
        ⟨fun hc => h.not_hash (by rw [hc]; rfl), fun hc => h.not_tilde (by rw [hc]; rfl)⟩
      have hnone : step ⟨tokens, .unquoted none quoted⟩ c = _ :=
        unquotedStep_of_stands ⟨h.bare.1, fun _ => hc, fun _ => rfl⟩
      have hfirst : step ⟨tokens, .unquoted (some []) quoted⟩ c = _ :=
        unquotedStep_of_stands (stands_some h.bare.1 fun _ => rfl)
      rw [run, run, hnone, hfirst]
      rfl

/-- A text of which no character is lost is bare. -/
theorem bare_of_run {tokens : List Token} {word : Option Text} {s : State} {text : Text}
    (hrun : run ⟨tokens, .unquoted word quoted⟩ text = some s)
    (hsize : s.size = (tokens.flatMap Token.text ++ word.getD []).length + text.length) :
    Bare text ∧ Unbracketed (word.getD []) text ∧
      (word = none → text.head? ≠ some hash ∧ text.head? ≠ some tilde) := by
  induction text generalizing word with
  | nil =>
      refine ⟨trivial, fun before after heq => ?_, fun _ => ⟨nofun, nofun⟩⟩
      exact absurd heq.symm (List.append_ne_nil_of_right_ne_nil _ (List.cons_ne_nil _ _))
  | cons c text ih =>
      obtain ⟨middle, hstep, hrest⟩ := Option.bind_eq_some_iff.mp hrun
      have hle := size_run hrest
      rw [List.length_cons] at hsize
      change unquotedStep tokens word quoted c = some middle at hstep
      rcases size_unquotedStep hstep with ⟨hstands, hmiddle⟩ | hlost
      · have hhead : word = none → (c :: text).head? ≠ some hash ∧ (c :: text).head? ≠ some tilde :=
          fun hword => ⟨fun hc => (hstands.start hword).1 (Option.some.inj hc),
            fun hc => (hstands.start hword).2 (Option.some.inj hc)⟩
        have hends : c = closeBracket → endsBracket (word.getD []) = false := by
          intro hc
          have hany := hstands.bracket hc
          cases word with
          | none => rfl
          | some word => exact hany
        rw [unquotedStep_of_stands hstands] at hstep
        obtain rfl := Option.some.inj hstep
        have hlength : (tokens.flatMap Token.text ++ (some (word.getD [] ++ [c])).getD []).length
            = (tokens.flatMap Token.text ++ word.getD []).length + 1 := by
          simp [Nat.add_assoc]
        by_cases hc : c = dollar
        · rw [if_pos hc] at hrest
          cases text with
          | nil =>
              refine ⟨⟨hstands.bare, fun _ => rfl, trivial⟩,
                unbracketed_cons.mpr ⟨hends, ?_⟩, hhead⟩
              intro before after heq
              exact absurd heq.symm (List.append_ne_nil_of_right_ne_nil _ (List.cons_ne_nil _ _))
          | cons next text =>
              -- the `$` is literal, since the line is read on
              have hnext : (startsExpansion next || next = singleQuote) = false := by
                rw [Bool.eq_false_iff]
                intro hexpands
                simp [run, step, hexpands] at hrest
              obtain ⟨hstarts, hsingle⟩ := Bool.or_eq_false_iff.mp hnext
              rw [run_parameter hstarts (of_decide_eq_false hsingle), ← hc] at hrest
              obtain ⟨htext, hbracket, -⟩ := ih hrest (by rw [hlength]; omega)
              exact ⟨⟨hstands.bare, fun _ => by simp [hstarts], htext⟩,
                unbracketed_cons.mpr ⟨hends, hbracket⟩, hhead⟩
        · rw [if_neg hc] at hrest
          obtain ⟨htext, hbracket, -⟩ := ih hrest (by rw [hlength]; omega)
          exact ⟨⟨hstands.bare, fun hdollar => absurd hdollar hc, htext⟩,
            unbracketed_cons.mpr ⟨hends, hbracket⟩, hhead⟩
      · omega

end

/-! ## The last word of a command -/

section

variable {line : Text} {words : List Text} {text value : Text}

theorem simple_words (words : List Text) : simple (words.map .word) = some ⟨words, []⟩ := by
  induction words with
  | nil => rfl
  | cons word words ih => rw [List.map_cons, simple, ih]; rfl

theorem flatMap_word (words : List Text) :
    (words.map Token.word).flatMap Token.text = words.flatten := by
  rw [List.flatMap_map]
  exact List.flatMap_id'

/-- A bare word after the blank that follows other words is one word more. -/
theorem lex_bareWord (hline : run start line = some ⟨words.map .word, .unquoted none false⟩)
    (h : BareWord text) : lex (line ++ text) = some ((words ++ [text]).map .word) := by
  rw [lex, run_append, hline, Option.bind_some, run_bareWord (fun _ => rfl) h, List.map_append]
  rfl

/-- What is no bare word is not read as a word of its length. -/
theorem bareWord_of_parse (hline : run start line = some ⟨words.map .word, .unquoted none false⟩)
    (hlength : text.length ≤ value.length)
    (hparse : parse (line ++ text) = some ⟨words ++ [value], []⟩) : BareWord text := by
  obtain ⟨tokens, hlex, hsimple⟩ := Option.bind_eq_some_iff.mp hparse
  obtain ⟨final, hrun, hfinish⟩ := Option.bind_eq_some_iff.mp hlex
  rw [run_append, hline, Option.bind_some] at hrun
  have hsize : final.size
      = ((words.map Token.word).flatMap Token.text ++ (none : Option Text).getD []).length
        + text.length := by
    -- all of the value is in the text, and of the text nothing more
    have hle := size_run hrun
    have hvalue := (simple_perm hsimple).length_eq
    rw [size_finish hfinish, List.append_nil, List.flatten_append, List.length_append,
      List.flatten_singleton] at hvalue
    have hstart : (State.mk (words.map .word) (.unquoted none false)).size
        = words.flatten.length := by
      simp only [State.size, State.text, Mode.text, Mode.pending, flatMap_word, Option.getD_none,
        List.append_nil, Nat.add_zero]
    rw [hstart] at hle
    rw [flatMap_word, Option.getD_none, List.append_nil]
    omega
  obtain ⟨hbare, hbracket, hhead⟩ := bare_of_run hrun hsize
  refine ⟨?_, hbare, hbracket, (hhead rfl).1, (hhead rfl).2⟩
  rintro rfl
  rw [List.append_nil, parse, lex, hline, Option.bind_some] at hparse
  have hwords : simple (words.map .word) = some ⟨words ++ [value], []⟩ := hparse
  rw [simple_words] at hwords
  have hlen := congrArg List.length (Simple.mk.inj (Option.some.inj hwords)).1
  rw [List.length_append, List.length_singleton] at hlen
  omega

/-- **The last word.**  A text after other words is read as one word at least as long as it is,
if and only if it is a bare word; the word is the text. -/
theorem parse_bare_iff (hline : run start line = some ⟨words.map .word, .unquoted none false⟩)
    (hlength : text.length ≤ value.length) :
    parse (line ++ text) = some ⟨words ++ [value], []⟩ ↔ BareWord text ∧ value = text := by
  have hparse (h : BareWord text) : parse (line ++ text) = some ⟨words ++ [text], []⟩ := by
    rw [parse, lex_bareWord hline h, Option.bind_some, simple_words]
  constructor
  · intro h
    have hword := bareWord_of_parse hline hlength h
    rw [hparse hword] at h
    have hwords := (Simple.mk.inj (Option.some.inj h)).1
    exact ⟨hword, (List.singleton_inj.mp (List.append_cancel_left hwords)).symm⟩
  · rintro ⟨hword, rfl⟩
    exact hparse hword

end

end Shell
