/-
# The commands of the root helpers

`RootUtils.mkdir`, `rm`, `chmod`, `chown` and `readFile` put the path at the end of a command
line as it is, and `executeRootCommandSync` writes the low byte of each character to `su`.  The
path comes through as one word exactly if it is a bare word of ASCII characters
(`oneWord_iff`).

Strings are UTF-16 code units.  The shell reads bytes, and a path is its UTF-8 bytes.
-/
import LiuHookWorld.ShellWords
import LiuHookWorld.Utf16

namespace RootUtils

open Shell

/-! ## The source -/

/-- `DataOutputStream.writeBytes`: the low byte of each character. -/
def writeBytes (s : Text) : Text := s.map (· &&& 0xFF)

/-- What `executeRootCommandSync` writes to `su`. -/
def stdin (command : Text) : Text :=
  writeBytes (command ++ [newline]) ++ writeBytes (chars "exit\n")

/-- The path is not quoted, here and in the others. -/
def mkdir (path : Text) : Text := chars "mkdir -p " ++ path

/-- `rm -rf` of the path. -/
def rm (path : Text) : Text := chars "rm -rf " ++ path

/-- The mode comes before the path. -/
def chmod (path mode : Text) : Text := chars "chmod " ++ mode ++ chars " " ++ path

/-- The owner comes before the path. -/
def chown (path owner : Text) : Text := chars "chown " ++ owner ++ chars " " ++ path

/-- The output of `cat` is what is read. -/
def readFile (path : Text) : Text := chars "cat " ++ path

/-! ## Paths as words -/

/-- A string without NUL. -/
structure Path where
  text : Text
  noNul : (0 : UInt16) ∉ text

/-- Every character is below `U+0080`. -/
def IsAscii (s : Text) : Prop := ∀ c ∈ s, c.toNat < 0x80

/-- A mode or an owner that needs no quotes. -/
structure Argument where
  text : Text
  ascii : IsAscii text
  word : BareWord text

/-- The helpers, with their fixed arguments. -/
inductive Helper
  | mkdir
  | rm
  | chmod (mode : Argument)
  | chown (owner : Argument)
  | readFile

/-- The command that a helper passes to the root shell. -/
def Helper.command (path : Text) : Helper → Text
  | .mkdir => RootUtils.mkdir path
  | .rm => RootUtils.rm path
  | .chmod mode => RootUtils.chmod path mode.text
  | .chown owner => RootUtils.chown path owner.text
  | .readFile => RootUtils.readFile path

/-- The words before the path. -/
def Helper.words : Helper → List Text
  | .mkdir => [chars "mkdir", chars "-p"]
  | .rm => [chars "rm", chars "-rf"]
  | .chmod mode => [chars "chmod", mode.text]
  | .chown owner => [chars "chown", owner.text]
  | .readFile => [chars "cat"]

/-- Only `rm` deletes. -/
def Helper.isRm : Helper → Bool
  | .rm => true
  | _ => false

/-- The bytes of a path. -/
def bytes (path : Text) : Text := (Utf16.utf8 path).map UInt8.toUInt16

/-- The word is taken as an option, or as the end of the options. -/
def isOption (word : Text) : Bool := word.head? = some 0x2D && word ≠ [0x2D]

/-- The command is one simple command with the path as its last word, `su` reads nothing after
it but `exit`, and `rm` does not take the path for an option. -/
structure OneWord (h : Helper) (path : Text) : Prop where
  command : parse (writeBytes (h.command path)) = some ⟨h.words ++ [bytes path], []⟩
  stdin : lex (stdin (h.command path))
    = some ((h.words ++ [bytes path]).map .word ++ [.newline, .word (chars "exit"), .newline])
  operand : h.isRm = true → isOption (bytes path) = false

/-- The path stands for itself in a command line. -/
structure Plain (h : Helper) (path : Text) : Prop where
  ascii : IsAscii path
  word : BareWord path
  operand : h.isRm = true → isOption path = false

/-! ## Bytes -/

theorem writeBytes_append (s t : Text) : writeBytes (s ++ t) = writeBytes s ++ writeBytes t :=
  List.map_append

/-- Each character is one byte. -/
theorem length_writeBytes (s : Text) : (writeBytes s).length = s.length := List.length_map _

theorem and_FF_of_ascii {c : UInt16} (h : c.toNat < 0x80) : c &&& 0xFF = c := by
  have hmask : (0xFF : UInt16).toNat = 2 ^ 8 - 1 := rfl
  rw [← UInt16.toNat_inj, UInt16.toNat_and, hmask, Nat.and_two_pow_sub_one_eq_mod]
  exact Nat.mod_eq_of_lt (by omega)

/-- ASCII characters are written as they are. -/
theorem writeBytes_of_ascii {s : Text} (h : IsAscii s) : writeBytes s = s := by
  rw [writeBytes, List.map_congr_left fun c hc => and_FF_of_ascii (h c hc), List.map_id']

theorem toUInt16_of_ascii {c : UInt16} (h : c.toNat < 0x80) : c.toUInt8.toUInt16 = c := by
  rw [← UInt16.toNat_inj, UInt8.toNat_toUInt16, UInt16.toNat_toUInt8]
  exact Nat.mod_eq_of_lt (by omega)

/-- The bytes of an ASCII path are its characters. -/
theorem bytes_of_ascii {path : Text} (h : IsAscii path) : bytes path = path := by
  have hchars : path.map (UInt8.toUInt16 ∘ UInt16.toUInt8) = path.map id :=
    List.map_congr_left fun c hc => toUInt16_of_ascii (h c hc)
  rw [bytes, Utf16.utf8_of_ascii h, List.map_map, hchars, List.map_id]

theorem length_le_length_bytes (path : Text) : path.length ≤ (bytes path).length := by
  rw [bytes, List.length_map]
  exact (Utf16.length_utf8 path).1

/-- A path that is not longer in bytes is written as it is. -/
theorem ascii_of_length {path : Text} (h : (bytes path).length ≤ path.length) : IsAscii path := by
  rw [bytes, List.length_map] at h
  exact (Utf16.length_utf8 path).2 h

/-! ## What comes before and after the path -/

/-- The command line up to the path. -/
def Helper.line : Helper → Text
  | .mkdir => chars "mkdir -p "
  | .rm => chars "rm -rf "
  | .chmod mode => chars "chmod " ++ mode.text ++ chars " "
  | .chown owner => chars "chown " ++ owner.text ++ chars " "
  | .readFile => chars "cat "

theorem command_eq (h : Helper) (path : Text) : h.command path = h.line ++ path := by
  cases h <;> rfl

section

variable {line text : Text} {words : List Text}

/-- A `$` at the end of a word is literal before a blank or a newline. -/
theorem run_parameter_blank {c : UInt16} (hc : c = newline ∨ c = 0x20) (rest : Text)
    (tokens : List Token) (word : Text) (quoted : Bool) :
    run ⟨tokens, .parameter word quoted⟩ (c :: rest)
      = run ⟨tokens, .unquoted (some (word ++ [dollar])) quoted⟩ (c :: rest) := by
  rcases hc with rfl | rfl
  · exact run_parameter (by decide +kernel) (by decide) rest
  · exact run_parameter (by decide +kernel) (by decide) rest

/-- A bare word and a blank are one more word. -/
theorem run_argument (hline : run start line = some ⟨words.map .word, .unquoted none false⟩)
    (h : BareWord text) :
    run start (line ++ text ++ chars " ")
      = some ⟨(words ++ [text]).map .word, .unquoted none false⟩ := by
  rw [run_append, run_append, hline, Option.bind_some,
    run_bareWord (f := fun s => run s (chars " "))
      (fun word => run_parameter_blank (.inr rfl) [] _ word false) h, List.map_append]
  rfl

theorem lex_stdin (hline : run start line = some ⟨words.map .word, .unquoted none false⟩)
    (h : BareWord text) :
    lex (line ++ text ++ newline :: chars "exit\n")
      = some ((words ++ [text]).map .word ++ [.newline, .word (chars "exit"), .newline]) := by
  rw [lex, run_append, run_append, hline, Option.bind_some,
    run_bareWord (f := fun s => run s (newline :: chars "exit\n"))
      (fun word => run_parameter_blank (.inl rfl) _ _ word false) h]
  -- the newline ends the command, and the second one ends `exit`
  have hend : run ⟨words.map .word, .unquoted (some text) false⟩ (newline :: chars "exit\n")
      = some ⟨words.map .word ++ [.word text] ++ [.newline] ++ [.word (chars "exit")]
        ++ [.newline], .unquoted none false⟩ := rfl
  rw [hend, Option.bind_some]
  simp [finish, State.delimit]

/-- The command line up to the path is the words before it. -/
theorem run_line (h : Helper) :
    run start (writeBytes h.line) = some ⟨h.words.map .word, .unquoted none false⟩ := by
  cases h with
  | mkdir => decide +kernel
  | rm => decide +kernel
  | chmod mode =>
      rw [Helper.line, writeBytes_append, writeBytes_append, writeBytes_of_ascii mode.ascii]
      have hchmod : run start (writeBytes (chars "chmod "))
          = some ⟨[chars "chmod"].map .word, .unquoted none false⟩ := by decide +kernel
      exact run_argument hchmod mode.word
  | chown owner =>
      rw [Helper.line, writeBytes_append, writeBytes_append, writeBytes_of_ascii owner.ascii]
      have hchown : run start (writeBytes (chars "chown "))
          = some ⟨[chars "chown"].map .word, .unquoted none false⟩ := by decide +kernel
      exact run_argument hchown owner.word
  | readFile => decide +kernel

end

/-! ## One word -/

/-- A path that stands for itself comes through. -/
theorem oneWord_of_plain {h : Helper} {path : Text} (hplain : Plain h path) : OneWord h path := by
  have hbytes := bytes_of_ascii hplain.ascii
  have hcommand : writeBytes (h.command path) = writeBytes h.line ++ path := by
    rw [command_eq, writeBytes_append, writeBytes_of_ascii hplain.ascii]
  constructor
  · rw [hcommand, hbytes]
    exact (parse_bare_iff (run_line h) (Nat.le_refl _)).mpr ⟨hplain.word, rfl⟩
  · have hexit : writeBytes [newline] ++ writeBytes (chars "exit\n")
        = newline :: chars "exit\n" := by decide +kernel
    rw [stdin, writeBytes_append, hcommand, List.append_assoc (_ ++ _), hexit, hbytes]
    exact lex_stdin (run_line h) hplain.word
  · rw [hbytes]
    exact hplain.operand

/-- **Paths as words.**  The shell reads the command of a helper as one simple command with the
path as its last word if and only if the path is a bare word of ASCII characters, which is no
option in the case of `rm`. -/
theorem oneWord_iff (h : Helper) (path : Path) : OneWord h path.text ↔ Plain h path.text := by
  refine ⟨fun hword => ?_, oneWord_of_plain⟩
  have hparse := hword.command
  rw [command_eq, writeBytes_append] at hparse
  have hlength : (writeBytes path.text).length ≤ (bytes path.text).length := by
    rw [length_writeBytes]
    exact length_le_length_bytes path.text
  obtain ⟨hbare, heq⟩ := (parse_bare_iff (run_line h) hlength).mp hparse
  -- the bytes are as many as the characters
  have hascii : IsAscii path.text := ascii_of_length (by rw [heq, length_writeBytes])
  rw [writeBytes_of_ascii hascii] at hbare
  refine ⟨hascii, hbare, fun hrm => ?_⟩
  rw [← bytes_of_ascii hascii]
  exact hword.operand hrm

/-- A blank makes two operands of a path. -/
theorem not_oneWord_blank : ¬ ∀ (h : Helper) (path : Path), OneWord h path.text := by
  intro h
  have hrm := (h .rm ⟨chars "/sdcard/a b", by decide +kernel⟩).command
  revert hrm
  decide +kernel

example : parse (writeBytes (rm (chars "/sdcard/a b")))
    = some ⟨[chars "rm", chars "-rf", chars "/sdcard/a", chars "b"], []⟩ := by decide +kernel

end RootUtils
