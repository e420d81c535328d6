/-
# The base address of a library

When `get_base` agrees with the lines of `/proc/self/maps`: the loop sees pieces of lines,
and a piece that is not the beginning of its line can end the search or hide the name.
-/
import LiuHookWorld.MemoryMap

namespace Dumper

variable {abi : Abi} {basename : Text}

/-! ## Where the search stops -/

/-- The loop never returns on an empty piece. -/
theorem lineBase_nil : lineBase abi basename [] = none := by
  rw [lineBase]
  simp only [c_str, List.takeWhile_nil, strchr, List.not_mem_nil, if_false, ite_self]

/-- It stops within what it reads. -/
theorem stopFrom_bounds {position stop : ℕ} {lines : List Text}
    (h : stopFrom abi basename position lines = some stop) :
    position ≤ stop ∧ stop < position + lines.flatten.length := by
  induction lines generalizing position with
  | nil => cases h
  | cons line lines ih =>
      rw [List.flatten_cons, List.length_append]
      rw [stopFrom] at h
      split at h
      case isTrue haccept =>
        obtain rfl := Option.some.inj h
        have hne : line ≠ [] := by
          rintro rfl
          rw [lineBase_nil] at haccept
          cases haccept
        have hpos := List.length_pos_of_ne_nil hne
        omega
      case isFalse =>
        have := ih h
        omega

/-- Pieces on which it goes on are passed over. -/
theorem stopFrom_append_of_none {position : ℕ} {lines : List Text} (lines' : List Text)
    (h : ∀ line ∈ lines, lineBase abi basename line = none) :
    stopFrom abi basename position (lines ++ lines')
      = stopFrom abi basename (position + lines.flatten.length) lines' := by
  induction lines generalizing position with
  | nil => rfl
  | cons line lines ih =>
      obtain ⟨hline, hlines⟩ := List.forall_mem_cons.mp h
      rw [List.cons_append, stopFrom, hline, List.flatten_cons, List.length_append,
        ← Nat.add_assoc]
      exact ih hlines

/-- At a piece on which it returns it stops. -/
theorem stopFrom_append_of_some (position : ℕ) {lines : List Text} (lines' : List Text)
    (h : ∃ line ∈ lines, lineBase abi basename line ≠ none) :
    ∃ stop, stopFrom abi basename position (lines ++ lines') = some stop
      ∧ stop < position + lines.flatten.length := by
  induction lines generalizing position with
  | nil =>
      obtain ⟨line, hline, -⟩ := h
      cases hline
  | cons line lines ih =>
      rw [List.cons_append, stopFrom]
      by_cases hline : lineBase abi basename line = none
      · obtain ⟨line', hmem, hline'⟩ := h
        have hmem' : line' ∈ lines :=
          (List.mem_cons.mp hmem).resolve_left fun heq => hline' (heq ▸ hline)
        obtain ⟨stop, hstop, hlt⟩ :=
          ih (position + line.length) ⟨line', hmem', hline'⟩
        refine ⟨stop, ?_, ?_⟩
        · rw [hline]
          exact hstop
        · rw [List.flatten_cons, List.length_append]
          omega
      · have haccept := Option.isSome_iff_ne_none.mpr hline
        refine ⟨position, by rw [haccept]; rfl, ?_⟩
        have hne : line ≠ [] := by
          rintro rfl
          exact hline lineBase_nil
        have hpos := List.length_pos_of_ne_nil hne
        rw [List.flatten_cons, List.length_append]
        omega

/-! ## The first line that matches -/

/-- The lines before the first one that matches. -/
def unmatched (basename : Text) (lines : List (MapsLine abi)) : List (MapsLine abi) :=
  lines.takeWhile fun l => ¬ l.Matches basename

/-- The first line that matches. -/
def firstMatch (basename : Text) (lines : List (MapsLine abi)) : Option (MapsLine abi) :=
  lines.find? fun l => l.Matches basename

section

variable {l : MapsLine abi} (lines : List (MapsLine abi))

theorem unmatched_cons_of_matches (hl : l.Matches basename) :
    unmatched basename (l :: lines) = [] :=
  List.takeWhile_cons_of_neg (by simpa using hl)

theorem unmatched_cons_of_not_matches (hl : ¬ l.Matches basename) :
    unmatched basename (l :: lines) = l :: unmatched basename lines :=
  List.takeWhile_cons_of_pos (by simpa using hl)

theorem firstMatch_cons_of_matches (hl : l.Matches basename) :
    firstMatch basename (l :: lines) = some l :=
  List.find?_cons_of_pos (by simpa using hl)

theorem firstMatch_cons_of_not_matches (hl : ¬ l.Matches basename) :
    firstMatch basename (l :: lines) = firstMatch basename lines :=
  List.find?_cons_of_neg (by simpa using hl)

end

/-- The search that starts at `position` and reads `lines` ends where the first line that
matches begins, with its address; without such a line it ends nowhere, with 0. -/
def FindsFrom (basename : Text) (position : ℕ) (lines : List (MapsLine abi)) : Prop :=
  match firstMatch basename lines with
  | none => stopFrom abi basename position (pieces (mapsOf lines)) = none
      ∧ get_base abi (some (mapsOf lines)) basename = 0
  | some l => stopFrom abi basename position (pieces (mapsOf lines))
        = some (position + (mapsOf (unmatched basename lines)).length)
      ∧ get_base abi (some (mapsOf lines)) basename = l.address

/-- `get_base` returns the start address of the first line that matches, from the beginning of
that line; 0 if there is none. -/
def FindsFirst (basename : Text) (lines : List (MapsLine abi)) : Prop :=
  FindsFrom basename 0 lines

/-- No piece of an earlier line ends the search, and the first line that matches has the name
in its first piece, without `[anon:`. -/
def Readable (basename : Text) (lines : List (MapsLine abi)) : Prop :=
  (∀ l ∈ unmatched basename lines, ∀ piece ∈ pieces l.text, lineBase abi basename piece = none)
    ∧ ∀ l ∈ firstMatch basename lines, l.Visible basename

theorem pieces_cons (l : MapsLine abi) (lines : List (MapsLine abi)) :
    pieces (mapsOf (l :: lines)) = pieces l.text ++ pieces (mapsOf lines) := by
  rw [mapsOf, List.flatMap_cons]
  exact Fgets.chunks_append l.text_isLine _

theorem flatten_pieces (content : Text) : (pieces content).flatten = content :=
  Fgets.flatten_chunks content

/-- A line whose pieces are passed over leaves the address to the rest. -/
theorem get_base_cons_of_none {l : MapsLine abi} (lines : List (MapsLine abi))
    (h : ∀ piece ∈ pieces l.text, lineBase abi basename piece = none) :
    get_base abi (some (mapsOf (l :: lines))) basename
      = get_base abi (some (mapsOf lines)) basename := by
  have hnone : (pieces l.text).findSome? (lineBase abi basename) = none :=
    List.findSome?_eq_none_iff.mpr h
  simp only [get_base, pieces_cons, List.findSome?_append, hnone, Option.none_or]

/-- The step: a line that does not match must be passed over. -/
theorem findsFrom_cons_of_not_matches {position : ℕ} {l : MapsLine abi}
    (lines : List (MapsLine abi)) (hl : ¬ l.Matches basename) :
    FindsFrom basename position (l :: lines) ↔
      (∀ piece ∈ pieces l.text, lineBase abi basename piece = none)
        ∧ FindsFrom basename (position + l.text.length) lines := by
  have hfirst := firstMatch_cons_of_not_matches lines hl
  have hunmatched : (mapsOf (unmatched basename (l :: lines))).length
      = l.text.length + (mapsOf (unmatched basename lines)).length := by
    rw [unmatched_cons_of_not_matches lines hl, mapsOf, List.flatMap_cons, List.length_append]
    rfl
  by_cases hpass : ∀ piece ∈ pieces l.text, lineBase abi basename piece = none
  · have hstop : stopFrom abi basename position (pieces (mapsOf (l :: lines)))
        = stopFrom abi basename (position + l.text.length) (pieces (mapsOf lines)) := by
      rw [pieces_cons, stopFrom_append_of_none _ hpass, flatten_pieces]
    rw [FindsFrom, FindsFrom, hfirst, hstop, get_base_cons_of_none lines hpass, hunmatched,
      Nat.add_assoc]
    exact (and_iff_right hpass).symm
  · -- the search ends in this line
    have hend : ∃ piece ∈ pieces l.text, lineBase abi basename piece ≠ none := by
      simpa using hpass
    obtain ⟨stop, hstop, hlt⟩ :=
      stopFrom_append_of_some position (pieces (mapsOf lines)) hend
    rw [flatten_pieces] at hlt
    refine ⟨fun h => ?_, fun h => absurd h.1 hpass⟩
    rw [FindsFrom, hfirst, pieces_cons, hstop, hunmatched] at h
    cases hfind : firstMatch basename lines with
    | none =>
        rw [hfind] at h
        cases h.1
    | some l' =>
        rw [hfind] at h
        have := Option.some.inj h.1
        omega

/-- At a line that matches the search must end, on its first piece. -/
theorem findsFrom_cons_of_matches {position : ℕ} {l : MapsLine abi}
    (lines : List (MapsLine abi)) (hl : l.Matches basename) :
    FindsFrom basename position (l :: lines) ↔ l.Visible basename := by
  rw [FindsFrom, firstMatch_cons_of_matches lines hl, unmatched_cons_of_matches lines hl,
    get_base, pieces_cons, l.pieces_text]
  by_cases hv : l.Visible basename
  · have hbase := MapsLine.lineBase_of_visible hl hv
    refine iff_of_true ⟨?_, ?_⟩ hv
    · rw [List.cons_append, stopFrom, hbase]
      rfl
    · rw [List.cons_append, List.findSome?_cons, hbase]
      rfl
  · refine iff_of_false (fun h => ?_) hv
    have hstop := h.1
    rw [List.cons_append, stopFrom, MapsLine.lineBase_of_not_visible hv] at hstop
    have hlow := (stopFrom_bounds hstop).1
    obtain ⟨more, hmore⟩ := l.beginning_eq
    have hpos : 0 < l.beginning.length := by
      rw [hmore, List.length_append, List.length_cons]
      omega
    rw [mapsOf, List.flatMap_nil, List.length_nil] at hlow
    omega

theorem findsFrom_iff (position : ℕ) (lines : List (MapsLine abi)) :
    FindsFrom basename position lines ↔ Readable basename lines := by
  induction lines generalizing position with
  | nil =>
      refine iff_of_true ⟨rfl, rfl⟩ ⟨fun l hl => ?_, fun l hl => ?_⟩
      · cases hl
      · cases hl
  | cons l lines ih =>
      by_cases hl : l.Matches basename
      · rw [findsFrom_cons_of_matches lines hl, Readable, firstMatch_cons_of_matches lines hl,
          unmatched_cons_of_matches lines hl]
        simp
      · rw [findsFrom_cons_of_not_matches lines hl, ih, Readable, Readable,
          firstMatch_cons_of_not_matches lines hl, unmatched_cons_of_not_matches lines hl,
          List.forall_mem_cons, and_assoc]

/-- `get_base` agrees with the map exactly when the pieces do not mislead it. -/
theorem get_base_iff_readable (abi : Abi) (basename : Text) (lines : List (MapsLine abi)) :
    FindsFirst basename lines ↔ Readable basename lines :=
  findsFrom_iff 0 lines

/-! ## A long line -/

/-- The only mapping of a library: a path so long that its name lies in the second piece of the
line, after a directory with a dash.  The directories before it have 230 and 231 characters. -/
def longLine : MapsLine .arm64_v8a where
  start := ascii "7a12340000"
  rest := ascii "7a12350000 r-xp 00000000 fd:05 4711 /" ++ List.replicate 230 0x61
    ++ ascii "/" ++ List.replicate 231 0x61 ++ ascii "/dead-beef/libil2cpp.so"
  start_ne_nil := by decide
  start_length := by decide
  start_digits := List.all_iff_forall_prop.mp (by decide)
  start_lt := by decide
  rest_newline := by decide +kernel
  rest_nul := by decide +kernel

/-- The address returned is the number the second piece begins with. -/
theorem not_get_base_longLine :
    get_base .arm64_v8a (some (mapsOf [longLine])) (ascii "libil2cpp.so")
      ≠ ((firstMatch (ascii "libil2cpp.so") [longLine]).map MapsLine.address).getD 0 := by
  decide +kernel

end Dumper
