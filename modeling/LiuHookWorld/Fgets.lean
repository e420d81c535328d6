/-
# Reading a file through a buffer

The successive results of `fgets` on a file: pieces that end after a newline or when the
buffer is full.  The characters are of an arbitrary type.

* `chunks_append` : a line is delivered before what follows it;
* `chunks_line` : of one line the first piece is its beginning, as long as the buffer allows.
-/
import Mathlib.Data.List.Basic

namespace Fgets

variable {α : Type*} [DecidableEq α] (newline : α) (capacity : ℕ)

/-- What `fgets` delivers, one buffer after the other, of at most `capacity` characters;
`line` is what is already in the buffer. -/
def chunksFrom (line : List α) : List α → List (List α)
  | [] => if line = [] then [] else [line]
  | c :: cs =>
      if c = newline ∨ capacity ≤ line.length + 1 then (line ++ [c]) :: chunksFrom [] cs
      else chunksFrom (line ++ [c]) cs

/-- All results of `fgets` on a file. -/
def chunks (content : List α) : List (List α) := chunksFrom newline capacity [] content

/-- A line: characters other than the newline, and the newline that ends it. -/
structure IsLine (line : List α) : Prop where
  ends : ∃ body, line = body ++ [newline] ∧ newline ∉ body

section

variable {newline capacity}

/-- Nothing is lost. -/
theorem flatten_chunksFrom (line content : List α) :
    (chunksFrom newline capacity line content).flatten = line ++ content := by
  induction content generalizing line with
  | nil =>
      rw [chunksFrom]
      split
      case isTrue h => rw [h]; rfl
      case isFalse => rw [List.flatten_cons, List.flatten_nil]
  | cons c cs ih =>
      rw [chunksFrom]
      split
      · rw [List.flatten_cons, ih, List.nil_append, List.append_assoc, List.singleton_append]
      · rw [ih, List.append_assoc, List.singleton_append]

theorem flatten_chunks (content : List α) :
    (chunks newline capacity content).flatten = content :=
  flatten_chunksFrom [] content

/-- After a newline reading starts afresh. -/
theorem chunksFrom_append {body : List α} (hbody : newline ∉ body) (line rest : List α) :
    chunksFrom newline capacity line (body ++ [newline] ++ rest)
      = chunksFrom newline capacity line (body ++ [newline]) ++ chunks newline capacity rest := by
  induction body generalizing line with
  | nil =>
      simp only [List.nil_append, List.singleton_append, chunksFrom, true_or, if_true]
      rfl
  | cons c cs ih =>
      have hcs : newline ∉ cs := List.not_mem_of_not_mem_cons hbody
      simp only [List.cons_append, chunksFrom]
      split
      · exact congrArg (_ :: ·) (ih hcs [])
      · exact ih hcs (line ++ [c])

theorem chunks_append {line : List α} (hline : IsLine newline line) (rest : List α) :
    chunks newline capacity (line ++ rest)
      = chunks newline capacity line ++ chunks newline capacity rest := by
  obtain ⟨body, rfl, hbody⟩ := hline.ends
  exact chunksFrom_append hbody [] rest

/-- The buffer is filled up to its capacity, or to the end of the line. -/
theorem chunksFrom_line {body : List α} (hbody : newline ∉ body) (line : List α)
    (hline : line.length < capacity) :
    chunksFrom newline capacity line (body ++ [newline])
      = (line ++ (body ++ [newline]).take (capacity - line.length))
        :: chunks newline capacity ((body ++ [newline]).drop (capacity - line.length)) := by
  induction body generalizing line with
  | nil =>
      obtain ⟨n, hn⟩ : ∃ n, capacity - line.length = n + 1 := ⟨_, (Nat.succ_pred (by omega)).symm⟩
      rw [hn]
      simp only [List.nil_append, chunksFrom, true_or, if_true, List.take_succ_cons,
        List.drop_succ_cons, List.take_nil, List.drop_nil, chunks]
  | cons c cs ih =>
      have hc : newline ≠ c := List.ne_of_not_mem_cons hbody
      have hcs : newline ∉ cs := List.not_mem_of_not_mem_cons hbody
      obtain ⟨n, hn⟩ : ∃ n, capacity - line.length = n + 1 := ⟨_, (Nat.succ_pred (by omega)).symm⟩
      rw [hn, List.cons_append, chunksFrom, List.take_succ_cons, List.drop_succ_cons]
      split
      case isTrue hfull =>
        -- the buffer is full
        have hzero : n = 0 := by
          rcases hfull with rfl | hfull
          · exact absurd rfl hc
          · omega
        rw [hzero, List.take_zero, List.drop_zero, chunks]
      case isFalse hroom =>
        have hlength : (line ++ [c]).length = line.length + 1 := List.length_append
        have hleft : capacity - (line ++ [c]).length = n := by omega
        rw [ih hcs (line ++ [c]) (by omega), hleft, List.append_assoc, List.singleton_append]

theorem chunks_line {line : List α} (hline : IsLine newline line) (hcapacity : 0 < capacity) :
    chunks newline capacity line
      = line.take capacity :: chunks newline capacity (line.drop capacity) := by
  obtain ⟨body, rfl, hbody⟩ := hline.ends
  exact chunksFrom_line hbody [] hcapacity

end

end Fgets
