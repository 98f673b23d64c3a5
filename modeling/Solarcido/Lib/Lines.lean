import Mathlib.Data.List.Basic

namespace Solarcido.Lines

variable {α : Type} [DecidableEq α] (newline ret : α)

/-- A line without the return in front of its end; the line is kept in reverse. -/
def endLine : List α → List α
  | [] => []
  | c :: piece => if c = ret then piece.reverse else (c :: piece).reverse

/-- The lines behind a piece, which is kept in reverse. -/
def linesFrom : List α → List α → List (List α)
  | [], [] => []
  | piece, [] => [piece.reverse]
  | piece, c :: rest =>
    if c = newline then endLine ret piece :: linesFrom [] rest else linesFrom (c :: piece) rest

/-- The lines of a text: without their ends, and the last one also where it has none. -/
def lines (text : List α) : List (List α) := linesFrom newline ret [] text

/-- A text with these lines. -/
def unlines (ls : List (List α)) : List α := ls.flatMap (· ++ [newline])

variable {newline ret}

theorem endLine_of_last {piece : List α} (h : piece.head? ≠ some ret) :
    endLine ret piece = piece.reverse := by
  cases piece with
  | nil => rfl
  | cons c piece =>
    have hne : c ≠ ret := fun hc => h (congrArg some hc)
    rw [endLine, if_neg hne]

theorem linesFrom_line {line : List α} (hline : newline ∉ line) (piece rest : List α) :
    linesFrom newline ret piece (line ++ newline :: rest) =
      endLine ret (line.reverse ++ piece) :: linesFrom newline ret [] rest := by
  induction line generalizing piece with
  | nil =>
    rw [List.nil_append, linesFrom, if_pos rfl]
    rfl
  | cons c line ih =>
    have hc : c ≠ newline := fun hc => hline (hc ▸ List.mem_cons_self)
    have hrest : newline ∉ line := fun hmem => hline (List.mem_cons_of_mem c hmem)
    rw [List.cons_append, linesFrom, if_neg hc, ih hrest, List.reverse_cons, List.append_assoc,
      List.singleton_append]

/-- Lines that end nowhere inside, and in no return, are read as they have been written. -/
theorem lines_unlines {ls : List (List α)} (hline : ∀ l ∈ ls, newline ∉ l)
    (hret : ∀ l ∈ ls, l.getLast? ≠ some ret) : lines newline ret (unlines newline ls) = ls := by
  induction ls with
  | nil => rfl
  | cons l ls ih =>
    have hlast : l.reverse.head? ≠ some ret := by
      rw [List.head?_reverse]
      exact hret l List.mem_cons_self
    have hrest := ih (fun m hm => hline m (List.mem_cons_of_mem l hm))
      fun m hm => hret m (List.mem_cons_of_mem l hm)
    rw [lines, unlines] at hrest ⊢
    rw [List.flatMap_cons, List.append_assoc, List.singleton_append,
      linesFrom_line (hline l List.mem_cons_self), List.append_nil, endLine_of_last hlast,
      List.reverse_reverse, hrest]

end Solarcido.Lines
