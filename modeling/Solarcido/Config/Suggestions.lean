import Solarcido.Js.LowerCase
import Solarcido.Lib.EditDistance
import Solarcido.Lib.Selection

namespace Solarcido.Config

open Text EditDistance Selection

section rows

variable (a b : JsString)

/-- One round of the inner loop: `curr[j + 1]` from the row before and the cell before. -/
def nextCell (i : Nat) (prev curr : List Nat) (j : Nat) : List Nat :=
  let cost := if a[i]? = b[j]? then 0 else 1
  curr.set (j + 1) (min (min (prev.getD (j + 1) 0 + 1) (curr.getD j 0 + 1)) (prev.getD j 0 + cost))

/-- One round of the outer loop on the two arrays. -/
def nextRow (rows : List Nat × List Nat) (i : Nat) : List Nat × List Nat :=
  let curr := (List.range b.length).foldl (nextCell a b i rows.1) (rows.2.set 0 (i + 1))
  (curr, curr)

/-- `prev` and `curr` after some rounds. The fresh array's holes stand as zeros: each cell is
written before it is read. -/
def rowsAfter (rounds : Nat) : List Nat × List Nat :=
  let prev := List.range (b.length + 1)
  let curr := List.replicate (b.length + 1) 0
  (List.range rounds).foldl (nextRow a b) (prev, curr)

def levenshtein : Nat :=
  if a.length = 0 then b.length
  else if b.length = 0 then a.length
  else (rowsAfter a b a.length).1.getD b.length 0

end rows

def suggestKey (input : JsString) (knownKeys : List JsString) : Option JsString :=
  let inputLower := toLowerCase input
  (knownKeys.foldl (nearer fun key => levenshtein inputLower (toLowerCase key)) (none, 4)).1

variable {a b : JsString} {i j n : Nat}

/-- The distance of the first `i` units of one text to the first `j` of the other. -/
def frontDistance (a b : JsString) (i j : Nat) : Nat :=
  distance (a.take i).reverse (b.take j).reverse

theorem frontDistance_zero_left (h : j ≤ b.length) : frontDistance a b 0 j = j := by
  rw [frontDistance, List.take_zero, List.reverse_nil, distance_nil_left, List.length_reverse,
    List.length_take, Nat.min_eq_left h]

theorem frontDistance_zero_right (h : i ≤ a.length) : frontDistance a b i 0 = i := by
  rw [frontDistance, List.take_zero, List.reverse_nil, distance_nil_right, List.length_reverse,
    List.length_take, Nat.min_eq_left h]

theorem reverse_take_succ {s : JsString} (h : i < s.length) :
    (s.take (i + 1)).reverse = s[i] :: (s.take i).reverse := by
  rw [List.take_add_one, List.getElem?_eq_getElem h, Option.toList_some, List.reverse_append,
    List.reverse_singleton, List.singleton_append]

theorem frontDistance_succ (hi : i < a.length) (hj : j < b.length) :
    frontDistance a b (i + 1) (j + 1) =
      min (min (frontDistance a b i (j + 1) + 1) (frontDistance a b (i + 1) j + 1))
        (frontDistance a b i j + if a[i]? = b[j]? then 0 else 1) := by
  have hcost : (if a[i]? = b[j]? then 0 else 1) = cost a[i] b[j] := by
    rw [List.getElem?_eq_getElem hi, List.getElem?_eq_getElem hj, cost]
    simp only [Option.some.injEq]
  simp only [frontDistance, reverse_take_succ hi, reverse_take_succ hj]
  rw [distance_cons_cons, hcost]

/-- The first cells of a row hold the distances to the first parts of the other text. -/
structure RowUpTo (a b : JsString) (i n : Nat) (row : List Nat) : Prop where
  length : row.length = b.length + 1
  cell : ∀ k ≤ n, row.getD k 0 = frontDistance a b i k

theorem rowUpTo_nextCell {prev curr : List Nat} (hi : i < a.length) (hj : j < b.length)
    (hprev : RowUpTo a b i b.length prev) (hcurr : RowUpTo a b (i + 1) j curr) :
    RowUpTo a b (i + 1) (j + 1) (nextCell a b i prev curr j) := by
  have hlen := hcurr.length
  constructor
  · rw [nextCell, List.length_set, hlen]
  · intro k hk
    rw [nextCell]
    by_cases hlast : k = j + 1
    · subst hlast
      rw [List.getD_eq_getElem?_getD, List.getElem?_set_self (by omega), Option.getD_some,
        hprev.cell (j + 1) hj, hprev.cell j hj.le, hcurr.cell j (Nat.le_refl j),
        frontDistance_succ hi hj]
    · rw [List.getD_eq_getElem?_getD, List.getElem?_set_ne (by omega),
        ← List.getD_eq_getElem?_getD]
      exact hcurr.cell k (by omega)

/-- The inner loop fills the row cell by cell. -/
theorem rowUpTo_foldl {prev curr : List Nat} (hi : i < a.length)
    (hprev : RowUpTo a b i b.length prev) (hcurr : RowUpTo a b (i + 1) 0 curr)
    (hn : n ≤ b.length) :
    RowUpTo a b (i + 1) n ((List.range n).foldl (nextCell a b i prev) curr) := by
  induction n with
  | zero => exact hcurr
  | succ n ih =>
    rw [List.range_succ, List.foldl_append]
    exact rowUpTo_nextCell hi hn hprev (ih (Nat.le_of_succ_le hn))

theorem rowUpTo_start {row : List Nat} (hi : i < a.length) (hlen : row.length = b.length + 1) :
    RowUpTo a b (i + 1) 0 (row.set 0 (i + 1)) := by
  constructor
  · rw [List.length_set, hlen]
  · intro k hk
    obtain rfl : k = 0 := Nat.le_zero.mp hk
    rw [List.getD_eq_getElem?_getD, List.getElem?_set_self (by omega), Option.getD_some,
      frontDistance_zero_right hi]

theorem rowsAfter_succ (a b : JsString) (n : Nat) :
    rowsAfter a b (n + 1) = nextRow a b (rowsAfter a b n) n := by
  rw [rowsAfter, List.range_succ (n := n), List.foldl_append]
  rfl

/-- Between two rounds of the outer loop the first array is a whole row. -/
theorem rowUpTo_rowsAfter (hn : n ≤ a.length) :
    RowUpTo a b n b.length (rowsAfter a b n).1 ∧
      (rowsAfter a b n).2.length = b.length + 1 := by
  induction n with
  | zero =>
    refine ⟨⟨List.length_range, fun k hk => ?_⟩, List.length_replicate⟩
    rw [rowsAfter, List.range_zero, List.foldl_nil, List.getD_eq_getElem?_getD,
      List.getElem?_range (by omega), Option.getD_some, frontDistance_zero_left hk]
  | succ n ih =>
    obtain ⟨hprev, hcurr⟩ := ih (Nat.le_of_succ_le hn)
    have hrow := rowUpTo_foldl hn hprev (rowUpTo_start hn hcurr) (Nat.le_refl b.length)
    rw [rowsAfter_succ]
    exact ⟨hrow, hrow.length⟩

theorem levenshtein_eq (a b : JsString) : levenshtein a b = distance a b := by
  rw [levenshtein]
  split
  · next ha => rw [List.length_eq_zero_iff.mp ha, distance_nil_left]
  · split
    · next hb => rw [List.length_eq_zero_iff.mp hb, distance_nil_right]
    · obtain ⟨hrow, -⟩ := rowUpTo_rowsAfter (a := a) (b := b) (Nat.le_refl a.length)
      have hcell := hrow.cell b.length (Nat.le_refl b.length)
      rw [frontDistance, List.take_length, List.take_length, distance_reverse] at hcell
      exact hcell

/-- How far a known key is from the input, both in lower case. -/
def keyDistance (input key : JsString) : Nat := levenshtein (toLowerCase input) (toLowerCase key)

theorem levenshtein_suggestKey :
    (∀ a b : JsString, IsLeast {n | Edits n a b} (levenshtein a b)) ∧
      ∀ (input : JsString) (knownKeys : List JsString),
        ((suggestKey input knownKeys).isSome ↔ ∃ key ∈ knownKeys, keyDistance input key ≤ 3) ∧
          ∀ key ∈ suggestKey input knownKeys,
            IsFirstNearest (keyDistance input) knownKeys key := by
  refine ⟨fun a b => ?_, fun input knownKeys => ?_⟩
  · rw [levenshtein_eq]
    exact distance_isLeast a b
  · have hfound := found_nearest (keyDistance input) 4 knownKeys
    have hsuggest : suggestKey input knownKeys =
      (knownKeys.foldl (nearer (keyDistance input)) (none, 4)).1 := rfl
    rw [hsuggest]
    cases hbest : knownKeys.foldl (nearer (keyDistance input)) (none, 4) with
    | mk best d =>
      rw [hbest] at hfound
      cases best with
      | none =>
        obtain ⟨-, hfar⟩ := hfound
        refine ⟨iff_of_false (by simp) ?_, by simp⟩
        rintro ⟨key, hkey, hnear⟩
        have := hfar key hkey
        omega
      | some key =>
        obtain ⟨-, hlt, hfirst⟩ := hfound
        refine ⟨iff_of_true rfl ⟨key, hfirst.mem, by omega⟩, ?_⟩
        rintro _ ⟨⟩
        exact hfirst

end Solarcido.Config
