import Solarcido.Tools.FileOps

namespace Solarcido.Tools

open Text

/-- The lines of a text with their numbers. -/
def numberedLines (content : JsString) : List (JsString × Nat) := (splitLines content).zipIdx 1

/-- A line behind its number. -/
def numberedRow (width : Nat) (row : JsString × Nat) : JsString :=
  padStart width (Number.decimal row.2) ++ js " | " ++ row.1

/-- A text shows numbered lines, one a row, all numbers of one width or more. -/
def Shows (text : JsString) (rows : List (JsString × Nat)) : Prop :=
  ∃ width, text = join (js "\n") (rows.map (numberedRow width))

section places

@[simp] theorem slicePlace_nan (n : Nat) : slicePlace .nan n = 0 := rfl

@[simp] theorem slicePlace_nat (k n : Nat) : slicePlace (.finite k) n = min k n := by
  have hk : ¬ (k : ℚ) < 0 := not_lt.mpr (Nat.cast_nonneg k)
  have hfloor : (k : ℚ).floor = (k : Int) := Rat.floor_intCast k
  simp [slicePlace, hk, hfloor]

theorem slicePlace_le (n : JsNumber) (length : Nat) : slicePlace n length ≤ length := by
  cases n with
  | nan => exact Nat.zero_le length
  | infinite negative => cases negative <;> simp [slicePlace]
  | finite q =>
    simp only [slicePlace]
    generalize (if q < 0 then -(-q).floor else q.floor) = k
    by_cases h : k < 0
    · rw [if_pos h]
      omega
    · rw [if_neg h]
      exact Nat.min_le_right k.toNat length

theorem slicePlace_min (n : Nat) (m : JsNumber) :
    slicePlace ((JsNumber.ofInt n).min m) n = slicePlace m n := by
  cases m with
  | nan => rfl
  | infinite negative =>
    cases negative with
    | true => rfl
    | false => exact (slicePlace_nat n n).trans (min_self n)
  | finite q =>
    by_cases h : (n : ℚ) < q
    · have hn : (JsNumber.ofInt n).min (.finite q) = .finite n := by
        simp [JsNumber.min, JsNumber.gt, JsNumber.ofInt, h]
      have hq : ¬ q < 0 := not_lt.mpr ((Nat.cast_nonneg n).trans h.le)
      have hfloor : (n : Int) ≤ q.floor := Rat.le_floor_iff.mpr (by exact_mod_cast h.le)
      have hneg : ¬ q.floor < 0 := by omega
      rw [hn, slicePlace_nat, min_self]
      simp only [slicePlace, if_neg hq, if_neg hneg]
      exact (Nat.min_eq_right (by omega)).symm
    · have hn : (JsNumber.ofInt n).min (.finite q) = .finite q := by
        simp [JsNumber.min, JsNumber.gt, JsNumber.ofInt, h]
      rw [hn]

/-- A number that is one at least, as `Math.max` and `Math.floor` give it. -/
inductive Counting : JsNumber → Prop
  | nan : Counting .nan
  | infinite : Counting (.infinite false)
  | nat (k : Nat) : Counting (.finite (k + 1 : Nat))

/-- The number that `Math.max(1, Math.floor(q))` stands for. -/
def atLeastOne (q : ℚ) : Nat := (max 1 q.floor).toNat

theorem max_one_floor (q : ℚ) : (JsNumber.ofInt 1).max (JsNumber.finite q).floor =
    .finite (atLeastOne q : ℚ) := by
  have hcast : ((atLeastOne q : Nat) : ℚ) = ((max 1 q.floor : Int) : ℚ) := by
    have hnonneg : (0 : Int) ≤ max 1 q.floor := le_trans Int.one_nonneg (le_max_left 1 _)
    rw [atLeastOne, ← Int.cast_natCast, Int.toNat_of_nonneg hnonneg]
  rw [hcast]
  simp only [JsNumber.max, JsNumber.floor, JsNumber.ofInt, JsNumber.gt]
  by_cases h : q.floor < 1
  · have hcast : (q.floor : ℚ) < 1 := by exact_mod_cast h
    simp [hcast, max_eq_left h.le]
  · have hle : 1 ≤ q.floor := not_lt.mp h
    have hcast : ¬ (q.floor : ℚ) < 1 := by exact_mod_cast h
    simp [hcast, max_eq_right hle]

theorem one_le_atLeastOne (q : ℚ) : 1 ≤ atLeastOne q := by
  rw [atLeastOne]
  omega

theorem max_floor_nat (k : Nat) :
    (JsNumber.ofInt 1).max (JsNumber.ofInt (k + 1 : Nat)).floor = .finite (k + 1 : Nat) := by
  have hleast : atLeastOne (((k + 1 : Nat) : Int) : ℚ) = k + 1 := by
    rw [atLeastOne, Rat.floor_intCast]
    omega
  have hmax := max_one_floor ((k + 1 : Nat) : Int)
  rwa [hleast] at hmax

theorem counting_max_floor (n : JsNumber) : Counting ((JsNumber.ofInt 1).max n.floor) := by
  cases n with
  | nan => exact .nan
  | infinite negative =>
    cases negative with
    | true => exact .nat 0
    | false => exact .infinite
  | finite q =>
    rw [max_one_floor, ← Nat.sub_add_cancel (one_le_atLeastOne q)]
    exact .nat _

theorem window_first (s n : Nat) :
    slicePlace ((JsNumber.finite (s + 1 : Nat)).addInt (-1)) n = min s n := by
  rw [← slicePlace_nat]
  simp [JsNumber.addInt]

theorem window_last (s c n : Nat) :
    slicePlace ((JsNumber.ofInt n).min
      (((JsNumber.finite (s + 1 : Nat)).add (.finite (c + 1 : Nat))).addInt (-1))) n =
      min (s + (c + 1)) n := by
  have hlast : ((JsNumber.finite (s + 1 : Nat)).add (.finite (c + 1 : Nat))).addInt (-1) =
      .finite (s + (c + 1) : Nat) := by
    simp only [JsNumber.add, JsNumber.addInt]
    push_cast
    ring_nf
  rw [slicePlace_min, hlast, slicePlace_nat]

theorem window_nan (n : Nat) (offset limit : Option JsNumber)
    (h : (normalizeLineWindow n offset limit).1 = .nan) :
    slicePlace (normalizeLineWindow n offset limit).2 n = 0 := by
  have hlast : (normalizeLineWindow n offset limit).2 = .nan := by
    simp only [normalizeLineWindow] at h ⊢
    rw [h]
    rfl
  rw [hlast, slicePlace_nan]

end places

section rows

variable {ε : Type} (host : Host ε) (content : JsString)

/-- The lines between two places, with their numbers. -/
def rowsBetween (first last : Nat) : List (JsString × Nat) :=
  ((numberedLines content).take last).drop first

theorem rowsBetween_eq (first last : Nat) : rowsBetween content first last =
    (((splitLines content).take last).drop first).zipIdx (first + 1) := by
  apply List.ext_getElem?
  intro i
  simp only [rowsBetween, numberedLines, List.getElem?_drop, List.getElem?_take,
    List.getElem?_zipIdx]
  by_cases h : first + i < last
  · have hnumber : 1 + (first + i) = first + 1 + i := by omega
    rw [if_pos h, if_pos h, hnumber]
  · rw [if_neg h, if_neg h]
    rfl

theorem rowsBetween_length_le (content : JsString) (first last : Nat) :
    (rowsBetween content first last).length ≤ last - first := by
  rw [rowsBetween, List.length_drop, List.length_take]
  omega

theorem rowsBetween_infix (first last : Nat) :
    rowsBetween content first last <:+: numberedLines content :=
  (List.drop_suffix first _).isInfix.trans (List.take_prefix last _).isInfix

/-- The host writes the numbers of the lines as decimal numbers. -/
def WritesNumbers : Prop :=
  ∀ k ≤ (splitLines content).length, host.numberText k = Number.decimal k

variable {host content}

/-- A window is empty, or it begins with a line of the text. -/
theorem window_start (start last : JsNumber) (n : Nat) (hstart : Counting start)
    (hnan : start = .nan → slicePlace last n = 0) :
    slicePlace last n ≤ slicePlace (start.addInt (-1)) n ∨
      ∃ k ≤ n, start = .finite (k + 1 : Nat) ∧ slicePlace (start.addInt (-1)) n = k := by
  cases hstart with
  | nan =>
    left
    rw [hnan rfl]
    exact Nat.zero_le _
  | infinite =>
    left
    exact slicePlace_le last n
  | nat k =>
    rw [window_first]
    by_cases hk : k ≤ n
    · right
      exact ⟨k, hk, rfl, min_eq_left hk⟩
    · left
      rw [min_eq_right (Nat.le_of_not_le hk)]
      exact slicePlace_le last n

/-- The lines that a window shows lie between two places. -/
theorem withLineNumbers_shows (hnumbers : WritesNumbers host content)
    (offset limit : Option JsNumber) :
    let window := normalizeLineWindow (splitLines content).length offset limit
    Shows (withLineNumbers host content offset limit) (rowsBetween content
      (slicePlace (window.1.addInt (-1)) (splitLines content).length)
      (slicePlace window.2 (splitLines content).length)) := by
  intro window
  refine ⟨(numberString host window.2).length, ?_⟩
  rw [rowsBetween_eq]
  simp only [withLineNumbers]
  congr 1
  rcases window_start window.1 window.2 (splitLines content).length
    (counting_max_floor _) (window_nan _ offset limit) with hempty | ⟨k, hk, hstart, hplace⟩
  · have hnil : ((splitLines content).take (slicePlace window.2 (splitLines content).length)).drop
        (slicePlace (window.1.addInt (-1)) (splitLines content).length) = [] := by
      apply List.drop_eq_nil_of_le
      rw [List.length_take]
      exact (Nat.min_le_left _ _).trans hempty
    rw [hnil]
    rfl
  · rw [hplace, List.zipIdx_eq_map_add (i := k + 1), List.map_map]
    apply List.map_congr_left
    rintro ⟨line, index⟩ hmem
    have hindex : index < (splitLines content).length - k := by
      have hlt := List.snd_lt_of_mem_zipIdx hmem
      rw [List.length_drop, List.length_take] at hlt
      omega
    have hnumber : numberString host (window.1.addInt index) = Number.decimal (k + 1 + index) := by
      rw [hstart]
      have htext := hnumbers (k + 1 + index) (by omega)
      simpa [numberString, JsNumber.addInt] using htext
    simp only [Function.comp, numberedRow]
    rw [← hnumber]

/-- Windows that follow each other show every line once. -/
theorem windows_flatten (limit n : Nat) :
    (List.range n).flatMap (fun i => rowsBetween content (i * limit) ((i + 1) * limit)) =
      (numberedLines content).take (n * limit) := by
  induction n with
  | zero => simp
  | succ n ih =>
    have hle : n * limit ≤ (n + 1) * limit := Nat.mul_le_mul_right limit (Nat.le_succ n)
    have hmin : min (n * limit) ((n + 1) * limit) = n * limit := min_eq_left hle
    rw [List.range_succ, List.flatMap_append, ih, List.flatMap_singleton, rowsBetween, ← hmin,
      ← List.take_take, hmin, List.take_append_drop]

theorem rowsBetween_min (first last : Nat) :
    rowsBetween content (min first (splitLines content).length)
      (min last (splitLines content).length) = rowsBetween content first last := by
  have hlen : (numberedLines content).length = (splitLines content).length := List.length_zipIdx
  have htake : (numberedLines content).take (min last (splitLines content).length) =
      (numberedLines content).take last := by
    rw [← hlen, ← List.take_eq_take_min]
  rw [rowsBetween, rowsBetween, htake]
  rcases Nat.le_total first (splitLines content).length with h | h
  · rw [min_eq_left h]
  · have hshort : ((numberedLines content).take last).length ≤ (splitLines content).length := by
      rw [List.length_take, hlen]
      exact Nat.min_le_right _ _
    rw [min_eq_right h, List.drop_eq_nil_of_le hshort, List.drop_eq_nil_of_le (hshort.trans h)]

theorem window_nat (i limit n : Nat) (hlimit : 1 ≤ limit) :
    let window := normalizeLineWindow n (some (.ofInt (1 + i * limit))) (some (.ofInt limit))
    slicePlace (window.1.addInt (-1)) n = min (i * limit) n ∧
      slicePlace window.2 n = min ((i + 1) * limit) n := by
  intro window
  obtain ⟨c, rfl⟩ := Nat.exists_eq_add_of_le' hlimit
  have hoffset : (1 + i * (c + 1 : Nat) : Int) = (i * (c + 1) + 1 : Nat) := by
    push_cast
    ring
  have hwindow : window = (.finite (i * (c + 1) + 1 : Nat), (JsNumber.ofInt n).min
      (((JsNumber.finite (i * (c + 1) + 1 : Nat)).add (.finite (c + 1 : Nat))).addInt (-1))) := by
    rw [← max_floor_nat, ← max_floor_nat, ← hoffset]
    rfl
  rw [hwindow, Nat.succ_mul]
  exact ⟨window_first _ n, window_last _ c n⟩

theorem rows_length_le (offset : Option JsNumber) (limit : JsNumber) {most : ℚ}
    (hmost : (JsNumber.ofInt 1).max limit.floor = .finite most) :
    let window := normalizeLineWindow (splitLines content).length offset (some limit)
    ((rowsBetween content (slicePlace (window.1.addInt (-1)) (splitLines content).length)
      (slicePlace window.2 (splitLines content).length)).length : ℚ) ≤ most := by
  intro window
  have hcount := counting_max_floor limit
  rw [hmost] at hcount
  generalize hnat : JsNumber.finite most = capped at hcount
  cases hcount with
  | nan => cases hnat
  | infinite => cases hnat
  | nat c =>
    obtain rfl : most = (c + 1 : Nat) := by simpa using hnat
    have hlast : window.2 = (JsNumber.ofInt (splitLines content).length).min
        ((window.1.add (.finite (c + 1 : Nat))).addInt (-1)) := by
      rw [← hmost]
      rfl
    apply Nat.cast_le.mpr
    apply (rowsBetween_length_le content _ _).trans
    rcases window_start window.1 window.2 (splitLines content).length
      (counting_max_floor _) (window_nan _ offset (some limit)) with hempty | ⟨k, hk, hstart, hplace⟩
    · omega
    · rw [hplace, hlast, hstart, window_last]
      omega

/-- A read asks for a window of a text that is no PDF, and it is not refused. -/
structure AsksWindow (host : Host ε) (content root targetPath : JsString)
    (offset limit : Option JsNumber) (fs : FileSystem) : Prop where
  asked : offset.isSome ∨ limit.isSome
  found : ∃ resolved n, resolveInsideRoot host root targetPath = .ok resolved ∧
    isPdfPath (pathText resolved) = false ∧ stat fs resolved = .ok n ∧
    (n.size ≤ MAX_FILE_BYTES ∨ limit.isSome) ∧ readText fs resolved = .ok content

theorem AsksWindow.readFile_eq {root targetPath : JsString} {offset limit : Option JsNumber}
    {fs : FileSystem} (h : AsksWindow host content root targetPath offset limit fs) :
    readFile host root targetPath offset limit fs =
      .ok (clampText (withLineNumbers host content offset limit) MAX_READ_OUTPUT_CHARS .head
        (js "read again with offset/limit to see more")) := by
  obtain ⟨resolved, n, hresolved, hpdf, hnode, hsize, hread⟩ := h.found
  have hsmall : (decide (n.size > MAX_FILE_BYTES) && limit.isNone) = false := by
    cases limit <;> simp at hsize ⊢
    exact hsize
  have hwindow : (offset.isSome || limit.isSome) = true := by simpa using h.asked
  simp [readFile, hresolved, hpdf, hnode, hsmall, hread, hwindow, bind, Except.bind, pure,
    Except.pure]

/-- What a read with a window shows before the clamp: the windows of one size that
follow each other show every line once and in order, and any window shows lines that
stand together. -/
theorem windows_cover (hnumbers : WritesNumbers host content) :
    (∀ root targetPath offset limit fs,
      AsksWindow host content root targetPath offset limit fs →
      readFile host root targetPath offset limit fs =
        .ok (clampText (withLineNumbers host content offset limit) MAX_READ_OUTPUT_CHARS .head
          (js "read again with offset/limit to see more"))) ∧
    (∀ limit : Nat, 1 ≤ limit → ∃ rows : Nat → List (JsString × Nat),
      (∀ i : Nat, Shows (withLineNumbers host content (some (.ofInt (1 + i * limit)))
        (some (.ofInt limit))) (rows i)) ∧
      ∀ n, (List.range n).flatMap rows = (numberedLines content).take (n * limit)) ∧
    ∀ offset limit : Option JsNumber, ∃ rows,
      Shows (withLineNumbers host content offset limit) rows ∧
      rows <:+: numberedLines content ∧
      ∀ n most, limit = some n → (JsNumber.ofInt 1).max n.floor = .finite most →
        (rows.length : ℚ) ≤ most := by
  refine ⟨fun _ _ _ _ _ h => h.readFile_eq, ?_, ?_⟩
  · intro limit hlimit
    refine ⟨fun i => rowsBetween content (i * limit) ((i + 1) * limit), fun i => ?_,
      windows_flatten limit⟩
    have hshows := withLineNumbers_shows hnumbers (some (.ofInt (1 + i * limit)))
      (some (.ofInt limit))
    obtain ⟨hfirst, hlast⟩ := window_nat i limit (splitLines content).length hlimit
    dsimp only at hshows hfirst hlast
    rw [hfirst, hlast, rowsBetween_min] at hshows
    exact hshows
  · intro offset limit
    refine ⟨_, withLineNumbers_shows hnumbers offset limit, rowsBetween_infix content _ _, ?_⟩
    rintro n most rfl hmost
    exact rows_length_le offset n hmost

theorem bare_windows_cover :
    let host : Host Unit := Host.bare fun _ => .ok .null
    ∃ rows, Shows (withLineNumbers host (js "a\r\nb\nc") (some (.ofInt 2)) (some (.ofInt 7)))
      rows ∧ rows <:+: numberedLines (js "a\r\nb\nc") := by
  intro host
  have hnumbers : WritesNumbers host (js "a\r\nb\nc") := by
    intro k _
    exact congrArg (fun n : Int => Number.decimal n.toNat) (Rat.floor_intCast k)
  obtain ⟨-, -, h⟩ := windows_cover hnumbers
  obtain ⟨rows, hshows, hinfix, -⟩ := h (some (.ofInt 2)) (some (.ofInt 7))
  exact ⟨rows, hshows, hinfix⟩

end rows

end Solarcido.Tools
