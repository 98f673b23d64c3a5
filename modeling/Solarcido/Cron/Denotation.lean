import Mathlib.Data.List.Forall2
import Solarcido.Cron.Expression
import Solarcido.Js.CodePoints

namespace Solarcido.Cron

open Text Number Search

section language

/-- A decimal number. -/
structure Numeral (s : JsString) (n : Nat) : Prop where
  ne_nil : s ≠ []
  digits : ∀ u ∈ s, isDigit u = true
  value : digitsValue s = n

/-- A member of a comma list. -/
inductive Item where
  | single (n : Nat)
  | range (a b : Nat)
  | starStep (k : Nat)
  | rangeStep (a b k : Nat)

inductive Item.Reads : Item → JsString → Prop
  | single {n s} (hn : Numeral s n) : Reads (.single n) s
  | range {a b s t} (ha : Numeral s a) (hb : Numeral t b) : Reads (.range a b) (s ++ js "-" ++ t)
  | starStep {k s} (hk : Numeral s k) : Reads (.starStep k) (js "*/" ++ s)
  | rangeStep {a b k s t r} (ha : Numeral s a) (hb : Numeral t b) (hk : Numeral r k) :
    Reads (.rangeStep a b k) (s ++ js "-" ++ t ++ js "/" ++ r)

/-- Within the bounds, with a range that is not reversed and a step that is not zero. -/
def Item.Valid (bounds : FieldBounds) : Item → Prop
  | .single n => bounds.min ≤ n ∧ n ≤ bounds.max
  | .range a b => bounds.min ≤ a ∧ a ≤ b ∧ b ≤ bounds.max
  | .starStep k => 1 ≤ k
  | .rangeStep a b k => bounds.min ≤ a ∧ a ≤ b ∧ b ≤ bounds.max ∧ 1 ≤ k

def Item.Denotes (bounds : FieldBounds) : Item → Nat → Prop
  | .single n, v => v = n
  | .range a b, v => a ≤ v ∧ v ≤ b
  | .starStep k, v => bounds.min ≤ v ∧ v ≤ bounds.max ∧ k ∣ v - bounds.min
  | .rangeStep a b k, v => a ≤ v ∧ v ≤ b ∧ k ∣ v - a

inductive Field where
  | star
  | list (items : List Item)

inductive Field.Reads : Field → JsString → Prop
  | star : Reads .star (js "*")
  | list {items texts} (hne : items ≠ []) (hitems : List.Forall₂ Item.Reads items texts) :
    Reads (.list items) (join (js ",") texts)

def Field.Valid (bounds : FieldBounds) : Field → Prop
  | .star => True
  | .list items => ∀ item ∈ items, item.Valid bounds

def Field.Denotes (bounds : FieldBounds) : Field → Nat → Prop
  | .star, v => bounds.min ≤ v ∧ v ≤ bounds.max
  | .list items, v => ∃ item ∈ items, item.Denotes bounds v

structure Schedule where
  minute : Field
  hour : Field
  dayOfMonth : Field
  month : Field
  dayOfWeek : Field

/-- The fields of a text: what stands between its white space. -/
def fieldTexts (expr : JsString) : List JsString :=
  (expr.splitOnP isWhiteSpace).filter fun piece => !piece.isEmpty

/-- Five fields, each read in its place. -/
structure Schedule.Reads (schedule : Schedule) (expr : JsString) : Prop where
  fields : List.Forall₂ Field.Reads
    [schedule.minute, schedule.hour, schedule.dayOfMonth, schedule.month, schedule.dayOfWeek]
    (fieldTexts expr)

structure Schedule.Valid (schedule : Schedule) : Prop where
  minute : schedule.minute.Valid ⟨0, 59⟩
  hour : schedule.hour.Valid ⟨0, 23⟩
  dayOfMonth : schedule.dayOfMonth.Valid ⟨1, 31⟩
  month : schedule.month.Valid ⟨1, 12⟩
  dayOfWeek : schedule.dayOfWeek.Valid ⟨0, 6⟩

/-- Of the two fields of the day, a star leaves it to the other; where neither is a star, either
will do. -/
def Schedule.DayMatches (schedule : Schedule) (date : Date) : Prop :=
  match schedule.dayOfMonth, schedule.dayOfWeek with
  | .star, .star => True
  | .star, dayOfWeek => dayOfWeek.Denotes ⟨0, 6⟩ date.getUTCDay.toNat
  | dayOfMonth, .star => dayOfMonth.Denotes ⟨1, 31⟩ date.getUTCDate.toNat
  | dayOfMonth, dayOfWeek =>
    dayOfMonth.Denotes ⟨1, 31⟩ date.getUTCDate.toNat ∨
      dayOfWeek.Denotes ⟨0, 6⟩ date.getUTCDay.toNat

structure Schedule.Matches (schedule : Schedule) (date : Date) : Prop where
  minute : schedule.minute.Denotes ⟨0, 59⟩ date.getUTCMinutes.toNat
  hour : schedule.hour.Denotes ⟨0, 23⟩ date.getUTCHours.toNat
  month : schedule.month.Denotes ⟨1, 12⟩ (date.getUTCMonth + 1).toNat
  day : schedule.DayMatches date

end language

section texts

variable {c : UInt16} {s : JsString}

theorem firstIndexOf_unit_none (h : c ∉ s) : firstIndexOf [c] s = none := by
  rw [firstIndexOf_eq_none_iff (List.cons_ne_nil c [])]
  intro j hj
  exact h (List.mem_of_mem_drop (hj.subset List.mem_cons_self))

theorem firstIndexOf_unit_some {i : Nat} (h : firstIndexOf [c] s = some i) :
    s = s.take i ++ [c] ++ s.drop (i + 1) := by
  obtain ⟨hhere, -⟩ := (firstIndexOf_eq_some_iff (List.cons_ne_nil c []) s i).mp h
  obtain ⟨rest, hrest⟩ := hhere
  have hdrop : s.drop (i + 1) = rest := by
    rw [← List.drop_drop, ← hrest]
    rfl
  rw [hdrop, List.append_assoc, hrest, List.take_append_drop]

theorem firstIndexOf_unit_append {t : JsString} (h : c ∉ s) :
    firstIndexOf [c] (s ++ [c] ++ t) = some s.length := by
  rw [List.append_assoc]
  exact firstIndexOf_skip c [] s t h

end texts

section numbers

variable {s : JsString} {n : Nat}

theorem parseIntStrict_ok_iff : parseIntStrict s = .ok n ↔ Numeral s n := by
  rw [parseIntStrict]
  split
  · next h =>
    constructor
    · intro heq
      exact ⟨h.1, fun u hu => List.all_eq_true.mp h.2 u hu, Except.ok.inj heq⟩
    · intro hn
      rw [hn.value]
  · next h =>
    constructor
    · intro heq
      cases heq
    · intro hn
      exact absurd ⟨hn.ne_nil, List.all_eq_true.mpr hn.digits⟩ h

theorem checkBounds_ok_iff {bounds : FieldBounds} {raw : JsString} {u : Unit} :
    checkBounds n bounds raw = .ok u ↔ bounds.min ≤ n ∧ n ≤ bounds.max := by
  rw [checkBounds]
  split
  · constructor
    · intro h
      cases h
    · intro h
      omega
  · constructor
    · intro
      omega
    · intro
      rfl

theorem Numeral.not_mem {u : UInt16} (h : Numeral s n) (hu : isDigit u = false) : u ∉ s := by
  intro hmem
  rw [h.digits u hmem] at hu
  cases hu

theorem bind_eq_ok {ε α β : Type} {x : Except ε α} {f : α → Except ε β} {b : β} :
    (x >>= f) = .ok b ↔ ∃ a, x = .ok a ∧ f a = .ok b := by
  cases x with
  | error e => simp [bind, Except.bind]
  | ok a => simp [bind, Except.bind]

theorem parseRange_ok_iff {bounds : FieldBounds} {a b : Nat} :
    parseRange s bounds = .ok (a, b) ↔
      ∃ lo hi, s = lo ++ js "-" ++ hi ∧ Numeral lo a ∧ Numeral hi b ∧
        bounds.min ≤ a ∧ a ≤ b ∧ b ≤ bounds.max := by
  have hdash : js "-" = [45] := rfl
  rw [parseRange, hdash]
  constructor
  · intro h
    cases hindex : firstIndexOf [45] s with
    | none =>
      rw [hindex] at h
      cases h
    | some i =>
      rw [hindex] at h
      simp only [bind_eq_ok] at h
      obtain ⟨lo, hlo, hi, hhi, _, hmin, _, hmax, hlast⟩ := h
      rw [checkBounds_ok_iff] at hmin hmax
      split at hlast
      · cases hlast
      · obtain ⟨rfl, rfl⟩ := Prod.mk.inj (Except.ok.inj hlast)
        exact ⟨_, _, firstIndexOf_unit_some hindex, parseIntStrict_ok_iff.mp hlo,
          parseIntStrict_ok_iff.mp hhi, hmin.1, by omega, hmax.2⟩
  · rintro ⟨lo, hi, rfl, hlo, hhi, hmin, hle, hmax⟩
    have hindex : firstIndexOf [45] (lo ++ [45] ++ hi) = some lo.length :=
      firstIndexOf_unit_append (hlo.not_mem (by decide))
    have htake : (lo ++ [45] ++ hi).take lo.length = lo := by
      rw [List.append_assoc, List.take_left]
    have hdrop : (lo ++ [45] ++ hi).drop (lo.length + 1) = hi := by
      have hlength : (lo ++ [45]).length = lo.length + 1 := by simp
      rw [← hlength, List.drop_left]
    rw [hindex]
    simp only [htake, hdrop, bind_eq_ok]
    refine ⟨a, parseIntStrict_ok_iff.mpr hlo, b, parseIntStrict_ok_iff.mpr hhi, (),
      checkBounds_ok_iff.mpr (by omega), (), checkBounds_ok_iff.mpr (by omega), ?_⟩
    rw [if_neg (by omega)]

theorem mem_countUp {lo hi step v : Nat} (hle : lo ≤ hi) (hstep : 1 ≤ step) :
    v ∈ countUp lo hi step ↔ lo ≤ v ∧ v ≤ hi ∧ step ∣ v - lo := by
  rw [countUp, List.mem_range']
  constructor
  · rintro ⟨i, hi', rfl⟩
    have hmul : step * i ≤ hi - lo := by
      calc step * i ≤ step * ((hi - lo) / step) := Nat.mul_le_mul_left step (by omega)
        _ ≤ hi - lo := Nat.mul_div_le _ _
    exact ⟨by omega, by omega, ⟨i, by omega⟩⟩
  · rintro ⟨hlo, hhi, k, hk⟩
    refine ⟨k, ?_, by omega⟩
    have hdiv : k ≤ (hi - lo) / step := by
      rw [Nat.le_div_iff_mul_le hstep, Nat.mul_comm]
      omega
    omega

end numbers

section segments

variable {bounds : FieldBounds} {raw part : JsString}

/-- The values that a segment adds. -/
def Item.values (bounds : FieldBounds) : Item → List Nat
  | .single n => [n]
  | .range a b => countUp a b 1
  | .starStep k => countUp bounds.min bounds.max k
  | .rangeStep a b k => countUp a b k

theorem Item.mem_values {item : Item} (hbounds : bounds.min ≤ bounds.max)
    (hvalid : item.Valid bounds) (v : Nat) :
    v ∈ item.values bounds ↔ item.Denotes bounds v := by
  cases item with
  | single n => exact List.mem_singleton
  | range a b =>
    rw [Item.values, mem_countUp hvalid.2.1 (Nat.le_refl 1), Item.Denotes]
    simp
  | starStep k => exact mem_countUp hbounds hvalid
  | rangeStep a b k => exact mem_countUp hvalid.2.1 hvalid.2.2.2

/-- The units that an item is written with. -/
def isItemUnit (u : UInt16) : Bool := isDigit u || u == 42 || u == 45 || u == 47

theorem Numeral.itemUnits {s : JsString} {n : Nat} (h : Numeral s n) :
    ∀ u ∈ s, isItemUnit u = true := by
  intro u hu
  simp [isItemUnit, h.digits u hu]

theorem Item.Reads.units {item : Item} {s : JsString} (h : item.Reads s) :
    s ≠ [] ∧ ∀ u ∈ s, isItemUnit u = true := by
  have hdash : ∀ u ∈ js "-", isItemUnit u = true := List.all_eq_true.mp (by decide)
  have hslash : ∀ u ∈ js "/", isItemUnit u = true := List.all_eq_true.mp (by decide)
  have hstar : ∀ u ∈ js "*/", isItemUnit u = true := List.all_eq_true.mp (by decide)
  cases h with
  | single hn => exact ⟨hn.ne_nil, hn.itemUnits⟩
  | range ha hb =>
    refine ⟨by simp [ha.ne_nil], ?_⟩
    simp only [List.forall_mem_append]
    exact ⟨⟨ha.itemUnits, hdash⟩, hb.itemUnits⟩
  | starStep hk =>
    refine ⟨by simp [hk.ne_nil], ?_⟩
    simp only [List.forall_mem_append]
    exact ⟨hstar, hk.itemUnits⟩
  | rangeStep ha hb hk =>
    refine ⟨by simp [ha.ne_nil], ?_⟩
    simp only [List.forall_mem_append]
    exact ⟨⟨⟨⟨ha.itemUnits, hdash⟩, hb.itemUnits⟩, hslash⟩, hk.itemUnits⟩

theorem not_space_of_itemUnit {u : UInt16} (h : isItemUnit u = true) : isWhiteSpace u = false := by
  simp only [isItemUnit, isDigit, Bool.or_eq_true, Bool.and_eq_true, decide_eq_true_eq,
    beq_iff_eq] at h
  rcases h with ((⟨hlo, hhi⟩ | rfl) | rfl) | rfl
  · simp only [isWhiteSpace, Bool.or_eq_false_iff, Bool.and_eq_false_iff, decide_eq_false_iff_not,
      beq_eq_false_iff_ne]
    omega
  all_goals decide

theorem Item.Reads.no_space {item : Item} {s : JsString} (h : item.Reads s) :
    ∀ u ∈ s, isWhiteSpace u = false :=
  fun u hu => not_space_of_itemUnit (h.units.2 u hu)

theorem Item.Reads.no_comma {item : Item} {s : JsString} (h : item.Reads s) : 44 ∉ s :=
  fun hmem => absurd (h.units.2 44 hmem) (by decide)

theorem not_mem_range {s t : JsString} {a b : Nat} {u : UInt16} (ha : Numeral s a)
    (hb : Numeral t b) (hu : isDigit u = false) (hdash : u ≠ 45) : u ∉ s ++ js "-" ++ t := by
  have hone : u ∉ js "-" := by simpa [js, fromCodePoints, utf16] using hdash
  simp [ha.not_mem hu, hb.not_mem hu, hone]

theorem parseSegment_of_reads {item : Item} (h : item.Reads part) (hvalid : item.Valid bounds) :
    parseSegment raw bounds part = .ok (item.values bounds) := by
  have htrim : trim part = part := trim_of_no_space part h.no_space
  have hdashText : js "-" = [45] := rfl
  have hslashText : js "/" = [47] := rfl
  rw [parseSegment, htrim]
  simp only [if_neg h.units.1]
  cases h with
  | single hn =>
    rw [hslashText, firstIndexOf_unit_none (hn.not_mem (by decide))]
    have hnot : ¬ includes part (js "-") = true := by
      rw [includes, hdashText, firstIndexOf_unit_none (hn.not_mem (by decide))]
      exact Bool.false_ne_true
    simp only [if_neg hnot, bind_eq_ok]
    exact ⟨_, parseIntStrict_ok_iff.mpr hn, (), checkBounds_ok_iff.mpr hvalid, rfl⟩
  | @range a b lo hi ha hb =>
    rw [hslashText, firstIndexOf_unit_none (not_mem_range ha hb (by decide) (by decide))]
    have hdash : includes (lo ++ js "-" ++ hi) (js "-") = true := by
      rw [includes, hdashText, firstIndexOf_unit_append (ha.not_mem (by decide))]
      rfl
    simp only [if_pos hdash, bind_eq_ok]
    exact ⟨(a, b), parseRange_ok_iff.mpr ⟨lo, hi, rfl, ha, hb, hvalid⟩, rfl⟩
  | @starStep k t hk =>
    have hindex : firstIndexOf [47] (js "*/" ++ t) = some 1 := rfl
    have hstep : (js "*/" ++ t).drop (1 + 1) = t := rfl
    have hstar : (js "*/" ++ t).take 1 = js "*" := rfl
    have hpos : k ≠ 0 := Nat.pos_iff_ne_zero.mp hvalid
    rw [hslashText, hindex]
    simp only [hstep, hstar, if_true, bind_eq_ok]
    refine ⟨k, parseIntStrict_ok_iff.mpr hk, ?_⟩
    rw [if_neg hpos]
    rfl
  | @rangeStep a b k lo hi t ha hb hk =>
    have hfirst : 47 ∉ lo ++ js "-" ++ hi := not_mem_range ha hb (by decide) (by decide)
    have hindex : firstIndexOf [47] (lo ++ js "-" ++ hi ++ [47] ++ t) =
        some (lo ++ js "-" ++ hi).length := firstIndexOf_unit_append hfirst
    have hrange : (lo ++ js "-" ++ hi ++ [47] ++ t).take (lo ++ js "-" ++ hi).length =
        lo ++ js "-" ++ hi := by
      rw [List.append_assoc _ [47] t, List.take_left]
    have hstep : (lo ++ js "-" ++ hi ++ [47] ++ t).drop ((lo ++ js "-" ++ hi).length + 1) = t := by
      have hlength : (lo ++ js "-" ++ hi ++ [47]).length = (lo ++ js "-" ++ hi).length + 1 := by
        rw [List.length_append, List.length_singleton]
      rw [← hlength, List.drop_left]
    have hnotStar : lo ++ js "-" ++ hi ≠ js "*" := by
      intro heq
      have hmem : (45 : UInt16) ∈ js "*" := by
        rw [← heq]
        simp [hdashText]
      exact absurd hmem (by decide)
    have hpos : k ≠ 0 := Nat.pos_iff_ne_zero.mp hvalid.2.2.2
    rw [hslashText, hindex]
    simp only [hrange, hstep, bind_eq_ok]
    refine ⟨k, parseIntStrict_ok_iff.mpr hk, ?_⟩
    rw [if_neg hpos, if_neg hnotStar, bind_eq_ok]
    exact ⟨(a, b), parseRange_ok_iff.mpr ⟨lo, hi, rfl, ha, hb, hvalid.1, hvalid.2.1, hvalid.2.2.1⟩, rfl⟩

theorem reads_of_parseSegment {values : List Nat} (hspace : ∀ u ∈ part, isWhiteSpace u = false)
    (h : parseSegment raw bounds part = .ok values) :
    ∃ item : Item, item.Reads part ∧ item.Valid bounds ∧ values = item.values bounds := by
  have hdashText : js "-" = [45] := rfl
  have hslashText : js "/" = [47] := rfl
  rw [parseSegment, trim_of_no_space part hspace, hslashText] at h
  simp only at h
  split at h
  · cases h
  · cases hslash : firstIndexOf [47] part with
    | some i =>
      rw [hslash] at h
      simp only [bind_eq_ok] at h
      obtain ⟨k, hk, h⟩ := h
      have hnumeral := parseIntStrict_ok_iff.mp hk
      have hpart := firstIndexOf_unit_some hslash
      split at h
      · cases h
      · next hpos =>
        split at h
        · next hstar =>
          obtain rfl := Except.ok.inj h
          refine ⟨.starStep k, ?_, Nat.pos_of_ne_zero hpos, rfl⟩
          rw [hpart, hstar]
          exact Item.Reads.starStep hnumeral
        · rw [bind_eq_ok] at h
          obtain ⟨⟨a, b⟩, hrange, hvalues⟩ := h
          obtain rfl := Except.ok.inj hvalues
          obtain ⟨lo, hi, htake, ha, hb, hmin, hle, hmax⟩ := parseRange_ok_iff.mp hrange
          refine ⟨.rangeStep a b k, ?_, ⟨hmin, hle, hmax, Nat.pos_of_ne_zero hpos⟩, rfl⟩
          rw [hpart, htake]
          exact Item.Reads.rangeStep ha hb hnumeral
    | none =>
      rw [hslash] at h
      simp only at h
      split at h
      · rw [bind_eq_ok] at h
        obtain ⟨⟨a, b⟩, hrange, hvalues⟩ := h
        obtain rfl := Except.ok.inj hvalues
        obtain ⟨lo, hi, rfl, ha, hb, hvalid⟩ := parseRange_ok_iff.mp hrange
        exact ⟨.range a b, Item.Reads.range ha hb, hvalid, rfl⟩
      · simp only [bind_eq_ok] at h
        obtain ⟨n, hn, _, hcheck, hvalues⟩ := h
        obtain rfl := Except.ok.inj hvalues
        exact ⟨.single n, Item.Reads.single (parseIntStrict_ok_iff.mp hn),
          checkBounds_ok_iff.mp hcheck, rfl⟩

end segments

section fields

variable {bounds : FieldBounds} {raw : JsString} {field : Field} {fieldSet : FieldSet}

theorem mapM_eq_ok {ε α β : Type} {f : α → Except ε β} {l : List α} {values : List β} :
    l.mapM f = .ok values ↔ List.Forall₂ (fun a value => f a = .ok value) l values := by
  induction l generalizing values with
  | nil =>
    rw [List.mapM_nil, List.forall₂_nil_left_iff]
    constructor
    · intro h
      exact (Except.ok.inj h).symm
    · rintro rfl
      rfl
  | cons a l ih =>
    rw [List.mapM_cons, bind_eq_ok, List.forall₂_cons_left_iff]
    constructor
    · rintro ⟨value, hvalue, h⟩
      obtain ⟨rest, hrest, heq⟩ := bind_eq_ok.mp h
      exact ⟨value, rest, hvalue, ih.mp hrest, (Except.ok.inj heq).symm⟩
    · rintro ⟨value, rest, hvalue, hrest, rfl⟩
      exact ⟨value, hvalue, bind_eq_ok.mpr ⟨rest, ih.mpr hrest, rfl⟩⟩

/-- A field's set has the values that the field denotes, and knows a star. -/
structure Stands (bounds : FieldBounds) (field : Field) (fieldSet : FieldSet) : Prop where
  star : fieldSet.isStar = true ↔ field = .star
  values : ∀ v, v ∈ fieldSet.values ↔ field.Denotes bounds v

theorem Item.Reads.exists_digit {item : Item} {s : JsString} (h : item.Reads s) :
    ∃ u ∈ s, isDigit u = true := by
  have hnumeral : ∀ {t : JsString} {n : Nat}, Numeral t n → ∃ u ∈ t, isDigit u = true := by
    intro t n ht
    obtain ⟨u, hu⟩ := List.exists_mem_of_ne_nil t ht.ne_nil
    exact ⟨u, hu, ht.digits u hu⟩
  cases h with
  | single hn => exact hnumeral hn
  | range ha hb =>
    obtain ⟨u, hu, hdigit⟩ := hnumeral hb
    exact ⟨u, List.mem_append_right _ hu, hdigit⟩
  | starStep hk =>
    obtain ⟨u, hu, hdigit⟩ := hnumeral hk
    exact ⟨u, List.mem_append_right _ hu, hdigit⟩
  | rangeStep ha hb hk =>
    obtain ⟨u, hu, hdigit⟩ := hnumeral hk
    exact ⟨u, List.mem_append_right _ hu, hdigit⟩

theorem forall₂_mem_right {α β : Type} {R : α → β → Prop} {l : List α} {m : List β}
    (h : List.Forall₂ R l m) : ∀ b ∈ m, ∃ a ∈ l, R a b := by
  induction h with
  | nil => simp
  | cons hab _ ih =>
    intro b hb
    rcases List.mem_cons.mp hb with rfl | hb
    · exact ⟨_, List.mem_cons_self, hab⟩
    · obtain ⟨a, ha, hR⟩ := ih b hb
      exact ⟨a, List.mem_cons_of_mem _ ha, hR⟩

theorem segments_of_reads {items : List Item} {texts : List JsString}
    (h : List.Forall₂ Item.Reads items texts) (hvalid : ∀ item ∈ items, item.Valid bounds) :
    List.Forall₂ (fun part values => parseSegment raw bounds part = .ok values) texts
      (items.map (Item.values bounds)) := by
  induction h with
  | nil => exact List.Forall₂.nil
  | cons hitem _ ih =>
    exact List.Forall₂.cons (parseSegment_of_reads hitem (hvalid _ List.mem_cons_self))
      (ih fun item hitem => hvalid item (List.mem_cons_of_mem _ hitem))

theorem reads_of_segments {parts : List JsString} {values : List (List Nat)}
    (h : List.Forall₂ (fun part values => parseSegment raw bounds part = .ok values) parts values)
    (hspace : ∀ part ∈ parts, ∀ u ∈ part, isWhiteSpace u = false) :
    ∃ items, List.Forall₂ Item.Reads items parts ∧ ∀ item ∈ items, item.Valid bounds := by
  induction h with
  | nil => exact ⟨[], List.Forall₂.nil, by simp⟩
  | @cons part _ parts _ hpart _ ih =>
    obtain ⟨item, hreads, hvalid, -⟩ :=
      reads_of_parseSegment (hspace part List.mem_cons_self) hpart
    obtain ⟨items, hitems, hall⟩ := ih fun part hmem => hspace part (List.mem_cons_of_mem _ hmem)
    exact ⟨item :: items, List.Forall₂.cons hreads hitems, List.forall_mem_cons.mpr ⟨hvalid, hall⟩⟩

theorem parseField_of_reads (hbounds : bounds.min ≤ bounds.max) (h : field.Reads raw)
    (hvalid : field.Valid bounds) :
    ∃ fieldSet, parseField raw bounds = .ok fieldSet ∧ Stands bounds field fieldSet := by
  cases h with
  | star =>
    refine ⟨⟨fullRange bounds, true⟩, rfl, by simp, ?_⟩
    intro v
    rw [fullRange, mem_countUp hbounds (Nat.le_refl 1), Field.Denotes]
    simp
  | @list items texts hne hitems =>
    cases hitems with
    | nil => exact absurd rfl hne
    | @cons item first items rest hfirst hrest =>
      have hall : List.Forall₂ Item.Reads (item :: items) (first :: rest) :=
        List.Forall₂.cons hfirst hrest
      have hcomma : ∀ text ∈ first :: rest, 44 ∉ text := by
        intro text htext
        obtain ⟨item, -, hitem⟩ := forall₂_mem_right hall text htext
        exact hitem.no_comma
      have hsplit : split (join (js ",") (first :: rest)) (js ",") = first :: rest :=
        split_join 44 first rest hcomma
      have hnotStar : join (js ",") (first :: rest) ≠ js "*" := by
        intro heq
        obtain ⟨u, hu, hdigit⟩ := hfirst.exists_digit
        have hmem := (prefix_join (js ",") first rest).subset hu
        rw [heq] at hmem
        have hunit : u = 42 := List.mem_singleton.mp hmem
        rw [hunit] at hdigit
        exact absurd hdigit (by decide)
      refine ⟨⟨((item :: items).map (Item.values bounds)).flatten, false⟩, ?_, by simp, ?_⟩
      · rw [parseField, if_neg hnotStar, bind_eq_ok, hsplit]
        exact ⟨_, mapM_eq_ok.mpr (segments_of_reads hall hvalid), rfl⟩
      · intro v
        rw [← List.flatMap_def, List.mem_flatMap, Field.Denotes]
        apply exists_congr
        intro other
        apply and_congr_right
        intro hother
        exact Item.mem_values hbounds (hvalid other hother) v

theorem reads_of_parseField (hspace : ∀ u ∈ raw, isWhiteSpace u = false)
    (h : parseField raw bounds = .ok fieldSet) :
    ∃ field : Field, field.Reads raw ∧ field.Valid bounds := by
  rw [parseField] at h
  split at h
  · next hstar =>
    rw [hstar]
    exact ⟨.star, Field.Reads.star, trivial⟩
  · obtain ⟨values, hvalues, -⟩ := bind_eq_ok.mp h
    have hjoin : join (js ",") (split raw (js ",")) = raw := join_split raw
    have hparts : ∀ part ∈ split raw (js ","), ∀ u ∈ part, isWhiteSpace u = false := by
      intro part hpart u hu
      apply hspace
      rw [← hjoin]
      exact subset_join (js ",") hpart hu
    obtain ⟨items, hitems, hvalid⟩ := reads_of_segments (mapM_eq_ok.mp hvalues) hparts
    have hne : items ≠ [] := by
      rintro rfl
      have hnil : split raw (js ",") = [] := List.forall₂_nil_left_iff.mp hitems
      exact splitFrom_ne_nil [] raw hnil
    refine ⟨.list items, ?_, hvalid⟩
    rw [← hjoin]
    exact Field.Reads.list hne hitems

end fields

end Solarcido.Cron
