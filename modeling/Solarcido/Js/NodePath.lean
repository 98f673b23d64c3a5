import Mathlib.Data.List.TakeWhile
import Solarcido.Js.Text

namespace Solarcido.NodePath

open Text

def slash : UInt16 := 47

/-- What an entry of a directory is called. -/
def IsName (s : JsString) : Prop := s ≠ [] ∧ slash ∉ s ∧ s ≠ js "." ∧ s ≠ js ".."

instance (s : JsString) : Decidable (IsName s) := inferInstanceAs (Decidable (_ ∧ _))

abbrev FileName := { s : JsString // IsName s }

/-- A normalized path: the steps up stand in front, and only of a relative path. -/
structure NormalPath where
  absolute : Bool
  ups : Nat
  names : List FileName
  rooted : absolute = true → ups = 0

namespace NormalPath

def start (absolute : Bool) : NormalPath := ⟨absolute, 0, [], fun _ => rfl⟩

def push (p : NormalPath) (n : FileName) : NormalPath := { p with names := p.names ++ [n] }

def up (p : NormalPath) : NormalPath :=
  if p.names ≠ [] then { p with names := p.names.dropLast }
  else if h : p.absolute = true then p
  else { p with ups := p.ups + 1, rooted := fun ha => absurd ha h }

/-- One segment of `normalizeString`. -/
def step (p : NormalPath) (segment : JsString) : NormalPath :=
  if segment = js ".." then p.up
  else if h : IsName segment then p.push ⟨segment, h⟩
  else p

def segments (p : NormalPath) : List JsString :=
  List.replicate p.ups (js "..") ++ p.names.map Subtype.val

def text (p : NormalPath) : JsString :=
  if p.absolute then slash :: Text.join [slash] p.segments
  else if p.segments = [] then js "."
  else Text.join [slash] p.segments

end NormalPath

section calls

/-- `path.isAbsolute(s)` of the POSIX `node:path`, as are all the calls below. -/
def isAbsolute (s : JsString) : Bool := startsWith s [slash]

def parse (s : JsString) : NormalPath :=
  (split s [slash]).foldl NormalPath.step (.start (isAbsolute s))

/-- `path.normalize(s)`. A slash at the end stays. -/
def normalize (s : JsString) : JsString :=
  if s = [] then js "."
  else
    let p := parse s
    if endsWith s [slash] && !(p.absolute && p.segments.isEmpty) then p.text ++ [slash] else p.text

/-- `path.join(...parts)`. -/
def join (parts : List JsString) : JsString :=
  let parts := parts.filter (· ≠ [])
  if parts = [] then js "." else normalize (Text.join [slash] parts)

/-- `path.dirname(s)`. The first unit is never taken for the slash that ends the directory. -/
def dirname : JsString → JsString
  | [] => js "."
  | c :: rest =>
    match (rest.reverse.dropWhile (· == slash)).dropWhile (· != slash) with
    | [] => if c = slash then [slash] else js "."
    | _ :: before => if c = slash ∧ before = [] then [slash, slash] else c :: before.reverse

/-- `path.basename(s)`. -/
def basename (s : JsString) : JsString :=
  ((s.reverse.dropWhile (· == slash)).takeWhile (· != slash)).reverse

/-- The text behind the last dot, the whole text where there is none. -/
def afterLastDot (s : JsString) : JsString := (s.reverse.takeWhile (· != 46)).reverse

/-- `path.extname(s)`. A dot in front of a name starts no extension. -/
def extname (s : JsString) : JsString :=
  let base := basename s
  let extension := 46 :: afterLastDot base
  if (46 : UInt16) ∉ base ∨ extension = base ∨ base = js ".." then [] else extension

end calls

section normal

namespace NormalPath

theorem step_up {p : NormalPath} : p.step (js "..") = p.up := if_pos rfl

theorem step_name (p : NormalPath) (n : FileName) : p.step n.val = p.push n := by
  rw [step, if_neg n.property.2.2.2, dif_pos n.property]

theorem foldl_names (p : NormalPath) (names : List FileName) :
    (names.map Subtype.val).foldl step p = { p with names := p.names ++ names } := by
  induction names generalizing p with
  | nil => simp
  | cons n names ih =>
    rw [List.map_cons, List.foldl_cons, step_name, ih, push]
    simp

theorem foldl_ups (k u : Nat) (h : false = true → u = 0) :
    (List.replicate k (js "..")).foldl step ⟨false, u, [], h⟩ =
      ⟨false, u + k, [], fun ha => absurd ha (by simp)⟩ := by
  induction k generalizing u with
  | zero => rfl
  | succ k ih =>
    have hup : (⟨false, u, [], h⟩ : NormalPath).up =
        ⟨false, u + 1, [], fun ha => absurd ha (by simp)⟩ := by simp [up]
    rw [List.replicate_succ, List.foldl_cons, step_up, hup, ih]
    simp only [Nat.add_assoc, Nat.add_comm 1 k]

theorem foldl_segments (p : NormalPath) : p.segments.foldl step (.start p.absolute) = p := by
  obtain ⟨absolute, ups, names, rooted⟩ := p
  rw [segments, List.foldl_append]
  cases absolute with
  | true =>
    obtain rfl : ups = 0 := rooted rfl
    rw [List.replicate_zero, List.foldl_nil, foldl_names]
    simp [start]
  | false =>
    rw [start, foldl_ups, foldl_names]
    simp

theorem segments_push (p : NormalPath) (n : FileName) :
    (p.push n).segments = p.segments ++ [n.val] := by
  simp [segments, push]

theorem slash_not_mem {p : NormalPath} {s : JsString} (hs : s ∈ p.segments) : slash ∉ s := by
  rcases List.mem_append.mp hs with hup | hname
  · rw [List.eq_of_mem_replicate hup]
    decide
  · obtain ⟨n, -, rfl⟩ := List.mem_map.mp hname
    exact n.property.2.1

theorem ne_nil_of_mem {p : NormalPath} {s : JsString} (hs : s ∈ p.segments) : s ≠ [] := by
  rcases List.mem_append.mp hs with hup | hname
  · rw [List.eq_of_mem_replicate hup]
    decide
  · obtain ⟨n, -, rfl⟩ := List.mem_map.mp hname
    exact n.property.1

/-- The text of a path that is not absolute starts with no slash. -/
theorem head_join (first : JsString) (rest : List JsString) (hne : first ≠ [])
    (hs : slash ∉ first) :
    ∃ c text, Text.join [slash] (first :: rest) = c :: text ∧ c ≠ slash := by
  obtain ⟨c, cs, rfl⟩ := List.exists_cons_of_ne_nil hne
  have hc : c ≠ slash := fun h => hs (by simp [h])
  cases rest with
  | nil => exact ⟨c, cs, by simp [Text.join], hc⟩
  | cons second rest => exact ⟨c, _, by simp [Text.join]; rfl, hc⟩

theorem text_ne_nil (p : NormalPath) : p.text ≠ [] := by
  unfold text
  split
  · simp
  · split
    · decide
    · next hp =>
      obtain ⟨first, rest, hseg⟩ := List.exists_cons_of_ne_nil hp
      have hfirst : first ∈ p.segments := by simp [hseg]
      obtain ⟨c, t, htext, -⟩ := head_join first rest (ne_nil_of_mem hfirst) (slash_not_mem hfirst)
      simp [hseg, htext]

theorem isAbsolute_text (p : NormalPath) : isAbsolute p.text = p.absolute := by
  unfold text
  split
  · next ha => simp [isAbsolute, startsWith, ha]
  · next ha =>
    split
    · simp [ha]
      decide
    · next hp =>
      obtain ⟨first, rest, hseg⟩ := List.exists_cons_of_ne_nil hp
      have hfirst : first ∈ p.segments := by simp [hseg]
      obtain ⟨c, t, htext, hc⟩ := head_join first rest (ne_nil_of_mem hfirst) (slash_not_mem hfirst)
      rw [hseg, htext]
      simp [isAbsolute, startsWith, List.isPrefixOf, ha, Ne.symm hc]

theorem foldl_split_join (p q : NormalPath) (hp : p.segments ≠ []) :
    (split (Text.join [slash] p.segments) [slash]).foldl step q = p.segments.foldl step q := by
  obtain ⟨first, rest, hseg⟩ := List.exists_cons_of_ne_nil hp
  rw [hseg, split_join slash first rest fun s hs => slash_not_mem (p := p) (by rwa [hseg])]

theorem step_nil (p : NormalPath) : p.step [] = p := by
  rw [step, if_neg (by decide), dif_neg (by simp [IsName])]

/-- Reading a normalized path back gives the path. -/
theorem parse_text (p : NormalPath) : parse p.text = p := by
  rw [parse, isAbsolute_text]
  by_cases hp : p.segments = []
  · have hstart := foldl_segments p
    rw [hp, List.foldl_nil] at hstart
    cases ha : p.absolute with
    | true =>
      have hsplit : split p.text [slash] = [[], []] := by
        simp only [text, ha, hp, if_true]
        decide
      rw [hsplit, List.foldl_cons, List.foldl_cons, List.foldl_nil, step_nil, step_nil, ← ha, hstart]
    | false =>
      have hsplit : split p.text [slash] = [js "."] := by
        simp only [text, ha, hp]
        decide
      have hdot : (start false).step (js ".") = start false := by
        rw [step, if_neg (by decide), dif_neg (by simp [IsName])]
      rw [hsplit, List.foldl_cons, List.foldl_nil, hdot, ← ha, hstart]
  · cases ha : p.absolute with
    | true =>
      have hsplit : split p.text [slash] = [] :: split (Text.join [slash] p.segments) [slash] := by
        rw [text, ha, if_pos rfl]
        exact splitFrom_sep slash [] _
      rw [hsplit, List.foldl_cons, step_nil, foldl_split_join p _ hp, ← ha, foldl_segments]
    | false =>
      have htext : p.text = Text.join [slash] p.segments := by simp [text, ha, hp]
      rw [htext, foldl_split_join p _ hp, ← ha, foldl_segments]

theorem step_absolute (p : NormalPath) (segment : JsString) :
    (p.step segment).absolute = p.absolute := by
  rw [step]
  split_ifs
  · rw [up]
    split_ifs <;> rfl
  · rfl
  · rfl

theorem parse_absolute (s : JsString) : (parse s).absolute = isAbsolute s :=
  List.foldlRecOn (motive := fun p => p.absolute = isAbsolute s) _ _ rfl fun p hp segment _ =>
    (step_absolute p segment).trans hp

theorem mem_names_step {p : NormalPath} {segment : JsString} {n : FileName}
    (h : n ∈ (p.step segment).names) : n ∈ p.names ∨ n.val = segment := by
  rw [step] at h
  split_ifs at h with hup hname
  · rw [up] at h
    split_ifs at h
    · exact .inl (List.dropLast_subset _ h)
    · exact .inl h
    · exact .inl h
  · rw [push, List.mem_append, List.mem_singleton] at h
    exact h.imp_right fun heq => by rw [heq]
  · exact .inl h

/-- The names of a path are pieces of its text. -/
theorem mem_names_parse {s : JsString} {n : FileName} (h : n ∈ (parse s).names) :
    n.val ∈ split s [slash] := by
  suffices hall : ∀ m ∈ (parse s).names, m.val ∈ split s [slash] from hall n h
  refine List.foldlRecOn (motive := fun p : NormalPath => ∀ m ∈ p.names, m.val ∈ split s [slash])
    _ _ (fun m hm => absurd hm List.not_mem_nil) ?_
  intro p hp segment hsegment m hm
  obtain hm | rfl := mem_names_step hm
  · exact hp m hm
  · exact hsegment

theorem text_injective {p q : NormalPath} (h : p.text = q.text) : p = q := by
  rw [← parse_text p, h, parse_text]

theorem join_concat (segments : List JsString) (last : JsString) (h : segments ≠ []) :
    Text.join [slash] (segments ++ [last]) = Text.join [slash] segments ++ slash :: last := by
  induction segments with
  | nil => exact absurd rfl h
  | cons first rest ih =>
    cases rest with
    | nil => simp [Text.join]
    | cons second rest =>
      have := ih (by simp)
      simp only [Text.join, List.cons_append, List.intercalate_cons_cons] at this ⊢
      rw [this]
      simp

theorem text_push (p : NormalPath) (n : FileName) :
    (p.push n).text =
      if p.segments = [] then (if p.absolute then slash :: n.val else n.val)
      else p.text ++ slash :: n.val := by
  have habs : (p.push n).absolute = p.absolute := rfl
  by_cases hp : p.segments = []
  · simp [text, segments_push, hp, habs, Text.join]
  · cases ha : p.absolute <;> simp [text, segments_push, hp, habs, ha, join_concat _ _ hp]

theorem text_push_suffix (p : NormalPath) (n : FileName) :
    ∃ before, (p.push n).text = before ++ n.val := by
  rw [text_push]
  by_cases hp : p.segments = []
  · rw [if_pos hp]
    split
    · exact ⟨[slash], rfl⟩
    · exact ⟨[], rfl⟩
  · exact ⟨p.text ++ [slash], by simp [if_neg hp]⟩

end NormalPath

end normal

section layout

open NormalPath

theorem endsWith_slash (s t : JsString) (hne : t ≠ []) (ht : slash ∉ t) :
    endsWith (s ++ t) [slash] = false := by
  rw [← Bool.not_eq_true, endsWith_unit, List.getLast?_append_of_ne_nil s hne]
  exact fun hlast => ht (List.mem_of_mem_getLast? hlast)

theorem normalize_append (s t : JsString) (hne : t ≠ []) (ht : slash ∉ t) :
    normalize (s ++ t) = (parse (s ++ t)).text := by
  rw [normalize, if_neg (by simp [hne])]
  simp [endsWith_slash s t hne ht]

theorem parse_append (s t : JsString) (hs : s ≠ []) :
    parse (s ++ slash :: t) = (split t [slash]).foldl step (parse s) := by
  have habs : isAbsolute (s ++ slash :: t) = isAbsolute s := by
    obtain ⟨c, cs, rfl⟩ := List.exists_cons_of_ne_nil hs
    simp [isAbsolute, startsWith, List.isPrefixOf]
  rw [parse, habs, split_append, List.foldl_append, parse]

theorem parse_append_name (s : JsString) (hs : s ≠ []) (n : FileName) :
    parse (s ++ slash :: n.val) = (parse s).push n := by
  rw [parse_append s _ hs, split_of_not_mem slash [] n.val n.property.2.1, List.foldl_cons,
    List.foldl_nil, step_name]

theorem parse_name (n : FileName) : parse n.val = (NormalPath.start false).push n := by
  have habs : isAbsolute n.val = false := by
    obtain ⟨c, cs, hn⟩ := List.exists_cons_of_ne_nil n.property.1
    have hc : slash ≠ c := fun h => n.property.2.1 (by simp [hn, h])
    simp [isAbsolute, startsWith, List.isPrefixOf, hn, hc]
  rw [parse, habs, split_of_not_mem slash [] n.val n.property.2.1, List.foldl_cons, List.foldl_nil,
    step_name]

theorem join_text_name (p : NormalPath) (n : FileName) :
    join [p.text, n.val] = (p.push n).text := by
  have hfilter : [p.text, n.val].filter (· ≠ []) = [p.text, n.val] := by
    simp [text_ne_nil, n.property.1]
  have hjoin : Text.join [slash] [p.text, n.val] = (p.text ++ [slash]) ++ n.val := by
    simp [Text.join]
  rw [join, hfilter, if_neg (by simp), hjoin,
    normalize_append _ _ n.property.1 n.property.2.1, List.append_assoc, List.singleton_append,
    parse_append_name _ p.text_ne_nil, parse_text]

theorem join_names (s : JsString) (a b : FileName) :
    join [s, a.val, b.val] = (((parse s).push a).push b).text := by
  by_cases hs : s = []
  · subst hs
    have hfilter : [[], a.val, b.val].filter (· ≠ []) = [a.val, b.val] := by
      simp [a.property.1, b.property.1]
    have hjoin : Text.join [slash] [a.val, b.val] = (a.val ++ [slash]) ++ b.val := by
      simp [Text.join]
    have hnil : parse [] = NormalPath.start false := by
      rw [parse, split, splitFrom, List.reverse_nil, List.foldl_cons, List.foldl_nil, step_nil]
      rfl
    rw [join, hfilter, if_neg (by simp), hjoin,
      normalize_append _ _ b.property.1 b.property.2.1, List.append_assoc, List.singleton_append,
      parse_append_name _ a.property.1, parse_name, hnil]
  · have hfilter : [s, a.val, b.val].filter (· ≠ []) = [s, a.val, b.val] := by
      simp [hs, a.property.1, b.property.1]
    have hjoin : Text.join [slash] [s, a.val, b.val] =
        ((s ++ slash :: a.val) ++ [slash]) ++ b.val := by
      simp [Text.join]
    rw [join, hfilter, if_neg (by simp), hjoin,
      normalize_append _ _ b.property.1 b.property.2.1, List.append_assoc, List.singleton_append,
      parse_append_name _ (by simp), parse_append_name s hs]

/-- What is joined to a path may climb, but it ends in a name that has its tail. -/
theorem join_text_tail (p : NormalPath) (s tail : JsString) (htail : slash ∉ tail)
    (hlen : 2 < tail.length) :
    ∃ (q : NormalPath) (n : FileName) (front : JsString),
      join [p.text, s ++ tail] = (q.push n).text ∧ n.val = front ++ tail := by
  obtain ⟨pieces, front, hsplit, hslash⟩ := split_last slash s tail htail
  have hnil : tail ≠ [] := fun h => by simp [h] at hlen
  have hname : IsName (front ++ tail) := by
    refine ⟨by simp [hnil], hslash, fun h => ?_, fun h => ?_⟩
    · have := congrArg List.length h
      rw [List.length_append, show (js ".").length = 1 by decide] at this
      omega
    · have := congrArg List.length h
      rw [List.length_append, show (js "..").length = 2 by decide] at this
      omega
  have hfilter : [p.text, s ++ tail].filter (· ≠ []) = [p.text, s ++ tail] := by
    simp [text_ne_nil, hnil]
  have hjoin : Text.join [slash] [p.text, s ++ tail] = (p.text ++ slash :: s) ++ tail := by
    simp [Text.join]
  refine ⟨pieces.foldl step p, ⟨front ++ tail, hname⟩, front, ?_, rfl⟩
  rw [join, hfilter, if_neg (by simp), hjoin, normalize_append _ _ hnil htail, List.append_assoc,
    List.cons_append, parse_append _ _ p.text_ne_nil, parse_text, hsplit, List.foldl_append,
    List.foldl_cons, List.foldl_nil, ← step_name]

theorem dropWhile_slash (n : FileName) (rest : JsString) :
    (n.val.reverse ++ rest).dropWhile (· == slash) = n.val.reverse ++ rest := by
  obtain ⟨u, us, hn⟩ := List.exists_cons_of_ne_nil (List.reverse_ne_nil_iff.mpr n.property.1)
  have hu : u ≠ slash := by
    intro h
    have hmem : slash ∈ n.val.reverse := by simp [hn, h]
    exact n.property.2.1 (List.mem_reverse.mp hmem)
  rw [hn, List.cons_append, List.dropWhile_cons, if_neg (by simpa using hu)]

theorem unit_ne_slash (n : FileName) : ∀ u ∈ n.val.reverse, (u != slash) = true := by
  intro u hu
  have hmem := List.mem_reverse.mp hu
  exact bne_iff_ne.mpr fun h => n.property.2.1 (h ▸ hmem)

theorem basename_append (s : JsString) (n : FileName) : basename (s ++ slash :: n.val) = n.val := by
  rw [basename, List.reverse_append, List.reverse_cons, List.append_assoc, dropWhile_slash,
    List.takeWhile_append_of_pos (unit_ne_slash n)]
  simp

theorem basename_name (n : FileName) : basename n.val = n.val := by
  have hdrop := dropWhile_slash n []
  rw [List.append_nil] at hdrop
  rw [basename, hdrop, List.takeWhile_eq_self_iff.mpr (unit_ne_slash n), List.reverse_reverse]

theorem basename_push (p : NormalPath) (n : FileName) : basename (p.push n).text = n.val := by
  rw [text_push]
  by_cases hp : p.segments = []
  · rw [if_pos hp]
    split
    · exact basename_append [] n
    · exact basename_name n
  · rw [if_neg hp]
    exact basename_append _ n

theorem dirname_append (c : UInt16) (s : JsString) (n : FileName) (h : c :: s ≠ [slash]) :
    dirname (c :: s ++ slash :: n.val) = c :: s := by
  have hrest : ((s ++ slash :: n.val).reverse.dropWhile (· == slash)).dropWhile (· != slash) =
      slash :: s.reverse := by
    rw [List.reverse_append, List.reverse_cons, List.append_assoc, dropWhile_slash,
      List.dropWhile_append_of_pos (unit_ne_slash n)]
    simp
  rw [List.cons_append, dirname]
  simp only [hrest]
  rw [if_neg, List.reverse_reverse]
  rintro ⟨rfl, hs⟩
  exact h (by simpa using hs)

theorem dirname_single (c : UInt16) (s : JsString) (hs : slash ∉ s) :
    dirname (c :: s) = if c = slash then [slash] else js "." := by
  have hrest : (s.reverse.dropWhile (· == slash)).dropWhile (· != slash) = [] := by
    rw [List.dropWhile_eq_nil_iff]
    intro u hu
    have hmem := List.mem_reverse.mp ((List.dropWhile_suffix _).subset hu)
    exact bne_iff_ne.mpr fun h => hs (h ▸ hmem)
  rw [dirname]
  simp only [hrest]

theorem text_ne_slash (p : NormalPath) (hp : p.segments ≠ []) : p.text ≠ [slash] := by
  intro htext
  have hparse := parse_text p
  rw [htext] at hparse
  have hroot : (parse [slash]).segments = [] := by decide
  exact hp (hparse ▸ hroot)

theorem dirname_push (p : NormalPath) (n : FileName) : dirname (p.push n).text = p.text := by
  rw [text_push]
  by_cases hp : p.segments = []
  · rw [if_pos hp]
    cases ha : p.absolute with
    | true =>
      rw [if_pos rfl, dirname_single slash _ n.property.2.1]
      simp [text, ha, hp, Text.join]
    | false =>
      obtain ⟨c, cs, hn⟩ := List.exists_cons_of_ne_nil n.property.1
      have hslash := n.property.2.1
      rw [hn] at hslash ⊢
      rw [if_neg (by simp), dirname_single c cs (fun h => hslash (by simp [h])),
        if_neg (fun h => hslash (by simp [h]))]
      simp [text, ha, hp]
  · rw [if_neg hp]
    obtain ⟨c, cs, htext⟩ := List.exists_cons_of_ne_nil p.text_ne_nil
    have hne := text_ne_slash p hp
    rw [htext] at hne ⊢
    exact dirname_append c cs n hne

theorem push_text_inj {p q : NormalPath} {m n : FileName} (h : (p.push m).text = (q.push n).text) :
    p = q ∧ m = n := by
  refine ⟨text_injective ?_, Subtype.ext ?_⟩
  · rw [← dirname_push p m, h, dirname_push]
  · rw [← basename_push p m, h, basename_push]

end layout

end Solarcido.NodePath
