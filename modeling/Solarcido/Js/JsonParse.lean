import Solarcido.Js.JsonTree
import Solarcido.Js.KeyOrder

namespace Solarcido.Json

open Text Documents Doc

section build

variable (numbers : NumberTexts)

def scalarOf (w : JsString) : Option Json :=
  if w = js "null" then some .null
  else if w = js "true" then some (.bool true)
  else if w = js "false" then some (.bool false)
  else if isNumberText w then some (.num (numbers.value w))
  else none

mutual

/-- The value of a tree. Of the members of one key the last one counts. -/
def build : Tree → Option Json
  | .hole => none
  | .atom w => scalarOf numbers w
  | .text s => some (.str s)
  | .arr items => (buildItems items).map .arr
  | .obj members => (buildMembers members).map fun built => .obj (createMembers built)

def buildItems : List Tree → Option (List Json)
  | [] => some []
  | tree :: rest => (build tree).bind fun item => (buildItems rest).map (item :: ·)

def buildMembers : List (JsString × Tree) → Option (List (JsString × Json))
  | [] => some []
  | (key, tree) :: rest =>
    (build tree).bind fun value => (buildMembers rest).map ((key, value) :: ·)

end

/-- A JSON text as it is written, its objects with the members in the order of the text. -/
def treeOf (text : JsString) : Option Tree := (scan (.word []) text).bind Documents.read

/-- `JSON.parse(text)`; `none` is the error it throws. -/
def parse (text : JsString) : Option Json := (treeOf text).bind (build numbers)

end build

section reading

variable {s blanks : JsString} {t : Tree}

theorem scan_blanks (h : ∀ u ∈ blanks, isBlank u = true) : scan (.word []) blanks = some [] := by
  induction blanks with
  | nil => rfl
  | cons u blanks ih =>
    rw [scan_blank (h u List.mem_cons_self)]
    exact ih fun v hv => h v (List.mem_cons_of_mem u hv)

theorem treeOf_scans (hs : Scans s (tokens t)) (ht : Whole t) (h : ∀ u ∈ blanks, isBlank u = true) :
    treeOf (s ++ blanks) = some (withoutLone t) := by
  have hends : Ends blanks := fun u hu => .inl (h u (List.mem_of_mem_head? hu))
  rw [treeOf, hs blanks hends, scan_blanks h, Option.map_some, Option.bind_some, List.append_nil,
    read_tokens t ht]

end reading

section values

variable {numbers : NumberTexts} (numberText : ℚ → JsString)

theorem solid_words_data (v : Json) : Solid (words numberText v.data) := by
  induction v with
  | null => exact .atom _
  | bool b => cases b <;> exact .atom _
  | num n => exact .atom _
  | str s => exact .text s
  | arr items ih =>
    rw [data_arr, words_arr]
    refine .arr _ ?_
    simp only [List.forall_mem_map]
    exact ih
  | obj members ih =>
    rw [data_obj, words_obj]
    refine .obj _ ?_
    simp only [List.forall_mem_map, spelled_words_data]
    exact ih

theorem treeOf_value {v : Json} (hs : Scans s (tokens (words numberText v.data)))
    (h : ∀ u ∈ blanks, isBlank u = true) : treeOf (s ++ blanks) = some (words numberText v.data) := by
  rw [treeOf_scans hs (solid_words_data numberText v).whole h,
    (solid_words_data numberText v).withoutLone]

theorem scalarOf_number {q : ℚ} (h : numbers.IsNumber q) :
    scalarOf numbers (numbers.text q) = some (.num (.finite q)) := by
  have hnumber := numbers.text_number q h
  have hword : ∀ w : JsString, isNumberText w = false → numbers.text q ≠ w := by
    rintro w hw rfl
    exact Bool.false_ne_true (hw.symm.trans hnumber)
  rw [scalarOf, if_neg (hword _ (by decide)), if_neg (hword _ (by decide)),
    if_neg (hword _ (by decide)), if_pos hnumber, numbers.value_text q h]

theorem scalarOf_word {a : Scalar} (h : a.IsKnown numbers) :
    scalarOf numbers (a.word numbers.text) = some a.json := by
  cases a with
  | null => rfl
  | bool b => cases b <;> rfl
  | num n =>
    cases n with
    | finite q => exact scalarOf_number h
    | nan => cases h
    | infinite negative => cases h

theorem word_injective {a b : Scalar} (ha : a.IsKnown numbers) (hb : b.IsKnown numbers)
    (h : a.word numbers.text = b.word numbers.text) : a = b := by
  have hjson := scalarOf_word ha
  rw [h, scalarOf_word hb, Option.some.injEq] at hjson
  cases a <;> cases b <;> simp_all [Scalar.json]

theorem word_ne_undefined {a : Scalar} (h : a.IsKnown numbers) :
    a.word numbers.text ≠ js "undefined" := by
  intro hword
  have hnone : scalarOf numbers (js "undefined") = none := by
    rw [scalarOf, if_neg (by decide), if_neg (by decide), if_neg (by decide), if_neg (by decide)]
  have hjson := scalarOf_word h
  rw [hword, hnone] at hjson
  cases hjson

section enumerate

mutual

/-- The value with the members of each object in the order in which they are enumerated. -/
def enumerate : Json → Json
  | .arr items => .arr (enumerateItems items)
  | .obj members => .obj (createMembers (enumerateMembers members))
  | value => value

def enumerateItems : List Json → List Json
  | [] => []
  | item :: rest => enumerate item :: enumerateItems rest

def enumerateMembers : List (JsString × Json) → List (JsString × Json)
  | [] => []
  | (key, value) :: rest => (key, enumerate value) :: enumerateMembers rest

end

theorem enumerate_arr (items : List Json) : enumerate (.arr items) = .arr (items.map enumerate) := by
  have hitems : enumerateItems items = items.map enumerate := by
    induction items with
    | nil => rw [enumerateItems, List.map_nil]
    | cons item rest ih => rw [enumerateItems, ih, List.map_cons]
  rw [enumerate, hitems]

theorem enumerate_obj (members : List (JsString × Json)) :
    enumerate (.obj members) = .obj (createMembers (members.map (mapMember enumerate))) := by
  have hmembers : enumerateMembers members = members.map (mapMember enumerate) := by
    induction members with
    | nil => rw [enumerateMembers, List.map_nil]
    | cons m rest ih => rw [enumerateMembers, ih, List.map_cons]; rfl
  rw [enumerate, hmembers]

/-- What has been written is read as the same value, as its members are enumerated. -/
theorem build_words (v : Json) (h : v.data.AllAtoms (Scalar.IsKnown numbers)) :
    build numbers (words numbers.text v.data) = some (enumerate v) := by
  induction v with
  | null => exact scalarOf_word (a := .null) trivial
  | bool b => exact scalarOf_word (a := .bool b) trivial
  | num n => exact scalarOf_word (a := .num n) (allAtoms_atom.mp h)
  | str s => rfl
  | arr items ih =>
    rw [data_arr, allAtoms_arr, List.forall_mem_map] at h
    have hitems : buildItems numbers (items.map (words numbers.text ∘ data)) =
        some (items.map enumerate) := by
      induction items with
      | nil => rfl
      | cons item rest ihrest =>
        obtain ⟨hitem, hrest⟩ := List.forall_mem_cons.mp h
        obtain ⟨ihitem, ih⟩ := List.forall_mem_cons.mp ih
        rw [List.map_cons, buildItems, ihrest ih hrest, Function.comp_apply, ihitem hitem]
        rfl
    rw [data_arr, words_arr, build, List.map_map, hitems, enumerate_arr]
    rfl
  | obj members ih =>
    rw [data_obj, allAtoms_obj, List.forall_mem_map] at h
    have hmembers : buildMembers numbers
        (members.map fun m => (m.1, words numbers.text m.2.data)) =
          some (members.map (mapMember enumerate)) := by
      induction members with
      | nil => rfl
      | cons m rest ihrest =>
        obtain ⟨hm, hrest⟩ := List.forall_mem_cons.mp h
        obtain ⟨ihm, ih⟩ := List.forall_mem_cons.mp ih
        rw [List.map_cons, buildMembers, ihrest ih hrest, ihm hm]
        rfl
    rw [data_obj, words_obj, build, List.map_map]
    simp only [Function.comp_def, spelled_words_data]
    rw [hmembers, enumerate_obj]
    rfl

/-- A function that only rebuilds the members of objects does the same to their data. -/
theorem data_rebuilt {f : Json → Json} {g : List (JsString × Json) → List (JsString × Json)}
    {rule : List (JsString × Data) → List (JsString × Data)}
    (hrule : ∀ members, rule (members.map (mapMember data)) = (g members).map (mapMember data))
    (hscalar : ∀ a : Scalar, f a.json = a.json) (hstr : ∀ s, f (.str s) = .str s)
    (harr : ∀ items, f (.arr items) = .arr (items.map f))
    (hobj : ∀ members, f (.obj members) = .obj (g (members.map (mapMember f)))) (v : Json) :
    (f v).data = rewrite (onMembers rule) v.data := by
  induction v with
  | null => exact congrArg data (hscalar .null)
  | bool b => exact congrArg data (hscalar (.bool b))
  | num n => exact congrArg data (hscalar (.num n))
  | str s => exact congrArg data (hstr s)
  | arr items ih =>
    rw [harr, data_arr, data_arr, onMembers_arr, List.map_map, List.map_map]
    exact congrArg Doc.arr (List.map_congr_left ih)
  | obj members ih =>
    have hmembers : (members.map (mapMember f)).map (mapMember data) =
        mapValues (rewrite (onMembers rule)) (members.map fun m => (m.1, m.2.data)) := by
      rw [mapValues, List.map_map, List.map_map]
      exact List.map_congr_left fun m hm => congrArg (Prod.mk m.1) (ih m hm)
    rw [hobj, data_obj, data_obj, onMembers_obj, ← hmembers, hrule]
    rfl

theorem data_enumerate (v : Json) :
    (enumerate v).data = rewrite (onMembers createMembers) v.data :=
  data_rebuilt (createMembers_map data) (fun a => by cases a <;> rfl) (fun _ => rfl) enumerate_arr
    enumerate_obj v

theorem sameValue_enumerate {v : Json} (h : v.data.Distinct) : SameValue v (enumerate v) := by
  rw [SameValue, data_enumerate]
  refine rewrite_same (fun items => .refl _) (fun members hkeys => ?_) v.data h
  exact .reorder (createMembers_perm hkeys).symm

theorem enumerate_self {v : Json} (hkeys : v.data.Distinct) (h : v.data.Everywhere Enumerated) :
    enumerate v = v := by
  induction v with
  | null | bool b | num n | str s => rfl
  | arr items ih =>
    rw [data_arr] at hkeys h
    have hkeys := List.forall_mem_map.mp (everywhere_arr.mp hkeys)
    have h := List.forall_mem_map.mp (everywhere_arr.mp h)
    have hitems : items.map enumerate = items :=
      (List.map_congr_left fun item hitem => ih item hitem (hkeys item hitem) (h item hitem)).trans
        (List.map_id' items)
    rw [enumerate_arr, hitems]
  | obj members ih =>
    rw [data_obj] at hkeys h
    have hkeys := everywhere_obj.mp hkeys
    have h := everywhere_obj.mp h
    rw [List.map_map] at hkeys h
    have hvalues : ∀ m ∈ members, enumerate m.2 = m.2 := by
      intro m hm
      exact ih m hm (hkeys.2 _ (List.mem_map_of_mem hm)) (h.2 _ (List.mem_map_of_mem hm))
    have hmembers : members.map (mapMember enumerate) = members :=
      (List.map_congr_left fun m hm => congrArg (Prod.mk m.1) (hvalues m hm)).trans
        (List.map_id' members)
    rw [enumerate_obj, hmembers, createMembers_self hkeys.1 h.1]

end enumerate

/-- A text that is scanned as a value is parsed as that value. -/
theorem parse_scans {v : Json} {s blanks : JsString}
    (hs : Scans s (tokens (words numbers.text v.data))) (h : IsData numbers v.data)
    (hblanks : ∀ u ∈ blanks, isBlank u = true) : parse numbers (s ++ blanks) = some (enumerate v) := by
  rw [parse, treeOf_value numbers.text hs hblanks, Option.bind_some, build_words v h.atoms]

end values

end Solarcido.Json
