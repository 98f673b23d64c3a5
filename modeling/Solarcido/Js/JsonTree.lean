import Solarcido.Js.JsonNumber
import Solarcido.Js.Value
import Solarcido.Lib.MemberOrder

namespace Solarcido.Json

open Text Documents Doc

/-- What stands in JSON data besides strings, arrays and objects. -/
inductive Scalar where
  | null
  | bool (b : Bool)
  | num (n : JsNumber)
  deriving DecidableEq

def Scalar.json : Scalar → Json
  | .null => .null
  | .bool b => .bool b
  | .num n => .num n

/-- JSON data in which `undefined` can stand: an item or a value that is left out. -/
abbrev Data := Doc JsString Scalar

section induction

/-- Induction with the items of an array and the values of an object at once. -/
@[induction_eliminator]
theorem induct {motive : Json → Prop} (null : motive .null) (bool : ∀ b, motive (.bool b))
    (num : ∀ n, motive (.num n)) (str : ∀ s, motive (.str s))
    (arr : ∀ items, (∀ item ∈ items, motive item) → motive (.arr items))
    (obj : ∀ members, (∀ m ∈ members, motive m.2) → motive (.obj members)) (value : Json) :
    motive value :=
  @Json.rec motive (fun items => ∀ item ∈ items, motive item)
    (fun members => ∀ m ∈ members, motive m.2) (fun m => motive m.2) null bool num str arr obj
    (fun _ h => nomatch h) (fun _ _ hd hds => List.forall_mem_cons.mpr ⟨hd, hds⟩)
    (fun _ h => nomatch h) (fun _ _ hm hms => List.forall_mem_cons.mpr ⟨hm, hms⟩)
    (fun _ _ h => h) value

end induction

section data

mutual

def data : Json → Data
  | .null => .atom .null
  | .bool b => .atom (.bool b)
  | .num n => .atom (.num n)
  | .str s => .text s
  | .arr items => .arr (dataItems items)
  | .obj members => .obj (dataMembers members)

def dataItems : List Json → List Data
  | [] => []
  | item :: rest => data item :: dataItems rest

def dataMembers : List (JsString × Json) → List (JsString × Data)
  | [] => []
  | (key, value) :: rest => (key, data value) :: dataMembers rest

end

theorem data_arr (items : List Json) : data (.arr items) = .arr (items.map data) := by
  have hitems : dataItems items = items.map data := by
    induction items with
    | nil => rw [dataItems, List.map_nil]
    | cons item rest ih => rw [dataItems, ih, List.map_cons]
  rw [data, hitems]

theorem data_obj (members : List (JsString × Json)) :
    data (.obj members) = .obj (members.map fun m => (m.1, data m.2)) := by
  have hmembers : dataMembers members = members.map fun m => (m.1, data m.2) := by
    induction members with
    | nil => rw [dataMembers, List.map_nil]
    | cons m rest ih => rw [dataMembers, ih, List.map_cons]
  rw [data, hmembers]

/-- Equal values, up to the order of the members of objects. -/
def SameValue (v w : Json) : Prop := Same v.data w.data

end data

section valid

variable (numbers : NumberTexts)

def Scalar.IsKnown : Scalar → Prop
  | .num (.finite q) => numbers.IsNumber q
  | .num _ => False
  | _ => True

/-- Data of the language: the keys of each object are distinct, and its numbers are finite. -/
structure IsData (d : Data) : Prop where
  keys : d.Distinct
  atoms : d.AllAtoms (Scalar.IsKnown numbers)

end valid

section words

-- How the engine writes a finite number.
variable (numberText : ℚ → JsString)

def Scalar.word : Scalar → JsString
  | .null => js "null"
  | .bool true => js "true"
  | .bool false => js "false"
  | .num n => numText numberText n

/-- What is written for a value that can be undefined where a text is concatenated. -/
def spelled : Tree → Tree
  | .hole => .atom (js "undefined")
  | tree => tree

mutual

def words : Data → Tree
  | .hole => .hole
  | .atom a => .atom (a.word numberText)
  | .text s => .text s
  | .arr items => .arr (wordsItems items)
  | .obj members => .obj (wordsMembers members)

def wordsItems : List Data → List Tree
  | [] => []
  | d :: rest => words d :: wordsItems rest

def wordsMembers : List (JsString × Data) → List (JsString × Tree)
  | [] => []
  | (key, d) :: rest => (key, spelled (words d)) :: wordsMembers rest

end

theorem words_arr (items : List Data) :
    words numberText (.arr items) = .arr (items.map (words numberText)) := by
  have hitems : wordsItems numberText items = items.map (words numberText) := by
    induction items with
    | nil => rw [wordsItems, List.map_nil]
    | cons d rest ih => rw [wordsItems, ih, List.map_cons]
  rw [words, hitems]

theorem words_obj (members : List (JsString × Data)) :
    words numberText (.obj members) =
      .obj (members.map fun m => (m.1, spelled (words numberText m.2))) := by
  have hmembers : wordsMembers numberText members =
      members.map fun m => (m.1, spelled (words numberText m.2)) := by
    induction members with
    | nil => rw [wordsMembers, List.map_nil]
    | cons m rest ih => rw [wordsMembers, ih, List.map_cons]
  rw [words, hmembers]

theorem keys_words (members : List (JsString × Data)) :
    (members.map fun m => (m.1, spelled (words numberText m.2))).map Prod.fst =
      members.map Prod.fst := by
  rw [List.map_map]
  rfl

/-- The tree has the keys of the data. -/
theorem everywhere_words {P : List JsString → Prop} (d : Data) :
    Everywhere P (words numberText d) ↔ Everywhere P d := by
  induction d using Doc.induct with
  | hole => exact iff_of_true .hole .hole
  | atom a => exact iff_of_true (.atom _) (.atom _)
  | text s => exact iff_of_true (.text s) (.text s)
  | arr items ih =>
    rw [words_arr, everywhere_arr, everywhere_arr, List.forall_mem_map]
    exact forall₂_congr ih
  | obj members ih =>
    rw [words_obj, everywhere_obj, everywhere_obj, keys_words, List.forall_mem_map]
    refine and_congr_right fun _ => forall₂_congr fun m hm => ?_
    have hvalue := ih m hm
    cases htree : words numberText m.2 with
    | hole =>
      rw [htree] at hvalue
      exact iff_of_true (.atom _) (hvalue.mp .hole)
    | _ =>
      rw [htree] at hvalue
      exact hvalue

end words

section known

variable {numbers : NumberTexts}

theorem isWord_word {a : Scalar} (h : a.IsKnown numbers) : IsWord (a.word numbers.text) := by
  cases a with
  | null => exact (by decide : IsWord (js "null"))
  | bool b =>
    cases b with
    | false => exact (by decide : IsWord (js "false"))
    | true => exact (by decide : IsWord (js "true"))
  | num n =>
    cases n with
    | finite q => exact isWord_of_isNumberText (numbers.text_number q h)
    | nan => cases h
    | infinite negative => cases h

theorem isWord_words {d : Data} (h : d.AllAtoms (Scalar.IsKnown numbers)) :
    AllAtoms IsWord (words numbers.text d) := by
  induction d using Doc.induct with
  | hole => exact .hole
  | atom a => exact .atom _ (isWord_word (allAtoms_atom.mp h))
  | text s => exact .text s
  | arr items ih =>
    rw [words_arr, allAtoms_arr, List.forall_mem_map]
    exact fun d hd => ih d hd (allAtoms_arr.mp h d hd)
  | obj members ih =>
    rw [words_obj, allAtoms_obj, List.forall_mem_map]
    intro m hm
    have hvalue := ih m hm (allAtoms_obj.mp h m hm)
    cases htree : words numbers.text m.2 with
    | hole => exact .atom _ (by decide)
    | _ =>
      rw [htree] at hvalue
      exact hvalue

end known

section compact

mutual

/-- A tree without blanks. -/
def compact : Tree → JsString
  | .hole => []
  | .atom w => w
  | .text s => quote s
  | .arr items => js "[" ++ join (js ",") (compactItems items) ++ js "]"
  | .obj members => js "\x7b" ++ join (js ",") (compactMembers members) ++ js "\x7d"

def compactItems : List Tree → List JsString
  | [] => []
  | d :: rest => compact d :: compactItems rest

def compactMembers : List (JsString × Tree) → List JsString
  | [] => []
  | (key, d) :: rest => (quote key ++ js ":" ++ compact d) :: compactMembers rest

end

theorem compactItems_eq (items : List Tree) : compactItems items = items.map compact := by
  induction items with
  | nil => rw [compactItems, List.map_nil]
  | cons d rest ih => rw [compactItems, ih, List.map_cons]

theorem compactMembers_eq (members : List (JsString × Tree)) :
    compactMembers members = members.map fun m => quote m.1 ++ js ":" ++ compact m.2 := by
  induction members with
  | nil => rw [compactMembers, List.map_nil]
  | cons m rest ih => rw [compactMembers, ih, List.map_cons]

/-- The text of a tree is scanned as the tokens of the tree. -/
theorem scans_compact (t : Tree) (h : AllAtoms IsWord t) : Scans (compact t) (tokens t) := by
  induction t using Doc.induct with
  | hole => exact scans_nil
  | atom w => exact scans_word (allAtoms_atom.mp h)
  | text s => exact scans_quote s
  | arr items ih =>
    have hparts : List.Forall₂ Scans (items.map compact) (items.map tokens) := by
      rw [List.forall₂_map_left_iff, List.forall₂_map_right_iff, List.forall₂_same]
      exact fun d hd => ih d hd (allAtoms_arr.mp h d hd)
    have hjoin := scans_join no_blanks hparts
    rw [compact, tokens, compactItems_eq, itemTokens_eq]
    exact Scans.between (u := 91) (v := 93) rfl rfl hjoin
  | obj members ih =>
    have hparts : List.Forall₂ Scans
        (members.map fun m => quote m.1 ++ js ":" ++ compact m.2)
        (members.map fun m => .text m.1 :: .colon :: tokens m.2) := by
      rw [List.forall₂_map_left_iff, List.forall₂_map_right_iff, List.forall₂_same]
      intro m hm
      have hvalue := Scans.afterMark (u := 58) rfl (ih m hm (allAtoms_obj.mp h m hm))
      rw [List.append_assoc]
      exact (scans_quote m.1).append hvalue fun _ _ => ends_mark rfl
    have hjoin := scans_join no_blanks hparts
    rw [compact, tokens, compactMembers_eq, memberTokens_eq]
    exact Scans.between (u := 123) (v := 125) rfl rfl hjoin

end compact

section stringify

variable (numberText : ℚ → JsString)

theorem spelled_words_data (v : Json) :
    spelled (words numberText v.data) = words numberText v.data := by
  cases v <;> rfl

theorem stringify_eq_compact (v : Json) :
    stringify numberText v = compact (words numberText v.data) := by
  induction v with
  | null => rfl
  | bool b => cases b <;> rfl
  | num n => rfl
  | str s => rfl
  | arr items ih =>
    have hitems : stringifyItems numberText items =
        items.map fun item => compact (words numberText item.data) := by
      induction items with
      | nil => rfl
      | cons item rest ihrest =>
        rw [stringifyItems, ih item List.mem_cons_self,
          ihrest fun i hi => ih i (List.mem_cons_of_mem item hi), List.map_cons]
    rw [stringify, hitems, data_arr, words_arr, compact, compactItems_eq, List.map_map, List.map_map]
    rfl
  | obj members ih =>
    have hmembers : stringifyMembers numberText members =
        members.map fun m => quote m.1 ++ js ":" ++ compact (words numberText m.2.data) := by
      induction members with
      | nil => rfl
      | cons m rest ihrest =>
        rw [stringifyMembers, ih m List.mem_cons_self,
          ihrest fun n hn => ih n (List.mem_cons_of_mem m hn), List.map_cons]
    rw [stringify, hmembers, data_obj, words_obj, compact, compactMembers_eq, List.map_map,
      List.map_map]
    simp only [Function.comp_def, spelled_words_data]

theorem prettyItems_eq (indent : Nat) (items : List Json) :
    prettyItems numberText indent items = items.map (prettyFrom numberText indent) := by
  induction items with
  | nil => rfl
  | cons item rest ih => rw [prettyItems, ih, List.map_cons]

theorem prettyMembers_eq (indent : Nat) (members : List (JsString × Json)) :
    prettyMembers numberText indent members =
      members.map fun m => quote m.1 ++ js ": " ++ prettyFrom numberText indent m.2 := by
  induction members with
  | nil => rfl
  | cons m rest ih => rw [prettyMembers, ih, List.map_cons]

variable {numbers : NumberTexts}

theorem scans_stringify {v : Json} (h : IsData numbers v.data) :
    Scans (stringify numbers.text v) (tokens (words numbers.text v.data)) := by
  rw [stringify_eq_compact]
  exact scans_compact _ (isWord_words h.atoms)

theorem scans_prettyFrom (v : Json) (h : v.data.AllAtoms (Scalar.IsKnown numbers)) (indent : Nat) :
    Scans (prettyFrom numbers.text indent v) (tokens (words numbers.text v.data)) := by
  induction v generalizing indent with
  | null => exact scans_word (isWord_word (a := .null) (allAtoms_atom.mp h))
  | bool b =>
    have hword := isWord_word (a := .bool b) (allAtoms_atom.mp h)
    cases b <;> exact scans_word hword
  | num n => exact scans_word (isWord_word (a := .num n) (allAtoms_atom.mp h))
  | str s => exact scans_quote s
  | arr items ih =>
    rw [data_arr, allAtoms_arr, List.forall_mem_map] at h
    have hparts : List.Forall₂ Scans (prettyItems numbers.text (indent + 2) items)
        (items.map fun item => tokens (words numbers.text item.data)) := by
      rw [prettyItems_eq, List.forall₂_map_left_iff, List.forall₂_map_right_iff, List.forall₂_same]
      exact fun item hitem => ih item hitem (h item hitem) (indent + 2)
    rw [prettyFrom, data_arr, words_arr, tokens, itemTokens_eq, List.map_map, List.map_map]
    exact scans_block (u := 91) (v := 93) rfl rfl indent hparts
  | obj members ih =>
    rw [data_obj, allAtoms_obj, List.forall_mem_map] at h
    have hparts : List.Forall₂ Scans (prettyMembers numbers.text (indent + 2) members)
        (members.map fun m => .text m.1 :: .colon :: tokens (words numbers.text m.2.data)) := by
      rw [prettyMembers_eq, List.forall₂_map_left_iff, List.forall₂_map_right_iff,
        List.forall₂_same]
      intro m hm
      have hvalue := Scans.afterMark (u := 58) rfl
        (Scans.afterBlank (u := 32) rfl (ih m hm (h m hm) (indent + 2)))
      rw [List.append_assoc]
      exact (scans_quote m.1).append hvalue fun _ _ => ends_mark rfl
    rw [prettyFrom, data_obj, words_obj, tokens, memberTokens_eq, List.map_map, List.map_map]
    simp only [Function.comp_def, spelled_words_data]
    exact scans_block (u := 123) (v := 125) rfl rfl indent hparts

end stringify

end Solarcido.Json
