import Mathlib.Data.List.Basic

namespace Solarcido.Documents

/-- A document of atoms and texts in arrays and objects. An item of an array can be left out. -/
inductive Doc (κ α : Type) where
  | hole
  | atom (a : α)
  | text (s : κ)
  | arr (items : List (Doc κ α))
  | obj (members : List (κ × Doc κ α))

inductive Token (κ α : Type) where
  | openArr
  | closeArr
  | openObj
  | closeObj
  | comma
  | colon
  | text (s : κ)
  | atom (a : α)
  deriving DecidableEq

variable {κ α : Type}

namespace Doc

/-- Induction with the items of an array and the values of an object at once. -/
@[induction_eliminator]
theorem induct {motive : Doc κ α → Prop} (hole : motive .hole) (atom : ∀ a, motive (.atom a))
    (text : ∀ s, motive (.text s))
    (arr : ∀ items, (∀ d ∈ items, motive d) → motive (.arr items))
    (obj : ∀ members, (∀ m ∈ members, motive m.2) → motive (.obj members)) (d : Doc κ α) :
    motive d :=
  @Doc.rec κ α motive (fun items => ∀ d ∈ items, motive d)
    (fun members => ∀ m ∈ members, motive m.2) (fun m => motive m.2) hole atom text arr obj
    (fun _ h => nomatch h) (fun _ _ hd hds => List.forall_mem_cons.mpr ⟨hd, hds⟩)
    (fun _ h => nomatch h) (fun _ _ hm hms => List.forall_mem_cons.mpr ⟨hm, hms⟩)
    (fun _ _ h => h) d

/-- Every object of the document has keys of which `P` holds. -/
inductive Everywhere (P : List κ → Prop) : Doc κ α → Prop where
  | hole : Everywhere P .hole
  | atom (a : α) : Everywhere P (.atom a)
  | text (s : κ) : Everywhere P (.text s)
  | arr (items : List (Doc κ α)) (h : ∀ d ∈ items, Everywhere P d) : Everywhere P (.arr items)
  | obj (members : List (κ × Doc κ α)) (hkeys : P (members.map Prod.fst))
      (h : ∀ m ∈ members, Everywhere P m.2) : Everywhere P (.obj members)

/-- Only items of arrays are left out. -/
inductive Whole : Doc κ α → Prop where
  | atom (a : α) : Whole (.atom a)
  | text (s : κ) : Whole (.text s)
  | arr (items : List (Doc κ α)) (h : ∀ d ∈ items, d ≠ .hole → Whole d) : Whole (.arr items)
  | obj (members : List (κ × Doc κ α)) (h : ∀ m ∈ members, Whole m.2) : Whole (.obj members)

/-- Nothing is left out. -/
inductive Solid : Doc κ α → Prop where
  | atom (a : α) : Solid (.atom a)
  | text (s : κ) : Solid (.text s)
  | arr (items : List (Doc κ α)) (h : ∀ d ∈ items, Solid d) : Solid (.arr items)
  | obj (members : List (κ × Doc κ α)) (h : ∀ m ∈ members, Solid m.2) : Solid (.obj members)

/-- `P` holds of every atom of the document. -/
inductive AllAtoms (P : α → Prop) : Doc κ α → Prop where
  | hole : AllAtoms P .hole
  | atom (a : α) (h : P a) : AllAtoms P (.atom a)
  | text (s : κ) : AllAtoms P (.text s)
  | arr (items : List (Doc κ α)) (h : ∀ d ∈ items, AllAtoms P d) : AllAtoms P (.arr items)
  | obj (members : List (κ × Doc κ α)) (h : ∀ m ∈ members, AllAtoms P m.2) :
    AllAtoms P (.obj members)

section everywhere

variable {P Q : List κ → Prop} {items : List (Doc κ α)} {members : List (κ × Doc κ α)}

theorem everywhere_arr : Everywhere P (.arr items) ↔ ∀ d ∈ items, Everywhere P d :=
  ⟨fun h => match h with | .arr _ h => h, .arr items⟩

theorem everywhere_obj : Everywhere P (.obj members) ↔
    P (members.map Prod.fst) ∧ ∀ m ∈ members, Everywhere P m.2 :=
  ⟨fun h => match h with | .obj _ hkeys h => ⟨hkeys, h⟩, fun h => .obj members h.1 h.2⟩

theorem everywhere_and (d : Doc κ α) :
    Everywhere (fun keys => P keys ∧ Q keys) d ↔ Everywhere P d ∧ Everywhere Q d := by
  induction d with
  | hole => exact iff_of_true .hole ⟨.hole, .hole⟩
  | atom a => exact iff_of_true (.atom a) ⟨.atom a, .atom a⟩
  | text s => exact iff_of_true (.text s) ⟨.text s, .text s⟩
  | arr items ih =>
    simp only [everywhere_arr, ← forall_and]
    exact forall₂_congr ih
  | obj members ih =>
    simp only [everywhere_obj]
    rw [forall₂_congr ih]
    grind

variable {R : α → Prop}

theorem allAtoms_atom {a : α} : AllAtoms R (.atom a : Doc κ α) ↔ R a :=
  ⟨fun h => match h with | .atom _ h => h, .atom a⟩

theorem allAtoms_arr : AllAtoms R (.arr items) ↔ ∀ d ∈ items, AllAtoms R d :=
  ⟨fun h => match h with | .arr _ h => h, .arr items⟩

theorem allAtoms_obj : AllAtoms R (.obj members) ↔ ∀ m ∈ members, AllAtoms R m.2 :=
  ⟨fun h => match h with | .obj _ h => h, .obj members⟩

theorem whole_arr : Whole (.arr items) ↔ ∀ d ∈ items, d ≠ .hole → Whole d :=
  ⟨fun h => match h with | .arr _ h => h, .arr items⟩

theorem whole_obj : Whole (.obj members) ↔ ∀ m ∈ members, Whole m.2 :=
  ⟨fun h => match h with | .obj _ h => h, .obj members⟩

end everywhere

section rewriting

variable (f : Doc κ α → Doc κ α)

mutual

/-- The document with `f` applied to its arrays and objects, the inner ones first. -/
def rewrite : Doc κ α → Doc κ α
  | .hole => .hole
  | .atom a => .atom a
  | .text s => .text s
  | .arr items => f (.arr (rewriteItems items))
  | .obj members => f (.obj (rewriteMembers members))

def rewriteItems : List (Doc κ α) → List (Doc κ α)
  | [] => []
  | d :: rest => rewrite d :: rewriteItems rest

def rewriteMembers : List (κ × Doc κ α) → List (κ × Doc κ α)
  | [] => []
  | (key, d) :: rest => (key, rewrite d) :: rewriteMembers rest

end

/-- The members with `f` applied to their values. -/
def mapValues (g : Doc κ α → Doc κ α) (members : List (κ × Doc κ α)) : List (κ × Doc κ α) :=
  members.map fun m => (m.1, g m.2)

@[simp]
theorem keys_mapValues (g : Doc κ α → Doc κ α) (members : List (κ × Doc κ α)) :
    (mapValues g members).map Prod.fst = members.map Prod.fst := by
  rw [mapValues, List.map_map]
  rfl

theorem rewrite_arr (items : List (Doc κ α)) :
    rewrite f (.arr items) = f (.arr (items.map (rewrite f))) := by
  have hitems : rewriteItems f items = items.map (rewrite f) := by
    induction items with
    | nil => rw [rewriteItems, List.map_nil]
    | cons d rest ih => rw [rewriteItems, ih, List.map_cons]
  rw [rewrite, hitems]

theorem rewrite_obj (members : List (κ × Doc κ α)) :
    rewrite f (.obj members) = f (.obj (mapValues (rewrite f) members)) := by
  have hmembers : rewriteMembers f members = mapValues (rewrite f) members := by
    induction members with
    | nil => rw [rewriteMembers]; rfl
    | cons m rest ih => rw [rewriteMembers, ih]; rfl
  rw [rewrite, hmembers]

end rewriting

/-- An array of one item that is left out is the empty array. -/
def emptyLone : Doc κ α → Doc κ α
  | .arr [.hole] => .arr []
  | d => d

def withoutLone (d : Doc κ α) : Doc κ α := rewrite emptyLone d

section solid

theorem Solid.whole {d : Doc κ α} (h : Solid d) : Whole d := by
  induction h with
  | atom a => exact .atom a
  | text s => exact .text s
  | arr items _ ih => exact .arr items fun d hd _ => ih d hd
  | obj members _ ih => exact .obj members ih

theorem Solid.withoutLone {d : Doc κ α} (h : Solid d) : withoutLone d = d := by
  induction h with
  | atom a => rfl
  | text s => rfl
  | arr items h ih =>
    have hitems : items.map (rewrite emptyLone) = items :=
      (List.map_congr_left ih).trans (List.map_id' items)
    rw [Doc.withoutLone, rewrite_arr, hitems]
    unfold emptyLone
    split
    · next heq =>
      obtain rfl := arr.inj heq
      cases h .hole (by simp)
    · rfl
  | obj members _ ih =>
    have hmembers : mapValues (rewrite emptyLone) members = members :=
      (List.map_congr_left fun m hm => congrArg (Prod.mk m.1) (ih m hm)).trans
        (List.map_id' members)
    rw [Doc.withoutLone, rewrite_obj, hmembers]
    rfl

end solid

section tokens

mutual

/-- A comma between two items and two members; nothing stands for an item that is left out. -/
def tokens : Doc κ α → List (Token κ α)
  | .hole => []
  | .atom a => [.atom a]
  | .text s => [.text s]
  | .arr items => .openArr :: [.comma].intercalate (itemTokens items) ++ [.closeArr]
  | .obj members => .openObj :: [.comma].intercalate (memberTokens members) ++ [.closeObj]

def itemTokens : List (Doc κ α) → List (List (Token κ α))
  | [] => []
  | d :: rest => tokens d :: itemTokens rest

def memberTokens : List (κ × Doc κ α) → List (List (Token κ α))
  | [] => []
  | (key, d) :: rest => (.text key :: .colon :: tokens d) :: memberTokens rest

end

theorem itemTokens_eq (items : List (Doc κ α)) : itemTokens items = items.map tokens := by
  induction items with
  | nil => rw [itemTokens, List.map_nil]
  | cons d rest ih => rw [itemTokens, ih, List.map_cons]

theorem memberTokens_eq (members : List (κ × Doc κ α)) :
    memberTokens members = members.map fun m => .text m.1 :: .colon :: tokens m.2 := by
  induction members with
  | nil => rw [memberTokens, List.map_nil]
  | cons m rest ih => rw [memberTokens, ih, List.map_cons]

end tokens

end Doc

open Doc

/-- What is read of a member. -/
inductive Slot (κ α : Type) where
  | empty
  | key (k : κ)
  | colon (k : κ)
  | full (k : κ) (d : Doc κ α)

/-- An array or an object that is open: what is read of it, the last first, and what is read
behind the last comma. -/
inductive Frame (κ α : Type) where
  | arr (before : List (Doc κ α)) (item : Option (Doc κ α))
  | obj (before : List (κ × Doc κ α)) (slot : Slot κ α)

structure Reader (κ α : Type) where
  stack : List (Frame κ α)
  value : Option (Doc κ α)

namespace Reader

/-- A document is there where one is expected. -/
def push (d : Doc κ α) : Reader κ α → Option (Reader κ α)
  | ⟨[], none⟩ => some ⟨[], some d⟩
  | ⟨.arr before none :: stack, value⟩ => some ⟨.arr before (some d) :: stack, value⟩
  | ⟨.obj before (.colon k) :: stack, value⟩ => some ⟨.obj before (.full k d) :: stack, value⟩
  | _ => none

def step : Reader κ α → Token κ α → Option (Reader κ α)
  | s, .atom a => s.push (.atom a)
  | ⟨.obj before .empty :: stack, value⟩, .text k =>
    some ⟨.obj before (.key k) :: stack, value⟩
  | s, .text k => s.push (.text k)
  | ⟨.obj before (.key k) :: stack, value⟩, .colon =>
    some ⟨.obj before (.colon k) :: stack, value⟩
  | ⟨stack, value⟩, .openArr => some ⟨.arr [] none :: stack, value⟩
  | ⟨stack, value⟩, .openObj => some ⟨.obj [] .empty :: stack, value⟩
  | ⟨.arr before item :: stack, value⟩, .comma =>
    some ⟨.arr (item.getD .hole :: before) none :: stack, value⟩
  | ⟨.obj before (.full k d) :: stack, value⟩, .comma =>
    some ⟨.obj ((k, d) :: before) .empty :: stack, value⟩
  | ⟨.arr before item :: stack, value⟩, .closeArr =>
    push (emptyLone (.arr (item.getD .hole :: before).reverse)) ⟨stack, value⟩
  | ⟨.obj [] .empty :: stack, value⟩, .closeObj => push (.obj []) ⟨stack, value⟩
  | ⟨.obj before (.full k d) :: stack, value⟩, .closeObj =>
    push (.obj ((k, d) :: before).reverse) ⟨stack, value⟩
  | _, _ => none

def run (s : Reader κ α) (tokens : List (Token κ α)) : Option (Reader κ α) := tokens.foldlM step s

def start : Reader κ α := ⟨[], none⟩

def result : Reader κ α → Option (Doc κ α)
  | ⟨[], value⟩ => value
  | _ => none

/-- A value is expected, not a key. -/
def Expects : Reader κ α → Prop
  | ⟨.obj _ .empty :: _, _⟩ => False
  | _ => True

variable {s : Reader κ α} {t : Token κ α} {first rest : List (Token κ α)}

@[simp]
theorem run_nil : run s [] = some s := rfl

@[simp]
theorem run_cons : run s (t :: rest) = (step s t).bind fun next => run next rest :=
  List.foldlM_cons

theorem run_append : run s (first ++ rest) = (run s first).bind fun next => run next rest :=
  List.foldlM_append

section steps

variable (stack : List (Frame κ α)) (value : Option (Doc κ α)) (k : κ) (d : Doc κ α)

@[simp]
theorem step_comma_arr (before : List (Doc κ α)) (item : Option (Doc κ α)) :
    step ⟨.arr before item :: stack, value⟩ .comma =
      some ⟨.arr (item.getD .hole :: before) none :: stack, value⟩ := rfl

@[simp]
theorem step_closeArr (before : List (Doc κ α)) (item : Option (Doc κ α)) :
    step ⟨.arr before item :: stack, value⟩ .closeArr =
      push (emptyLone (.arr (item.getD .hole :: before).reverse)) ⟨stack, value⟩ := rfl

@[simp]
theorem step_comma_obj (before : List (κ × Doc κ α)) :
    step ⟨.obj before (.full k d) :: stack, value⟩ .comma =
      some ⟨.obj ((k, d) :: before) .empty :: stack, value⟩ := rfl

@[simp]
theorem step_closeObj (before : List (κ × Doc κ α)) :
    step ⟨.obj before (.full k d) :: stack, value⟩ .closeObj =
      push (.obj ((k, d) :: before).reverse) ⟨stack, value⟩ := by
  cases before <;> rfl

end steps

theorem step_text (k : κ) (h : s.Expects) : step s (.text k) = s.push (.text k) := by
  unfold step
  split <;> simp_all [Expects]

end Reader

section items

variable {stack : List (Frame κ α)} {value : Option (Doc κ α)}

theorem itemTokens_cons (d : Doc κ α) (e : Doc κ α) (rest : List (Doc κ α)) :
    [.comma].intercalate (itemTokens (d :: e :: rest)) =
      tokens d ++ .comma :: [.comma].intercalate (itemTokens (e :: rest)) := by
  simp [itemTokens, List.intercalate]

theorem memberTokens_cons (m n : κ × Doc κ α) (rest : List (κ × Doc κ α)) :
    [.comma].intercalate (memberTokens (m :: n :: rest)) =
      .text m.1 :: .colon :: tokens m.2 ++
        .comma :: [.comma].intercalate (memberTokens (n :: rest)) := by
  simp [memberTokens, List.intercalate]

/-- The item that is read where nothing or the tokens of a document stand. -/
theorem run_item (before : List (Doc κ α)) (d : Doc κ α)
    (h : d ≠ .hole → ∀ s : Reader κ α, s.Expects → s.run (tokens d) = s.push (withoutLone d)) :
    ∃ item, item.getD .hole = withoutLone d ∧
      Reader.run ⟨.arr before none :: stack, value⟩ (tokens d) =
        some ⟨.arr before item :: stack, value⟩ := by
  by_cases hd : d = .hole
  · subst hd
    exact ⟨none, rfl, rfl⟩
  · exact ⟨some (withoutLone d), rfl, h hd _ trivial⟩

theorem run_items (d : Doc κ α) (rest before : List (Doc κ α))
    (h : ∀ e ∈ d :: rest, e ≠ .hole →
      ∀ s : Reader κ α, s.Expects → s.run (tokens e) = s.push (withoutLone e)) :
    Reader.run ⟨.arr before none :: stack, value⟩
        ([.comma].intercalate (itemTokens (d :: rest)) ++ [.closeArr]) =
      Reader.push (emptyLone (.arr (before.reverse ++ (d :: rest).map withoutLone)))
        ⟨stack, value⟩ := by
  induction rest generalizing d before with
  | nil =>
    obtain ⟨item, hitem, hrun⟩ := run_item before d (h d (by simp))
    have hlast : [.comma].intercalate (itemTokens [d]) = tokens d := by
      simp [itemTokens, List.intercalate]
    rw [hlast, Reader.run_append, hrun, Option.bind_some, Reader.run_cons, Reader.step_closeArr,
      hitem, List.reverse_cons]
    simp
  | cons e rest ih =>
    obtain ⟨item, hitem, hrun⟩ := run_item before d (h d (by simp))
    rw [itemTokens_cons, List.append_assoc, Reader.run_append, hrun, Option.bind_some,
      List.cons_append, Reader.run_cons, Reader.step_comma_arr, Option.bind_some, hitem,
      ih e _ fun e' he' => h e' (List.mem_cons_of_mem d he')]
    simp

theorem run_members (m : κ × Doc κ α) (rest before : List (κ × Doc κ α))
    (h : ∀ n ∈ m :: rest,
      ∀ s : Reader κ α, s.Expects → s.run (tokens n.2) = s.push (withoutLone n.2)) :
    Reader.run ⟨.obj before .empty :: stack, value⟩
        ([.comma].intercalate (memberTokens (m :: rest)) ++ [.closeObj]) =
      Reader.push (.obj (before.reverse ++ mapValues withoutLone (m :: rest))) ⟨stack, value⟩ := by
  have hmember : Reader.run ⟨.obj before .empty :: stack, value⟩
      (.text m.1 :: .colon :: tokens m.2) =
        some ⟨.obj before (.full m.1 (withoutLone m.2)) :: stack, value⟩ :=
    h m (by simp) ⟨.obj before (.colon m.1) :: stack, value⟩ trivial
  induction rest generalizing m before with
  | nil =>
    have hlast : [.comma].intercalate (memberTokens [m]) = .text m.1 :: .colon :: tokens m.2 := by
      simp [memberTokens, List.intercalate]
    rw [hlast, Reader.run_append, hmember, Option.bind_some, Reader.run_cons,
      Reader.step_closeObj, List.reverse_cons]
    simp [mapValues]
  | cons n rest ih =>
    rw [memberTokens_cons, List.append_assoc, Reader.run_append, hmember, Option.bind_some,
      List.cons_append, Reader.run_cons, Reader.step_comma_obj, Option.bind_some,
      ih n _ (fun n' hn' => h n' (List.mem_cons_of_mem m hn'))
        (h n (by simp) ⟨.obj _ (.colon n.1) :: stack, value⟩ trivial)]
    simp [mapValues]

end items

/-- The tokens of a document put it where a value is expected. -/
theorem run_tokens (d : Doc κ α) (hd : Whole d) (s : Reader κ α) (hs : s.Expects) :
    s.run (tokens d) = s.push (withoutLone d) := by
  obtain ⟨stack, value⟩ := s
  induction d generalizing stack value with
  | hole => cases hd
  | atom a => simp [tokens, withoutLone, rewrite, Reader.step]
  | text k => simp [tokens, withoutLone, rewrite, Reader.step_text k hs]
  | arr items ih =>
    rw [withoutLone, rewrite_arr, tokens, List.cons_append, Reader.run_cons, Reader.step,
      Option.bind_some]
    cases items with
    | nil => simp [itemTokens, List.intercalate, emptyLone]
    | cons d rest =>
      refine run_items d rest [] fun e he hhole s hs => ?_
      exact ih e he (whole_arr.mp hd e he hhole) s.stack s.value hs
  | obj members ih =>
    rw [withoutLone, rewrite_obj, tokens, List.cons_append, Reader.run_cons, Reader.step,
      Option.bind_some]
    cases members with
    | nil => simp [memberTokens, List.intercalate, mapValues, emptyLone, Reader.step]
    | cons m rest =>
      refine run_members m rest [] fun n hn s hs => ?_
      exact ih n hn (whole_obj.mp hd n hn) s.stack s.value hs

/-- The document that is written with the tokens. -/
def read (tokens : List (Token κ α)) : Option (Doc κ α) :=
  (Reader.run Reader.start tokens).bind Reader.result

theorem read_tokens (d : Doc κ α) (hd : Whole d) : read (tokens d) = some (withoutLone d) := by
  rw [read, run_tokens d hd Reader.start trivial]
  rfl

end Solarcido.Documents
