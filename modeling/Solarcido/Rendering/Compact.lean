import Solarcido.Js.JsonParse

namespace Solarcido.Rendering

open Text Json Documents Doc

section assign

variable {β γ : Type} {members : List (JsString × β)}

/-- `sorted[key] = value`: an assignment to `__proto__` sets the prototype, or nothing, and makes no
property. -/
def assign (sorted : List (JsString × β)) (key : JsString) (value : β) : List (JsString × β) :=
  if key = js "__proto__" then sorted else createMember sorted key value

def assignAll (members : List (JsString × β)) : List (JsString × β) :=
  members.foldl (fun sorted m => assign sorted m.1 m.2) []

/-- The members of an object that `sortKeysDeep` builds. -/
def rebuilt (members : List (JsString × β)) : List (JsString × β) := assignAll (sortMembers members)

theorem assignAll_eq (members : List (JsString × β)) :
    assignAll members = createMembers (members.filter fun m => m.1 ≠ js "__proto__") := by
  rw [assignAll, createMembers, List.foldl_filter]
  congr 1
  funext sorted m
  by_cases h : m.1 = js "__proto__" <;> simp [assign, h]

theorem rebuilt_map (f : β → γ) (members : List (JsString × β)) :
    rebuilt (members.map (mapMember f)) = (rebuilt members).map (mapMember f) := by
  have hsorted : sortMembers (members.map (mapMember f)) = (sortMembers members).map (mapMember f) :=
    sortMembers_map f members
  rw [rebuilt, rebuilt, hsorted, assignAll_eq, assignAll_eq, List.filter_map, createMembers_map]
  rfl

section keys

variable (hkeys : (members.map Prod.fst).Nodup)

include hkeys

theorem nodup_sorted :
    (((sortMembers members).filter fun m => m.1 ≠ js "__proto__").map Prod.fst).Nodup :=
  (((sortMembers_perm members).map Prod.fst).nodup_iff.mpr hkeys).sublist
    (List.filter_sublist.map Prod.fst)

theorem rebuilt_perm : (rebuilt members).Perm (members.filter fun m => m.1 ≠ js "__proto__") := by
  rw [rebuilt, assignAll_eq]
  exact (createMembers_perm (nodup_sorted hkeys)).trans ((sortMembers_perm members).filter _)

theorem rebuilt_subset : rebuilt members ⊆ members := fun _ hm =>
  List.mem_of_mem_filter ((rebuilt_perm hkeys).mem_iff.mp hm)

theorem rebuilt_enumerated : Enumerated ((rebuilt members).map Prod.fst) := by
  rw [rebuilt, assignAll_eq]
  exact createMembers_enumerated (nodup_sorted hkeys)

theorem rebuilt_nodup : ((rebuilt members).map Prod.fst).Nodup :=
  ((rebuilt_perm hkeys).map Prod.fst).nodup_iff.mpr
    (hkeys.sublist (List.filter_sublist.map Prod.fst))

theorem proto_not_mem_rebuilt : js "__proto__" ∉ (rebuilt members).map Prod.fst := by
  intro hmem
  obtain ⟨m, hm, hkey⟩ := List.mem_map.mp hmem
  have hne := List.of_mem_filter ((rebuilt_perm hkeys).mem_iff.mp hm)
  exact of_decide_eq_true hne hkey

end keys

end assign

mutual

def sortKeysDeep : Json → Json
  | .arr items => .arr (sortItems items)
  | .obj members => .obj (rebuilt (sortValues members))
  | value => value

def sortItems : List Json → List Json
  | [] => []
  | item :: rest => sortKeysDeep item :: sortItems rest

def sortValues : List (JsString × Json) → List (JsString × Json)
  | [] => []
  | (key, value) :: rest => (key, sortKeysDeep value) :: sortValues rest

end

def renderCompact (numberText : ℚ → JsString) (value : Json) : JsString :=
  stringify numberText (sortKeysDeep value)

section values

theorem sortKeysDeep_arr (items : List Json) :
    sortKeysDeep (.arr items) = .arr (items.map sortKeysDeep) := by
  have hitems : sortItems items = items.map sortKeysDeep := by
    induction items with
    | nil => rw [sortItems, List.map_nil]
    | cons item rest ih => rw [sortItems, ih, List.map_cons]
  rw [sortKeysDeep, hitems]

theorem sortKeysDeep_obj (members : List (JsString × Json)) :
    sortKeysDeep (.obj members) = .obj (rebuilt (members.map (mapMember sortKeysDeep))) := by
  have hmembers : sortValues members = members.map (mapMember sortKeysDeep) := by
    induction members with
    | nil => rw [sortValues, List.map_nil]
    | cons m rest ih => rw [sortValues, ih, List.map_cons]; rfl
  rw [sortKeysDeep, hmembers]

theorem data_sortKeysDeep (v : Json) :
    (sortKeysDeep v).data = rewrite (onMembers rebuilt) v.data :=
  data_rebuilt (rebuilt_map data) (fun a => by cases a <;> rfl) (fun _ => rfl) sortKeysDeep_arr
    sortKeysDeep_obj v

variable {numbers : NumberTexts} {v w : Json}

theorem sortKeysDeep_isData (h : IsData numbers v.data) : IsData numbers (sortKeysDeep v).data := by
  rw [data_sortKeysDeep]
  exact ⟨everywhere_rewrite (fun _ => rebuilt_subset) (fun _ => rebuilt_nodup) _ h.keys,
    allAtoms_rewrite (fun _ => rebuilt_subset) _ h.keys h.atoms⟩

theorem sortKeysDeep_enumerated (h : v.data.Distinct) :
    (sortKeysDeep v).data.Everywhere Enumerated := by
  rw [data_sortKeysDeep]
  exact everywhere_rewrite (fun _ => rebuilt_subset) (fun _ => rebuilt_enumerated) _ h

theorem sortKeysDeep_no_proto (h : v.data.Distinct) :
    (sortKeysDeep v).data.Everywhere fun keys => js "__proto__" ∉ keys := by
  rw [data_sortKeysDeep]
  exact everywhere_rewrite (fun _ => rebuilt_subset) (fun _ => proto_not_mem_rebuilt) _ h

/-- Equal values are rendered as one text. -/
theorem renderCompact_eq_of_same (h : v.data.Distinct) (hsame : SameValue v w)
    (numberText : ℚ → JsString) : renderCompact numberText v = renderCompact numberText w := by
  have hdata : (sortKeysDeep v).data = (sortKeysDeep w).data := by
    rw [data_sortKeysDeep, data_sortKeysDeep]
    refine rewrite_eq_of_same ?_ hsame h
    intro members members' hkeys hperm
    rw [onMembers, onMembers, rebuilt, rebuilt, sortMembers_eq_of_perm hkeys hperm]
  rw [renderCompact, renderCompact, stringify_eq_compact, stringify_eq_compact, hdata]

end values

/-- The text has the keys of each object in their order, and is parsed as an equal value. -/
def RendersInOrder (numbers : NumberTexts) (value : Json) : Prop :=
  ∃ tree w, treeOf (renderCompact numbers.text value) = some tree ∧
    tree.Everywhere (fun keys => keys.Pairwise (· ≤ ·)) ∧
      parse numbers (renderCompact numbers.text value) = some w ∧ SameValue value w

/-- No key is `__proto__`, and the array indexes among the keys are where the order of the code
units has them. -/
def Orderly (keys : List JsString) : Prop :=
  js "__proto__" ∉ keys ∧ ∀ k ∈ keys, ∀ k' ∈ keys, precedes k k' = true → k ≤ k'

section order

variable {numbers : NumberTexts} {value : Json}

theorem rendersInOrder_iff (h : IsData numbers value.data) : RendersInOrder numbers value ↔
    (sortKeysDeep value).data.Everywhere (fun keys => keys.Pairwise (· ≤ ·)) ∧
      SameValue value (sortKeysDeep value) := by
  have hdata := sortKeysDeep_isData h
  have hscans := scans_stringify hdata
  have htree : treeOf (renderCompact numbers.text value) =
      some (words numbers.text (sortKeysDeep value).data) := by
    rw [← List.append_nil (renderCompact numbers.text value)]
    exact treeOf_value numbers.text hscans no_blanks
  have hparse : parse numbers (renderCompact numbers.text value) = some (sortKeysDeep value) := by
    rw [parse, htree, Option.bind_some, build_words _ hdata.atoms,
      enumerate_self hdata.keys (sortKeysDeep_enumerated h.keys)]
  rw [RendersInOrder, htree, hparse]
  simp only [Option.some.injEq, exists_and_left, exists_eq_left', everywhere_words]

section plain

variable {β : Type} {members : List (JsString × β)} (hkeys : (members.map Prod.fst).Nodup)
  (hproto : js "__proto__" ∉ members.map Prod.fst)

include hproto

theorem filter_proto {l : List (JsString × β)} (hl : l.Perm members) :
    l.filter (fun m => m.1 ≠ js "__proto__") = l := by
  refine List.filter_eq_self.mpr fun m hm => decide_eq_true fun hkey => hproto ?_
  rw [← hkey]
  exact List.mem_map_of_mem (hl.mem_iff.mp hm)

include hkeys

theorem rebuilt_perm_self : (rebuilt members).Perm members := by
  have hperm := rebuilt_perm hkeys
  rwa [filter_proto hproto (.refl members)] at hperm

/-- Keys are enumerated in their order iff the order of the code units has the array indexes among
them first. -/
theorem rebuilt_sorted_iff :
    ((rebuilt members).map Prod.fst).Pairwise (· ≤ ·) ↔
      ∀ k ∈ members.map Prod.fst, ∀ k' ∈ members.map Prod.fst, precedes k k' = true → k ≤ k' := by
  constructor
  · intro hsorted k hk k' hk'
    have hperm := (rebuilt_perm_self hkeys hproto).map Prod.fst
    have hfront : ((rebuilt members).map Prod.fst).Pairwise fun a b =>
        precedes a b = true → a ≤ b := by
      refine hsorted.imp ?_
      exact fun hab _ => hab
    have hback : ((rebuilt members).map Prod.fst).Pairwise fun a b =>
        precedes b a = true → b ≤ a :=
      (rebuilt_enumerated hkeys).imp fun hab hba => absurd (hab.symm.trans hba) Bool.false_ne_true
    exact hfront.forall_of_forall_of_flip (fun a _ _ => Std.le_refl a) hback
      (hperm.mem_iff.mpr hk) (hperm.mem_iff.mpr hk')
  · intro horder
    have hperm := (sortMembers_perm members).map Prod.fst
    have hsorted : ((sortMembers members).map Prod.fst).Pairwise (· ≤ ·) :=
      List.pairwise_map.mpr (sortMembers_sorted members)
    have henum : Enumerated ((sortMembers members).map Prod.fst) := by
      refine hsorted.imp_of_mem fun {a b} ha hb hab => Bool.eq_false_iff.mpr fun hbefore => ?_
      have hba := horder b (hperm.mem_iff.mp hb) a (hperm.mem_iff.mp ha) hbefore
      obtain rfl := Std.le_antisymm hab hba
      exact absurd ((precedes_asymm hbefore).symm.trans hbefore) Bool.false_ne_true
    rw [rebuilt, assignAll_eq, filter_proto hproto (sortMembers_perm members),
      createMembers_self (hperm.nodup_iff.mpr hkeys) henum]
    exact hsorted

end plain

theorem orderly_of_rendersInOrder (h : IsData numbers value.data)
    (hrenders : RendersInOrder numbers value) : value.data.Everywhere Orderly := by
  obtain ⟨hsorted, hsame⟩ := (rendersInOrder_iff h).mp hrenders
  have hproto : value.data.Everywhere fun keys => js "__proto__" ∉ keys := by
    refine (everywhere_of_same ?_ hsame).mpr (sortKeysDeep_no_proto h.keys)
    exact fun _ _ hperm hkeys hmem => hkeys (hperm.mem_iff.mpr hmem)
  have hkeys : value.data.Everywhere fun keys => keys.Nodup ∧ js "__proto__" ∉ keys :=
    (everywhere_and value.data).mpr ⟨h.keys, hproto⟩
  rw [data_sortKeysDeep] at hsorted
  refine everywhere_of_rewrite ?_ ?_ value.data hkeys hsorted
  · exact fun members hP => rebuilt_perm_self hP.1 hP.2
  · exact fun members hP hsorted => ⟨hP.2, (rebuilt_sorted_iff hP.1 hP.2).mp hsorted⟩

theorem rendersInOrder_of_orderly (h : IsData numbers value.data)
    (horder : value.data.Everywhere Orderly) : RendersInOrder numbers value := by
  have hkeys : value.data.Everywhere fun keys => keys.Nodup ∧ Orderly keys :=
    (everywhere_and value.data).mpr ⟨h.keys, horder⟩
  rw [rendersInOrder_iff h, SameValue, data_sortKeysDeep]
  constructor
  · refine everywhere_rewrite ?_ ?_ value.data hkeys
    · exact fun members hP => rebuilt_subset hP.1
    · exact fun members hP => (rebuilt_sorted_iff hP.1 hP.2.1).mpr hP.2.2
  · refine rewrite_same (fun items => .refl _) ?_ value.data hkeys
    exact fun members hP => .reorder (rebuilt_perm_self hP.1 hP.2.1).symm

end order

/-- Every value is rendered as each equal one is. Its text has the keys in order and is parsed as an
equal value iff the keys of each of its objects are orderly. -/
theorem renderCompact_iff (numbers : NumberTexts) {value : Json}
    (h : IsData numbers value.data) :
    (RendersInOrder numbers value ∧ ∀ other, SameValue value other →
      renderCompact numbers.text value = renderCompact numbers.text other) ↔
        value.data.Everywhere Orderly := by
  have hrendered : ∀ other, SameValue value other →
      renderCompact numbers.text value = renderCompact numbers.text other :=
    fun other hsame => renderCompact_eq_of_same h.keys hsame numbers.text
  rw [and_iff_left hrendered]
  exact ⟨orderly_of_rendersInOrder h, rendersInOrder_of_orderly h⟩

/-- An object with an array in it. -/
def sample : Json := .obj [(js "b", .arr [.num (.finite 1)]), (js "10", .null)]

theorem everywhere_sample {P : List JsString → Prop} (h : P [js "b", js "10"]) :
    sample.data.Everywhere P :=
  .obj _ h (List.forall_mem_cons.mpr ⟨.arr _ (List.forall_mem_singleton.mpr (.atom _)),
    List.forall_mem_singleton.mpr (.atom _)⟩)

theorem sample_isData : IsData wholeNumberTexts sample.data :=
  ⟨everywhere_sample (by decide), .obj _ (List.forall_mem_cons.mpr
    ⟨.arr _ (List.forall_mem_singleton.mpr (.atom _ ⟨1, by simp⟩)),
      List.forall_mem_singleton.mpr (.atom _ trivial)⟩)⟩

theorem renderCompact_sample : RendersInOrder wholeNumberTexts sample :=
  ((renderCompact_iff wholeNumberTexts sample_isData).mpr
    (everywhere_sample (by unfold Orderly; decide))).1

section failing

theorem flags_isData (keys : List JsString) (h : keys.Nodup) :
    IsData wholeNumberTexts (Json.obj (keys.map fun key => (key, Json.bool true))).data := by
  rw [data_obj, List.map_map]
  have hkeys : (keys.map ((fun m : JsString × Json => (m.1, m.2.data)) ∘
      fun key => (key, Json.bool true))).map Prod.fst = keys := by
    rw [List.map_map]
    exact List.map_id' keys
  refine ⟨.obj _ (by rwa [hkeys]) ?_, .obj _ ?_⟩
  · exact List.forall_mem_map.mpr fun key _ => .atom _
  · exact List.forall_mem_map.mpr fun key _ => .atom _ trivial

def indexed : Json := .obj [(js "9", .bool true), (js "10", .bool true)]

def prototyped : Json := .obj [(js "__proto__", .bool true)]

/-- Numbers that are keys come in the order of the numbers, and a member is lost. -/
theorem indexed_prototyped_not_rendersInOrder :
    ¬ RendersInOrder wholeNumberTexts indexed ∧ ¬ RendersInOrder wholeNumberTexts prototyped := by
  constructor
  · intro h
    have horder := orderly_of_rendersInOrder
      (flags_isData [js "9", js "10"] (by decide)) h
    exact absurd ((everywhere_obj.mp horder).1.2 (js "9") (by decide) (js "10") (by decide))
      (by decide)
  · intro h
    have horder := orderly_of_rendersInOrder (flags_isData [js "__proto__"] (by decide)) h
    exact (everywhere_obj.mp horder).1.1 (by decide)

end failing

end Solarcido.Rendering
