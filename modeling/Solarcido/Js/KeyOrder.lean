import Mathlib.Data.List.Induction
import Mathlib.Data.List.Nodup
import Solarcido.Js.Number

namespace Solarcido.Json

open Text

/-- The number that a key is an array index of. -/
def arrayIndex (key : JsString) : Option Nat :=
  let n := Number.digitsValue key
  if Number.decimal n = key ∧ n < 2 ^ 32 - 1 then some n else none

/-- A key stands in front of another whatever is created first: array indexes are enumerated before
other keys, and by their number. -/
def precedes (key other : JsString) : Bool :=
  match arrayIndex key, arrayIndex other with
  | some i, some j => i < j
  | some _, none => true
  | none, _ => false

/-- Keys in an order in which they can be enumerated. -/
abbrev Enumerated (keys : List JsString) : Prop := keys.Pairwise fun k k' => precedes k' k = false

variable {β γ : Type} {key other third : JsString} {value : β} {members : List (JsString × β)}

/-- The members of an object, in the order they are enumerated, after a property is created. -/
def createMember (members : List (JsString × β)) (key : JsString) (value : β) :
    List (JsString × β) :=
  if members.any (·.1 == key) then members.map fun m => if m.1 = key then (key, value) else m
  else
    members.takeWhile (fun m => !precedes key m.1) ++
      (key, value) :: members.dropWhile fun m => !precedes key m.1

def createMembers (members : List (JsString × β)) : List (JsString × β) :=
  members.foldl (fun created m => createMember created m.1 m.2) []

section order

theorem precedes_asymm (h : precedes key other = true) : precedes other key = false := by
  unfold precedes at *
  cases hkey : arrayIndex key <;> cases hother : arrayIndex other <;> simp_all
  omega

theorem precedes_trans (h : precedes key other = true) (h' : precedes other third = true) :
    precedes key third = true := by
  unfold precedes at *
  cases hkey : arrayIndex key <;> cases hother : arrayIndex other <;>
    cases hthird : arrayIndex third <;> simp_all
  omega

end order

section creating

variable (hfresh : key ∉ members.map Prod.fst)

include hfresh

theorem createMember_fresh (value : β) : createMember members key value =
    members.takeWhile (fun m => !precedes key m.1) ++
      (key, value) :: members.dropWhile fun m => !precedes key m.1 := by
  refine if_neg fun hany => hfresh ?_
  obtain ⟨m, hm, hkey⟩ := List.any_eq_true.mp hany
  exact List.mem_map.mpr ⟨m, hm, beq_iff_eq.mp hkey⟩

theorem createMember_perm (value : β) :
    (createMember members key value).Perm ((key, value) :: members) := by
  rw [createMember_fresh hfresh]
  refine List.perm_middle.trans (List.Perm.cons _ ?_)
  rw [List.takeWhile_append_dropWhile]

/-- A property that no key of the object stands behind is the last one. -/
theorem createMember_last (value : β) (h : ∀ m ∈ members, precedes key m.1 = false) :
    createMember members key value = members ++ [(key, value)] := by
  have hall : ∀ m ∈ members, (!precedes key m.1) = true := fun m hm => by rw [h m hm]; rfl
  rw [createMember_fresh hfresh, List.takeWhile_eq_self_iff.mpr hall,
    List.dropWhile_eq_nil_iff.mpr hall]

omit hfresh in
theorem placed_enumerated (value : β) (h : Enumerated (members.map Prod.fst)) :
    Enumerated ((members.takeWhile (fun m => !precedes key m.1) ++
      (key, value) :: members.dropWhile fun m => !precedes key m.1).map Prod.fst) := by
  induction members with
  | nil => exact List.pairwise_singleton _ _
  | cons m rest ih =>
    obtain ⟨hm, hrest⟩ := List.pairwise_cons.mp h
    cases hkey : precedes key m.1 with
    | true =>
      simp only [List.takeWhile_cons, List.dropWhile_cons, hkey, Bool.not_true, Bool.false_eq_true,
        if_false, List.nil_append, List.map_cons]
      refine List.pairwise_cons.mpr ⟨?_, h⟩
      refine List.forall_mem_cons.mpr ⟨precedes_asymm hkey, fun k hk => ?_⟩
      refine Bool.eq_false_iff.mpr fun hbefore => ?_
      exact Bool.false_ne_true ((hm k hk).symm.trans (precedes_trans hbefore hkey))
    | false =>
      simp only [List.takeWhile_cons, List.dropWhile_cons, hkey, Bool.not_false, if_true,
        List.cons_append, List.map_cons]
      refine List.pairwise_cons.mpr ⟨fun k hk => ?_, ih hrest⟩
      rw [List.map_append, List.map_cons, List.mem_append, List.mem_cons] at hk
      rcases hk with hk | rfl | hk
      · exact hm k (List.map_subset Prod.fst (List.takeWhile_subset _) hk)
      · exact hkey
      · exact hm k (List.map_subset Prod.fst (List.dropWhile_subset _) hk)

theorem createMember_enumerated (value : β) (h : Enumerated (members.map Prod.fst)) :
    Enumerated ((createMember members key value).map Prod.fst) := by
  rw [createMember_fresh hfresh]
  exact placed_enumerated value h

end creating

section folding

variable (f : β → γ) {rest : List (JsString × β)}

def mapMember (m : JsString × β) : JsString × γ := (m.1, f m.2)

theorem createMember_map (members : List (JsString × β)) (key : JsString) (value : β) :
    createMember (members.map (mapMember f)) key (f value) =
      (createMember members key value).map (mapMember f) := by
  unfold createMember
  simp only [List.any_map, List.takeWhile_map, List.dropWhile_map, Function.comp_def, mapMember]
  split
  · rw [List.map_map, List.map_map]
    refine List.map_congr_left fun m _ => ?_
    by_cases hm : m.1 = key <;> simp [hm, mapMember]
  · rw [List.map_append, List.map_cons]
    rfl

theorem createMembers_map (members : List (JsString × β)) :
    createMembers (members.map (mapMember f)) = (createMembers members).map (mapMember f) := by
  suffices h : ∀ created : List (JsString × β),
      (members.map (mapMember f)).foldl (fun created m => createMember created m.1 m.2)
        (created.map (mapMember f)) =
        (members.foldl (fun created m => createMember created m.1 m.2) created).map (mapMember f)
    from h []
  induction members with
  | nil => exact fun _ => rfl
  | cons m rest ih =>
    intro created
    rw [List.map_cons, List.foldl_cons, List.foldl_cons, ← ih, ← createMember_map]
    rfl

/-- Properties that are created one after the other, on an object that has some. -/
theorem foldl_createMember (created : List (JsString × β))
    (hkeys : ((created ++ members).map Prod.fst).Nodup) (h : Enumerated (created.map Prod.fst)) :
    let all := members.foldl (fun created m => createMember created m.1 m.2) created
    all.Perm (created ++ members) ∧ Enumerated (all.map Prod.fst) := by
  induction members generalizing created with
  | nil => simpa using h
  | cons m rest ih =>
    have hfresh : m.1 ∉ created.map Prod.fst := by
      intro hm
      rw [List.map_append, List.nodup_append] at hkeys
      exact hkeys.2.2 _ hm _ List.mem_cons_self rfl
    have hperm : (createMember created m.1 m.2 ++ rest).Perm (created ++ m :: rest) :=
      ((createMember_perm hfresh m.2).append_right rest).trans List.perm_middle.symm
    obtain ⟨hall, henum⟩ := ih (createMember created m.1 m.2)
      ((hperm.map Prod.fst).nodup_iff.mpr hkeys) (createMember_enumerated hfresh m.2 h)
    exact ⟨hall.trans hperm, henum⟩

theorem createMembers_perm (hkeys : (members.map Prod.fst).Nodup) :
    (createMembers members).Perm members :=
  (foldl_createMember [] hkeys List.Pairwise.nil).1

theorem createMembers_enumerated (hkeys : (members.map Prod.fst).Nodup) :
    Enumerated ((createMembers members).map Prod.fst) :=
  (foldl_createMember [] hkeys List.Pairwise.nil).2

/-- Members that are created in the order they are enumerated keep it. -/
theorem createMembers_self (hkeys : (members.map Prod.fst).Nodup)
    (h : Enumerated (members.map Prod.fst)) : createMembers members = members := by
  induction members using List.reverseRecOn with
  | nil => rfl
  | append_singleton members m ih =>
    rw [List.map_append, List.nodup_append] at hkeys
    rw [List.map_append] at h
    have hall := List.pairwise_append.mp h
    have hfresh : m.1 ∉ members.map Prod.fst := fun hm => hkeys.2.2 _ hm _ (by simp) rfl
    rw [createMembers, List.foldl_append, ← createMembers, ih hkeys.1 hall.1]
    refine createMember_last hfresh m.2 fun n hn => ?_
    exact hall.2.2 n.1 (List.mem_map_of_mem hn) m.1 (by simp)

end folding

end Solarcido.Json
