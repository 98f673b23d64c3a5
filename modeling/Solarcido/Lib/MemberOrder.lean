import Mathlib.Data.List.Forall2
import Mathlib.Data.List.Nodup
import Solarcido.Lib.Documents

namespace Solarcido.Documents.Doc

variable {κ α : Type} {a b c d e : Doc κ α}

/-- Equal up to the order of the members of objects, at any depth. -/
inductive Same : Doc κ α → Doc κ α → Prop where
  | refl (d : Doc κ α) : Same d d
  | trans {a b c : Doc κ α} (hab : Same a b) (hbc : Same b c) : Same a c
  | reorder {members members' : List (κ × Doc κ α)} (h : members.Perm members') :
    Same (.obj members) (.obj members')
  | item (before after : List (Doc κ α)) {d e : Doc κ α} (h : Same d e) :
    Same (.arr (before ++ d :: after)) (.arr (before ++ e :: after))
  | value (before after : List (κ × Doc κ α)) (key : κ) {d e : Doc κ α} (h : Same d e) :
    Same (.obj (before ++ (key, d) :: after)) (.obj (before ++ (key, e) :: after))

/-- The keys of each object are distinct. -/
abbrev Distinct : Doc κ α → Prop := Everywhere List.Nodup

theorem Same.symm (h : Same a b) : Same b a := by
  induction h with
  | refl d => exact .refl d
  | trans _ _ ihab ihbc => exact ihbc.trans ihab
  | reorder h => exact .reorder h.symm
  | item before after _ ih => exact .item before after ih
  | value before after key _ ih => exact .value before after key ih

section congruence

variable {items items' : List (Doc κ α)} {members members' : List (κ × Doc κ α)}

theorem same_items (before : List (Doc κ α)) (h : List.Forall₂ Same items items') :
    Same (.arr (before ++ items)) (.arr (before ++ items')) := by
  induction h generalizing before with
  | nil => exact .refl _
  | @cons d e rest rest' hd _ ih =>
    have hrest := ih (before ++ [e])
    rw [List.append_assoc, List.append_assoc] at hrest
    exact (Same.item before rest hd).trans hrest

theorem same_values (before : List (κ × Doc κ α))
    (h : List.Forall₂ (fun m n => m.1 = n.1 ∧ Same m.2 n.2) members members') :
    Same (.obj (before ++ members)) (.obj (before ++ members')) := by
  induction h generalizing before with
  | nil => exact .refl _
  | @cons m n rest rest' hm _ ih =>
    obtain ⟨key, d⟩ := m
    obtain ⟨key', e⟩ := n
    obtain ⟨rfl, hd⟩ := hm
    have hrest := ih (before ++ [(key, e)])
    rw [List.append_assoc, List.append_assoc] at hrest
    exact (Same.value before rest key hd).trans hrest

end congruence

/-- What does not look at the order of the keys holds of both documents or of neither. -/
theorem everywhere_of_same {P : List κ → Prop} (hP : ∀ keys keys', keys.Perm keys' → P keys → P keys')
    (h : Same a b) : Everywhere P a ↔ Everywhere P b := by
  induction h with
  | refl d => exact Iff.rfl
  | trans _ _ ihab ihbc => exact ihab.trans ihbc
  | reorder h =>
    have hkeys := h.map Prod.fst
    simp only [everywhere_obj, h.mem_iff]
    exact and_congr_left fun _ => ⟨hP _ _ hkeys, hP _ _ hkeys.symm⟩
  | item before after _ ih =>
    simp only [everywhere_arr, List.forall_mem_append, List.forall_mem_cons, ih]
  | value before after key _ ih =>
    simp only [everywhere_obj, List.forall_mem_append, List.forall_mem_cons, ih, List.map_append,
      List.map_cons]

theorem distinct_of_same (h : Same a b) (ha : Distinct a) : Distinct b :=
  (everywhere_of_same (fun _ _ hperm hkeys => hperm.nodup_iff.mp hkeys) h).mp ha

section rewriting

variable {f : Doc κ α → Doc κ α}

/-- Rules that only reorder members where the keys are as `P` says make the same document. -/
theorem rewrite_same {P : List κ → Prop} (harr : ∀ items, Same (.arr items) (f (.arr items)))
    (hobj : ∀ members, P (members.map Prod.fst) → Same (.obj members) (f (.obj members)))
    (d : Doc κ α) (hd : Everywhere P d) : Same d (rewrite f d) := by
  induction d with
  | hole => exact .refl .hole
  | atom a => exact .refl (.atom a)
  | text s => exact .refl (.text s)
  | arr items ih =>
    rw [rewrite_arr]
    refine (same_items [] ?_).trans (harr _)
    rw [List.forall₂_map_right_iff, List.forall₂_same]
    exact fun e he => ih e he (everywhere_arr.mp hd e he)
  | obj members ih =>
    obtain ⟨hkeys, hvalues⟩ := everywhere_obj.mp hd
    rw [rewrite_obj]
    have hmapped : List.Forall₂ (fun m n => m.1 = n.1 ∧ Same m.2 n.2) members
        (mapValues (rewrite f) members) := by
      rw [mapValues, List.forall₂_map_right_iff, List.forall₂_same]
      exact fun m hm => ⟨rfl, ih m hm (hvalues m hm)⟩
    exact (same_values [] hmapped).trans (hobj (mapValues (rewrite f) members) (by simpa using hkeys))

/-- Rules that do not look at the order of members make one document of two that are the same. -/
theorem rewrite_eq_of_same
    (hf : ∀ members members', (members.map Prod.fst).Nodup → members.Perm members' →
      f (.obj members) = f (.obj members'))
    (h : Same a b) (ha : Distinct a) : rewrite f a = rewrite f b := by
  induction h with
  | refl d => rfl
  | trans hab _ ihab ihbc => exact (ihab ha).trans (ihbc (distinct_of_same hab ha))
  | reorder h =>
    rw [rewrite_obj, rewrite_obj]
    refine hf _ _ ?_ (h.map _)
    rw [keys_mapValues]
    exact (everywhere_obj.mp ha).1
  | @item before after d e _ ih =>
    have hd := everywhere_arr.mp ha d (by simp)
    simp only [rewrite_arr, List.map_append, List.map_cons, ih hd]
  | @value before after key d e _ ih =>
    have hd := (everywhere_obj.mp ha).2 (key, d) (by simp)
    simp only [rewrite_obj, mapValues, List.map_append, List.map_cons, ih hd]

end rewriting

section members

/-- The rule that only changes the members of objects. -/
def onMembers (g : List (κ × Doc κ α) → List (κ × Doc κ α)) : Doc κ α → Doc κ α
  | .obj members => .obj (g members)
  | d => d

section equations

variable (g : List (κ × Doc κ α) → List (κ × Doc κ α))

theorem onMembers_arr (items : List (Doc κ α)) :
    rewrite (onMembers g) (.arr items) = .arr (items.map (rewrite (onMembers g))) :=
  rewrite_arr (onMembers g) items

theorem onMembers_obj (members : List (κ × Doc κ α)) :
    rewrite (onMembers g) (.obj members) = .obj (g (mapValues (rewrite (onMembers g)) members)) :=
  rewrite_obj (onMembers g) members

end equations

variable {g : List (κ × Doc κ α) → List (κ × Doc κ α)} {P Q : List κ → Prop}

theorem everywhere_rewrite (hsub : ∀ members, P (members.map Prod.fst) → g members ⊆ members)
    (hkeys : ∀ members, P (members.map Prod.fst) → Q ((g members).map Prod.fst)) (d : Doc κ α)
    (hd : Everywhere P d) : Everywhere Q (rewrite (onMembers g) d) := by
  induction d with
  | hole => exact .hole
  | atom a => exact .atom a
  | text s => exact .text s
  | arr items ih =>
    rw [onMembers_arr, everywhere_arr, List.forall_mem_map]
    exact fun d hd' => ih d hd' (everywhere_arr.mp hd d hd')
  | obj members ih =>
    obtain ⟨hP, hvalues⟩ := everywhere_obj.mp hd
    have hmapped : P ((mapValues (rewrite (onMembers g)) members).map Prod.fst) := by
      rwa [keys_mapValues]
    rw [onMembers_obj, everywhere_obj]
    refine ⟨hkeys _ hmapped, fun m hm => ?_⟩
    obtain ⟨n, hn, rfl⟩ := List.mem_map.mp (hsub _ hmapped hm)
    exact ih n hn (hvalues n hn)

theorem allAtoms_rewrite {R : α → Prop}
    (hsub : ∀ members, P (members.map Prod.fst) → g members ⊆ members) (d : Doc κ α)
    (hd : Everywhere P d) (h : AllAtoms R d) : AllAtoms R (rewrite (onMembers g) d) := by
  induction d with
  | hole => exact .hole
  | atom a => exact h
  | text s => exact .text s
  | arr items ih =>
    rw [onMembers_arr, allAtoms_arr, List.forall_mem_map]
    exact fun d hd' => ih d hd' (everywhere_arr.mp hd d hd') (allAtoms_arr.mp h d hd')
  | obj members ih =>
    obtain ⟨hP, hvalues⟩ := everywhere_obj.mp hd
    have hmapped : P ((mapValues (rewrite (onMembers g)) members).map Prod.fst) := by
      rwa [keys_mapValues]
    rw [onMembers_obj, allAtoms_obj]
    intro m hm
    obtain ⟨n, hn, rfl⟩ := List.mem_map.mp (hsub _ hmapped hm)
    exact ih n hn (hvalues n hn) (allAtoms_obj.mp h n hn)

/-- What holds of the keys that a rule leaves says something of the keys it has been given. -/
theorem everywhere_of_rewrite {R : List κ → Prop}
    (hperm : ∀ members, P (members.map Prod.fst) → (g members).Perm members)
    (hkeys : ∀ members, P (members.map Prod.fst) → Q ((g members).map Prod.fst) →
      R (members.map Prod.fst)) (d : Doc κ α)
    (hd : Everywhere P d) (h : Everywhere Q (rewrite (onMembers g) d)) : Everywhere R d := by
  induction d with
  | hole => exact .hole
  | atom a => exact .atom a
  | text s => exact .text s
  | arr items ih =>
    rw [onMembers_arr, everywhere_arr, List.forall_mem_map] at h
    exact .arr items fun d hd' => ih d hd' (everywhere_arr.mp hd d hd') (h d hd')
  | obj members ih =>
    obtain ⟨hP, hvalues⟩ := everywhere_obj.mp hd
    have hmapped : P ((mapValues (rewrite (onMembers g)) members).map Prod.fst) := by
      rwa [keys_mapValues]
    rw [onMembers_obj, everywhere_obj] at h
    have hR := hkeys _ hmapped h.1
    rw [keys_mapValues] at hR
    refine .obj members hR fun m hm => ih m hm (hvalues m hm) ?_
    exact h.2 _ ((hperm _ hmapped).mem_iff.mpr (List.mem_map_of_mem hm))

end members

section canon

variable [LE κ] [DecidableLE κ]

def sortMembers {β : Type} (members : List (κ × β)) : List (κ × β) :=
  members.mergeSort fun m n => decide (m.1 ≤ n.1)

section sorting

variable {β : Type} {members members' : List (κ × β)}

theorem sortMembers_perm (members : List (κ × β)) : (sortMembers members).Perm members :=
  List.mergeSort_perm members _

theorem sortMembers_map {γ : Type} (f : β → γ) (members : List (κ × β)) :
    sortMembers (members.map fun m => (m.1, f m.2)) =
      (sortMembers members).map fun m => (m.1, f m.2) := by
  refine (List.map_mergeSort ?_).symm
  exact fun _ _ _ _ => rfl

variable [Std.IsLinearOrder κ]

theorem sortMembers_sorted (members : List (κ × β)) :
    (sortMembers members).Pairwise fun m n => m.1 ≤ n.1 := by
  refine (List.pairwise_mergeSort ?_ ?_ members).imp of_decide_eq_true
  · intro m n p hmn hnp
    exact decide_eq_true (Std.le_trans (of_decide_eq_true hmn) (of_decide_eq_true hnp))
  · intro m n
    simpa using Std.le_total

omit [DecidableLE κ] in
/-- Members with distinct keys have one sorted order. -/
theorem eq_of_sorted (hkeys : (members.map Prod.fst).Nodup)
    (h : members.Pairwise fun m n => m.1 ≤ n.1) (h' : members'.Pairwise fun m n => m.1 ≤ n.1)
    (hperm : members.Perm members') : members = members' := by
  refine List.Perm.eq_of_pairwise ?_ h h' hperm
  intro m n hm hn hmn hnm
  exact List.inj_on_of_nodup_map hkeys hm (hperm.mem_iff.mpr hn) (Std.le_antisymm hmn hnm)

theorem sortMembers_eq_of_perm (hkeys : (members.map Prod.fst).Nodup)
    (hperm : members.Perm members') : sortMembers members = sortMembers members' :=
  eq_of_sorted (((sortMembers_perm members).map Prod.fst).nodup_iff.mpr hkeys)
    (sortMembers_sorted members) (sortMembers_sorted members')
    ((sortMembers_perm members).trans (hperm.trans (sortMembers_perm members').symm))

end sorting

/-- The members of each object in the order of their keys. -/
def canon (d : Doc κ α) : Doc κ α := rewrite (onMembers sortMembers) d

theorem same_canon (ha : Distinct a) : Same a (canon a) :=
  rewrite_same (fun _ => .refl _) (fun members _ => .reorder (sortMembers_perm members).symm) a ha

theorem same_iff_canon [Std.IsLinearOrder κ] (ha : Distinct a) (hb : Distinct b) : Same a b ↔ canon a = canon b := by
  constructor
  · intro h
    refine rewrite_eq_of_same ?_ h ha
    intro members members' hkeys hperm
    rw [onMembers, onMembers, sortMembers_eq_of_perm hkeys hperm]
  · intro h
    have hcanon := same_canon ha
    rw [h] at hcanon
    exact hcanon.trans (same_canon hb).symm

end canon

end Solarcido.Documents.Doc
