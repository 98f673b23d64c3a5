import Mathlib.Data.List.Induction
import Mathlib.Data.List.Sort

namespace Solarcido.SparseArray

variable {α φ : Type}

/-- What an array with holes has at an index. -/
def get (a : List (Option α)) (i : Nat) : Option α := a[i]?.join

/-- An assignment to an index; one behind the end leaves holes in front of it. -/
def put (a : List (Option α)) (i : Nat) (v : α) : List (Option α) :=
  if i < a.length then a.set i (some v)
  else a ++ List.replicate (i - a.length) none ++ [some v]

/-- The values of an array without its holes. -/
def values (a : List (Option α)) : List α := a.filterMap id

theorem get_put (a : List (Option α)) (i : Nat) (v : α) (j : Nat) :
    get (put a i v) j = if j = i then some v else get a j := by
  rw [get, put]
  split
  · next hlt =>
    rw [List.getElem?_set]
    by_cases hj : j = i
    · subst hj
      simp [hlt]
    · rw [if_neg (Ne.symm hj), if_neg hj, get]
  · next hge =>
    have hlength : (a ++ List.replicate (i - a.length) none).length = i := by
      rw [List.length_append, List.length_replicate]
      omega
    by_cases hj : j = i
    · subst hj
      rw [if_pos rfl, List.getElem?_append_right (le_of_eq hlength), hlength, Nat.sub_self]
      rfl
    · rw [if_neg hj, get]
      by_cases hlt : j < i
      · rw [List.getElem?_append_left (by omega), List.getElem?_append]
        split
        · rfl
        · next hbehind =>
          rw [List.getElem?_replicate, if_pos (by omega), List.getElem?_eq_none (by omega)]
          rfl
      · have hbeyond : (a ++ List.replicate (i - a.length) none ++ [some v]).length ≤ j := by
          rw [List.length_append, hlength, List.length_singleton]
          omega
        rw [List.getElem?_eq_none hbeyond, List.getElem?_eq_none (by omega)]

theorem eq_map_get (a : List (Option α)) : a = (List.range a.length).map (get a) := by
  apply List.ext_getElem
  · rw [List.length_map, List.length_range]
  · intro i h _
    rw [List.getElem_map, List.getElem_range, get, List.getElem?_eq_getElem h]
    rfl

theorem lt_of_isSome {a : List (Option α)} {i : Nat} (h : (get a i).isSome) : i < a.length := by
  by_contra hge
  rw [get, List.getElem?_eq_none (Nat.le_of_not_lt hge)] at h
  cases h

/-- The indices of values, in their order. -/
theorem filter_isSome_eq {a : List (Option α)} {keys : List Nat} (hkeys : keys.Pairwise (· < ·))
    (hsome : ∀ i, i ∈ keys ↔ (get a i).isSome) :
    (List.range a.length).filter (fun i => (get a i).isSome) = keys := by
  apply (List.pairwise_lt_range.filter _).eq_of_mem_iff hkeys
  intro i
  rw [List.mem_filter, List.mem_range, hsome]
  exact and_iff_right_of_imp lt_of_isSome

/-- The values stand in the order of their indices. -/
theorem values_eq {a : List (Option α)} {keys : List Nat} {vs : List α}
    (hkeys : keys.Pairwise (· < ·)) (hout : ∀ i, i ∉ keys → get a i = none)
    (hvalues : keys.map (get a) = vs.map some) : values a = vs := by
  have hsome : ∀ i, i ∈ keys ↔ (get a i).isSome := by
    intro i
    constructor
    · intro hi
      have hmem : get a i ∈ vs.map some := hvalues ▸ List.mem_map_of_mem hi
      obtain ⟨v, -, hv⟩ := List.mem_map.mp hmem
      rw [← hv, Option.isSome_some]
    · intro h
      by_contra hi
      rw [hout i hi] at h
      cases h
  calc values a = ((List.range a.length).map (get a)).filterMap id :=
        congrArg (List.filterMap id) (eq_map_get a)
    _ = (List.range a.length).filterMap (get a) := List.filterMap_map
    _ = ((List.range a.length).filter fun i => (get a i).isSome).filterMap (get a) := by
      rw [List.filterMap_filter]
      apply List.filterMap_congr
      intro i _
      cases get a i <;> rfl
    _ = keys.filterMap (get a) := by rw [filter_isSome_eq hkeys hsome]
    _ = (keys.map (get a)).filterMap id := by
      rw [List.filterMap_map]
      rfl
    _ = vs := by
      rw [hvalues, List.filterMap_map]
      exact List.filterMap_some

section collect

variable (key : φ → Nat) (merge : α → φ → α) (new : α)

/-- One more part of the value at the index of its key. -/
def collect (a : List (Option α)) (f : φ) : List (Option α) :=
  put a (key f) (merge ((get a (key f)).getD new) f)

/-- Parts that come in any order leave, at each index, what the parts for it make in theirs. -/
theorem get_collected (fs : List φ) (i : Nat) : get (fs.foldl (collect key merge new) []) i =
    if fs.filter (key · = i) = [] then none
    else some ((fs.filter (key · = i)).foldl merge new) := by
  induction fs using List.reverseRecOn with
  | nil => rfl
  | append_singleton fs f ih =>
    rw [List.foldl_append, List.foldl_cons, List.foldl_nil, collect, get_put, List.filter_append]
    by_cases hi : i = key f
    · subst hi
      rw [if_pos rfl, List.filter_cons_of_pos (by simp), List.filter_nil, if_neg (by simp),
        List.foldl_append, List.foldl_cons, List.foldl_nil, ih]
      split
      · next hnil => rw [hnil, Option.getD_none, List.foldl_nil]
      · rw [Option.getD_some]
    · rw [if_neg hi, List.filter_cons_of_neg (by simpa using Ne.symm hi), List.filter_nil,
        List.append_nil, ih]

end collect

end Solarcido.SparseArray
