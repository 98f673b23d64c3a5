import Mathlib.Data.List.Induction
import Mathlib.Data.List.Sort

namespace Solarcido

/-- A map kept as its entries in the order of their keys. -/
structure SortedMap (κ ν : Type) [LinearOrder κ] where
  entries : List (κ × ν)
  sorted : entries.Pairwise fun a b => a.1 < b.1

namespace SortedMap

variable {κ ν μ : Type} [LinearOrder κ]

def lookup (k : κ) : List (κ × ν) → Option ν
  | [] => none
  | e :: rest => if e.1 = k then some e.2 else lookup k rest

/-- Put an entry where its key belongs, in place of the one with that key. -/
def insertEntry (k : κ) (v : ν) : List (κ × ν) → List (κ × ν)
  | [] => [(k, v)]
  | e :: rest =>
    if k < e.1 then (k, v) :: e :: rest
    else if k = e.1 then (k, v) :: rest
    else e :: insertEntry k v rest

theorem mem_insertEntry {k : κ} {v : ν} {e : κ × ν} {l : List (κ × ν)}
    (h : e ∈ insertEntry k v l) : e = (k, v) ∨ e ∈ l := by
  induction l with
  | nil => simpa [insertEntry] using h
  | cons first rest ih =>
    rw [insertEntry] at h
    split_ifs at h with hlt heq
    · simpa using h
    · obtain h | h := List.mem_cons.mp h
      · exact Or.inl h
      · exact Or.inr (List.mem_cons_of_mem _ h)
    · obtain h | h := List.mem_cons.mp h
      · exact Or.inr (by simp [h])
      · obtain h | h := ih h
        · exact Or.inl h
        · exact Or.inr (List.mem_cons_of_mem _ h)

theorem insertEntry_sorted (k : κ) (v : ν) {l : List (κ × ν)}
    (h : l.Pairwise fun a b => a.1 < b.1) :
    (insertEntry k v l).Pairwise fun a b => a.1 < b.1 := by
  induction l with
  | nil => simp [insertEntry]
  | cons first rest ih =>
    obtain ⟨hfirst, hrest⟩ := List.pairwise_cons.mp h
    rw [insertEntry]
    split_ifs with hlt heq
    · refine List.pairwise_cons.mpr ⟨?_, h⟩
      intro e he
      obtain rfl | he := List.mem_cons.mp he
      · exact hlt
      · exact hlt.trans (hfirst e he)
    · subst heq
      exact List.pairwise_cons.mpr ⟨hfirst, hrest⟩
    · refine List.pairwise_cons.mpr ⟨?_, ih hrest⟩
      intro e he
      obtain rfl | he := mem_insertEntry he
      · exact lt_of_le_of_ne (not_lt.mp hlt) (Ne.symm heq)
      · exact hfirst e he

def empty : SortedMap κ ν := ⟨[], List.Pairwise.nil⟩

def get (m : SortedMap κ ν) (k : κ) : Option ν := lookup k m.entries

def set (m : SortedMap κ ν) (k : κ) (v : ν) : SortedMap κ ν :=
  ⟨insertEntry k v m.entries, insertEntry_sorted k v m.sorted⟩

def values (m : SortedMap κ ν) : List ν := m.entries.map Prod.snd

def mapValues (f : ν → μ) (m : SortedMap κ ν) : SortedMap κ μ :=
  ⟨m.entries.map fun e => (e.1, f e.2), by
    rw [List.pairwise_map]
    exact m.sorted⟩

def keys (m : SortedMap κ ν) : List κ := m.entries.map Prod.fst

@[simp] theorem get_empty (k : κ) : (empty : SortedMap κ ν).get k = none := rfl

theorem lookup_insertEntry (k k' : κ) (v : ν) (l : List (κ × ν)) :
    lookup k' (insertEntry k v l) = if k' = k then some v else lookup k' l := by
  induction l with
  | nil =>
    simp only [insertEntry, lookup]
    by_cases h : k' = k
    · simp [h]
    · simp [h, Ne.symm h]
  | cons first rest ih =>
    rw [insertEntry]
    by_cases hlt : k < first.1
    · rw [if_pos hlt, lookup]
      by_cases hk : k' = k
      · rw [if_pos hk.symm, if_pos hk]
      · rw [if_neg (Ne.symm hk), if_neg hk]
    · rw [if_neg hlt]
      by_cases heq : k = first.1
      · rw [if_pos heq, lookup, lookup, ← heq]
        by_cases hk : k' = k
        · rw [if_pos hk.symm, if_pos hk]
        · rw [if_neg (Ne.symm hk), if_neg hk, if_neg (Ne.symm hk)]
      · rw [if_neg heq, lookup, lookup, ih]
        by_cases hk : k' = k
        · subst hk
          rw [if_neg (Ne.symm heq), if_pos rfl, if_pos rfl]
        · rw [if_neg hk, if_neg hk]

theorem get_set (m : SortedMap κ ν) (k k' : κ) (v : ν) :
    (m.set k v).get k' = if k' = k then some v else m.get k' := lookup_insertEntry k k' v m.entries

@[simp] theorem get_set_self (m : SortedMap κ ν) (k : κ) (v : ν) : (m.set k v).get k = some v := by
  rw [get_set, if_pos rfl]

theorem get_set_of_ne {k k' : κ} (h : k' ≠ k) (m : SortedMap κ ν) (v : ν) :
    (m.set k v).get k' = m.get k' := by
  rw [get_set, if_neg h]

/-- What a key leads to is an entry, and every entry is found under its key. -/
theorem get_eq_some_iff (m : SortedMap κ ν) (k : κ) (v : ν) :
    m.get k = some v ↔ (k, v) ∈ m.entries := by
  obtain ⟨entries, sorted⟩ := m
  change lookup k entries = some v ↔ (k, v) ∈ entries
  induction entries with
  | nil => simp [lookup]
  | cons e rest ih =>
    obtain ⟨hfirst, hrest⟩ := List.pairwise_cons.mp sorted
    rw [lookup, List.mem_cons]
    by_cases hk : e.1 = k
    · rw [if_pos hk]
      constructor
      · intro h
        exact Or.inl (by rw [← hk, ← Option.some.inj h])
      · rintro (h | h)
        · rw [← h]
        · exact absurd (hfirst _ h) (by rw [hk]; exact lt_irrefl k)
    · rw [if_neg hk, ih hrest]
      constructor
      · exact Or.inr
      · rintro (h | h)
        · exact absurd (by rw [← h]) hk
        · exact h

theorem mem_keys_iff (m : SortedMap κ ν) (k : κ) : k ∈ m.keys ↔ ∃ v, m.get k = some v := by
  simp [keys, get_eq_some_iff]

theorem ext {m m' : SortedMap κ ν} (h : m.entries = m'.entries) : m = m' := by
  cases m
  cases m'
  cases h
  rfl

theorem eq_of_perm {l l' : List (κ × ν)} (h : l.Perm l') (hl : l.Pairwise fun a b => a.1 < b.1)
    (hl' : l'.Pairwise fun a b => a.1 < b.1) : l = l' :=
  h.eq_of_pairwise (fun _ _ _ _ hab hba => absurd hab (not_lt.mpr hba.le)) hl hl'

/-- The entries are determined by what the keys lead to. -/
theorem entries_eq (m : SortedMap κ ν) {l : List (κ × ν)} (hl : l.Pairwise fun a b => a.1 < b.1)
    (h : ∀ k v, m.get k = some v ↔ (k, v) ∈ l) : m.entries = l := by
  have hnodup {l : List (κ × ν)} (hl : l.Pairwise fun a b => a.1 < b.1) : l.Nodup :=
    hl.imp fun hlt heq => by
      subst heq
      exact lt_irrefl _ hlt
  have hperm : m.entries.Perm l := by
    rw [List.perm_ext_iff_of_nodup (hnodup m.sorted) (hnodup hl)]
    intro e
    rw [← h, get_eq_some_iff]
  exact eq_of_perm hperm m.sorted hl

/-- The map that inserting the entries of a list one by one builds. -/
def ofList (l : List (κ × ν)) : SortedMap κ ν := l.foldl (fun m e => m.set e.1 e.2) empty

theorem insertEntry_perm {k : κ} (v : ν) {l : List (κ × ν)} (h : k ∉ l.map Prod.fst) :
    (insertEntry k v l).Perm ((k, v) :: l) := by
  induction l with
  | nil => exact .refl _
  | cons first rest ih =>
    rw [List.map_cons, List.mem_cons, not_or] at h
    rw [insertEntry]
    split_ifs with hlt heq
    · exact .refl _
    · exact absurd heq h.1
    · exact ((ih h.2).cons first).trans (.swap _ _ rest)

theorem ofList_perm {l : List (κ × ν)} (h : (l.map Prod.fst).Nodup) :
    (ofList l).entries.Perm l := by
  induction l using List.reverseRecOn with
  | nil => exact .refl _
  | append_singleton l e ih =>
    rw [List.map_append, List.nodup_append] at h
    obtain ⟨hl, -, hne⟩ := h
    have hfresh : e.1 ∉ (ofList l).entries.map Prod.fst := by
      intro hmem
      exact hne e.1 (((ih hl).map Prod.fst).subset hmem) e.1 List.mem_cons_self rfl
    rw [ofList, List.foldl_append]
    refine (insertEntry_perm e.2 hfresh).trans (((ih hl).cons e).trans ?_)
    exact (List.perm_append_singleton e l).symm

theorem nodup_keys (m : SortedMap κ ν) : (m.entries.map Prod.fst).Nodup := by
  rw [List.Nodup, List.pairwise_map]
  exact m.sorted.imp fun h => h.ne

/-- The entries of a map, in whatever order, build it again. -/
theorem ofList_eq {m : SortedMap κ ν} {l : List (κ × ν)} (h : l.Perm m.entries) :
    ofList l = m := by
  have hnodup : (l.map Prod.fst).Nodup := (h.map Prod.fst).nodup_iff.mpr m.nodup_keys
  exact ext (eq_of_perm ((ofList_perm hnodup).trans h) (ofList l).sorted m.sorted)

/-- The values of a map whose keys are known in their order. -/
theorem values_eq_ofFn (m : SortedMap κ ν) {n : Nat} (key : Fin n → κ) (hkey : StrictMono key)
    (value : Fin n → ν) (h : ∀ k v, m.get k = some v ↔ ∃ i, key i = k ∧ value i = v) :
    m.values = List.ofFn value := by
  have hentries : m.entries = List.ofFn fun i => (key i, value i) := by
    apply m.entries_eq
    · rw [List.pairwise_ofFn]
      exact fun i j hij => hkey hij
    · intro k v
      simp only [h, List.mem_ofFn', Set.mem_range, Prod.mk.injEq]
  rw [values, hentries, List.map_ofFn]
  rfl

end SortedMap

end Solarcido
