import Mathlib.Data.List.Nodup

namespace Solarcido

/-- A map that remembers the order in which its keys came in: setting a key that
is there keeps its place, a new key goes to the end. -/
structure InsertionMap (K V : Type) where
  entries : List (K × V)
  nodup : (entries.map Prod.fst).Nodup

namespace InsertionMap

variable {K V α : Type} [DecidableEq K]

def lookup (k : K) : List (K × V) → Option V
  | [] => none
  | (k', v) :: rest => if k' = k then some v else lookup k rest

def setEntries (k : K) (v : V) : List (K × V) → List (K × V)
  | [] => [(k, v)]
  | (k', v') :: rest => if k' = k then (k, v) :: rest else (k', v') :: setEntries k v rest

theorem keys_setEntries (k : K) (v : V) (entries : List (K × V)) :
    (setEntries k v entries).map Prod.fst =
      if k ∈ entries.map Prod.fst then entries.map Prod.fst else entries.map Prod.fst ++ [k] := by
  induction entries with
  | nil => rfl
  | cons e rest ih =>
    obtain ⟨k', v'⟩ := e
    by_cases hk : k' = k
    · subst hk
      simp [setEntries]
    · simp only [setEntries, if_neg hk, List.map_cons, ih, List.mem_cons, Ne.symm hk, false_or]
      split <;> rfl

theorem nodup_setEntries (k : K) (v : V) (entries : List (K × V))
    (h : (entries.map Prod.fst).Nodup) : ((setEntries k v entries).map Prod.fst).Nodup := by
  rw [keys_setEntries]
  split
  · exact h
  · next hk => exact List.nodup_append.mpr ⟨h, by simp, by simpa using fun a v ha e => hk (by
      rw [← e]; exact List.mem_map.mpr ⟨(a, v), ha, rfl⟩)⟩

def empty : InsertionMap K V := ⟨[], List.nodup_nil⟩

def get (m : InsertionMap K V) (k : K) : Option V := lookup k m.entries

def set (m : InsertionMap K V) (k : K) (v : V) : InsertionMap K V :=
  ⟨setEntries k v m.entries, nodup_setEntries k v m.entries m.nodup⟩

/-- Keep the entries that pass a test. -/
def filter (m : InsertionMap K V) (p : K × V → Bool) : InsertionMap K V :=
  ⟨m.entries.filter p, (List.filter_sublist.map Prod.fst).nodup m.nodup⟩

def keys (m : InsertionMap K V) : List K := m.entries.map Prod.fst

def values (m : InsertionMap K V) : List V := m.entries.map Prod.snd

/-- Set the key of each item to its value, in order. -/
def setAll (key : α → K) (value : α → V) (m : InsertionMap K V) (items : List α) :
    InsertionMap K V :=
  items.foldl (fun m a => m.set (key a) (value a)) m

@[simp] theorem get_empty (k : K) : (empty : InsertionMap K V).get k = none := rfl

@[simp] theorem get_set_self (m : InsertionMap K V) (k : K) (v : V) :
    (m.set k v).get k = some v := by
  obtain ⟨entries, hnd⟩ := m
  simp only [get, set]
  clear hnd
  induction entries with
  | nil => simp [setEntries, lookup]
  | cons e rest ih =>
    obtain ⟨k', v'⟩ := e
    by_cases hk : k' = k
    · simp [setEntries, lookup, hk]
    · simp [setEntries, lookup, hk, ih]

theorem get_set_of_ne (m : InsertionMap K V) (k k' : K) (v : V) (h : k' ≠ k) :
    (m.set k v).get k' = m.get k' := by
  obtain ⟨entries, hnd⟩ := m
  simp only [get, set]
  clear hnd
  induction entries with
  | nil => simp [setEntries, lookup, h.symm]
  | cons e rest ih =>
    obtain ⟨j, w⟩ := e
    by_cases hj : j = k
    · subst hj
      simp [setEntries, lookup, h.symm]
    · simp only [setEntries, if_neg hj, lookup, ih]

theorem setEntries_of_notMem {k : K} {entries : List (K × V)} (h : k ∉ entries.map Prod.fst)
    (v : V) : setEntries k v entries = entries ++ [(k, v)] := by
  induction entries with
  | nil => rfl
  | cons e rest ih =>
    rw [List.map_cons, List.mem_cons, not_or] at h
    rw [setEntries, if_neg (Ne.symm h.1), ih h.2, List.cons_append]

theorem mem_of_get {m : InsertionMap K V} {k : K} {v : V} (h : m.get k = some v) :
    (k, v) ∈ m.entries := by
  obtain ⟨entries, hnd⟩ := m
  simp only [get] at h ⊢
  clear hnd
  induction entries with
  | nil => simp [lookup] at h
  | cons e rest ih =>
    obtain ⟨k', v'⟩ := e
    by_cases hk : k' = k
    · subst hk
      simp only [lookup, if_pos, Option.some.injEq] at h
      simp [h]
    · simp only [lookup, if_neg hk] at h
      exact List.mem_cons_of_mem _ (ih h)

theorem get_of_mem {m : InsertionMap K V} {k : K} {v : V} (h : (k, v) ∈ m.entries) :
    m.get k = some v := by
  obtain ⟨entries, hnd⟩ := m
  simp only [get] at h ⊢
  induction entries with
  | nil => simp at h
  | cons e rest ih =>
    obtain ⟨k', v'⟩ := e
    rw [List.map_cons, List.nodup_cons] at hnd
    obtain hhead | htail := List.mem_cons.mp h
    · obtain ⟨rfl, rfl⟩ := Prod.mk.inj hhead
      simp [lookup]
    · have hne : k' ≠ k := fun he => hnd.1 (List.mem_map.mpr ⟨(k, v), htail, he.symm⟩)
      rw [lookup, if_neg hne]
      exact ih hnd.2 htail

theorem get_filter_of_pass {m : InsertionMap K V} {k : K} {v : V} {p : K × V → Bool}
    (h : m.get k = some v) (hp : p (k, v) = true) : (m.filter p).get k = some v :=
  get_of_mem (List.mem_filter.mpr ⟨mem_of_get h, hp⟩)

/-- Take a key out. -/
def erase (m : InsertionMap K V) (k : K) : InsertionMap K V := m.filter fun e => e.1 ≠ k

@[simp] theorem get_erase_self (m : InsertionMap K V) (k : K) : (m.erase k).get k = none := by
  cases h : (m.erase k).get k with
  | none => rfl
  | some v =>
    have hmem := (List.mem_filter.mp (mem_of_get h)).2
    simp at hmem

theorem get_erase_of_ne (m : InsertionMap K V) (k k' : K) (h : k' ≠ k) :
    (m.erase k).get k' = m.get k' := by
  cases hk : m.get k' with
  | some v => exact get_filter_of_pass hk (by simpa using h)
  | none =>
    cases he : (m.erase k).get k' with
    | none => rfl
    | some v =>
      have hmem := get_of_mem (List.mem_filter.mp (mem_of_get he)).1
      rw [hmem] at hk
      cases hk

/-- A key set by no item keeps its value. -/
theorem get_setAll_of_ne (key : α → K) (value : α → V) (m : InsertionMap K V) (items : List α)
    (k : K) (h : ∀ a ∈ items, key a ≠ k) : (m.setAll key value items).get k = m.get k := by
  induction items generalizing m with
  | nil => rfl
  | cons a items ih =>
    rw [setAll, List.foldl_cons]
    have hrest := ih (m.set (key a) (value a)) fun b hb => h b (by simp [hb])
    rw [setAll] at hrest
    rw [hrest, get_set_of_ne m _ _ _ (Ne.symm (h a (by simp)))]

/-- A key set by some item holds the value of one of the items that set it. -/
theorem get_setAll_of_mem (key : α → K) (value : α → V) (m : InsertionMap K V) (items : List α)
    (a : α) (ha : a ∈ items) :
    ∃ b ∈ items, key b = key a ∧ (m.setAll key value items).get (key a) = some (value b) := by
  induction items generalizing m a with
  | nil => simp at ha
  | cons c items ih =>
    by_cases hlater : ∃ d ∈ items, key d = key a
    · obtain ⟨d, hd, hkey⟩ := hlater
      obtain ⟨b, hb, hbkey, hget⟩ := ih (m.set (key c) (value c)) d hd
      refine ⟨b, by simp [hb], hbkey.trans hkey, ?_⟩
      rw [hkey] at hget
      exact hget
    · have hc : key c = key a := by
        obtain rfl | htail := List.mem_cons.mp ha
        · rfl
        · exact absurd ⟨a, htail, rfl⟩ hlater
      refine ⟨c, by simp, hc, ?_⟩
      have hkeep := get_setAll_of_ne key value (m.set (key c) (value c)) items (key a)
        fun d hd he => hlater ⟨d, hd, he⟩
      rw [setAll, List.foldl_cons]
      rw [setAll] at hkeep
      rw [hkeep, hc, get_set_self]

/-- What a map filled from nothing holds comes from an item. -/
theorem get_setAll_empty {key : α → K} {value : α → V} {items : List α} {k : K} {v : V}
    (h : (empty.setAll key value items).get k = some v) :
    ∃ a ∈ items, key a = k ∧ value a = v := by
  by_cases hset : ∃ a ∈ items, key a = k
  · obtain ⟨a, ha, rfl⟩ := hset
    obtain ⟨b, hb, hkey, hget⟩ := get_setAll_of_mem key value empty items a ha
    rw [hget] at h
    exact ⟨b, hb, hkey, Option.some.inj h⟩
  · rw [get_setAll_of_ne key value empty items k fun a ha he => hset ⟨a, ha, he⟩] at h
    simp at h

theorem setAll_append (key : α → K) (value : α → V) (m : InsertionMap K V) (as bs : List α) :
    m.setAll key value (as ++ bs) = (m.setAll key value as).setAll key value bs :=
  List.foldl_append

end InsertionMap

end Solarcido
