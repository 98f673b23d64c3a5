import Mathlib.Data.Char
import Mathlib.Data.List.Lex
import Solarcido.Crates.Json
import Solarcido.Lib.SortedMap

namespace Solarcido.Crates.Value

section sorting

mutual

/-- A document as `from_str` builds it: the members of an object go into a map, one by one. -/
def sorted : Value → Value
  | .array items => .array (sortedItems items)
  | .object members => .object (SortedMap.ofList (sortedMembers members)).entries
  | v => v

def sortedItems : List Value → List Value
  | [] => []
  | item :: rest => sorted item :: sortedItems rest

def sortedMembers : List (RustString × Value) → List (RustString × Value)
  | [] => []
  | (key, value) :: rest => (key, sorted value) :: sortedMembers rest

end

theorem sortedItems_eq (items : List Value) : sortedItems items = items.map sorted := by
  induction items with
  | nil => rfl
  | cons item rest ih => rw [sortedItems, ih, List.map_cons]

theorem sortedMembers_eq (members : List (RustString × Value)) :
    sortedMembers members = members.map fun m => (m.1, m.2.sorted) := by
  induction members with
  | nil => rfl
  | cons m rest ih =>
    obtain ⟨key, value⟩ := m
    rw [sortedMembers, ih, List.map_cons]

theorem sorted_array (items : List Value) : (array items).sorted = .array (items.map sorted) := by
  rw [sorted, sortedItems_eq]

theorem sorted_strings (items : List RustString) :
    (array (items.map .string)).sorted = .array (items.map .string) := by
  rw [sorted_array, List.map_map]
  rfl

end sorting

section maps

variable {α : Type}

/-- `BTreeMap<String, T>`. -/
def btreeMap (read : Value → Option α) : Value → Option (SortedMap RustString α)
  | .object members =>
    (members.mapM fun m => (read m.2).map fun item => (m.1, item)).map SortedMap.ofList
  | _ => none

/-- A map as it is written. -/
def ofMap (write : α → Value) (m : SortedMap RustString α) : Value :=
  .object (m.entries.map fun e => (e.1, write e.2))

theorem sorted_ofMap (write : α → Value) (m : SortedMap RustString α) :
    (ofMap write m).sorted = ofMap (fun item => (write item).sorted) m := by
  have hentries : SortedMap.ofList (m.entries.map fun e => (e.1, (write e.2).sorted)) =
      m.mapValues fun item => (write item).sorted := SortedMap.ofList_eq (.refl _)
  rw [ofMap, sorted, sortedMembers_eq, List.map_map]
  exact congrArg (fun m => object m.entries) hentries

/-- A map that is written is read as itself. -/
theorem btreeMap_ofMap {read : Value → Option α} {write : α → Value} {m : SortedMap RustString α}
    (h : ∀ e ∈ m.entries, read (write e.2) = some e.2) : btreeMap read (ofMap write m) = some m := by
  have hentries : ∀ {l : List (RustString × α)}, (∀ e ∈ l, read (write e.2) = some e.2) →
      (l.map fun e => (e.1, write e.2)).mapM (fun m => (read m.2).map fun item => (m.1, item)) =
        some l := by
    intro l hl
    induction l with
    | nil => rfl
    | cons e rest ih =>
      obtain ⟨he, hrest⟩ := List.forall_mem_cons.mp hl
      rw [List.map_cons, List.mapM_cons, he, ih hrest]
      rfl
  rw [ofMap, btreeMap, hentries h]
  exact congrArg some (SortedMap.ofList_eq (.refl _))

end maps

section fields

variable {α : Type} {v : Value} {members : List (RustString × Value)}

/-- A struct with `#[serde(deny_unknown_fields)]`. -/
def strictStruct (fields : List RustString) : Value → Option Value
  | .object members => if members.all (fun m => m.1 ∈ fields) then some (.object members) else none
  | v => v.asStruct fields

/-- `field: Option<T>` in a struct that is read from `v`: an object may leave it out, an array has
an element for it. -/
def optionField (read : Value → Option α) (key : RustString) (v fields : Value) :
    Option (Option α) :=
  match v with
  | .array _ => required (nullable read) key fields
  | _ => optional read key fields

/-- The name under the tag of an internally tagged enumeration, and the rest. -/
def untag (tag : RustString) : Value → Option (RustString × Value)
  | .object members =>
    (((object members).get tag).bind asStr).map fun name =>
      (name, .object (members.filter fun m => m.1 ≠ tag))
  | .array (name :: items) => name.asStr.map fun name => (name, .array items)
  | _ => none

/-- An object with these members, in some order. -/
def HasMembers (v : Value) (members : List (RustString × Value)) : Prop :=
  ∃ l, v = .object l ∧ l.Perm members

theorem get_object_eq_some_iff {key : RustString} {w : Value} (h : (members.map Prod.fst).Nodup) :
    (object members).get key = some w ↔ (key, w) ∈ members := by
  induction members with
  | nil => simp [get]
  | cons m rest ih =>
    obtain ⟨k, v⟩ := m
    obtain ⟨hfresh, hrest⟩ := List.nodup_cons.mp h
    rw [get_object_cons, List.mem_cons]
    by_cases hk : k = key
    · subst hk
      have hnot : (k, w) ∉ rest := by
        intro hmem
        have hkey := List.mem_map_of_mem (f := Prod.fst) hmem
        exact hfresh hkey
      simp [hnot, eq_comm]
    · rw [if_neg hk, ih hrest]
      simp [Ne.symm hk]

theorem hasMembers_sorted (h : (members.map Prod.fst).Nodup) :
    (object members).sorted.HasMembers (members.map fun m => (m.1, m.2.sorted)) := by
  refine ⟨_, by rw [sorted, sortedMembers_eq], SortedMap.ofList_perm ?_⟩
  rwa [List.map_map]

theorem HasMembers.get (hv : v.HasMembers members) (h : (members.map Prod.fst).Nodup)
    (key : RustString) : v.get key = (object members).get key := by
  obtain ⟨l, rfl, hperm⟩ := hv
  have hl : (l.map Prod.fst).Nodup := (hperm.map Prod.fst).nodup_iff.mpr h
  ext w
  rw [get_object_eq_some_iff hl, get_object_eq_some_iff h, hperm.mem_iff]

theorem HasMembers.strictStruct {fields : List RustString} (hv : v.HasMembers members)
    (h : members.map Prod.fst = fields) : v.strictStruct fields = some v := by
  obtain ⟨l, rfl, hperm⟩ := hv
  have hall : l.all (fun m => m.1 ∈ fields) = true := by
    refine List.all_eq_true.mpr fun m hm => decide_eq_true ?_
    rw [← h]
    exact List.mem_map_of_mem (hperm.mem_iff.mp hm)
  rw [Value.strictStruct, if_pos hall]

theorem HasMembers.optionField (hv : v.HasMembers members) (read : Value → Option α)
    (key : RustString) (fields : Value) :
    Value.optionField read key v fields = optional read key fields := by
  obtain ⟨l, rfl, -⟩ := hv
  rfl

theorem HasMembers.untag {tag name : RustString}
    (hv : v.HasMembers ((tag, .string name) :: members))
    (h : (tag :: members.map Prod.fst).Nodup) :
    ∃ content, v.untag tag = some (name, content) ∧ content.HasMembers members := by
  have hget : v.get tag = some (.string name) := by
    rw [hv.get h, get_object_cons, if_pos rfl]
  obtain ⟨l, rfl, hperm⟩ := hv
  refine ⟨.object (l.filter fun m => m.1 ≠ tag), by rw [Value.untag, hget]; rfl, _, rfl, ?_⟩
  have hrest : members.filter (fun m => m.1 ≠ tag) = members := by
    rw [List.filter_eq_self]
    intro m hm
    have hne : m.1 ≠ tag := fun heq =>
      (List.nodup_cons.mp h).1 (heq ▸ List.mem_map_of_mem hm)
    exact decide_eq_true hne
  have hfilter := hperm.filter fun m => decide (m.1 ≠ tag)
  rwa [List.filter_cons_of_neg (by simp), hrest] at hfilter

end fields

end Solarcido.Crates.Value
