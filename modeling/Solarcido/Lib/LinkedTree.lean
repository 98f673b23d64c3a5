import Mathlib.Data.List.Infix
import Mathlib.Logic.Function.Basic

namespace Solarcido.LinkedTree

/-- A part of a path: the directory itself, the one above it, or a name in it. -/
inductive Segment (ν : Type) where
  | stay
  | up
  | name (n : ν)
  deriving DecidableEq

/-- Where a link leads. -/
structure Route (ν : Type) where
  fromRoot : Bool
  segments : List (Segment ν)

inductive Node (ν β : Type) where
  | file (content : β)
  | dir
  | link (route : Route ν)

/-- Files, directories and links by their locations: the names from the root down. What is
somewhere is in a directory. -/
structure Tree (ν β : Type) where
  node : List ν → Option (Node ν β)
  root : node [] = some .dir
  parents : ∀ l n, (node (l ++ [n])).isSome → node l = some .dir

inductive Fault where
  | notFound
  | notDirectory
  | loop
  deriving DecidableEq

/-- Where a walk ends: at something that is no link, or at a name that a directory has not. -/
inductive End (ν : Type) where
  | found (l : List ν)
  | missing (l : List ν) (n : ν)

/-- The location of what is there, or would be made. -/
def End.place {ν : Type} : End ν → List ν
  | .found l => l
  | .missing l n => l ++ [n]

namespace Tree

variable {ν β : Type} (t : Tree ν β)

/-- A walk from a location, with what is done at a link. -/
def stepsWith (follow : List ν → List (Segment ν) → Except Fault (End ν)) :
    List ν → List (Segment ν) → Except Fault (End ν)
  | l, [] => .ok (.found l)
  | l, s :: rest =>
    match t.node l with
    | some .dir =>
      match s with
      | .stay => stepsWith follow l rest
      | .up => stepsWith follow l.dropLast rest
      | .name n =>
        match t.node (l ++ [n]) with
        | none => if rest.isEmpty then .ok (.missing l n) else .error .notFound
        | some (.link route) => follow (if route.fromRoot then [] else l) (route.segments ++ rest)
        | some _ => stepsWith follow (l ++ [n]) rest
    | _ => .error .notDirectory

/-- A walk that follows so many links at most. -/
def walk : Nat → List ν → List (Segment ν) → Except Fault (End ν)
  | 0 => t.stepsWith fun _ _ => .error .loop
  | k + 1 => t.stepsWith (walk k)

/-- Something that is no link. -/
def Real (l : List ν) : Prop := ∃ node, t.node l = some node ∧ ∀ route, node ≠ .link route

section places

variable {t} {l m : List ν} {n : ν}

theorem dir_of_below (h : (t.node (l ++ m)).isSome) (hm : m ≠ []) : t.node l = some .dir := by
  induction m generalizing l with
  | nil => exact absurd rfl hm
  | cons n m ih =>
    by_cases hnil : m = []
    · subst hnil
      exact t.parents l n h
    · rw [← List.singleton_append, ← List.append_assoc] at h
      exact t.parents l n (by rw [ih h hnil]; rfl)

theorem real_dir (h : t.node l = some .dir) : t.Real l :=
  ⟨.dir, h, fun _ hlink => by cases hlink⟩

theorem dir_dropLast (h : t.node l = some .dir) : t.node l.dropLast = some .dir := by
  cases l using List.reverseRecOn with
  | nil => exact t.root
  | append_singleton l n =>
    rw [List.dropLast_concat]
    exact t.parents l n (by rw [h]; rfl)

end places

section walks

variable {t} {l : List ν} {segments : List (Segment ν)}

/-- Where a walk can end. -/
def IsEnd (t : Tree ν β) : End ν → Prop
  | .found l => t.Real l
  | .missing l n => t.node l = some .dir ∧ t.node (l ++ [n]) = none

theorem stepsWith_isEnd {follow : List ν → List (Segment ν) → Except Fault (End ν)}
    (hfollow : ∀ l segments e, t.node l = some .dir → follow l segments = .ok e → t.IsEnd e)
    (hl : t.Real l) {e : End ν} (h : t.stepsWith follow l segments = .ok e) : t.IsEnd e := by
  induction segments generalizing l with
  | nil =>
    obtain rfl := Except.ok.inj h
    exact hl
  | cons s rest ih =>
    simp only [stepsWith] at h
    split at h
    · next hdir =>
      cases s with
      | stay => exact ih hl h
      | up => exact ih (real_dir (dir_dropLast hdir)) h
      | name n =>
        simp only at h
        split at h
        · next hnone =>
          split at h
          · obtain rfl := Except.ok.inj h
            exact ⟨hdir, hnone⟩
          · cases h
        · next route hlink =>
          refine hfollow _ _ e ?_ h
          split
          · exact t.root
          · exact hdir
        · next node hnot hnode => exact ih ⟨node, hnode, hnot⟩ h
    · cases h

/-- A walk ends at something that is no link, or in a directory. -/
theorem walk_isEnd (k : Nat) (hl : t.Real l) {e : End ν} (h : t.walk k l segments = .ok e) :
    t.IsEnd e := by
  induction k generalizing l segments e with
  | zero => exact stepsWith_isEnd (fun _ _ _ _ hloop => by cases hloop) hl h
  | succ k ih => exact stepsWith_isEnd (fun _ _ _ hdir hrest => ih (real_dir hdir) hrest) hl h

/-- A step down into a directory. -/
theorem walk_name (k : Nat) {n : ν} (hnode : t.Real (l ++ [n])) :
    t.walk k l (.name n :: segments) = t.walk k (l ++ [n]) segments := by
  obtain ⟨node, hnode, hnot⟩ := hnode
  have hdir := t.parents l n (by rw [hnode]; rfl)
  cases k with
  | zero =>
    simp only [walk, stepsWith, hdir, hnode]
  | succ k =>
    simp only [walk, stepsWith, hdir, hnode]

/-- A walk along names with no links. -/
theorem walk_names (k : Nat) {m : List ν} (hreal : t.Real (l ++ m)) :
    t.walk k l (m.map .name ++ segments) = t.walk k (l ++ m) segments := by
  induction m generalizing l with
  | nil => rw [List.append_nil, List.map_nil, List.nil_append]
  | cons n m ih =>
    have hsplit : l ++ n :: m = l ++ [n] ++ m := by simp
    rw [hsplit] at hreal ⊢
    rw [List.map_cons, List.cons_append, walk_name k, ih hreal]
    by_cases hnil : m = []
    · subst hnil
      rwa [List.append_nil] at hreal
    · obtain ⟨node, hnode, -⟩ := hreal
      exact real_dir (dir_of_below (by rw [hnode]; rfl) hnil)

/-- What is reached along names with no links is where the names say. -/
theorem walk_found_names (k : Nat) {m : List ν} (hreal : t.Real (l ++ m)) :
    t.walk k l (m.map .name) = .ok (.found (l ++ m)) := by
  have h : t.walk k l (m.map .name ++ []) = t.walk k (l ++ m) [] := walk_names k hreal
  rw [List.append_nil] at h
  rw [h]
  cases k <;> rfl

/-- A name that nothing has ends a walk. -/
theorem walk_missing (k : Nat) {n : ν} (hdir : t.node l = some .dir) (hnone : t.node (l ++ [n]) = none) :
    t.walk k l [.name n] = .ok (.missing l n) := by
  cases k with
  | zero => simp [walk, stepsWith, hdir, hnone]
  | succ k => simp [walk, stepsWith, hdir, hnone]

/-- A walk that comes to a link goes on where it leads. -/
theorem walk_link (k : Nat) {n : ν} {route : Route ν} (hlink : t.node (l ++ [n]) = some (.link route)) :
    t.walk (k + 1) l [.name n] = t.walk k (if route.fromRoot then [] else l) route.segments := by
  have hdir := t.parents l n (by rw [hlink]; rfl)
  simp [walk, stepsWith, hdir, hlink]

/-- The names among segments. -/
def names : List (Segment ν) → List ν
  | [] => []
  | .name n :: rest => n :: names rest
  | _ :: rest => names rest

/-- A walk that neither goes up nor passes a link ends where its names say. -/
theorem stepsWith_plain {follow : List ν → List (Segment ν) → Except Fault (End ν)}
    (hup : .up ∉ segments)
    (hlinks : ∀ m, m <+: names segments → ∀ route, t.node (l ++ m) ≠ some (.link route)) {l' : List ν}
    (h : t.stepsWith follow l segments = .ok (.found l')) : l' = l ++ names segments := by
  induction segments generalizing l with
  | nil =>
    obtain rfl := End.found.inj (Except.ok.inj h)
    exact (List.append_nil l).symm
  | cons s rest ih =>
    have hrest : .up ∉ rest := fun hmem => hup (List.mem_cons_of_mem s hmem)
    simp only [stepsWith] at h
    split at h
    · cases s with
      | stay => exact ih hrest hlinks h
      | up => exact absurd List.mem_cons_self hup
      | name n =>
        simp only at h
        split at h
        · split at h
          · cases h
          · cases h
        · next route hlink => exact absurd hlink (hlinks [n] ⟨names rest, rfl⟩ route)
        · rw [ih hrest ?_ h, names, List.append_assoc, List.singleton_append]
          intro m hm route
          rw [List.append_assoc, List.singleton_append]
          exact hlinks (n :: m) ((List.cons_prefix_cons).mpr ⟨rfl, hm⟩) route
    · cases h

theorem walk_plain (k : Nat) (hup : .up ∉ segments)
    (hlinks : ∀ m, m <+: names segments → ∀ route, t.node (l ++ m) ≠ some (.link route)) {l' : List ν}
    (h : t.walk k l segments = .ok (.found l')) : l' = l ++ names segments := by
  cases k with
  | zero => exact stepsWith_plain hup hlinks h
  | succ k => exact stepsWith_plain hup hlinks h

/-- The steps that can be taken from a place: to itself, to the directory above it, to a name
in it, or where a link in it leads. -/
def Step (t : Tree ν β) (l : List ν) (s : Segment ν) (l' : List ν) : Prop :=
  match s with
  | .stay => l' = l
  | .up => l' = l.dropLast
  | .name n => l' = l ++ [n] ∨ ∃ route, t.node (l ++ [n]) = some (.link route)

theorem stepsWith_front {follow : List ν → List (Segment ν) → Except Fault (End ν)}
    (hfollow : ∀ l a b l', follow l (a ++ b) = .ok (.found l') → ∃ m, follow l a = .ok (.found m))
    {rest : List (Segment ν)} {l' : List ν}
    (h : t.stepsWith follow l (segments ++ rest) = .ok (.found l')) :
    ∃ m, t.stepsWith follow l segments = .ok (.found m) := by
  induction segments generalizing l with
  | nil => exact ⟨l, rfl⟩
  | cons s segments ih =>
    rw [List.cons_append] at h
    simp only [stepsWith] at h ⊢
    split at h
    · cases s with
      | stay => exact ih h
      | up => exact ih h
      | name n =>
        simp only at h ⊢
        split at h
        · split at h <;> cases h
        · next route hlink =>
          rw [← List.append_assoc] at h
          exact hfollow _ _ _ _ h
        · next node hnot hnode => exact ih h
    · cases h

/-- The front of a path that leads somewhere leads somewhere. -/
theorem walk_front (k : Nat) {rest : List (Segment ν)} {l' : List ν}
    (h : t.walk k l (segments ++ rest) = .ok (.found l')) :
    ∃ m, t.walk k l segments = .ok (.found m) := by
  induction k generalizing l segments rest l' with
  | zero => exact stepsWith_front (fun _ _ _ _ hloop => by cases hloop) h
  | succ k ih => exact stepsWith_front (fun _ _ _ _ hrest => ih hrest) h

theorem stepsWith_last {follow : List ν → List (Segment ν) → Except Fault (End ν)}
    (hfollow : ∀ l a s m m', follow l a = .ok (.found m) → follow l (a ++ [s]) = .ok (.found m') →
      t.Step m s m') {s : Segment ν} {m m' : List ν}
    (h : t.stepsWith follow l segments = .ok (.found m))
    (h' : t.stepsWith follow l (segments ++ [s]) = .ok (.found m')) : t.Step m s m' := by
  induction segments generalizing l with
  | nil =>
    obtain rfl := End.found.inj (Except.ok.inj h)
    simp only [List.nil_append, stepsWith] at h'
    split at h'
    · cases s with
      | stay => exact (End.found.inj (Except.ok.inj h')).symm
      | up => exact (End.found.inj (Except.ok.inj h')).symm
      | name n =>
        simp only at h'
        split at h'
        · cases h'
        · next route hlink => exact .inr ⟨route, hlink⟩
        · exact .inl (End.found.inj (Except.ok.inj h')).symm
    · cases h'
  | cons first segments ih =>
    rw [List.cons_append] at h'
    simp only [stepsWith] at h h'
    split at h
    · next hdir =>
      simp only [hdir] at h'
      cases first with
      | stay => exact ih h h'
      | up => exact ih h h'
      | name n =>
        simp only at h h'
        split at h
        · split at h <;> cases h
        · next route hlink =>
          simp only [hlink, ← List.append_assoc] at h'
          exact hfollow _ _ _ _ _ h h'
        · next node hnot hnode =>
          simp only [hnode] at h'
          exact ih h h'
    · cases h

/-- One more segment is one more step. -/
theorem walk_last (k : Nat) {s : Segment ν} {m m' : List ν}
    (h : t.walk k l segments = .ok (.found m)) (h' : t.walk k l (segments ++ [s]) = .ok (.found m')) :
    t.Step m s m' := by
  induction k generalizing l segments s m m' with
  | zero => exact stepsWith_last (fun _ _ _ _ _ hloop => by cases hloop) h h'
  | succ k ih =>
    refine stepsWith_last ?_ h h'
    intro l a s m m' hfront hall
    exact ih hfront hall

/-- A walk that is once in a region that no step down leaves, and ends outside, leaves it for
good by a step up or by a link. -/
theorem walk_exit {P : List ν → Prop} (hdown : ∀ m n, P m → P (m ++ [n])) (k : Nat) {l' : List ν}
    (h : t.walk k l segments = .ok (.found l')) (hout : ¬ P l') {i : Nat} {m : List ν}
    (hi : t.walk k l (segments.take i) = .ok (.found m)) (hm : P m) :
    ∃ j s m, t.walk k l (segments.take j) = .ok (.found m) ∧ P m ∧ segments[j]? = some s ∧
      ((s = .up ∧ ¬ P m.dropLast) ∨
        ∃ n route, s = .name n ∧ t.node (m ++ [n]) = some (.link route)) ∧
      ∀ j' m', j < j' → t.walk k l (segments.take j') = .ok (.found m') → ¬ P m' := by
  induction hd : segments.length - i using Nat.strongRecOn generalizing i m with
  | _ d ih =>
    have hlt : i < segments.length := by
      by_contra hge
      rw [List.take_of_length_le (by omega), h] at hi
      exact hout (End.found.inj (Except.ok.inj hi) ▸ hm)
    by_cases hlater : ∃ j m', i < j ∧ t.walk k l (segments.take j) = .ok (.found m') ∧ P m'
    · obtain ⟨j, m', hj, hwalk, hm'⟩ := hlater
      exact ih (segments.length - j) (by omega) hwalk hm' rfl
    · -- the step behind the last place inside
      have hnever : ∀ j m', i < j → t.walk k l (segments.take j) = .ok (.found m') → ¬ P m' :=
        fun j m' hj hwalk hm' => hlater ⟨j, m', hj, hwalk, hm'⟩
      have hsplit : segments = segments.take (i + 1) ++ segments.drop (i + 1) :=
        (List.take_append_drop _ _).symm
      obtain ⟨m', hm'⟩ := walk_front k (by rw [← hsplit]; exact h)
      have hnext := hm'
      rw [List.take_add_one, List.getElem?_eq_getElem hlt] at hnext
      have hstep := walk_last k hi hnext
      have hleft := hnever (i + 1) m' (by omega) hm'
      refine ⟨i, segments[i], m, hi, hm, List.getElem?_eq_getElem hlt, ?_, hnever⟩
      cases hs : segments[i] with
      | stay =>
        rw [hs] at hstep
        exact absurd (hstep ▸ hm) hleft
      | up =>
        rw [hs] at hstep
        exact .inl ⟨rfl, hstep ▸ hleft⟩
      | name n =>
        rw [hs] at hstep
        rcases hstep with hname | ⟨route, hlink⟩
        · exact absurd (hname ▸ hdown m n hm) hleft
        · exact .inr ⟨n, route, rfl, hlink⟩

end walks

section writes

variable {t}

/-- A place where a file can be put: one that is there, or a name in a directory that nothing has. -/
structure Writable (t : Tree ν β) (l : List ν) : Prop where
  free : t.node l = none ∨ ∃ content, t.node l = some (.file content)
  parent : ∃ p n, l = p ++ [n] ∧ t.node p = some .dir

theorem writable_found {l : List ν} {content : β} (h : t.node l = some (.file content)) :
    t.Writable l := by
  refine ⟨Or.inr ⟨content, h⟩, ?_⟩
  cases l using List.reverseRecOn with
  | nil =>
    rw [t.root] at h
    cases h
  | append_singleton p n => exact ⟨p, n, rfl, t.parents p n (by rw [h]; rfl)⟩

theorem writable_missing {p : List ν} {n : ν} (hdir : t.node p = some .dir)
    (hnone : t.node (p ++ [n]) = none) : t.Writable (p ++ [n]) :=
  ⟨Or.inl hnone, p, n, rfl, hdir⟩

variable [DecidableEq ν]

/-- The tree with a file put at a place. -/
def setFile (t : Tree ν β) (l : List ν) (content : β) (h : t.Writable l) : Tree ν β where
  node := Function.update t.node l (some (.file content))
  root := by
    obtain ⟨p, n, rfl, -⟩ := h.parent
    rw [Function.update_of_ne (by simp)]
    exact t.root
  parents p n hsome := by
    have hother (hdir : t.node p = some .dir) :
        Function.update t.node l (some (.file content)) p = some .dir := by
      rw [Function.update_of_ne]
      · exact hdir
      · rintro rfl
        obtain hnone | ⟨old, hfile⟩ := h.free
        · rw [hdir] at hnone
          cases hnone
        · rw [hdir] at hfile
          cases hfile
    by_cases heq : p ++ [n] = l
    · obtain ⟨p', n', hl, hdir⟩ := h.parent
      obtain ⟨rfl, -⟩ := List.append_inj' (heq.trans hl) rfl
      exact hother hdir
    · rw [Function.update_of_ne heq] at hsome
      exact hother (t.parents p n hsome)

theorem setFile_node (t : Tree ν β) (l : List ν) (content : β) (h : t.Writable l) (l' : List ν)
    (hne : l' ≠ l) : (t.setFile l content h).node l' = t.node l' := Function.update_of_ne hne _ _

end writes

end Tree

end Solarcido.LinkedTree
