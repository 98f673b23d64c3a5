import Solarcido.Lib.LinkedTree

namespace Solarcido.LinkedTree

variable {ν β : Type}

/-- What a walk sees of something: not what is in a file. -/
def Node.shape : Node ν β → Node ν Unit
  | .file _ => .file ()
  | .dir => .dir
  | .link route => .link route

namespace Tree

variable {t t' t'' : Tree ν β} {l m : List ν} {n : ν} {segments : List (Segment ν)}

/-- All that is there is there later, if with other contents. -/
def Grows (t t' : Tree ν β) : Prop :=
  ∀ l s, (t.node l).map Node.shape = some s → (t'.node l).map Node.shape = some s

/-- All that is there is there later as it is. -/
def Extends (t t' : Tree ν β) : Prop := ∀ l node, t.node l = some node → t'.node l = some node

theorem Grows.refl (t : Tree ν β) : t.Grows t := fun _ _ h => h

theorem Grows.trans (h : t.Grows t') (h' : t'.Grows t'') : t.Grows t'' :=
  fun l s hl => h' l s (h l s hl)

theorem Extends.refl (t : Tree ν β) : t.Extends t := fun _ _ h => h

theorem Extends.trans (h : t.Extends t') (h' : t'.Extends t'') : t.Extends t'' :=
  fun l node hl => h' l node (h l node hl)

theorem Extends.grows (h : t.Extends t') : t.Grows t' := by
  intro l s hl
  obtain ⟨node, hnode, hs⟩ := Option.map_eq_some_iff.mp hl
  rw [h l node hnode, Option.map_some, hs]

section shapes

theorem shape_dir {node : Option (Node ν β)} :
    node.map Node.shape = some .dir ↔ node = some .dir := by
  rcases node with _ | _ | _ | _ <;> simp [Node.shape]

theorem shape_link {node : Option (Node ν β)} {route : Route ν} :
    node.map Node.shape = some (.link route) ↔ node = some (.link route) := by
  rcases node with _ | _ | _ | _ <;> simp [Node.shape]

theorem shape_file {node : Option (Node ν β)} :
    node.map Node.shape = some (.file ()) ↔ ∃ content, node = some (.file content) := by
  rcases node with _ | _ | _ | _ <;> simp [Node.shape]

theorem Grows.dir (h : t.Grows t') (hl : t.node l = some .dir) : t'.node l = some .dir :=
  shape_dir.mp (h l .dir (shape_dir.mpr hl))

theorem Grows.link (h : t.Grows t') {route : Route ν} (hl : t.node l = some (.link route)) :
    t'.node l = some (.link route) :=
  shape_link.mp (h l (.link route) (shape_link.mpr hl))

theorem Grows.file (h : t.Grows t') {content : β} (hl : t.node l = some (.file content)) :
    ∃ content', t'.node l = some (.file content') :=
  shape_file.mp (h l (.file ()) (shape_file.mpr ⟨content, hl⟩))

theorem Grows.real (h : t.Grows t') (hl : t.Real l) : t'.Real l := by
  obtain ⟨node, hnode, hnot⟩ := hl
  cases node with
  | dir => exact real_dir (h.dir hnode)
  | link route => exact absurd rfl (hnot route)
  | file content =>
    obtain ⟨content', hcontent⟩ := h.file hnode
    exact ⟨.file content', hcontent, fun _ hlink => by cases hlink⟩

end shapes

section walks

/-- A name of something that is no link is passed. -/
theorem stepsWith_name {follow : List ν → List (Segment ν) → Except Fault (End ν)} {n : ν}
    (hdir : t.node l = some .dir) (h : t.Real (l ++ [n])) (rest : List (Segment ν)) :
    t.stepsWith follow l (.name n :: rest) = t.stepsWith follow (l ++ [n]) rest := by
  obtain ⟨node, hnode, hnot⟩ := h
  simp only [stepsWith, hdir]
  split
  · next hnone =>
    rw [hnode] at hnone
    cases hnone
  · next route hlink => exact absurd (Option.some.inj (hnode.symm.trans hlink)) (hnot route)
  · rfl

theorem stepsWith_grows (h : t.Grows t')
    {follow follow' : List ν → List (Segment ν) → Except Fault (End ν)}
    (hfollow : ∀ l segments e, follow l segments = .ok e → t'.Real e.place →
      follow' l segments = .ok (.found e.place)) {e : End ν}
    (hwalk : t.stepsWith follow l segments = .ok e) (hreal : t'.Real e.place) :
    t'.stepsWith follow' l segments = .ok (.found e.place) := by
  induction segments generalizing l with
  | nil =>
    obtain rfl := Except.ok.inj hwalk
    rfl
  | cons s rest ih =>
    simp only [stepsWith] at hwalk
    split at hwalk
    · next hdir =>
      cases s with
      | stay =>
        simp only [stepsWith, h.dir hdir]
        exact ih hwalk
      | up =>
        simp only [stepsWith, h.dir hdir]
        exact ih hwalk
      | name n =>
        simp only at hwalk
        split at hwalk
        · split at hwalk
          · next hlast =>
            -- what was missing is there now
            obtain rfl := Except.ok.inj hwalk
            obtain rfl := List.isEmpty_iff.mp hlast
            rw [stepsWith_name (h.dir hdir) hreal]
            rfl
          · cases hwalk
        · next route hlink =>
          simp only [stepsWith, h.dir hdir, h.link hlink]
          exact hfollow _ _ _ hwalk hreal
        · next node hnot hnode =>
          rw [stepsWith_name (h.dir hdir) (h.real ⟨node, hnode, hnot⟩)]
          exact ih hwalk
    · cases hwalk

/-- Where a walk ends, it ends later too, once there is something. -/
theorem walk_grows (h : t.Grows t') (k : Nat) {e : End ν} (hwalk : t.walk k l segments = .ok e)
    (hreal : t'.Real e.place) : t'.walk k l segments = .ok (.found e.place) := by
  induction k generalizing l segments e with
  | zero => exact stepsWith_grows h (fun _ _ _ hloop => by cases hloop) hwalk hreal
  | succ k ih => exact stepsWith_grows h (fun _ _ _ => ih) hwalk hreal

end walks

section writes

/-- A file has been put at a place, over an older one or over nothing. -/
structure PutAt (t t' : Tree ν β) (p : List ν) (content : β) : Prop where
  before : t.node p = none ∨ ∃ old, t.node p = some (.file old)
  now : t'.node p = some (.file content)
  others : ∀ l, l ≠ p → t'.node l = t.node l

namespace PutAt

variable {p : List ν} {content content' : β}

theorem trans (h : t.PutAt t' p content) (h' : t'.PutAt t'' p content') : t.PutAt t'' p content' :=
  ⟨h.before, h'.now, fun l hl => (h'.others l hl).trans (h.others l hl)⟩

theorem grows (h : t.PutAt t' p content) : t.Grows t' := by
  intro l s hl
  by_cases hlp : l = p
  · subst hlp
    obtain hnone | ⟨old, hfile⟩ := h.before
    · rw [hnone] at hl
      cases hl
    · rw [hfile] at hl
      rw [h.now]
      exact hl
  · rw [h.others l hlp]
    exact hl

theorem real (h : t.PutAt t' p content) : t'.Real p :=
  ⟨.file content, h.now, fun _ hlink => by cases hlink⟩

theorem stepsWith_back (h : t.PutAt t' p content)
    {follow follow' : List ν → List (Segment ν) → Except Fault (End ν)}
    (hfollow : ∀ l segments e, follow' l segments = .ok e → e.place = p →
      ∃ e', follow l segments = .ok e' ∧ e'.place = p) {e : End ν} (hplace : e.place = p)
    (hwalk : t'.stepsWith follow' l segments = .ok e) :
    ∃ e', t.stepsWith follow l segments = .ok e' ∧ e'.place = p := by
  induction segments generalizing l with
  | nil =>
    obtain rfl := Except.ok.inj hwalk
    exact ⟨.found l, rfl, hplace⟩
  | cons s rest ih =>
    simp only [stepsWith] at hwalk
    split at hwalk
    · next hdir =>
      have hne : l ≠ p := by
        rintro rfl
        rw [h.now] at hdir
        cases hdir
      rw [h.others l hne] at hdir
      simp only [stepsWith, hdir]
      cases s with
      | stay => exact ih hwalk
      | up => exact ih hwalk
      | name n =>
        simp only at hwalk ⊢
        by_cases hn : l ++ [n] = p
        · rw [hn] at hwalk ⊢
          rw [h.now] at hwalk
          -- a walk goes no further than to a file
          cases rest with
          | cons s rest =>
            simp only [stepsWith, h.now] at hwalk
            cases hwalk
          | nil =>
            obtain hnone | ⟨old, hfile⟩ := h.before
            · rw [hnone]
              exact ⟨.missing l n, rfl, hn⟩
            · rw [hfile]
              exact ⟨.found p, rfl, rfl⟩
        · rw [h.others _ hn] at hwalk
          split at hwalk
          · split at hwalk
            · obtain rfl := Except.ok.inj hwalk
              exact absurd hplace hn
            · cases hwalk
          · exact hfollow _ _ _ hwalk hplace
          · exact ih hwalk
    · cases hwalk

/-- A walk that comes to a file that has been put somewhere has come there before. -/
theorem walk_back (h : t.PutAt t' p content) (k : Nat) {e : End ν} (hplace : e.place = p)
    (hwalk : t'.walk k l segments = .ok e) :
    ∃ e', t.walk k l segments = .ok e' ∧ e'.place = p := by
  induction k generalizing l segments e with
  | zero => exact h.stepsWith_back (fun _ _ _ hloop => by cases hloop) hplace hwalk
  | succ k ih => exact h.stepsWith_back (fun _ _ _ hrest hp => ih hp hrest) hplace hwalk

end PutAt

variable [DecidableEq ν]

theorem putAt_setFile (t : Tree ν β) (l : List ν) (content : β) (h : t.Writable l) :
    t.PutAt (t.setFile l content h) l content :=
  ⟨h.free, Function.update_self _ _ _, fun m hm => t.setFile_node l content h m hm⟩

/-- The tree with a directory made in one that has nothing of its name. -/
def setDir (t : Tree ν β) (l : List ν) (n : ν) (hdir : t.node l = some .dir)
    (hnone : t.node (l ++ [n]) = none) : Tree ν β where
  node := Function.update t.node (l ++ [n]) (some .dir)
  root := by
    rw [Function.update_of_ne (by simp)]
    exact t.root
  parents p m hsome := by
    have hold (hp : t.node p = some .dir) :
        Function.update t.node (l ++ [n]) (some .dir) p = some .dir := by
      rw [Function.update_of_ne]
      · exact hp
      · rintro rfl
        rw [hnone] at hp
        cases hp
    by_cases heq : p ++ [m] = l ++ [n]
    · obtain ⟨rfl, -⟩ := List.append_inj' heq rfl
      exact hold hdir
    · rw [Function.update_of_ne heq] at hsome
      exact hold (t.parents p m hsome)

theorem setDir_extends (t : Tree ν β) (l : List ν) (n : ν) (hdir : t.node l = some .dir)
    (hnone : t.node (l ++ [n]) = none) : t.Extends (t.setDir l n hdir hnone) := by
  intro m node hm
  refine (Function.update_of_ne ?_ _ _).trans hm
  rintro rfl
  rw [hnone] at hm
  cases hm

end writes

end Tree

end Solarcido.LinkedTree
