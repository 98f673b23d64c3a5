import Mathlib.Data.List.Lex
import Mathlib.Data.List.Pairwise
import Solarcido.Js.Text
import Solarcido.Lib.StableOrder

namespace Solarcido.Lanes

open Text Succession

section order

/-- The numbers of the code units, by which `<` compares strings. -/
def units (s : JsString) : List ℕ := s.map UInt16.toNat

theorem units_lt_iff (a b : JsString) : units a < units b ↔ a < b := by
  induction a generalizing b with
  | nil => cases b <;> simp [units]
  | cons u a ih =>
    cases b with
    | nil => simp [units]
    | cons v b =>
      have hleft : units (u :: a) = u.toNat :: units a := rfl
      have hright : units (v :: b) = v.toNat :: units b := rfl
      rw [hleft, hright, List.cons_lt_cons_iff, List.cons_lt_cons_iff, ih,
        UInt16.lt_iff_toNat_lt, UInt16.toNat_inj]

theorem units_inj {a b : JsString} : units a = units b ↔ a = b :=
  (List.map_injective_iff.mpr fun _ _ => UInt16.toNat_inj.mp).eq_iff

end order

/-- What a lane means to work on. -/
structure BranchLockIntent where
  laneId : JsString
  branch : JsString
  modules : List JsString

structure BranchLockCollision where
  branch : JsString
  module : JsString
  laneIds : List JsString
  deriving DecidableEq

section detection

def modulesOverlap (left right : JsString) : Bool :=
  left = right || startsWith left (right ++ js "/") || startsWith right (left ++ js "/")

def sharedScope (left right : JsString) : JsString :=
  if startsWith left (right ++ js "/") || left = right then right else left

/-- `overlaps.sort()`, then `dedupe`. -/
def overlappingModules (left right : List JsString) : List JsString :=
  distinct units (fun v prev => v = prev)
    (left.flatMap fun l => (right.filter fun r => modulesOverlap l r).map fun r => sharedScope l r)

/-- `laneIds.join("\0")` -/
def BranchLockCollision.laneKey (c : BranchLockCollision) : JsString := join [0] c.laneIds

def compareCollisions (a b : BranchLockCollision) : Int :=
  if a.branch ≠ b.branch then (if a.branch < b.branch then -1 else 1)
  else if a.module ≠ b.module then (if a.module < b.module then -1 else 1)
  else if a.laneKey < b.laneKey then -1
  else if b.laneKey < a.laneKey then 1
  else 0

def sameCollision (c prev : BranchLockCollision) : Bool :=
  c.branch = prev.branch && c.module = prev.module && c.laneKey = prev.laneKey

/-- The collisions of two intents. -/
def collide (left right : BranchLockIntent) : List BranchLockCollision :=
  if left.branch ≠ right.branch then []
  else (overlappingModules left.modules right.modules).map fun module =>
    ⟨left.branch, module, [left.laneId, right.laneId]⟩

/-- The two loops: each intent with those behind it. -/
def collisionsOf : List BranchLockIntent → List BranchLockCollision
  | [] => []
  | left :: rest => rest.flatMap (collide left) ++ collisionsOf rest

def detectBranchLockCollisions (intents : List BranchLockIntent) : List BranchLockCollision :=
  dropRepeats sameCollision
    ((collisionsOf intents).mergeSort fun a b => compareCollisions a b ≤ 0)

end detection

section keys

/-- What the collisions are sorted by. -/
def BranchLockCollision.key (c : BranchLockCollision) : List (List ℕ) :=
  [units c.branch, units c.module, units c.laneKey]

theorem key_lt_iff (a b : BranchLockCollision) : a.key < b.key ↔
    units a.branch < units b.branch ∨ (units a.branch = units b.branch ∧
      (units a.module < units b.module ∨ (units a.module = units b.module ∧
        units a.laneKey < units b.laneKey))) := by
  rw [BranchLockCollision.key, BranchLockCollision.key, List.cons_lt_cons_iff,
    List.cons_lt_cons_iff, List.cons_lt_cons_iff]
  simp

theorem compareCollisions_iff (a b : BranchLockCollision) :
    compareCollisions a b ≤ 0 ↔ a.key ≤ b.key := by
  rw [← not_lt (a := b.key), key_lt_iff]
  simp only [compareCollisions, ← units_lt_iff, ne_eq, ← units_inj]
  rcases lt_trichotomy (units a.branch) (units b.branch) with hbranch | hbranch | hbranch
  · simp [hbranch, hbranch.ne, hbranch.asymm, hbranch.ne']
  · rcases lt_trichotomy (units a.module) (units b.module) with hmodule | hmodule | hmodule
    · simp [hbranch, hmodule, hmodule.ne, hmodule.asymm, hmodule.ne']
    · rcases lt_trichotomy (units a.laneKey) (units b.laneKey) with hlanes | hlanes | hlanes
      · simp [hbranch, hmodule, hlanes, hlanes.asymm]
      · simp [hbranch, hmodule, hlanes]
      · simp [hbranch, hmodule, hlanes, hlanes.asymm]
    · simp [hbranch, hmodule, hmodule.asymm, hmodule.ne']
  · simp [hbranch, hbranch.asymm, hbranch.ne']

theorem sameCollision_iff (c prev : BranchLockCollision) :
    sameCollision c prev = true ↔ c.key = prev.key := by
  simp [sameCollision, BranchLockCollision.key, units_inj, and_assoc]

theorem detectBranchLockCollisions_eq (intents : List BranchLockIntent) :
    detectBranchLockCollisions intents =
      distinct BranchLockCollision.key sameCollision (collisionsOf intents) := by
  have hcompare : (fun a b => decide (compareCollisions a b ≤ 0)) =
      fun a b => decide (a.key ≤ b.key) := by
    funext a b
    rw [decide_eq_decide, compareCollisions_iff]
  rw [detectBranchLockCollisions, hcompare]
  rfl

end keys

section scopes

/-- A module is the scope itself or lies below it. -/
def Within (module scope : JsString) : Prop :=
  module = scope ∨ startsWith module (scope ++ js "/") = true

/-- Two modules overlap, and the scope is the ancestor of the two. -/
def Shares (l r scope : JsString) : Prop :=
  (scope = l ∨ scope = r) ∧ Within l scope ∧ Within r scope

theorem Shares.symm {l r scope : JsString} (h : Shares l r scope) : Shares r l scope :=
  ⟨h.1.symm, h.2.2, h.2.1⟩

theorem startsWith_length {s p : JsString} (h : startsWith s (p ++ js "/") = true) :
    p.length < s.length := by
  have hle := (List.isPrefixOf_iff_prefix.mp h).length_le
  rw [List.length_append] at hle
  exact hle

theorem sharedScope_eq (l r : JsString) : (Within l r → sharedScope l r = r) ∧
    (¬ Within l r → sharedScope l r = l) := by
  have hif : (startsWith l (r ++ js "/") || decide (l = r)) = true ↔ Within l r := by
    rw [Bool.or_eq_true, decide_eq_true_iff, Within, or_comm]
  rw [sharedScope]
  exact ⟨fun h => if_pos (hif.mpr h), fun h => if_neg (mt hif.mp h)⟩

theorem shares_iff (l r scope : JsString) :
    modulesOverlap l r = true ∧ sharedScope l r = scope ↔ Shares l r scope := by
  simp only [modulesOverlap, Bool.or_eq_true, decide_eq_true_iff]
  obtain ⟨hwithin, hnot⟩ := sharedScope_eq l r
  constructor
  · rintro ⟨hoverlap, rfl⟩
    by_cases h : Within l r
    · rw [hwithin h]
      exact ⟨Or.inr rfl, h, Or.inl rfl⟩
    · rw [hnot h]
      refine ⟨Or.inl rfl, Or.inl rfl, Or.inr ?_⟩
      rcases hoverlap with (heq | hbelow) | habove
      · exact absurd (Or.inl heq) h
      · exact absurd (Or.inr hbelow) h
      · exact habove
  · rintro ⟨rfl | rfl, hl, hr⟩
    · rcases hr with rfl | hr
      · exact ⟨Or.inl (Or.inl rfl), hwithin hl⟩
      · refine ⟨Or.inr hr, hnot ?_⟩
        rintro (rfl | hbelow)
        · exact absurd (startsWith_length hr) (lt_irrefl _)
        · exact absurd (startsWith_length hbelow) (startsWith_length hr).asymm
    · refine ⟨Or.inl ?_, hwithin hl⟩
      exact hl

theorem mem_overlappingModules (left right : List JsString) (scope : JsString) :
    scope ∈ overlappingModules left right ↔ ∃ l ∈ left, ∃ r ∈ right, Shares l r scope := by
  have hsame : ∀ v prev : JsString, decide (v = prev) = true ↔ units v = units prev := by
    intro v prev
    rw [decide_eq_true_iff, units_inj]
  have hmem : scope ∈ overlappingModules left right ↔
      scope ∈ left.flatMap fun l =>
        (right.filter fun r => modulesOverlap l r).map fun r => sharedScope l r := by
    constructor
    · exact mem_of_mem_distinct hsame
    · intro h
      obtain ⟨other, hother, heq⟩ := exists_mem_distinct hsame h
      rwa [units_inj.mp heq] at hother
  rw [hmem]
  simp only [List.mem_flatMap, List.mem_map, List.mem_filter, ← shares_iff, and_assoc]

/-- Two intents have a scope on a branch in common. -/
def ShareOn (p q : BranchLockIntent) (branch scope : JsString) : Prop :=
  p.branch = branch ∧ q.branch = branch ∧ ∃ l ∈ p.modules, ∃ r ∈ q.modules, Shares l r scope

theorem ShareOn.symm {p q : BranchLockIntent} {branch scope : JsString}
    (h : ShareOn p q branch scope) : ShareOn q p branch scope := by
  obtain ⟨hp, hq, l, hl, r, hr, hshares⟩ := h
  exact ⟨hq, hp, r, hr, l, hl, hshares.symm⟩

theorem mem_collide (p q : BranchLockIntent) (c : BranchLockCollision) : c ∈ collide p q ↔
    c.laneIds = [p.laneId, q.laneId] ∧ ShareOn p q c.branch c.module := by
  obtain ⟨branch, module, laneIds⟩ := c
  rw [collide]
  by_cases hbranch : p.branch = q.branch
  · rw [if_neg (not_not_intro hbranch)]
    simp only [List.mem_map, BranchLockCollision.mk.injEq, mem_overlappingModules, ShareOn]
    constructor
    · rintro ⟨module, hshared, rfl, rfl, rfl⟩
      exact ⟨rfl, rfl, hbranch.symm, hshared⟩
    · rintro ⟨rfl, rfl, -, hshared⟩
      exact ⟨module, hshared, rfl, rfl, rfl⟩
  · rw [if_pos hbranch]
    constructor
    · intro h
      cases h
    · rintro ⟨-, rfl, hq, -⟩
      exact absurd hq.symm hbranch

theorem mem_collisionsOf (intents : List BranchLockIntent) (c : BranchLockCollision) :
    c ∈ collisionsOf intents ↔ ∃ p q, [p, q].Sublist intents ∧ c ∈ collide p q := by
  induction intents with
  | nil =>
    constructor
    · intro h
      cases h
    · rintro ⟨p, q, hsub, -⟩
      cases hsub
  | cons left rest ih =>
    rw [collisionsOf, List.mem_append, List.mem_flatMap, ih]
    constructor
    · rintro (⟨q, hq, hc⟩ | ⟨p, q, hsub, hc⟩)
      · exact ⟨left, q, (List.singleton_sublist.mpr hq).cons_cons left, hc⟩
      · exact ⟨p, q, hsub.cons left, hc⟩
    · rintro ⟨p, q, hsub, hc⟩
      cases hsub with
      | cons _ hsub => exact Or.inr ⟨p, q, hsub, hc⟩
      | cons_cons _ hsub => exact Or.inl ⟨q, List.singleton_sublist.mp hsub, hc⟩

end scopes

section reports

/-- A collision of two lanes, in either order, is among those reported. -/
def Reported (collisions : List BranchLockCollision) (branch scope x y : JsString) : Prop :=
  ∃ c ∈ collisions, c.branch = branch ∧ c.module = scope ∧ (c.laneIds = [x, y] ∨ c.laneIds = [y, x])

/-- The intents of two lanes have a scope on a branch in common. -/
def Collide (intents : List BranchLockIntent) (branch scope x y : JsString) : Prop :=
  ∃ p ∈ intents, ∃ q ∈ intents, p.laneId = x ∧ q.laneId = y ∧ ShareOn p q branch scope

/-- The two loops come across the lanes in this order. -/
def Found (intents : List BranchLockIntent) (branch scope x y : JsString) : Prop :=
  ∃ p q, [p, q].Sublist intents ∧ p.laneId = x ∧ q.laneId = y ∧ ShareOn p q branch scope

variable {intents : List BranchLockIntent} {branch scope x y u v : JsString}

theorem mem_collisionsOf_iff (c : BranchLockCollision) : c ∈ collisionsOf intents ↔
    ∃ x y, c.laneIds = [x, y] ∧ Found intents c.branch c.module x y := by
  rw [mem_collisionsOf]
  constructor
  · rintro ⟨p, q, hsub, hc⟩
    obtain ⟨hlanes, hshare⟩ := (mem_collide p q c).mp hc
    exact ⟨_, _, hlanes, p, q, hsub, rfl, rfl, hshare⟩
  · rintro ⟨_, _, hlanes, p, q, hsub, rfl, rfl, hshare⟩
    exact ⟨p, q, hsub, (mem_collide p q c).mpr ⟨hlanes, hshare⟩⟩

theorem Found.mem (h : Found intents branch scope x y) :
    ⟨branch, scope, [x, y]⟩ ∈ collisionsOf intents :=
  (mem_collisionsOf_iff _).mpr ⟨x, y, rfl, h⟩

theorem Found.collide (h : Found intents branch scope x y) : Collide intents branch scope x y := by
  obtain ⟨p, q, hsub, hx, hy, hshare⟩ := h
  exact ⟨p, hsub.subset (by simp), q, hsub.subset (by simp), hx, hy, hshare⟩

theorem Collide.symm (h : Collide intents branch scope x y) : Collide intents branch scope y x := by
  obtain ⟨p, hp, q, hq, hx, hy, hshare⟩ := h
  exact ⟨q, hq, p, hp, hy, hx, hshare.symm⟩

theorem Collide.found (h : Collide intents branch scope x y) (hne : x ≠ y) :
    Found intents branch scope x y ∨ Found intents branch scope y x := by
  obtain ⟨p, hp, q, hq, rfl, rfl, hshare⟩ := h
  have hdistinct : p ≠ q := fun heq => hne (congrArg BranchLockIntent.laneId heq)
  obtain ⟨before, after, rfl⟩ := List.append_of_mem hp
  rcases List.mem_append.mp hq with hq | hq
  · right
    refine ⟨q, p, ?_, rfl, rfl, hshare.symm⟩
    exact (List.singleton_sublist.mpr hq).append (List.singleton_sublist.mpr List.mem_cons_self)
  · left
    have hq : q ∈ after := (List.mem_cons.mp hq).resolve_left hdistinct.symm
    refine ⟨p, q, ?_, rfl, rfl, hshare⟩
    exact ((List.singleton_sublist.mpr hq).cons_cons p).trans (List.sublist_append_right before _)

theorem collide_perm {other : List BranchLockIntent} (h : other.Perm intents) :
    Collide other branch scope x y ↔ Collide intents branch scope x y := by
  simp only [Collide, h.mem_iff]

theorem mem_detect (c : BranchLockCollision) : c ∈ detectBranchLockCollisions intents ↔
    ∃ before after, collisionsOf intents = before ++ c :: after ∧
      ∀ d ∈ before, d.key ≠ c.key := by
  rw [detectBranchLockCollisions_eq, mem_distinct_iff sameCollision_iff]

theorem mem_collisionsOf_of_detect {c : BranchLockCollision}
    (h : c ∈ detectBranchLockCollisions intents) : c ∈ collisionsOf intents := by
  rw [detectBranchLockCollisions_eq] at h
  exact mem_of_mem_distinct sameCollision_iff h

/-- Each collision is reported, or another of its key. -/
theorem exists_detect {c : BranchLockCollision} (h : c ∈ collisionsOf intents) :
    ∃ d ∈ detectBranchLockCollisions intents, d.key = c.key := by
  rw [detectBranchLockCollisions_eq]
  exact exists_mem_distinct sameCollision_iff h

theorem detect_increasing (intents : List BranchLockIntent) :
    (detectBranchLockCollisions intents).Pairwise fun c d => c.key < d.key := by
  rw [detectBranchLockCollisions_eq]
  exact distinct_increasing sameCollision_iff _

/-- The text two lanes are joined to. -/
def laneText (x y : JsString) : JsString := join [0] [x, y]

theorem key_eq_iff {c d : BranchLockCollision} (hc : c.laneIds = [x, y]) (hd : d.laneIds = [u, v]) :
    c.key = d.key ↔ c.branch = d.branch ∧ c.module = d.module ∧ laneText x y = laneText u v := by
  simp only [BranchLockCollision.key, List.cons.injEq, units_inj, and_true]
  rw [BranchLockCollision.laneKey, BranchLockCollision.laneKey, hc, hd]
  rfl

theorem eq_of_key {c d : BranchLockCollision} (hc : c ∈ detectBranchLockCollisions intents)
    (hd : d ∈ detectBranchLockCollisions intents) (hkey : c.key = d.key) : c = d := by
  have hnodup : ((detectBranchLockCollisions intents).map BranchLockCollision.key).Nodup :=
    List.pairwise_map.mpr ((detect_increasing intents).imp ne_of_lt)
  exact List.inj_on_of_nodup_map hnodup hc hd hkey

end reports

section exactness

variable {intents : List BranchLockIntent} {branch scope x y u v : JsString}

/-- No two intents of one lane have a scope on a branch in common. -/
def OwnScopesApart (intents : List BranchLockIntent) : Prop :=
  intents.Pairwise fun p q => p.laneId = q.laneId → ∀ branch scope, ¬ ShareOn p q branch scope

/-- Lanes that collide are told apart by the text they are joined to. -/
def TextsTell (intents : List BranchLockIntent) : Prop :=
  ∀ branch scope x y u v, x ≠ y → u ≠ v → Collide intents branch scope x y →
    Collide intents branch scope u v → laneText x y = laneText u v →
    (x = u ∧ y = v) ∨ (x = v ∧ y = u)

/-- Where two lanes are found in both orders, both are joined to one text. -/
def OneOrder (intents : List BranchLockIntent) : Prop :=
  ∀ branch scope x y, Found intents branch scope x y → Found intents branch scope y x →
    laneText x y = laneText y x

theorem OwnScopesApart.ne (h : OwnScopesApart intents) (hfound : Found intents branch scope x y) :
    x ≠ y := by
  obtain ⟨p, q, hsub, rfl, rfl, hshare⟩ := hfound
  intro hlane
  have hpair := h.sublist hsub
  simp only [List.pairwise_cons, List.mem_singleton, forall_eq] at hpair
  exact hpair.1 hlane branch scope hshare

theorem OwnScopesApart.perm {other : List BranchLockIntent} (h : OwnScopesApart intents)
    (hperm : other.Perm intents) : OwnScopesApart other := by
  refine (hperm.pairwise_iff ?_).mpr h
  intro p q hpq hlane branch scope hshare
  exact hpq hlane.symm branch scope hshare.symm

theorem reported_iff (hown : OwnScopesApart intents) (htexts : TextsTell intents) :
    Reported (detectBranchLockCollisions intents) branch scope x y ↔
      x ≠ y ∧ Collide intents branch scope x y := by
  constructor
  · rintro ⟨c, hc, rfl, rfl, hlanes⟩
    obtain ⟨u, v, hcu, hfound⟩ := (mem_collisionsOf_iff c).mp (mem_collisionsOf_of_detect hc)
    have hne := hown.ne hfound
    rcases hlanes with hlanes | hlanes
    · obtain ⟨rfl, rfl⟩ : u = x ∧ v = y := by simpa using hcu.symm.trans hlanes
      exact ⟨hne, hfound.collide⟩
    · obtain ⟨rfl, rfl⟩ : u = y ∧ v = x := by simpa using hcu.symm.trans hlanes
      exact ⟨hne.symm, hfound.collide.symm⟩
  · rintro ⟨hne, hcollide⟩
    have hfound : ∃ x' y', Found intents branch scope x' y' ∧
        ((x' = x ∧ y' = y) ∨ (x' = y ∧ y' = x)) := by
      rcases hcollide.found hne with h | h
      · exact ⟨x, y, h, Or.inl ⟨rfl, rfl⟩⟩
      · exact ⟨y, x, h, Or.inr ⟨rfl, rfl⟩⟩
    obtain ⟨x', y', hfound, hsame⟩ := hfound
    obtain ⟨d, hd, hkey⟩ := exists_detect hfound.mem
    obtain ⟨u, v, hdu, hfound'⟩ := (mem_collisionsOf_iff d).mp (mem_collisionsOf_of_detect hd)
    obtain ⟨hbranch, hmodule, htext⟩ := (key_eq_iff hdu rfl).mp hkey
    rw [hbranch, hmodule] at hfound'
    have hpair := htexts branch scope u v x' y' (hown.ne hfound') (hown.ne hfound)
      hfound'.collide hfound.collide htext
    refine ⟨d, hd, hbranch, hmodule, ?_⟩
    rw [hdu]
    obtain ⟨rfl, rfl⟩ | ⟨rfl, rfl⟩ := hsame <;> obtain ⟨rfl, rfl⟩ | ⟨rfl, rfl⟩ := hpair <;> simp

/-- What the detection is for: the collisions are those of different lanes, each once, and do not
depend on the order of the intents. -/
structure Exact (intents : List BranchLockIntent) : Prop where
  sound : ∀ branch scope x y, x ≠ y →
    (Reported (detectBranchLockCollisions intents) branch scope x y ↔
      Collide intents branch scope x y)
  once : (detectBranchLockCollisions intents).Pairwise fun c d =>
    ¬ (c.branch = d.branch ∧ c.module = d.module ∧ c.laneIds.Perm d.laneIds)
  others : ∀ c ∈ detectBranchLockCollisions intents, ∃ x y, c.laneIds = [x, y] ∧ x ≠ y
  order : ∀ other, other.Perm intents → ∀ branch scope x y,
    Reported (detectBranchLockCollisions other) branch scope x y ↔
      Reported (detectBranchLockCollisions intents) branch scope x y

theorem perm_pair (h : [x, y].Perm [u, v]) : (x = u ∧ y = v) ∨ (x = v ∧ y = u) := by
  have hmem : x ∈ [u, v] := h.subset List.mem_cons_self
  rcases List.mem_cons.mp hmem with rfl | hmem
  · exact Or.inl ⟨rfl, List.singleton_perm_singleton.mp h.cons_inv⟩
  · obtain rfl := List.mem_singleton.mp hmem
    have hswap : [x, y].Perm [x, u] := h.trans (List.Perm.swap x u [])
    exact Or.inr ⟨rfl, List.singleton_perm_singleton.mp hswap.cons_inv⟩

theorem exact_of_apart (hown : OwnScopesApart intents) (htexts : TextsTell intents)
    (horder : OneOrder intents) : Exact intents := by
  refine ⟨?_, ?_, ?_, ?_⟩
  · intro branch scope x y hne
    rw [reported_iff hown htexts]
    exact and_iff_right hne
  · apply (detect_increasing intents).imp_of_mem
    rintro c d hc hd hlt ⟨hbranch, hmodule, hperm⟩
    obtain ⟨x, y, hcx, hfound⟩ := (mem_collisionsOf_iff c).mp (mem_collisionsOf_of_detect hc)
    obtain ⟨u, v, hdu, hfound'⟩ := (mem_collisionsOf_iff d).mp (mem_collisionsOf_of_detect hd)
    apply hlt.ne
    refine (key_eq_iff hcx hdu).mpr ⟨hbranch, hmodule, ?_⟩
    rw [hcx, hdu] at hperm
    rw [← hbranch, ← hmodule] at hfound'
    obtain ⟨rfl, rfl⟩ | ⟨rfl, rfl⟩ := perm_pair hperm
    · rfl
    · exact horder _ _ x y hfound hfound'
  · intro c hc
    obtain ⟨x, y, hcx, hfound⟩ := (mem_collisionsOf_iff c).mp (mem_collisionsOf_of_detect hc)
    exact ⟨x, y, hcx, hown.ne hfound⟩
  · intro other hperm branch scope x y
    have htexts' : TextsTell other := by
      intro branch scope x y u v hxy huv hcollide hcollide'
      exact htexts branch scope x y u v hxy huv ((collide_perm hperm).mp hcollide)
        ((collide_perm hperm).mp hcollide')
    rw [reported_iff hown htexts, reported_iff (hown.perm hperm) htexts', collide_perm hperm]

/-- Two intents that come first have their collisions reported as they are found. -/
theorem reported_first {p q : BranchLockIntent} {rest : List BranchLockIntent}
    (h : ShareOn p q branch scope) :
    Reported (detectBranchLockCollisions (p :: q :: rest)) branch scope p.laneId q.laneId := by
  have hmem : ⟨branch, scope, [p.laneId, q.laneId]⟩ ∈ collide p q := (mem_collide p q _).mpr ⟨rfl, h⟩
  obtain ⟨before, after, hsplit, hnot⟩ := List.eq_append_cons_of_mem hmem
  refine ⟨⟨branch, scope, [p.laneId, q.laneId]⟩, (mem_detect _).mpr ⟨before, after ++ (rest.flatMap (collide p) ++
    collisionsOf (q :: rest)), ?_, ?_⟩, rfl, rfl, Or.inl rfl⟩
  · rw [collisionsOf, List.flatMap_cons, hsplit]
    simp
  · intro d hd hkey
    have hdmem : d ∈ collide p q := by
      rw [hsplit]
      exact List.mem_append_left _ hd
    obtain ⟨hlanes, -⟩ := (mem_collide p q d).mp hdmem
    obtain ⟨hbranch, hmodule, -⟩ := (key_eq_iff hlanes rfl).mp hkey
    obtain ⟨b, m, l⟩ := d
    simp only at hlanes hbranch hmodule
    rw [hlanes, hbranch, hmodule] at hd
    exact hnot hd

theorem Exact.own (h : Exact intents) : OwnScopesApart intents := by
  rw [OwnScopesApart, List.pairwise_iff_forall_sublist]
  intro p q hsub hlane branch scope hshare
  obtain ⟨rest, hperm⟩ := hsub.exists_perm_append
  have hreported := (h.order _ hperm.symm branch scope _ _).mp (reported_first hshare)
  obtain ⟨c, hc, -, -, hlanes⟩ := hreported
  obtain ⟨x, y, hcx, hne⟩ := h.others c hc
  rw [hlane, or_self, hcx] at hlanes
  simp only [List.cons.injEq, and_true] at hlanes
  exact hne (hlanes.1.trans hlanes.2.symm)

/-- The intents in an order in which each lane stands where a number puts it. -/
theorem found_ranked {rank : JsString → ℕ}
    (h : Found (inOrder (fun p : BranchLockIntent => rank p.laneId) intents) branch scope x y) :
    rank x ≤ rank y := by
  obtain ⟨p, q, hsub, rfl, rfl, -⟩ := h
  have hpair := (inOrder_sorted (fun p : BranchLockIntent => rank p.laneId) intents).sublist hsub
  simp only [List.pairwise_cons, List.mem_singleton, forall_eq] at hpair
  exact hpair.1

/-- Two different pairs of lanes can be put in any order of each. -/
theorem exists_rank (hxy : x ≠ y) (huv : u ≠ v) (hne : ¬ (x = v ∧ y = u)) :
    ∃ rank : JsString → ℕ, rank x < rank y ∧ rank u < rank v := by
  by_cases hxv : x = v
  · have hyu : y ≠ u := fun h => hne ⟨hxv, h⟩
    refine ⟨fun lane => if lane = u then 0 else if lane = x then 1 else 2, ?_, ?_⟩
    · subst hxv
      simp [hxy.symm, hyu, huv.symm]
    · subst hxv
      simp [huv.symm]
  · by_cases hyu : y = u
    · subst hyu
      refine ⟨fun lane => if lane = x then 0 else if lane = y then 1 else 2, ?_, ?_⟩
      · simp [hxy.symm]
      · simp [hxy.symm, Ne.symm hxv, huv.symm]
    · refine ⟨fun lane => if lane = x ∨ lane = u then 0 else 1, ?_, ?_⟩
      · simp [hxy.symm, hyu]
      · simp [Ne.symm hxv, huv.symm]

/-- In an order that has the one lane in front the collision is reported with it in front. -/
theorem Exact.ranked (h : Exact intents) {rank : JsString → ℕ} (hne : x ≠ y)
    (hcollide : Collide intents branch scope x y) (hrank : rank x < rank y) :
    ∃ c ∈ detectBranchLockCollisions (inOrder (fun p : BranchLockIntent => rank p.laneId) intents),
      c.branch = branch ∧ c.module = scope ∧ c.laneIds = [x, y] := by
  have hperm := inOrder_perm (fun p : BranchLockIntent => rank p.laneId) intents
  obtain ⟨c, hc, rfl, rfl, hlanes⟩ := (h.order _ hperm _ _ _ _).mpr ((h.sound _ _ _ _ hne).mpr hcollide)
  refine ⟨c, hc, rfl, rfl, ?_⟩
  rcases hlanes with hlanes | hlanes
  · exact hlanes
  · obtain ⟨x', y', hcx, hfound⟩ := (mem_collisionsOf_iff c).mp (mem_collisionsOf_of_detect hc)
    obtain ⟨rfl, rfl⟩ : x' = y ∧ y' = x := by simpa using hcx.symm.trans hlanes
    exact absurd hrank (not_lt_of_ge (found_ranked hfound))

theorem Exact.texts (h : Exact intents) : TextsTell intents := by
  intro branch scope x y u v hxy huv hcollide hcollide' htext
  by_cases hswapped : x = v ∧ y = u
  · exact Or.inr hswapped
  · obtain ⟨rank, hrank, hrank'⟩ := exists_rank hxy huv hswapped
    obtain ⟨c, hc, hcb, hcm, hcx⟩ := h.ranked hxy hcollide hrank
    obtain ⟨d, hd, hdb, hdm, hdu⟩ := h.ranked huv hcollide' hrank'
    have hkey : c.key = d.key := (key_eq_iff hcx hdu).mpr ⟨hcb.trans hdb.symm, hcm.trans hdm.symm, htext⟩
    have hlanes := hcx.symm.trans ((congrArg _ (eq_of_key hc hd hkey)).trans hdu)
    left
    simpa using hlanes

theorem Exact.oneOrder (h : Exact intents) : OneOrder intents := by
  have hreported : ∀ branch scope x y, Found intents branch scope x y →
      ∃ c ∈ detectBranchLockCollisions intents, c.key =
        (⟨branch, scope, [x, y]⟩ : BranchLockCollision).key ∧ c.branch = branch ∧
        c.module = scope ∧ c.laneIds.Perm [x, y] := by
    intro branch scope x y hfound
    obtain ⟨c, hc, hkey⟩ := exists_detect hfound.mem
    obtain ⟨u, v, hcu, hfound'⟩ := (mem_collisionsOf_iff c).mp (mem_collisionsOf_of_detect hc)
    obtain ⟨hbranch, hmodule, htext⟩ := (key_eq_iff hcu rfl).mp hkey
    rw [hbranch, hmodule] at hfound'
    refine ⟨c, hc, hkey, hbranch, hmodule, ?_⟩
    rw [hcu]
    obtain ⟨rfl, rfl⟩ | ⟨rfl, rfl⟩ := h.texts branch scope u v x y (h.own.ne hfound')
      (h.own.ne hfound) hfound'.collide hfound.collide htext
    · exact List.Perm.refl _
    · exact List.Perm.swap _ _ _
  intro branch scope x y hfound hfound'
  obtain ⟨c, hc, hckey, hcb, hcm, hcperm⟩ := hreported branch scope x y hfound
  obtain ⟨d, hd, hdkey, hdb, hdm, hdperm⟩ := hreported branch scope y x hfound'
  by_contra htext
  have hne : c ≠ d := by
    rintro rfl
    exact htext ((key_eq_iff rfl rfl).mp (hckey.symm.trans hdkey)).2.2
  have hsymm : Std.Symm fun c d : BranchLockCollision =>
      ¬ (c.branch = d.branch ∧ c.module = d.module ∧ c.laneIds.Perm d.laneIds) := by
    refine ⟨fun c d hnot hsame => ?_⟩
    exact hnot ⟨hsame.1.symm, hsame.2.1.symm, hsame.2.2.symm⟩
  apply h.once.forall hc hd hne
  exact ⟨hcb.trans hdb.symm, hcm.trans hdm.symm,
    hcperm.trans ((List.Perm.swap y x []).trans hdperm.symm)⟩

/-- The detection is exact just when no lane collides with itself, lanes found in both orders are
joined to one text, and different lanes that collide are not. -/
theorem detectBranchLockCollisions_exact_iff (intents : List BranchLockIntent) :
    Exact intents ↔ OwnScopesApart intents ∧ OneOrder intents ∧ TextsTell intents := by
  constructor
  · intro h
    exact ⟨h.own, h.oneOrder, h.texts⟩
  · rintro ⟨hown, horder, htexts⟩
    exact exact_of_apart hown htexts horder

/-- One lane that registers two scopes, one above the other. -/
def nested : List BranchLockIntent :=
  [⟨js "lane-a", js "feature/lock", [js "runtime"]⟩,
    ⟨js "lane-a", js "feature/lock", [js "runtime/mcp"]⟩]

theorem nested_collides_with_itself :
    Reported (detectBranchLockCollisions nested) (js "feature/lock") (js "runtime") (js "lane-a")
      (js "lane-a") ∧ ¬ Exact nested := by
  have hshares : Shares (js "runtime") (js "runtime/mcp") (js "runtime") :=
    (shares_iff _ _ _).mp (by decide)
  have hshare : ShareOn ⟨js "lane-a", js "feature/lock", [js "runtime"]⟩
      ⟨js "lane-a", js "feature/lock", [js "runtime/mcp"]⟩ (js "feature/lock") (js "runtime") :=
    ⟨rfl, rfl, _, List.mem_singleton_self _, _, List.mem_singleton_self _, hshares⟩
  refine ⟨reported_first hshare, ?_⟩
  intro hexact
  have hown := hexact.own
  rw [nested, OwnScopesApart, List.pairwise_pair] at hown
  exact hown rfl _ _ hshare

end exactness

end Solarcido.Lanes
