import Solarcido.Lib.MemberOrder

namespace Solarcido.Documents.Doc

variable {κ α : Type} {d e : Doc κ α} {items items' : List (Doc κ α)}
  {members members' : List (κ × Doc κ α)}

def isHole : Doc κ α → Bool
  | .hole => true
  | _ => false

theorem isHole_iff : d.isHole = true ↔ d = .hole := by
  cases d <;> simp [isHole]

section rules

variable {f : Doc κ α → Doc κ α}

/-- A rule that leaves nothing out. -/
structure Keeps (f : Doc κ α → Doc κ α) : Prop where
  arr : ∀ items, (f (.arr items)).isHole = false
  obj : ∀ members, (f (.obj members)).isHole = false

theorem Keeps.isHole_rewrite (hf : Keeps f) (d : Doc κ α) : (rewrite f d).isHole = d.isHole := by
  cases d with
  | hole | atom a | text s => rfl
  | arr items =>
    rw [rewrite_arr]
    exact hf.arr _
  | obj members =>
    rw [rewrite_obj]
    exact hf.obj _

theorem keeps_onMembers (g : List (κ × Doc κ α) → List (κ × Doc κ α)) : Keeps (onMembers g) :=
  ⟨fun _ => rfl, fun _ => rfl⟩

end rules

section lone

theorem withoutLone_arr (items : List (Doc κ α)) :
    withoutLone (.arr items) = emptyLone (.arr (items.map withoutLone)) :=
  rewrite_arr emptyLone items

theorem withoutLone_obj (members : List (κ × Doc κ α)) :
    withoutLone (.obj members) = .obj (mapValues withoutLone members) :=
  rewrite_obj emptyLone members

theorem emptyLone_of_ne (h : items ≠ [.hole]) : emptyLone (.arr items) = .arr items := by
  unfold emptyLone
  split
  · next heq => exact absurd (arr.inj heq) h
  · rfl

theorem emptyLone_arr (items : List (Doc κ α)) :
    ∃ kept, emptyLone (.arr items) = .arr kept ∧ kept ⊆ items := by
  by_cases h : items = [.hole]
  · subst h
    exact ⟨[], rfl, List.nil_subset _⟩
  · exact ⟨items, emptyLone_of_ne h, fun _ h => h⟩

theorem keeps_emptyLone : Keeps (emptyLone : Doc κ α → Doc κ α) where
  arr items := by
    obtain ⟨kept, hkept, -⟩ := emptyLone_arr items
    rw [hkept]
    rfl
  obj _ := rfl

theorem isHole_withoutLone (d : Doc κ α) : (withoutLone d).isHole = d.isHole :=
  keeps_emptyLone.isHole_rewrite d

theorem map_eq_lone {β : Type} {g : Doc κ α → Doc κ β} (hg : ∀ d, (g d).isHole = d.isHole) :
    items.map g = [.hole] ↔ items = [.hole] := by
  have hiff : ∀ d, g d = .hole ↔ d = .hole := fun d => by
    rw [← isHole_iff, hg, isHole_iff]
  constructor
  · intro h
    obtain ⟨d, rfl, hd⟩ := List.map_eq_singleton_iff.mp h
    rw [(hiff d).mp hd]
  · rintro rfl
    rw [List.map_singleton, (hiff .hole).mpr rfl]

/-- Arrays of one length that are the same without their lone holes. -/
theorem emptyLone_inj (hlength : items.length = items'.length)
    (h : emptyLone (.arr items) = emptyLone (.arr items')) : items = items' := by
  by_cases hitems : items = [.hole] <;> by_cases hitems' : items' = [.hole]
  · rw [hitems, hitems']
  · rw [hitems, emptyLone_of_ne hitems'] at h
    rw [hitems, ← arr.inj h] at hlength
    cases hlength
  · rw [hitems', emptyLone_of_ne hitems] at h
    rw [hitems', arr.inj h] at hlength
    cases hlength
  · rw [emptyLone_of_ne hitems, emptyLone_of_ne hitems'] at h
    exact arr.inj h

theorem everywhere_withoutLone {P : List κ → Prop} (h : Everywhere P d) :
    Everywhere P (withoutLone d) := by
  induction h with
  | hole => exact .hole
  | atom a => exact .atom a
  | text s => exact .text s
  | arr items _ ih =>
    obtain ⟨kept, hkept, hsub⟩ := emptyLone_arr (items.map withoutLone)
    rw [withoutLone_arr, hkept]
    exact .arr kept fun d hd => List.forall_mem_map.mpr ih d (hsub hd)
  | obj members hkeys _ ih =>
    rw [withoutLone_obj]
    exact .obj _ (by rwa [keys_mapValues]) (List.forall_mem_map.mpr ih)

theorem allAtoms_withoutLone {R : α → Prop} (h : AllAtoms R d) : AllAtoms R (withoutLone d) := by
  induction h with
  | hole => exact .hole
  | atom a h => exact .atom a h
  | text s => exact .text s
  | arr items _ ih =>
    obtain ⟨kept, hkept, hsub⟩ := emptyLone_arr (items.map withoutLone)
    rw [withoutLone_arr, hkept]
    exact .arr kept fun d hd => List.forall_mem_map.mpr ih d (hsub hd)
  | obj members _ ih =>
    rw [withoutLone_obj]
    exact .obj _ (List.forall_mem_map.mpr ih)

end lone

section filled

variable (a : α)

def fillItem : Doc κ α → Doc κ α
  | .hole => .atom a
  | d => d

def fillRule : Doc κ α → Doc κ α
  | .arr items => .arr (items.map (fillItem a))
  | .obj members => .obj (members.filter fun m => !m.2.isHole)
  | d => d

/-- The document with an atom for each item that is left out, and without the members that are. -/
def filled (d : Doc κ α) : Doc κ α := rewrite (fillRule a) d

theorem isHole_filled (d : Doc κ α) : (filled a d).isHole = d.isHole :=
  Keeps.isHole_rewrite ⟨fun _ => rfl, fun _ => rfl⟩ d

theorem filled_arr (items : List (Doc κ α)) :
    filled a (.arr items) = .arr (items.map fun d => fillItem a (filled a d)) := by
  rw [filled, rewrite_arr, fillRule, List.map_map]
  rfl

theorem filled_obj (members : List (κ × Doc κ α)) : filled a (.obj members) =
    .obj (mapValues (filled a) (members.filter fun m => !m.2.isHole)) := by
  have hfilter : ∀ m : κ × Doc κ α, (!(filled a m.2).isHole) = !m.2.isHole :=
    fun m => congrArg (!·) (isHole_filled a m.2)
  have hmembers : (mapValues (filled a) members).filter (fun m => !m.2.isHole) =
      mapValues (filled a) (members.filter fun m => !m.2.isHole) := by
    rw [mapValues, mapValues, List.filter_map]
    simp only [Function.comp_def, hfilter]
  rw [← hmembers]
  exact rewrite_obj (fillRule a) members

theorem fillItem_of_not_hole (h : d.isHole = false) : fillItem a d = d := by
  cases d with
  | hole => cases h
  | _ => rfl

theorem distinct_filled (h : Distinct d) : Distinct (filled a d) := by
  induction h with
  | hole => exact .hole
  | atom a => exact .atom a
  | text s => exact .text s
  | arr items _ ih =>
    rw [filled_arr]
    refine .arr _ (List.forall_mem_map.mpr fun d hd => ?_)
    have hitem := ih d hd
    cases hfilled : filled a d with
    | hole => exact .atom a
    | _ => rwa [hfilled] at hitem
  | obj members hkeys _ ih =>
    rw [filled_obj]
    refine .obj _ ?_ (List.forall_mem_map.mpr fun m hm => ih m (List.mem_of_mem_filter hm))
    rw [keys_mapValues]
    exact hkeys.sublist (List.filter_sublist.map Prod.fst)

theorem allAtoms_filled {R : α → Prop} (ha : R a) (h : AllAtoms R d) : AllAtoms R (filled a d) := by
  induction h with
  | hole => exact .hole
  | atom a h => exact .atom a h
  | text s => exact .text s
  | arr items _ ih =>
    rw [filled_arr]
    refine .arr _ (List.forall_mem_map.mpr fun d hd => ?_)
    have hitem := ih d hd
    cases hfilled : filled a d with
    | hole => exact .atom a ha
    | _ => rwa [hfilled] at hitem
  | obj members _ ih =>
    rw [filled_obj]
    exact .obj _ (List.forall_mem_map.mpr fun m hm => ih m (List.mem_of_mem_filter hm))

theorem isHole_eq (h : withoutLone d = withoutLone e) : d.isHole = e.isHole := by
  rw [← isHole_withoutLone d, h, isHole_withoutLone]

theorem items_eq_of_filled
    (ih : ∀ d ∈ items, ∀ e, withoutLone d = withoutLone e → filled a d = filled a e → d = e)
    (h : items.map withoutLone = items'.map withoutLone)
    (hfilled : items.map (fun d => fillItem a (filled a d)) =
      items'.map fun d => fillItem a (filled a d)) : items = items' := by
  induction items generalizing items' with
  | nil => exact (List.map_eq_nil_iff.mp h.symm).symm
  | cons d rest ihrest =>
    cases items' with
    | nil => cases h
    | cons e rest' =>
      obtain ⟨hd, hrest⟩ := List.cons.inj h
      obtain ⟨hfill, hfills⟩ := List.cons.inj hfilled
      obtain ⟨ihd, ih⟩ := List.forall_mem_cons.mp ih
      have hhole := isHole_eq hd
      have hde : d = e := by
        cases hempty : d.isHole with
        | true =>
          rw [isHole_iff.mp hempty, isHole_iff.mp (hhole.symm.trans hempty)]
        | false =>
          have hplain := fillItem_of_not_hole a ((isHole_filled a d).trans hempty)
          have hplain' := fillItem_of_not_hole a ((isHole_filled a e).trans (hhole ▸ hempty))
          exact ihd e hd (hplain.symm.trans (hfill.trans hplain'))
      rw [hde, ihrest ih hrest hfills]

theorem members_eq_of_filled
    (ih : ∀ m ∈ members, ∀ e, withoutLone m.2 = withoutLone e → filled a m.2 = filled a e → m.2 = e)
    (h : mapValues withoutLone members = mapValues withoutLone members')
    (hfilled : mapValues (filled a) (members.filter fun m => !m.2.isHole) =
      mapValues (filled a) (members'.filter fun m => !m.2.isHole)) : members = members' := by
  induction members generalizing members' with
  | nil => exact (List.map_eq_nil_iff.mp h.symm).symm
  | cons m rest ihrest =>
    cases members' with
    | nil => cases h
    | cons n rest' =>
      obtain ⟨key, d⟩ := m
      obtain ⟨key', e⟩ := n
      obtain ⟨hm, hrest⟩ := List.cons.inj h
      obtain ⟨hkey, hd⟩ : key = key' ∧ withoutLone d = withoutLone e := Prod.mk.inj hm
      obtain ⟨ihm, ih⟩ := List.forall_mem_cons.mp ih
      have hhole := isHole_eq hd
      cases hempty : d.isHole with
      | true =>
        have hempty' := hhole.symm.trans hempty
        simp only [List.filter_cons, hempty, hempty', Bool.not_true, Bool.false_eq_true, if_false]
          at hfilled
        rw [hkey, isHole_iff.mp hempty, isHole_iff.mp hempty', ihrest ih hrest hfilled]
      | false =>
        have hempty' := hhole.symm.trans hempty
        simp only [List.filter_cons, hempty, hempty', Bool.not_false, if_true] at hfilled
        obtain ⟨hfill, hfills⟩ := List.cons.inj hfilled
        have hde : d = e := ihm e hd (Prod.mk.inj hfill).2
        rw [hkey, hde, ihrest ih hrest hfills]

/-- A document is known by what it is without lone holes and by what it is when it is filled. -/
theorem eq_of_filled (h : withoutLone d = withoutLone e) (hfilled : filled a d = filled a e) :
    d = e := by
  induction d generalizing e with
  | hole => exact (isHole_iff.mp (isHole_eq h).symm).symm
  | atom b =>
    cases e with
    | arr items =>
      rw [filled_arr] at hfilled
      cases hfilled
    | obj members =>
      rw [filled_obj] at hfilled
      cases hfilled
    | _ => exact hfilled
  | text s =>
    cases e with
    | arr items =>
      rw [filled_arr] at hfilled
      cases hfilled
    | obj members =>
      rw [filled_obj] at hfilled
      cases hfilled
    | _ => exact hfilled
  | arr items ih =>
    rw [filled_arr] at hfilled
    cases e with
    | arr items' =>
      rw [filled_arr] at hfilled
      have hitems := arr.inj hfilled
      rw [withoutLone_arr, withoutLone_arr] at h
      have hlength : items.length = items'.length := by
        simpa using congrArg List.length hitems
      refine congrArg arr (items_eq_of_filled a (fun d hd e => ih d hd) ?_ hitems)
      exact emptyLone_inj (by simpa using hlength) h
    | obj members =>
      rw [filled_obj] at hfilled
      cases hfilled
    | _ => cases hfilled
  | obj members ih =>
    rw [filled_obj] at hfilled
    cases e with
    | arr items =>
      rw [filled_arr] at hfilled
      cases hfilled
    | obj members' =>
      rw [filled_obj] at hfilled
      rw [withoutLone_obj, withoutLone_obj] at h
      exact congrArg obj (members_eq_of_filled a (fun m hm e => ih m hm) (obj.inj h)
        (obj.inj hfilled))
    | _ => cases hfilled

end filled

section canon

variable [LE κ] [DecidableLE κ]

theorem isHole_canon (d : Doc κ α) : (canon d).isHole = d.isHole :=
  (keeps_onMembers sortMembers).isHole_rewrite d

theorem canon_arr (items : List (Doc κ α)) : canon (.arr items) = .arr (items.map canon) :=
  onMembers_arr sortMembers items

theorem canon_obj (members : List (κ × Doc κ α)) :
    canon (.obj members) = .obj (sortMembers (mapValues canon members)) :=
  onMembers_obj sortMembers members

theorem canon_emptyLone (items : List (Doc κ α)) :
    canon (emptyLone (.arr items)) = emptyLone (.arr (items.map canon)) := by
  by_cases h : items = [.hole]
  · subst h
    rfl
  · rw [emptyLone_of_ne h, canon_arr, emptyLone_of_ne (mt (map_eq_lone isHole_canon).mp h)]

theorem canon_withoutLone (d : Doc κ α) : canon (withoutLone d) = withoutLone (canon d) := by
  induction d with
  | hole | atom a | text s => rfl
  | arr items ih =>
    rw [withoutLone_arr, canon_emptyLone, canon_arr, withoutLone_arr, List.map_map, List.map_map]
    exact congrArg (fun l => emptyLone (.arr l)) (List.map_congr_left ih)
  | obj members ih =>
    have hmembers : mapValues canon (mapValues withoutLone members) =
        mapValues withoutLone (mapValues canon members) := by
      rw [mapValues, mapValues, mapValues, mapValues, List.map_map, List.map_map]
      exact List.map_congr_left fun m hm => congrArg (Prod.mk m.1) (ih m hm)
    rw [withoutLone_obj, canon_obj, canon_obj, withoutLone_obj, hmembers]
    exact congrArg obj (sortMembers_map withoutLone _)

theorem allAtoms_canon {R : α → Prop} (hd : Distinct d) (h : AllAtoms R d) :
    AllAtoms R (canon d) :=
  allAtoms_rewrite (fun members _ => (sortMembers_perm members).subset) d hd h

variable [Std.IsLinearOrder κ]

theorem sortMembers_filter {β : Type} {members : List (κ × β)}
    (hkeys : (members.map Prod.fst).Nodup) (p : κ × β → Bool) :
    sortMembers (members.filter p) = (sortMembers members).filter p := by
  refine eq_of_sorted ?_ (sortMembers_sorted _) ((sortMembers_sorted members).filter p) ?_
  · exact ((sortMembers_perm _).map Prod.fst).nodup_iff.mpr
      (hkeys.sublist (List.filter_sublist.map Prod.fst))
  · exact (sortMembers_perm _).trans ((sortMembers_perm members).filter p).symm

theorem canon_filled (a : α) (d : Doc κ α) (hd : Distinct d) :
    canon (filled a d) = filled a (canon d) := by
  induction d with
  | hole | atom b | text s => rfl
  | arr items ih =>
    rw [filled_arr, canon_arr, canon_arr, filled_arr, List.map_map, List.map_map]
    refine congrArg arr (List.map_congr_left fun d hd' => ?_)
    have hitem := ih d hd' (everywhere_arr.mp hd d hd')
    rw [Function.comp_apply, Function.comp_apply, ← hitem]
    cases hempty : d.isHole with
    | true =>
      rw [isHole_iff.mp hempty]
      rfl
    | false =>
      rw [fillItem_of_not_hole a (by rwa [isHole_filled]),
        fillItem_of_not_hole a (by rwa [isHole_canon, isHole_filled])]
  | obj members ih =>
    obtain ⟨hkeys, hvalues⟩ := everywhere_obj.mp hd
    have hkept : (fun m : κ × Doc κ α => !(canon m.2).isHole) = fun m => !m.2.isHole :=
      funext fun m => congrArg (!·) (isHole_canon m.2)
    have hmapped : ((mapValues canon members).map Prod.fst).Nodup := by rwa [keys_mapValues]
    have hmembers : mapValues canon (mapValues (filled a) (members.filter fun m => !m.2.isHole)) =
        mapValues (filled a) ((mapValues canon members).filter fun m => !m.2.isHole) := by
      rw [mapValues, mapValues, mapValues, mapValues, List.filter_map, List.map_map, List.map_map]
      simp only [Function.comp_def, hkept]
      refine List.map_congr_left fun m hm => congrArg (Prod.mk m.1) ?_
      exact ih m (List.mem_of_mem_filter hm) (hvalues m (List.mem_of_mem_filter hm))
    rw [filled_obj, canon_obj, canon_obj, filled_obj, hmembers, ← sortMembers_filter hmapped]
    exact congrArg obj (sortMembers_map (filled a) _)

end canon

end Solarcido.Documents.Doc
