import Solarcido.Api.PromptCache
import Solarcido.Js.JsonParse
import Solarcido.Lib.Holes

namespace Solarcido.Api.PromptCache

open Text Json Documents Doc

section wire

mutual

/-- What `JSON.stringify` writes of a value: an undefined item is `null`, an undefined member is not
there. -/
def onWire : Data → Json
  | .hole => .null
  | .atom a => a.json
  | .text s => .str s
  | .arr items => .arr (wireItems items)
  | .obj members => .obj (wireMembers members)

def wireItems : List Data → List Json
  | [] => []
  | item :: rest => onWire item :: wireItems rest

def wireMembers : List (JsString × Data) → List (JsString × Json)
  | [] => []
  | (_, .hole) :: rest => wireMembers rest
  | (key, value) :: rest => (key, onWire value) :: wireMembers rest

end

/-- `JSON.stringify(request)`. -/
def stringifyRequest (numberText : ℚ → JsString) (request : RequestLike) : JsString :=
  stringify numberText (onWire (.obj request))

/-- The texts of the requests denote one value, up to the order of keys. -/
def SameOnWire (numbers : NumberTexts) (request other : RequestLike) : Prop :=
  ∃ v w, parse numbers (stringifyRequest numbers.text request) = some v ∧
    parse numbers (stringifyRequest numbers.text other) = some w ∧ SameValue v w

theorem data_onWire (d : Data) : (onWire d).data = fillItem .null (filled .null d) := by
  induction d using Doc.induct with
  | hole => rfl
  | atom a => cases a <;> rfl
  | text s => rfl
  | arr items ih =>
    have hitems : wireItems items = items.map onWire := by
      clear ih
      induction items with
      | nil => rfl
      | cons item rest ih => rw [wireItems, ih, List.map_cons]
    rw [onWire, hitems, data_arr, filled_arr, List.map_map]
    exact congrArg Doc.arr (List.map_congr_left ih)
  | obj members ih =>
    have hmembers : (wireMembers members).map (fun m => (m.1, m.2.data)) =
        mapValues (filled .null) (members.filter fun m => !m.2.isHole) := by
      induction members with
      | nil => rfl
      | cons m rest ihrest =>
        obtain ⟨key, value⟩ := m
        obtain ⟨ihm, ihvalues⟩ := List.forall_mem_cons.mp ih
        cases hempty : value.isHole with
        | true =>
          obtain rfl := isHole_iff.mp hempty
          exact ihrest ihvalues
        | false =>
          have hcons : wireMembers ((key, value) :: rest) = (key, onWire value) :: wireMembers rest := by
            cases value with
            | hole => cases hempty
            | _ => rfl
          have hvalue : (onWire value).data = filled .null value := by
            rw [ihm, fillItem_of_not_hole .null ((isHole_filled .null value).trans hempty)]
          rw [hcons, List.map_cons, ihrest ihvalues, hvalue]
          simp [hempty, mapValues]
    rw [onWire, data_obj, filled_obj, hmembers]
    rfl

theorem data_onWire_request (request : RequestLike) :
    (onWire (.obj request)).data = filled .null (.obj request) := by
  rw [data_onWire, filled_obj]
  rfl

end wire

section valid

variable {numbers : NumberTexts} {a b d : Data} {request other : RequestLike}

/-- The text of a request is parsed as what is on the wire. -/
theorem parse_stringifyRequest (h : IsData numbers (.obj request)) :
    ∃ v, parse numbers (stringifyRequest numbers.text request) = some v ∧
      Same (filled .null (.obj request)) v.data := by
  have hdata : IsData numbers (onWire (.obj request)).data := by
    rw [data_onWire_request]
    exact ⟨distinct_filled .null h.keys, allAtoms_filled .null trivial h.atoms⟩
  refine ⟨enumerate (onWire (.obj request)), ?_, ?_⟩
  · have hparse := parse_scans (scans_stringify hdata) hdata no_blanks
    rwa [List.append_nil] at hparse
  · rw [← data_onWire_request]
    exact sameValue_enumerate hdata.keys

theorem sameOnWire_iff (h : IsData numbers (.obj request)) (h' : IsData numbers (.obj other)) :
    SameOnWire numbers request other ↔
      Same (filled .null (.obj request)) (filled .null (.obj other) : Data) := by
  obtain ⟨v, hv, hsame⟩ := parse_stringifyRequest h
  obtain ⟨w, hw, hsame'⟩ := parse_stringifyRequest h'
  rw [SameOnWire, hv, hw]
  simp only [Option.some.injEq, exists_and_left, exists_eq_left']
  exact ⟨fun hvw => hsame.trans (hvw.trans hsame'.symm),
    fun hfilled => hsame.symm.trans (hfilled.trans hsame')⟩

end valid

section stable

variable (numberText : ℚ → JsString)

/-- The tree that is written for a value. -/
def stableTree (d : Data) : Tree := words numberText (canon d)

theorem stableItems_eq (items : List Data) :
    stableItems numberText items = items.map fun d => (stableJson numberText d).getD [] := by
  induction items with
  | nil => rfl
  | cons d rest ih => rw [stableItems, ih, List.map_cons]

theorem stableMembers_eq (members : List (JsString × Data)) :
    stableMembers numberText members =
      members.map fun m => (m.1, (stableJson numberText m.2).getD (js "undefined")) := by
  induction members with
  | nil => rfl
  | cons m rest ih => rw [stableMembers, ih, List.map_cons]

theorem compact_spelled (t : Tree) :
    compact (spelled t) = if t.isHole then js "undefined" else compact t := by
  cases t <;> rfl

theorem isHole_words (d : Data) : (words numberText d).isHole = d.isHole := by
  cases d with
  | arr items => rw [words_arr]; rfl
  | obj members => rw [words_obj]; rfl
  | _ => rfl

/-- `stableJson` writes the tree of the value with its members in order. -/
theorem stableJson_eq (d : Data) : stableJson numberText d =
    if d.isHole then none else some (compact (stableTree numberText d)) := by
  induction d using Doc.induct with
  | hole | atom a | text s => rfl
  | arr items ih =>
    have hitems : stableItems numberText items =
        items.map fun d => compact (stableTree numberText d) := by
      rw [stableItems_eq]
      refine List.map_congr_left fun d hd => ?_
      rw [ih d hd]
      cases d <;> rfl
    rw [stableJson, hitems, stableTree, canon_arr, words_arr, compact, compactItems_eq,
      List.map_map, List.map_map]
    rfl
  | obj members ih =>
    have hmembers : stableMembers numberText members =
        members.map fun m => (m.1, compact (spelled (stableTree numberText m.2))) := by
      rw [stableMembers_eq]
      refine List.map_congr_left fun m hm => congrArg (Prod.mk m.1) ?_
      have hhole : (stableTree numberText m.2).isHole = m.2.isHole := by
        rw [stableTree, isHole_words, isHole_canon]
      rw [ih m hm, compact_spelled, hhole]
      cases m.2.isHole <;> rfl
    have hsorted : sortedMembers (stableMembers numberText members) =
        (sortMembers (mapValues canon members)).map fun m =>
          (m.1, compact (spelled (words numberText m.2))) := by
      rw [hmembers, ← sortMembers_map fun d => compact (spelled (words numberText d)), mapValues,
        List.map_map]
      rfl
    rw [stableJson, objectText, hsorted, stableTree, canon_obj, words_obj, compact,
      compactMembers_eq, List.map_map, List.map_map]
    rfl

end stable

section decoding

variable (numberText : ℚ → JsString)

theorem compact_withoutLone (t : Tree) : compact (withoutLone t) = compact t := by
  induction t using Doc.induct with
  | hole | atom w | text s => rfl
  | arr items ih =>
    rw [withoutLone_arr]
    by_cases hlone : items = [.hole]
    · subst hlone
      rfl
    · have hitems : items.map (compact ∘ withoutLone) = items.map compact :=
        List.map_congr_left ih
      rw [emptyLone_of_ne (mt (map_eq_lone isHole_withoutLone).mp hlone), compact, compact,
        compactItems_eq, compactItems_eq, List.map_map, hitems]
  | obj members ih =>
    have hmembers : (mapValues withoutLone members).map
        (fun m => quote m.1 ++ js ":" ++ compact m.2) =
          members.map fun m => quote m.1 ++ js ":" ++ compact m.2 := by
      rw [mapValues, List.map_map]
      exact List.map_congr_left fun m hm => congrArg (quote m.1 ++ js ":" ++ ·) (ih m hm)
    rw [withoutLone_obj, compact, compact, compactMembers_eq, compactMembers_eq, hmembers]

theorem spelled_of_not_hole {t : Tree} (h : t.isHole = false) : spelled t = t := by
  cases t with
  | hole => cases h
  | _ => rfl

theorem words_withoutLone (d : Data) :
    words numberText (withoutLone d) = withoutLone (words numberText d) := by
  induction d using Doc.induct with
  | hole | atom a | text s => rfl
  | arr items ih =>
    rw [withoutLone_arr, words_arr, withoutLone_arr, List.map_map]
    by_cases hlone : items = [.hole]
    · subst hlone
      rfl
    · have hholes : ∀ d, ((withoutLone ∘ words numberText) d).isHole = d.isHole := fun d => by
        rw [Function.comp_apply, isHole_withoutLone, isHole_words]
      rw [emptyLone_of_ne (mt (map_eq_lone isHole_withoutLone).mp hlone), words_arr, List.map_map,
        emptyLone_of_ne (mt (map_eq_lone hholes).mp hlone)]
      exact congrArg Doc.arr (List.map_congr_left ih)
  | obj members ih =>
    rw [withoutLone_obj, words_obj, words_obj, withoutLone_obj, mapValues, mapValues, List.map_map,
      List.map_map]
    refine congrArg Doc.obj (List.map_congr_left fun m hm => congrArg (Prod.mk m.1) ?_)
    change spelled (words numberText (withoutLone m.2)) =
      withoutLone (spelled (words numberText m.2))
    have hvalue := ih m hm
    cases hempty : m.2.isHole with
    | true =>
      rw [isHole_iff.mp hempty]
      rfl
    | false =>
      rw [hvalue, spelled_of_not_hole ((isHole_words numberText m.2).trans hempty),
        spelled_of_not_hole]
      rw [isHole_withoutLone, isHole_words, hempty]

theorem words_whole {d : Data} (h : d.isHole = false) : Whole (words numberText d) := by
  induction d using Doc.induct with
  | hole => cases h
  | atom a => exact .atom _
  | text s => exact .text s
  | arr items ih =>
    rw [words_arr]
    refine .arr _ (List.forall_mem_map.mpr fun d hd hne => ih d hd ?_)
    rw [← isHole_words numberText d, Bool.eq_false_iff]
    exact fun hhole => hne (isHole_iff.mp hhole)
  | obj members ih =>
    rw [words_obj]
    refine .obj _ (List.forall_mem_map.mpr fun m hm => ?_)
    cases hempty : m.2.isHole with
    | true =>
      rw [isHole_iff.mp hempty]
      exact .atom _
    | false =>
      rw [spelled_of_not_hole ((isHole_words numberText m.2).trans hempty)]
      exact ih m hm hempty

end decoding

section injective

variable {numbers : NumberTexts}

theorem words_ne_undefined {d : Data} (hd : d.AllAtoms (Scalar.IsKnown numbers)) :
    words numbers.text d ≠ .atom (js "undefined") := by
  intro h
  cases d with
  | atom a => exact word_ne_undefined (allAtoms_atom.mp hd) (Doc.atom.inj h)
  | _ => simp [words] at h

theorem words_eq_of_spelled {d e : Data} (hd : d.AllAtoms (Scalar.IsKnown numbers))
    (he : e.AllAtoms (Scalar.IsKnown numbers))
    (h : spelled (words numbers.text d) = spelled (words numbers.text e)) :
    words numbers.text d = words numbers.text e := by
  have hplain : ∀ d : Data, d.isHole = false →
      spelled (words numbers.text d) = words numbers.text d := fun d hd =>
    spelled_of_not_hole ((isHole_words numbers.text d).trans hd)
  cases hempty : d.isHole <;> cases hempty' : e.isHole
  · rwa [hplain d hempty, hplain e hempty'] at h
  · rw [hplain d hempty, isHole_iff.mp hempty'] at h
    exact absurd h (words_ne_undefined hd)
  · rw [hplain e hempty', isHole_iff.mp hempty] at h
    exact absurd h.symm (words_ne_undefined he)
  · rw [isHole_iff.mp hempty, isHole_iff.mp hempty']

theorem eq_of_map_eq {β γ : Type} {f : β → γ} {l l' : List β} (h : l.map f = l'.map f)
    (hf : ∀ a ∈ l, ∀ b ∈ l', f a = f b → a = b) : l = l' := by
  induction l generalizing l' with
  | nil => exact (List.map_eq_nil_iff.mp h.symm).symm
  | cons a rest ih =>
    cases l' with
    | nil => cases h
    | cons b rest' =>
      obtain ⟨hhead, htail⟩ := List.cons.inj h
      have hab := hf a List.mem_cons_self b List.mem_cons_self hhead
      rw [hab, ih htail fun a ha b hb =>
        hf a (List.mem_cons_of_mem _ ha) b (List.mem_cons_of_mem _ hb)]

/-- A value can be told from the words of its tree. -/
theorem words_injective {d e : Data} (hd : d.AllAtoms (Scalar.IsKnown numbers))
    (he : e.AllAtoms (Scalar.IsKnown numbers))
    (h : words numbers.text d = words numbers.text e) : d = e := by
  induction d using Doc.induct generalizing e with
  | hole =>
    have hhole := isHole_words numbers.text e
    rw [← h] at hhole
    exact (isHole_iff.mp hhole.symm).symm
  | atom a =>
    cases e with
    | atom b => rw [word_injective (allAtoms_atom.mp hd) (allAtoms_atom.mp he) (Doc.atom.inj h)]
    | _ => simp [words] at h
  | text s =>
    cases e with
    | text s' => exact congrArg Doc.text (Doc.text.inj h)
    | _ => simp [words] at h
  | arr items ih =>
    cases e with
    | arr items' =>
      rw [words_arr, words_arr] at h
      refine congrArg Doc.arr (eq_of_map_eq (Doc.arr.inj h) fun d hitem e hitem' => ?_)
      exact ih d hitem (allAtoms_arr.mp hd d hitem) (allAtoms_arr.mp he e hitem')
    | _ => simp [words] at h
  | obj members ih =>
    cases e with
    | obj members' =>
      rw [words_obj, words_obj] at h
      refine congrArg Doc.obj (eq_of_map_eq (Doc.obj.inj h) fun m hm n hn hmn => ?_)
      obtain ⟨hkey, hvalue⟩ := Prod.mk.inj hmn
      have hatoms := allAtoms_obj.mp hd m hm
      have hatoms' := allAtoms_obj.mp he n hn
      exact Prod.ext hkey (ih m hm hatoms hatoms' (words_eq_of_spelled hatoms hatoms' hvalue))
    | _ => simp [words] at h

end injective

section keys

variable {numbers : NumberTexts} {request other : RequestLike}

/-- The stable text of a value is read as the words of the value, with its members in order and
without lone holes. -/
theorem treeOf_stable {d : Data} (h : IsData numbers d) (hd : d.isHole = false) :
    treeOf (compact (stableTree numbers.text d)) =
      some (words numbers.text (canon (withoutLone d))) := by
  have hatoms := allAtoms_canon h.keys h.atoms
  have hhole := (isHole_canon d).trans hd
  have hscans := scans_compact (stableTree numbers.text d) (isWord_words hatoms)
  rw [← List.append_nil (compact _),
    treeOf_scans hscans (words_whole numbers.text hhole) no_blanks, stableTree,
    ← words_withoutLone, canon_withoutLone]

theorem stableJson_eq_iff {d e : Data} (h : IsData numbers d) (h' : IsData numbers e)
    (hd : d.isHole = false) (he : e.isHole = false) :
    stableJson numbers.text d = stableJson numbers.text e ↔
      Same (withoutLone d) (withoutLone e) := by
  have hkeys := everywhere_withoutLone h.keys
  have hkeys' := everywhere_withoutLone h'.keys
  rw [same_iff_canon hkeys hkeys', stableJson_eq, stableJson_eq, if_neg (by simp [hd]),
    if_neg (by simp [he]), Option.some.injEq]
  constructor
  · intro htext
    have htree := treeOf_stable h hd
    rw [htext, treeOf_stable h' he, Option.some.injEq] at htree
    exact (words_injective (allAtoms_canon hkeys' (allAtoms_withoutLone h'.atoms))
      (allAtoms_canon hkeys (allAtoms_withoutLone h.atoms)) htree).symm
  · intro hcanon
    rw [canon_withoutLone, canon_withoutLone] at hcanon
    rw [← compact_withoutLone (stableTree numbers.text d),
      ← compact_withoutLone (stableTree numbers.text e), stableTree, stableTree,
      ← words_withoutLone, ← words_withoutLone, hcanon]

theorem same_filled {a b : Data} (ha : Distinct a) (hb : Distinct b) (h : Same a b) :
    Same (filled Scalar.null a) (filled .null b) := by
  rw [same_iff_canon (distinct_filled .null ha) (distinct_filled .null hb),
    canon_filled .null a ha, canon_filled .null b hb, (same_iff_canon ha hb).mp h]

theorem same_withoutLone {a b : Data} (ha : Distinct a) (hb : Distinct b) (h : Same a b) :
    Same (withoutLone a) (withoutLone b) := by
  rw [same_iff_canon (everywhere_withoutLone ha) (everywhere_withoutLone hb), canon_withoutLone,
    canon_withoutLone, (same_iff_canon ha hb).mp h]

theorem same_of_filled {a b : Data} (ha : Distinct a) (hb : Distinct b)
    (h : Same (filled Scalar.null a) (filled .null b))
    (hlone : Same (withoutLone a) (withoutLone b)) : Same a b := by
  rw [same_iff_canon (distinct_filled .null ha) (distinct_filled .null hb),
    canon_filled .null a ha, canon_filled .null b hb] at h
  rw [same_iff_canon (everywhere_withoutLone ha) (everywhere_withoutLone hb), canon_withoutLone,
    canon_withoutLone] at hlone
  exact (same_iff_canon ha hb).mpr (eq_of_filled .null hlone h)

/-- The stable texts of the requests are equal iff they are the same on the wire, and so are their
hashes unless these collide. -/
def KeysAgree (numbers : NumberTexts) (request other : RequestLike) : Prop :=
  let stable := fun request : RequestLike => stableJson numbers.text (.obj request)
  let hash := requestHashHex numbers.text
  (stable request = stable other ↔ SameOnWire numbers request other) ∧
    ((hash request = hash other → stable request = stable other) →
      (hash request = hash other ↔ SameOnWire numbers request other))

/-- Two values are equal with `undefined` at the same places, or differ in more: also when undefined
members are left out and undefined items are `null`, and also when each array of one undefined item
is empty. -/
def EqualOrApart (a b : Data) : Prop :=
  Same a b ∨ ¬ Same (filled Scalar.null a) (filled .null b) ∧
    ¬ Same (withoutLone a) (withoutLone b)

theorem requestHashHex_of_stableJson {numberText : ℚ → JsString}
    (h : stableJson numberText (.obj request) = stableJson numberText (.obj other)) :
    requestHashHex numberText request = requestHashHex numberText other := by
  rw [requestHashHex, requestHashHex, hashValue, hashValue, h]

theorem keysAgree_iff (numbers : NumberTexts) (request other : RequestLike)
    (h : IsData numbers (.obj request)) (h' : IsData numbers (.obj other)) :
    KeysAgree numbers request other ↔ EqualOrApart (.obj request) (.obj other) := by
  have hhash : KeysAgree numbers request other ↔
      (stableJson numbers.text (.obj request) = stableJson numbers.text (.obj other) ↔
        SameOnWire numbers request other) :=
    and_iff_left_of_imp fun hstable hcollision =>
      Iff.trans ⟨hcollision, requestHashHex_of_stableJson⟩ hstable
  rw [hhash, stableJson_eq_iff h h' rfl rfl, sameOnWire_iff h h', EqualOrApart]
  constructor
  · intro hiff
    by_cases hlone : Same (withoutLone (.obj request)) (withoutLone (.obj other) : Data)
    · exact .inl (same_of_filled h.keys h'.keys (hiff.mp hlone) hlone)
    · exact .inr ⟨mt hiff.mpr hlone, hlone⟩
  · rintro (hsame | ⟨hfilled, hlone⟩)
    · exact iff_of_true (same_withoutLone h.keys h'.keys hsame) (same_filled h.keys h'.keys hsame)
    · exact iff_of_false hlone hfilled

end keys

section samples

def plainRequest : RequestLike := [(js "model", .text (js "solar")), (js "stream", .atom (.bool true))]

def reorderedRequest : RequestLike :=
  [(js "stream", .atom (.bool true)), (js "model", .text (js "solar"))]

/-- A member that is undefined is spelled out. -/
def spelledRequest : RequestLike := (js "system", .hole) :: plainRequest

theorem plainRequest_isData : IsData wholeNumberTexts (.obj plainRequest) :=
  ⟨.obj _ (by decide) (List.forall_mem_cons.mpr ⟨.text _, List.forall_mem_singleton.mpr (.atom _)⟩),
    .obj _ (List.forall_mem_cons.mpr
      ⟨.text _, List.forall_mem_singleton.mpr (.atom _ trivial)⟩)⟩

theorem reorderedRequest_isData : IsData wholeNumberTexts (.obj reorderedRequest) :=
  ⟨.obj _ (by decide) (List.forall_mem_cons.mpr ⟨.atom _, List.forall_mem_singleton.mpr (.text _)⟩),
    .obj _ (List.forall_mem_cons.mpr
      ⟨.atom _ trivial, List.forall_mem_singleton.mpr (.text _)⟩)⟩

theorem spelledRequest_isData : IsData wholeNumberTexts (.obj spelledRequest) :=
  ⟨.obj _ (by decide) (List.forall_mem_cons.mpr
      ⟨.hole, (everywhere_obj.mp plainRequest_isData.keys).2⟩),
    .obj _ (List.forall_mem_cons.mpr ⟨.hole, allAtoms_obj.mp plainRequest_isData.atoms⟩)⟩

theorem keysAgree_reordered : KeysAgree wholeNumberTexts plainRequest reorderedRequest :=
  (keysAgree_iff wholeNumberTexts plainRequest reorderedRequest plainRequest_isData
    reorderedRequest_isData).mpr (.inl (.reorder (List.Perm.swap _ _ [])))

/-- On the wire the undefined member is not there, in the key it is. -/
theorem spelledRequest_not_keysAgree :
    ¬ KeysAgree wholeNumberTexts plainRequest spelledRequest := by
  rintro ⟨hstable, -⟩
  have hfilled : filled .null (.obj plainRequest) = (filled .null (.obj spelledRequest) : Data) := by
    rw [filled_obj, filled_obj]
    rfl
  have hwire : SameOnWire wholeNumberTexts plainRequest spelledRequest := by
    rw [sameOnWire_iff plainRequest_isData spelledRequest_isData, hfilled]
    exact .refl _
  have hsame := (stableJson_eq_iff plainRequest_isData spelledRequest_isData rfl rfl).mp
    (hstable.mpr hwire)
  have hlength := everywhere_of_same (P := fun keys => keys.length = 2)
    (fun _ _ hperm hkeys => hperm.length_eq.symm.trans hkeys) hsame
  have hplain : Everywhere (fun keys => keys.length = 2) (withoutLone (.obj plainRequest) : Data) :=
    .obj _ rfl (List.forall_mem_cons.mpr ⟨.text _, List.forall_mem_singleton.mpr (.atom _)⟩)
  exact absurd (everywhere_obj.mp (hlength.mp hplain)).1 (by decide)

end samples

end Solarcido.Api.PromptCache
