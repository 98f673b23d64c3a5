import Solarcido.Conversation.Summaries
import Solarcido.Js.Replacement
import Solarcido.Lib.Tags

namespace Solarcido.Conversation

open Text Search Tags

section tags

def analysisOpen : JsString := openTag (js "analysis")

def analysisClose : JsString := closeTag (js "analysis")

/-- `<`, the only place of which in a tag is at its start. -/
def angle : UInt16 := 60

theorem analysisOpen_headed : Headed angle analysisOpen := ⟨by decide, by decide⟩

theorem analysisClose_headed : Headed angle analysisClose := ⟨by decide, by decide⟩

theorem analysis_unlike : Unlike analysisOpen analysisClose := ⟨by decide, by decide⟩

end tags

section stripping

variable (text : JsString)

theorem stripTagBlock_eq (tag : JsString) :
    stripTagBlock text tag = stripFirst (openTag tag) (closeTag tag) text := rfl

theorem stripTagBlock_clean_iff :
    (stripTagBlock text (js "analysis")).Sublist text ∧
        ¬ HasBlock analysisOpen analysisClose (stripTagBlock text (js "analysis")) ↔
      FirstBlockOnly analysisOpen analysisClose text := by
  rw [stripTagBlock_eq]
  exact stripFirst_iff analysisOpen_headed analysisClose_headed analysis_unlike

/-- A second block stays. -/
theorem second_block_kept :
    stripTagBlock (js "<analysis>a</analysis><analysis>b</analysis>") (js "analysis") =
        js "<analysis>b</analysis>" ∧
      HasBlock analysisOpen analysisClose
        (stripTagBlock (js "<analysis>a</analysis><analysis>b</analysis>") (js "analysis")) := by
  have hstrip : stripTagBlock (js "<analysis>a</analysis><analysis>b</analysis>")
      (js "analysis") = js "<analysis>b</analysis>" := by decide +kernel
  refine ⟨hstrip, ?_⟩
  rw [hstrip]
  exact ⟨0, 11, by decide, by decide, by decide⟩

example : stripTagBlock (js "</analysis>x<analysis>") (js "analysis") =
    js "</analysis>xx<analysis>" := by decide +kernel

end stripping

section reply

def summaryOpen : JsString := openTag (js "summary")

def summaryClose : JsString := closeTag (js "summary")

theorem summaryOpen_headed : Headed angle summaryOpen := ⟨by decide, by decide⟩

theorem summaryClose_headed : Headed angle summaryClose := ⟨by decide, by decide⟩

/-- A text without any of the tags. -/
def TagFree (s : JsString) : Prop :=
  ∀ tag ∈ [summaryOpen, summaryClose, analysisOpen, analysisClose], includes s tag = false

instance (s : JsString) : Decidable (TagFree s) :=
  inferInstanceAs (Decidable (∀ tag ∈ [summaryOpen, summaryClose, analysisOpen, analysisClose],
    includes s tag = false))

/-- A reply with one summary block. -/
def reply (before body after : JsString) : JsString :=
  before ++ (summaryOpen ++ (body ++ (summaryClose ++ after)))

variable {before body after : JsString}

theorem TagFree.none {s tag : JsString} (h : TagFree s)
    (htag : tag ∈ [summaryOpen, summaryClose, analysisOpen, analysisClose]) :
    firstIndexOf tag s = none := by
  have hnot := h tag htag
  rw [includes, Option.isSome_eq_false_iff, Option.isNone_iff_eq_none] at hnot
  exact hnot

variable (hbefore : TagFree before) (hbody : TagFree body) (hafter : TagFree after)
include hbefore hbody hafter

theorem firstIndexOf_analysis_reply :
    firstIndexOf analysisOpen (reply before body after) = none := by
  rw [reply, firstIndexOf_append_of_head analysisOpen_headed (hbefore.none (by simp)) rfl,
    firstIndexOf_append_other analysisOpen_headed summaryOpen_headed ⟨by decide, by decide⟩,
    firstIndexOf_append_of_head analysisOpen_headed (hbody.none (by simp)) rfl,
    firstIndexOf_append_other analysisOpen_headed summaryClose_headed ⟨by decide, by decide⟩,
    hafter.none (by simp)]
  rfl

omit hbody hafter in
theorem firstIndexOf_summary_reply :
    firstIndexOf summaryOpen (reply before body after) = some before.length := by
  rw [reply, firstIndexOf_append_of_head summaryOpen_headed (hbefore.none (by simp)) rfl,
    firstIndexOf_of_prefix summaryOpen summaryOpen_headed.ne_nil]
  rfl

omit hafter in
theorem extractTagBlock_reply :
    extractTagBlock (reply before body after) (js "summary") = some body := by
  have hdrop : (reply before body after).drop (before.length + summaryOpen.length) =
      body ++ (summaryClose ++ after) := by
    rw [reply, ← List.append_assoc, ← List.length_append, List.drop_left]
  have hclose : firstIndexOf summaryClose (body ++ (summaryClose ++ after)) =
      some body.length := by
    rw [firstIndexOf_append_of_head summaryClose_headed (hbody.none (by simp)) rfl,
      firstIndexOf_of_prefix summaryClose summaryClose_headed.ne_nil]
    rfl
  have hopn : firstIndexOf summaryOpen (reply before body after) = some before.length :=
    firstIndexOf_summary_reply hbefore
  have hindex : indexOfFrom summaryClose (reply before body after)
      (before.length + summaryOpen.length) =
        some (before.length + summaryOpen.length + body.length) := by
    rw [indexOfFrom, hdrop, hclose]
    rfl
  have hslice : ((reply before body after).take
      (before.length + summaryOpen.length + body.length)).drop
        (before.length + summaryOpen.length) = body := by
    rw [List.drop_take, hdrop, Nat.add_sub_cancel_left, List.take_left]
  simp only [summaryOpen, summaryClose] at hopn hindex hslice
  simp only [extractTagBlock, hopn, hindex, hslice, Option.bind_eq_bind, Option.bind_some,
    Option.pure_def]

omit hbody hafter in
/-- The block is found where its opening tag is. -/
theorem firstIndexOf_block_reply :
    firstIndexOf (summaryOpen ++ body ++ summaryClose) (reply before body after) =
      some before.length := by
  have hopn : firstIndexOf summaryOpen (reply before body after) = some before.length :=
    firstIndexOf_summary_reply hbefore
  rw [firstIndexOf_eq_some_iff (by simp [summaryOpen_headed.ne_nil])]
  rw [firstIndexOf_eq_some_iff summaryOpen_headed.ne_nil] at hopn
  constructor
  · rw [reply, List.drop_left, ← List.append_assoc, ← List.append_assoc]
    exact List.prefix_append _ after
  · intro j hj hblock
    apply hopn.2 j hj
    rw [List.append_assoc] at hblock
    exact (List.prefix_append summaryOpen _).trans hblock

/-- What is put in the place of the block, as `replace` reads it. -/
def spliced (before body after : JsString) : JsString :=
  expandReplacement before (summaryOpen ++ body ++ summaryClose) after
    (js "Summary:\n" ++ trim body)

theorem formatCompactSummary_reply :
    formatCompactSummary (reply before body after) =
      trim (collapseBlankLines (before ++ spliced before body after ++ after)) := by
  have hstrip : stripTagBlock (reply before body after) (js "analysis") =
      reply before body after := by
    have hnone := firstIndexOf_analysis_reply hbefore hbody hafter
    rw [stripTagBlock_eq, stripFirst]
    rw [analysisOpen] at hnone
    rw [hnone]
  have hlength : (reply before body after).drop
      (before.length + (summaryOpen ++ body ++ summaryClose).length) = after := by
    rw [reply, ← List.append_assoc, ← List.append_assoc, ← List.append_assoc, ← List.length_append,
      ← List.append_assoc, ← List.append_assoc, List.drop_left]
  have hreplace : replaceFirst (reply before body after) (summaryOpen ++ body ++ summaryClose)
      (js "Summary:\n" ++ trim body) = before ++ spliced before body after ++ after := by
    have hfound : firstIndexOf (summaryOpen ++ body ++ summaryClose) (reply before body after) =
        some before.length := firstIndexOf_block_reply hbefore
    have htake : (reply before body after).take before.length = before := List.take_left
    rw [replaceFirst, hfound]
    dsimp only
    rw [htake, hlength, spliced]
  rw [formatCompactSummary, hstrip, extractTagBlock_reply hbefore hbody]
  exact congrArg (fun text => trim (collapseBlankLines text)) hreplace

end reply

section preserved

theorem ink_collapseFrom (lastBlank : Bool) (lines : List JsString) :
    (collapseFrom lastBlank lines).flatMap ink = lines.flatMap ink := by
  induction lines generalizing lastBlank with
  | nil => rfl
  | cons line lines ih =>
    rw [collapseFrom, List.flatMap_cons]
    split
    · next h =>
      have hblank : trim line = [] := by
        simpa [isBlank] using (Bool.and_eq_true_iff.mp h).1
      rw [ih, ← ink_trim line, hblank]
      rfl
    · rw [List.flatMap_cons, ih]

theorem ink_collapseBlankLines (content : JsString) :
    ink (collapseBlankLines content) = ink content := by
  have hnewline : js "\n" = [10] := rfl
  rw [collapseBlankLines, hnewline, ink_join 10 (by decide), ink_collapseFrom,
    ink_flatMap_split 10 (by decide)]

variable (before body after : JsString)

/-- The summary is given as it stands between the text in front of its block and behind it. -/
def Preserved : Prop :=
  formatCompactSummary (reply before body after) =
    trim (collapseBlankLines (before ++ (js "Summary:\n" ++ trim body) ++ after))

/-- The patterns of the body stand for what gives the same text again. -/
def PatternsCancel : Prop :=
  trim (collapseBlankLines (before ++ spliced before body after ++ after)) =
    trim (collapseBlankLines (before ++ (js "Summary:\n" ++ trim body) ++ after))

variable {before body after}

theorem ink_eq_of_patternsCancel (h : PatternsCancel before body after) :
    ink (spliced before body after) = ink (js "Summary:\n" ++ trim body) := by
  have hink := congrArg ink h
  rw [ink_trim, ink_trim, ink_collapseBlankLines, ink_collapseBlankLines] at hink
  rw [ink_append, ink_append, ink_append _ after, ink_append before] at hink
  exact List.append_cancel_left (List.append_cancel_right hink)

variable (body) in
theorem hasPattern_summary : hasPattern (js "Summary:\n" ++ trim body) = hasPattern (trim body) :=
  hasPattern_append (by decide)

theorem patternsCancel_of_plain (h : hasPattern (trim body) = false) :
    PatternsCancel before body after := by
  rw [PatternsCancel, spliced, expandReplacement_of_plain ((hasPattern_summary body).trans h)]

/-- Without a dollar around the block, every pattern changes what is printed. -/
theorem plain_of_patternsCancel (hbefore : 36 ∉ before) (hafter : 36 ∉ after)
    (h : PatternsCancel before body after) : hasPattern (trim body) = false := by
  have hink := ink_eq_of_patternsCancel h
  have hunsettled : Unsettled (summaryOpen ++ body ++ summaryClose) (js "Summary:\n" ++ trim body)
      (spliced before body after) := expandReplacement_unsettled hbefore hafter _
  rcases hunsettled with hfound | ⟨-, hlost⟩
  · have hlength := (hfound.sublist.filter fun u => !isWhiteSpace u).length_le
    have hopn : (ink summaryOpen).length = 9 := by decide
    have hclose : (ink summaryClose).length = 10 := by decide
    have hheading : (ink (js "Summary:\n")).length = 8 := by decide
    have hle : (ink (summaryOpen ++ body ++ summaryClose)).length ≤
        (ink (spliced before body after)).length := hlength
    rw [hink, ink_append, ink_append, ink_append, ink_trim, List.length_append, List.length_append,
      List.length_append, hopn, hclose, hheading] at hle
    omega
  · have hcount : ∀ s : JsString, (ink s).count 36 = s.count 36 := fun s =>
      List.count_filter (by decide)
    have hsame : (spliced before body after).count 36 = (js "Summary:\n" ++ trim body).count 36 := by
      rw [← hcount, hink, hcount]
    rw [hasPattern_summary] at hlost
    rw [← Bool.not_eq_true]
    intro hpattern
    exact absurd hsame (Nat.ne_of_lt (hlost hpattern))

end preserved

end Solarcido.Conversation
