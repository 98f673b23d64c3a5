import Solarcido.Js.LowerCase
import Solarcido.Js.Number

namespace Solarcido.Conversation

open Text Search

section compaction

/-- `s.indexOf(pat, start)`. -/
def indexOfFrom (pat s : JsString) (start : Nat) : Option Nat :=
  (firstIndexOf pat (s.drop start)).map (start + ·)

def openTag (tag : JsString) : JsString := js "<" ++ tag ++ js ">"

def closeTag (tag : JsString) : JsString := js "</" ++ tag ++ js ">"

def extractTagBlock (content tag : JsString) : Option JsString := do
  let startIdx ← firstIndexOf (openTag tag) content
  let innerStart := startIdx + (openTag tag).length
  let closeIdx ← indexOfFrom (closeTag tag) content innerStart
  return (content.take closeIdx).drop innerStart

def stripTagBlock (content tag : JsString) : JsString :=
  match firstIndexOf (openTag tag) content, firstIndexOf (closeTag tag) content with
  | some startIdx, some closeIdx =>
    content.take startIdx ++ content.drop (closeIdx + (closeTag tag).length)
  | _, _ => content

def isBlank (line : JsString) : Bool := (trim line).isEmpty

def collapseFrom : Bool → List JsString → List JsString
  | _, [] => []
  | lastBlank, line :: lines =>
    if isBlank line && lastBlank then collapseFrom lastBlank lines
    else line :: collapseFrom (isBlank line) lines

def collapseBlankLines (content : JsString) : JsString :=
  join (js "\n") (collapseFrom false (split content (js "\n")))

def formatCompactSummary (summary : JsString) : JsString :=
  let text := stripTagBlock summary (js "analysis")
  let text := match extractTagBlock text (js "summary") with
    | some content =>
      replaceFirst text (openTag (js "summary") ++ content ++ closeTag (js "summary"))
        (js "Summary:\n" ++ trim content)
    | none => text
  trim (collapseBlankLines text)

end compaction

section compression

structure CompressSummaryOptions where
  maxChars : Nat
  maxLines : Nat
  maxLineChars : Nat

def CompressSummaryOptions.default : CompressSummaryOptions := ⟨4000, 40, 160⟩

structure CompressSummaryResult where
  text : JsString
  truncated : Bool

/-- The words of `line.split(/\s+/).filter(Boolean)`. -/
def wordsFrom : JsString → JsString → List JsString
  | word, [] => if word.isEmpty then [] else [word.reverse]
  | word, u :: rest =>
    if isWhiteSpace u then
      (if word.isEmpty then [] else [word.reverse]) ++ wordsFrom [] rest
    else wordsFrom (u :: word) rest

def collapseInlineWhitespace (line : JsString) : JsString := join (js " ") (wordsFrom [] line)

def truncateLine (line : JsString) (maxChars : Nat) : JsString :=
  if maxChars = 0 then js "…"
  else if (codePoints line).length ≤ maxChars then line
  else fromCodePoints ((codePoints line).take (maxChars - 1)) ++ js "…"

/-- The lines that are kept, and how many are dropped as repeated. -/
def dedupLines (maxLineChars : Nat) : List JsString → List JsString → List JsString × Nat
  | _, [] => ([], 0)
  | seen, raw :: raws =>
    let collapsed := collapseInlineWhitespace raw
    if collapsed.isEmpty then dedupLines maxLineChars seen raws
    else
      let truncatedLine := truncateLine collapsed maxLineChars
      let key := toLowerCase truncatedLine
      if seen.contains key then
        let (lines, removed) := dedupLines maxLineChars seen raws
        (lines, removed + 1)
      else
        let (lines, removed) := dedupLines maxLineChars (key :: seen) raws
        (truncatedLine :: lines, removed)

def isCoreDetail (line : JsString) : Bool :=
  [js "- Scope:",
    js "- Current work:",
    js "- Pending work:",
    js "- Key files referenced:",
    js "- Tools mentioned:",
    js "- Recent user requests:",
    js "- Previously compacted context:",
    js "- Newly compacted context:"].any (startsWith line)

def linePriority (line : JsString) : Nat :=
  if line = js "Summary:" ∨ line = js "Conversation summary:" ∨ isCoreDetail line then 0
  else if endsWith line (js ":") then 1
  else if startsWith line (js "- ") || startsWith line (js "  - ") then 2
  else 3

def joinedCharCount (lines : List JsString) : Nat :=
  (lines.map fun line => (codePoints line).length).foldr (· + ·) 0 + (lines.length - 1)

/-- The lines at some places, in their order. -/
def linesAt (lines : List JsString) (indexes : List Nat) : List JsString :=
  (indexes.mergeSort (· ≤ ·)).map fun i => lines.getD i []

def selectLine (opts : CompressSummaryOptions) (lines : List JsString) (priority : Nat)
    (selected : List Nat) (i : Nat) : List Nat :=
  let line := lines.getD i []
  if selected.contains i || linePriority line != priority then selected
  else
    let candidate := linesAt lines selected ++ [line]
    if candidate.length > opts.maxLines || joinedCharCount candidate > opts.maxChars then selected
    else i :: selected

def selectLines (opts : CompressSummaryOptions) (lines : List JsString) : List JsString :=
  linesAt lines ((List.range 4).foldl (fun selected priority =>
    (List.range lines.length).foldl (selectLine opts lines priority) selected) [])

def compressSummary (text : JsString) (opts : CompressSummaryOptions) : CompressSummaryResult :=
  let (normalised, removedDupes) := dedupLines opts.maxLineChars [] (split text (js "\n"))
  if normalised.isEmpty || opts.maxChars == 0 || opts.maxLines == 0 then
    ⟨[], !(trim text).isEmpty⟩
  else
    let selected := selectLines opts normalised
    let omitted := normalised.length - selected.length
    let notice := js "- … " ++ Number.decimal omitted ++ js " additional line(s) omitted."
    let shown :=
      if omitted > 0 && selected.length < opts.maxLines &&
          joinedCharCount (selected ++ [notice]) ≤ opts.maxChars then selected ++ [notice]
      else selected
    let result := join (js "\n") shown
    ⟨result, removedDupes > 0 || omitted > 0 || result != trim text⟩

end compression

end Solarcido.Conversation
