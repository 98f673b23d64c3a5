import Solarcido.Js.LowerCase

namespace Solarcido.RegExp

open Text

/-- The regular expressions the program's own tests are made of. -/
inductive Pattern where
  | unit (p : UInt16 → Bool)
  | many (p : UInt16 → Bool)
  | seq (a b : Pattern)
  | alt (a b : Pattern)
  | opt (a : Pattern)
  | empty
  | boundary

/-- A place in a text: the unit in front of it and the units behind. -/
structure Cursor where
  before : Option UInt16
  rest : JsString

def isWord (u : UInt16) : Bool :=
  let n := u.toNat
  (48 ≤ n && n ≤ 57) || (65 ≤ n && n ≤ 90) || (97 ≤ n && n ≤ 122) || n == 95

/-- The places after one or more units that pass a test. -/
def manyEnds (p : UInt16 → Bool) : JsString → List Cursor
  | [] => []
  | u :: rest => if p u then ⟨some u, rest⟩ :: manyEnds p rest else []

/-- Where a match that starts at a place can end. -/
def ends : Pattern → Cursor → List Cursor
  | .unit p, c =>
    match c.rest with
    | [] => []
    | u :: rest => if p u then [⟨some u, rest⟩] else []
  | .many p, c => manyEnds p c.rest
  | .seq a b, c => (ends a c).flatMap (ends b)
  | .alt a b, c => ends a c ++ ends b c
  | .opt a, c => c :: ends a c
  | .empty, c => [c]
  | .boundary, c =>
    if c.before.any isWord != c.rest.head?.any isWord then [c] else []

def testFrom (p : Pattern) : Option UInt16 → JsString → Bool
  | before, [] => !(ends p ⟨before, []⟩).isEmpty
  | before, u :: rest => !(ends p ⟨before, u :: rest⟩).isEmpty || testFrom p (some u) rest

/-- `pattern.test(text)`. -/
def test (p : Pattern) (text : JsString) : Bool := testFrom p none text

/-- A literal under the `i` flag. Its units are ASCII and in lower case. -/
def literal (s : JsString) : Pattern :=
  s.foldr (fun u p => .seq (.unit fun v => lowerUnit v == u) p) .empty

/-- `\bliteral\b`, under the `i` flag. -/
def word (s : JsString) : Pattern := .seq .boundary (.seq (literal s) .boundary)

/-- `\bfirst\s+second\b` with a choice of second words, under the `i` flag. -/
def twoWords (first : JsString) (seconds : List JsString) : Pattern :=
  .seq .boundary (.seq (literal first) (.seq (.many isWhiteSpace)
    (.seq (seconds.foldr (fun s p => .alt (literal s) p) (.seq (.unit fun _ => false) .empty))
      .boundary)))

end Solarcido.RegExp
