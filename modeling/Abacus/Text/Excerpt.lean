namespace Abacus.Text

structure Excerpt where
  cutBefore : Bool
  piece : List Char
  cutAfter : Bool
  column : Nat
deriving DecidableEq, Repr

namespace Excerpt

def reach : Int := 10

def ellipsis : List Char := ['.', '.', '.']

/-- Characters `start` up to `finish`; a negative `finish` counts from the end of the text. -/
def slice (text : List Char) (start : Nat) (finish : Int) : List Char :=
  let stop := if finish < 0 then finish + text.length else finish
  (text.take stop.toNat).drop start

/-- The excerpt that reaches `context` characters to either side of place `index`. The caret
keeps its place relative to the text, whatever is cut off, and may stand outside of it. -/
def around (text : List Char) (index context : Int) : Excerpt :=
  let start := max 0 (index - context)
  let finish := min (text.length : Int) (index + context)
  { cutBefore := decide (0 < start)
    piece := slice text start.toNat finish
    cutAfter := decide (finish < text.length)
    column := (index - start + if 0 < start then (ellipsis.length : Int) else 0).toNat }

def line (excerpt : Excerpt) : List Char :=
  (if excerpt.cutBefore then ellipsis else []) ++ excerpt.piece ++
    (if excerpt.cutAfter then ellipsis else [])

def caretLine (excerpt : Excerpt) : List Char :=
  List.replicate excerpt.column ' ' ++ ['^']

def under (excerpt : Excerpt) (headline : String) : String :=
  headline ++ "\n" ++ String.ofList excerpt.line ++ "\n" ++ String.ofList excerpt.caretLine

end Excerpt

end Abacus.Text
