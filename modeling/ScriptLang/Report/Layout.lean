import ScriptLang.Report
import ScriptLang.Text.Pad
import ScriptLang.Text.Width

/-!
# The layout of reports

A report as lines of text. Source lines stand behind a gutter with their numbers. A mark within one
line is drawn by carets below it; a mark that goes over several lines is drawn by a bar to their
left, which starts and ends in a caret below its first and its last line.
-/

namespace ScriptLang.Layout

open Text (times padLeft)

/-! ## Source lines -/

/-- A line of a source. -/
structure Line where
  /-- The offset of its first byte. -/
  start : Nat
  /-- Its characters, without the line feed. -/
  chars : List Char
  deriving Inhabited

/-- How many bytes characters take. -/
def byteSize (chars : List Char) : Nat := (chars.map Char.utf8Size).foldr (· + ·) 0

/-- The lines of a source that starts at `offset` with the characters of `line`, last one first. -/
def splitLines (offset : Nat) (line : List Char) : List Char → List Line
  | [] => [⟨offset, line.reverse⟩]
  | c :: cs =>
    if c = '\n' then ⟨offset, line.reverse⟩ :: splitLines (offset + byteSize line + 1) [] cs
    else splitLines offset (c :: line) cs

/-- The lines of a source. There is an empty one after a line feed at the end. -/
def lines (source : String) : List Line := splitLines 0 [] source.toList

/-- The number, from 0 on, of the line that an offset is in. -/
def lineOf (lines : List Line) (offset : Nat) : Nat :=
  (lines.filter fun l => l.start ≤ offset).length - 1

/-- The characters of a line that are shown: not those that would break it at its end. -/
def Line.text (l : Line) : List Char :=
  (l.chars.reverse.dropWhile fun c => c = '\r' || c = '\x00' || c = '\n').reverse

/-- The bytes of white space at the start of a line. -/
def Line.indentation (l : Line) : Nat := byteSize (l.text.takeWhile Text.isSpace)

/-- A character of a line, where it starts in the line, and the columns that it takes. -/
structure Cell where
  char : Char
  offset : Nat
  width : Nat
  deriving Inhabited

/-- Tabs end at multiples of this column. -/
def tabWidth : Nat := 4

/-- The cells of characters that stand from an offset and a column of their line on. -/
def cellsFrom (offset column : Nat) : List Char → List Cell
  | [] => []
  | c :: cs =>
    let width := if c = '\t' then tabWidth - column % tabWidth else Text.charWidth c
    ⟨c, offset, width⟩ :: cellsFrom (offset + c.utf8Size) (column + width) cs

/-- The cells of a line. -/
def Line.cells (l : Line) : List Cell := cellsFrom 0 0 l.text

/-- The text of a line, with spaces in place of tabs. -/
def Line.shown (l : Line) : String :=
  String.join (l.cells.map fun c =>
    if c.char = '\t' then times c.width " " else String.singleton c.char)

/-! ## Marks within a line -/

/-- A mark in a line, by offsets in that line. It covers at least one byte. -/
structure Underline where
  isPrimary : Bool
  start : Nat
  stop : Nat
  text : String
  deriving DecidableEq, Inhabited

namespace Underline

/-- A mark as one in the line at `line`. -/
def ofMark (isPrimary : Bool) (mark : Mark) (line : Line) : Underline :=
  let start := mark.span.start - line.start
  ⟨isPrimary, start, max (mark.span.stop - line.start) (start + 1), mark.text⟩

/-- Whether a mark covers a byte of a range. -/
def covers (u : Underline) (start stop : Nat) : Bool := max u.start start < min u.stop stop

/-- What to draw below a cell: the caret of the primary mark wins. -/
def caret (marks : List Underline) (cell : Cell) : String :=
  let here := marks.filter fun u => u.covers cell.offset (cell.offset + cell.char.utf8Size)
  if here.any (·.isPrimary) then times cell.width "^"
  else if !here.isEmpty then times cell.width "-"
  else if marks.any fun u => cell.offset < u.stop then times cell.width " "
  else ""

/-- The mark whose text can stand behind the carets: the one that ends last, unless another one
overlaps it. -/
def trailing? (marks : List Underline) : Option Underline :=
  match (marks.filter fun u => marks.all fun v => v.stop ≤ u.stop).getLast? with
  | none => none
  | some u => if (marks.erase u).any fun v => v.covers u.start u.stop then none else some u

/-- What to draw below the carets of a cell: a bar where a text hangs, and room before the last
mark. -/
def pointer (marks hanging : List Underline) (cell : Cell) : String :=
  let room := if marks.any fun u => cell.offset ≤ u.start then cell.width else 0
  if hanging.any fun u => cell.offset ≤ u.start && u.start < cell.offset + cell.char.utf8Size then
    "│" ++ times (room - 1) " "
  else times room " "

/-- The lines below a source line with these marks, in the order of their places. -/
def draw (line : Line) (marks : List Underline) : List String :=
  if marks.isEmpty then []
  else
    let cells := line.cells
    let ending : Cell := ⟨'\x00', byteSize line.text, 1⟩
    let trailing := trailing? marks
    let hanging := match trailing with
      | some u => marks.erase u
      | none => marks
    let message := match trailing with
      | some u => " " ++ u.text
      | none => ""
    let carets := String.join ((cells ++ [ending]).map (caret marks)) ++ message
    if hanging.isEmpty then [carets]
    else
      carets :: String.join (cells.map (pointer marks hanging)) ::
        hanging.reverse.map fun u =>
          String.join ((cells.takeWhile (·.offset < u.start)).map (pointer marks hanging)) ++ u.text

end Underline

/-! ## Marks over several lines -/

/-- A mark that goes from one line to a later one. -/
structure Bar where
  firstLine : Nat
  lastLine : Nat
  /-- Where it starts in its first line. -/
  start : Nat
  /-- Where it stops in its last line. -/
  stop : Nat
  text : String
  deriving Inhabited

namespace Bar

/-- Whether the bar stands to the left of a line and below it. -/
def passes (b : Bar) (index : Nat) : Bool := b.firstLine < index && index ≤ b.lastLine

/-- Whether the bar starts beside its first line rather than below it. -/
def startsBeside (b : Bar) (line : Line) : Bool := b.start ≤ line.indentation

/-- The columns of the bar to the left of a source line. -/
def besideLine (b : Bar) (index : Nat) (line : Line) : String :=
  if index = b.firstLine && b.startsBeside line then " ╭"
  else if b.passes index then " │"
  else "  "

/-- The columns of the bar to the left of what is drawn below a source line. -/
def belowLine (b : Bar) (index : Nat) : String := if b.passes index then " │" else "  "

/-- The end of the bar that is drawn below a line, if one is. -/
def turn (b : Bar) (index : Nat) (line : Line) : List String :=
  let stroke (cells : List Cell) := times ((cells.map Cell.width).foldr (· + ·) 0) "─"
  if index = b.firstLine then
    if b.startsBeside line then []
    else [" ╭" ++ stroke (line.cells.takeWhile (·.offset ≤ b.start)) ++ "^"]
  else if index = b.lastLine then
    [" ╰" ++ stroke (line.cells.takeWhile (·.offset < b.stop)) ++ "^ " ++ b.text]
  else []

/-- Whether a line of the bar is shown: its first and last one, three lines after the first and one
before the last. -/
def shows (b : Bar) (index : Nat) : Bool :=
  b.firstLine ≤ index && index ≤ b.lastLine &&
    (index ≤ b.firstLine + 3 || b.lastLine ≤ index + 1)

end Bar

/-! ## Excerpts -/

/-- An excerpt with its marks sorted out. -/
structure Sheet where
  lines : List Line
  /-- The columns of the line numbers. -/
  digits : Nat
  /-- The marks within lines, each with the number of its line. -/
  underlines : List (Nat × Underline)
  bar : Option Bar
  deriving Inhabited

namespace Sheet

/-- A line of the source. -/
def line (s : Sheet) (index : Nat) : Line := s.lines.getD index ⟨0, []⟩

/-- What stands to the left of a line that is no source line. -/
def gutter (s : Sheet) : String := times s.digits " " ++ " │"

/-- The columns for a bar where there is none. -/
def noBar (s : Sheet) : String := if s.bar.isSome then "  " else ""

/-- A line with nothing in it. -/
def emptyLine (s : Sheet) : String := s.gutter ++ s.noBar

/-- A line of the source. -/
def sourceLine (s : Sheet) (index : Nat) : String :=
  let bar := (s.bar.map fun b => b.besideLine index (s.line index)).getD ""
  padLeft s.digits (toString (index + 1)) ++ " │" ++ bar ++ " " ++ (s.line index).shown

/-- A line of the source and what is drawn below it. -/
def withMarks (s : Sheet) (index : Nat) : List String :=
  let line := s.line index
  let marks := (s.underlines.filter (·.1 = index)).map (·.2)
  let bar := (s.bar.map (·.belowLine index)).getD ""
  let drawn := (Underline.draw line marks).map fun text => s.gutter ++ bar ++ " " ++ text
  let turn := (s.bar.map (·.turn index line)).getD []
  s.sourceLine index :: drawn ++ turn.map (s.gutter ++ ·)

/-- The numbers of the lines to show. -/
def shownLines (s : Sheet) : List Nat :=
  (List.range s.lines.length).filter fun index =>
    s.underlines.any (·.1 = index) || (s.bar.map (·.shows index)).getD false

/-- What stands between two lines that are shown: nothing, the only line between them, or a sign
that lines are left out. -/
def between (s : Sheet) (index next : Nat) : List String :=
  if next ≤ index + 1 then []
  else if next = index + 2 then [s.sourceLine (index + 1)]
  else [times s.digits " " ++ " ·" ++ (s.bar.map (·.belowLine index)).getD ""]

/-- Lines that are shown, and what stands between them. -/
def body (s : Sheet) : List Nat → List String
  | [] => []
  | [index] => s.withMarks index
  | index :: next :: rest => s.withMarks index ++ s.between index next ++ s.body (next :: rest)

end Sheet

/-- Sorts the marks of an excerpt: the secondary one comes first where both start and stop at the
same places. -/
def sheet (e : Excerpt) : Sheet :=
  let lines := lines e.source
  let line (index : Nat) : Line := lines.getD index ⟨0, []⟩
  let first := lineOf lines e.primary.span.start
  let last := lineOf lines e.primary.span.stop
  let isBar := first ≠ last
  let bar : Bar :=
    ⟨first, last, e.primary.span.start - (line first).start,
      e.primary.span.stop - (line last).start, e.primary.text⟩
  let primary := if isBar then [] else [(first, Underline.ofMark true e.primary (line first))]
  let secondary := e.secondary.toList.map fun mark =>
    let index := lineOf lines mark.span.start
    (index, Underline.ofMark false mark (line index))
  let inOrder (a b : Nat × Underline) : Bool :=
    a.2.start < b.2.start || (a.2.start = b.2.start && a.2.stop ≤ b.2.stop)
  let largest := (e.secondary.toList.map fun mark => lineOf lines mark.span.stop).foldl max
    (max first last)
  { lines
    digits := (toString (largest + 1)).length
    underlines := (secondary ++ primary).mergeSort inOrder
    bar := if isBar then some bar else none }

/-- The place of an error: path, line and column, counted from 1. -/
def locus (e : Excerpt) : String :=
  let lines := lines e.source
  let index := lineOf lines e.primary.span.start
  let line := lines.getD index ⟨0, []⟩
  let before := (cellsFrom line.start 0 line.chars).takeWhile (·.offset < e.primary.span.start)
  e.path ++ ":" ++ toString (index + 1) ++ ":" ++ toString (before.length + 1)

/-- The lines of an excerpt. -/
def excerptLines (e : Excerpt) : List String :=
  let s := sheet e
  (times s.digits " " ++ " ┌─ " ++ locus e) :: s.emptyLine :: s.body s.shownLines ++ [s.emptyLine]

/-- The lines of a text. A line feed at its end starts no new one, and a carriage return before a
line feed goes with it. -/
def textLines (text : String) : List String :=
  let parts := splitLines 0 [] text.toList
  let ended := parts.dropLast.map fun l =>
    if l.chars.getLast? = some '\r' then l.chars.dropLast else l.chars
  let last := parts.getLast?.toList.map Line.chars
  (ended ++ last.filter (· ≠ [])).map String.ofList

/-- A note, behind as many columns as line numbers take. -/
def noteLines (digits : Nat) (note : String) : List String :=
  (textLines note).mapIdx fun i line =>
    times digits " " ++ (if i = 0 then " = " else "   ") ++ line

end Layout

open Layout in
/-- A report in text. It ends in an empty line. -/
def Report.form (r : Report) : String :=
  let digits := (r.excerpt.map fun e => (sheet e).digits).getD 0
  let all := ("error: " ++ r.title) :: (r.excerpt.map excerptLines).getD [] ++
    r.notes.flatMap (noteLines digits) ++ [""]
  String.join (all.map (· ++ "\n"))

end ScriptLang
