import Cartridge.Text.Lines

/-! Text that is written line by line with an indentation. -/
namespace Cartridge.Code

/-- The lines written so far, last first, how many they are, and the indentation of the next. -/
structure Page where
  rows : List String
  lineCount : UInt32
  depth : Nat
  counted : lineCount.toNat = rows.length
  deriving DecidableEq, Repr

namespace Page

def empty : Page := ⟨[], 0, 0, rfl⟩

def indentation (depth : Nat) : String := String.ofList (List.replicate (4 * depth) ' ')

/-- An empty line is not indented. -/
def row (depth : Nat) (text : String) : String := if text.isEmpty then "" else indentation depth ++ text

def maxLines : UInt32 := 0xFFFFFFFF

theorem toNat_add_one {n : UInt32} (h : n < maxLines) : (n + 1).toNat = n.toNat + 1 := by
  have hlt : n.toNat < maxLines.toNat := h
  have hmax : maxLines.toNat = 4294967295 := rfl
  rw [UInt32.toNat_add, UInt32.toNat_one]
  omega

def line? (p : Page) (text : String) : Option Page :=
  if h : p.lineCount < maxLines then
    some {
      rows := row p.depth text :: p.rows
      lineCount := p.lineCount + 1
      depth := p.depth
      counted := by rw [toNat_add_one h, p.counted, List.length_cons] }
  else none

def indent (p : Page) : Page := { p with depth := p.depth + 1 }

def dedent (p : Page) : Page := { p with depth := p.depth - 1 }

def currentLine? (p : Page) : Option UInt32 :=
  if p.lineCount < maxLines then some (p.lineCount + 1) else none

def textOf (rows : List String) : String := String.join (rows.map (· ++ "\n"))

def text (p : Page) : String := textOf p.rows.reverse

/-- What was written after an earlier state of the page. -/
def added (p before : Page) : String :=
  textOf (p.rows.take (p.rows.length - before.rows.length)).reverse

end Page

/-- A way of writing on a page. -/
inductive Mark where
  | line (text : String)
  /-- Each line of a text. -/
  | lines (text : String)
  | blank
  /-- A header with an opening brace. -/
  | block (header : String)
  /-- A line one level further out, such as a closing brace. -/
  | close (text : String)
  /-- A line one level further out that opens a new block. -/
  | reopen (text : String)
  | indent
  | dedent
  deriving DecidableEq, Repr

namespace Mark

def closeBrace : String := "\x7d"

def write? (p : Page) : Mark → Option Page
  | .line text => p.line? text
  | .lines text => (Text.lines text).foldlM Page.line? p
  | .blank => p.line? ""
  | .block header => (p.line? (header ++ " \x7b")).map Page.indent
  | .close text => p.dedent.line? text
  | .reopen text => (p.dedent.line? text).map Page.indent
  | .indent => some p.indent
  | .dedent => some p.dedent

end Mark

end Cartridge.Code
