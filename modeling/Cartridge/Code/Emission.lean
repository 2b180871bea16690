import Cartridge.Code.Page
import Cartridge.Code.Section
import Cartridge.Code.SourceMap
import Cartridge.Diagnostic
import Cartridge.Error

/-!
Emitted code as data: a list of items and the way emission ended. Items are rendered afterwards in
a context that keeps the text, the source map and the diagnostics, so what is emitted never depends
on where it lands.
-/
namespace Cartridge.Code

/-- A limit of the target that was exceeded. -/
inductive Limit where
  | instances (found : Nat)
  /-- A limit in an emitter's own words. -/
  | other (text : String)
  deriving DecidableEq, Repr

/-- Slot numbers are bytes, and one of them means no slot. -/
def maxSlots : Nat := 255

def Limit.message : Limit → String
  | .instances found => s!"{found} entity instances, at most {maxSlots} are addressable"
  | .other text => text

/-- What stops emission. -/
inductive LowerError where
  | config (e : Error)
  | indexOutOfBounds (array : String) (index : Int32) (length : UInt16)
  | limit (l : Limit)
  /-- A section filled from outside failed. -/
  | external (sectionName message : String)
  deriving DecidableEq, Repr

def LowerError.message : LowerError → String
  | .config e => e.message
  | .indexOutOfBounds array index length =>
    s!"index {index.toInt} out of bounds for array '{array}' of length {length.toNat}"
  | .limit l => "limit exceeded: " ++ l.message
  | .external sectionName message => s!"section '{sectionName}' failed: {message}"

/-- The head of a function definition. -/
structure Header where
  name : String
  signature : String
  deriving DecidableEq, Repr

namespace Header

def procedure (name : String) : Header := ⟨name, s!"void {name}(void)"⟩

def prototype (h : Header) : String := h.signature ++ ";"

end Header

/-- A step of writing a file. -/
inductive Item where
  | mark (m : Mark)
  /-- The comment that opens a section. -/
  | banner
  | enter (s : Section)
  /-- The next line comes from here. -/
  | origin (l : Location)
  /-- A diagnostic, with a comment where it was found. -/
  | problem (rule : Rule) (message : String) (location : Option Location)
  | beginFunction (h : Header)
  | endFunction
  deriving DecidableEq, Repr

/-- Emitted items and a result. -/
structure Emission (α : Type) where
  items : List Item
  result : Except (Halt LowerError) α

namespace Emission

def pure {α} (a : α) : Emission α := ⟨[], .ok a⟩

/-- Items of both parts in order; nothing is emitted after a halt. -/
def bind {α β} (m : Emission α) (f : α → Emission β) : Emission β :=
  match m.result with
  | .ok a =>
    let n := f a
    ⟨m.items ++ n.items, n.result⟩
  | .error e => ⟨m.items, .error e⟩

instance : Monad Emission where
  pure := Emission.pure
  bind := Emission.bind

def emit (items : List Item) : Emission Unit := ⟨items, .ok ()⟩

def ofExcept {α} (r : Except LowerError α) : Emission α := ⟨[], Halt.ofExcept r⟩

def ofConfig {α} (r : Except Error α) : Emission α :=
  ofExcept (r.mapError .config)

def ofHalt {α} : Except (Halt Error) α → Emission α
  | .ok a => ⟨[], .ok a⟩
  | .error (.error e) => ⟨[], .error (.error (.config e))⟩
  | .error .fault => ⟨[], .error .fault⟩

def ofOption {α} (r : Option α) : Emission α := ⟨[], Halt.ofOption r⟩

def line (text : String) : Emission Unit := emit [.mark (.line text)]

def lines (text : String) : Emission Unit := emit [.mark (.lines text)]

def blank : Emission Unit := emit [.mark .blank]

def block (header : String) : Emission Unit := emit [.mark (.block header)]

def close : Emission Unit := emit [.mark (.close Mark.closeBrace)]

def reopen (text : String) : Emission Unit := emit [.mark (.reopen text)]

def indent : Emission Unit := emit [.mark .indent]

def dedent : Emission Unit := emit [.mark .dedent]

def banner : Emission Unit := emit [.banner]

def enter (s : Section) : Emission Unit := emit [.enter s]

def origin (l : Option Location) : Emission Unit := emit (l.toList.map .origin)

def problem (rule : Rule) (message : String) (location : Option Location) : Emission Unit :=
  emit [.problem rule message location]

def verbatim (texts : List String) : Emission Unit := emit (texts.map fun t => .mark (.line t))

/-- A function with its body. It is closed even if the body halts. -/
def function (h : Header) (body : Emission Unit) : Emission Unit :=
  ⟨.beginFunction h :: body.items ++ [.endFunction], body.result⟩

def each {α} (f : α → Emission Unit) : List α → Emission Unit
  | [] => Emission.pure ()
  | a :: rest => do
    f a
    each f rest

end Emission

/-- What rendered items leave behind. -/
structure Context where
  page : Page
  current : Section
  /-- The functions around the next line, innermost first. -/
  functions : List String
  diagnostics : Diagnostics
  sourceMap : SourceMap
  deriving DecidableEq, Repr

namespace Context

def start : Context := ⟨.empty, .paletteData, [], .empty, .empty⟩

def write? (c : Context) (m : Mark) : Option Context :=
  (m.write? c.page).map fun page => { c with page }

/-- Renders one item, unless there are too many lines. Places are recorded only if `mapped`. -/
def render? (mapped : Bool) (c : Context) : Item → Option Context
  | .mark m => c.write? m
  | .banner => do (← c.write? (.line s!"/* ==== {c.current.name} ==== */")).write? .blank
  | .enter s => some { c with current := s }
  | .origin l =>
    if mapped then
      c.page.currentLine?.map fun line =>
        { c with sourceMap := c.sourceMap.push line l c.functions.head? }
    else some c
  | .problem rule message location =>
    (c.write? (.line s!"/* error {rule.text}: {Text.sanitize message} */")).map fun c =>
      { c with diagnostics :=
          c.diagnostics.pushError ⟨rule, .error, c.current.name, message, location⟩ }
  | .beginFunction h =>
    (c.write? (.block h.signature)).map fun c => { c with functions := h.name :: c.functions }
  | .endFunction => do
    let c ← (← c.write? (.close Mark.closeBrace)).write? .blank
    return { c with functions := c.functions.tail }

def renderAll? (mapped : Bool) (c : Context) (items : List Item) : Option Context :=
  items.foldlM (render? mapped) c

def take? {α} (mapped : Bool) (c : Context) (e : Emission α) :
    Option (Context × Except (Halt LowerError) α) :=
  (c.renderAll? mapped e.items).map (·, e.result)

end Context

end Cartridge.Code
