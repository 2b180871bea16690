import Cartridge.Program.Check
import Cartridge.Program.Content
import Cartridge.Program.Options
import Cartridge.Program.Preamble
import Cartridge.Sha256

/-!
Generating the C file of a game. Broken rules end a strict run; otherwise they become warnings.
Every run starts afresh, so the same game gives the same file again.
-/
namespace Cartridge.Program

open Code Code.Emission Lower

/-- Code from outside for a section. -/
structure Emitter where
  place : Section
  prototypes : List String
  marks : List Mark
  /-- What goes wrong after everything is written. -/
  failure : Option LowerError
  deriving DecidableEq, Repr

namespace Emitter

/-- An error from outside under the name of its section, unless it has one already. -/
def named (place : Section) : LowerError → LowerError
  | .external sectionName message => .external sectionName message
  | e => .external place.name e.message

def emission (e : Emitter) : Emission Unit := do
  emit (e.marks.map .mark)
  match e.failure with
  | some failure => ofExcept (.error (named e.place failure))
  | none => return ()

end Emitter

/-- A finished file. -/
structure Generated where
  source : String
  /-- The place every line came from, if asked for. -/
  sourceMap : Option SourceMap
  warnings : List Diagnostic
  fingerprint : String
  deriving DecidableEq, Repr

inductive Failure where
  | lower (e : LowerError)
  /-- The rules a game breaks in a strict run. -/
  | broken (d : Diagnostics)
  deriving DecidableEq, Repr

def Failure.message : Failure → String
  | .lower e => e.message
  | .broken d => d.text

structure Generator where
  game : Game
  options : Options
  emitters : List Emitter := []
  /-- The diagnostics of the last run. -/
  diagnostics : Diagnostics := .empty
  /-- The source map of the last run. -/
  sourceMap : SourceMap := .empty
  deriving DecidableEq

namespace Generator

def scope (g : Generator) : Scope := ⟨g.game, g.options.lower⟩

/-- The emitter of a section: of several the last one. -/
def emitter? (g : Generator) (place : Section) : Option Emitter :=
  g.emitters.reverse.find? fun e => e.place = place

def prototypes (g : Generator) : List String :=
  Program.prototypes g.scope
    ++ Section.order.flatMap fun place => ((g.emitter? place).map Emitter.prototypes).getD []

def sectionCode (g : Generator) (place : Section) : Emission Unit := do
  enter place
  content g.scope place
  match g.emitter? place with
  | some e => do
    if place.isExternal then banner
    e.emission
    blank
  | none => return ()

def file (g : Generator) : Emission Unit := do
  Preamble.emit g.scope g.prototypes
  Check.emit g.scope
  each g.sectionCode Section.order

def finish (g : Generator) (c : Context) : Except (Halt Failure) Generated :=
  if c.diagnostics.hasErrors && g.options.strict then
    .error (.error (.broken c.diagnostics))
  else .ok {
    source := c.page.text
    sourceMap := if g.options.lower.sourceMap then some c.sourceMap else none
    warnings := c.diagnostics.downgrade.warnings
    fingerprint := Sha256.fingerprint c.page.text }

/-- One run. It faults if the file has more lines than can be counted. -/
def run (g : Generator) : Except (Halt Failure) Generated × Generator :=
  match Context.start.take? g.options.lower.sourceMap g.file with
  | some (_, .error (.error e)) =>
    (.error (.error (.lower e)), { g with diagnostics := .empty, sourceMap := .empty })
  | some (_, .error .fault) | none =>
    (.error .fault, { g with diagnostics := .empty, sourceMap := .empty })
  | some (c, .ok ()) =>
    let diagnostics := if g.options.strict then c.diagnostics else c.diagnostics.downgrade
    (g.finish c, { g with diagnostics, sourceMap := c.sourceMap })

end Generator

def generate (g : Game) (o : Options) : Except (Halt Failure) Generated :=
  (Generator.run { game := g, options := o }).1

end Cartridge.Program
