import Cartridge.Program.Check
import Cartridge.Program.Content
import Cartridge.Program.Preamble

/-! Single parts of a generated file, for looking at them one by one. -/
namespace Cartridge.Program

open Code Lower

inductive Part where
  | preamble
  | checks
  | banner
  | prototypes
  | content (place : Section)
  deriving DecidableEq, Repr

namespace Part

/-- The code of a part. Prototypes alone are listed, not written. -/
def emission (s : Scope) : Part → Emission Unit
  | .preamble => Preamble.emit s (Program.prototypes s)
  | .checks => Check.emit s
  | .banner => Emission.banner
  | .prototypes => return ()
  | .content place => do
    Emission.enter place
    Program.content s place

inductive Result where
  /-- The text a part added, and the section that is current after it. -/
  | added (place : Section) (text : String)
  | prototypes (texts : List String)
  | failed (e : LowerError)
  deriving DecidableEq, Repr

/-- Parts in order up to the first that fails. There is no result if one faults. -/
def runAll (s : Scope) : List Part → Context → Option (List Result × Context)
  | [], c => some ([], c)
  | .prototypes :: rest, c => do
    let (later, c) ← runAll s rest c
    return (.prototypes (Program.prototypes s) :: later, c)
  | part :: rest, before => do
    let (c, result) ← before.take? s.options.sourceMap (part.emission s)
    match result with
    | .ok () => do
      let (later, last) ← runAll s rest c
      return (.added c.current (c.page.added before.page) :: later, last)
    | .error (.error e) => some ([.failed e], c)
    | .error .fault => none

end Part

end Cartridge.Program
