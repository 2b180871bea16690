import Cartridge.Code.Emission

/-! Constructs of C that several sections use: enumerations, initializers and switches. -/
namespace Cartridge.Code

def enumeration (names : List String) : String := "enum \x7b " ++ Text.commas names ++ " \x7d;"

def initializer (values : List String) : String := "\x7b" ++ Text.commas values ++ "\x7d"

def constant (name : String) (value : Nat) : String := s!"#define {name} {value}"

namespace Emission

def arm (label : String) (body : Emission Unit) : Emission Unit := do
  line s!"{label}:"
  indent
  body
  line "break;"
  dedent

/-- A switch whose last arm does nothing. -/
def choice (selector : String) (arms : Emission Unit) : Emission Unit := do
  block s!"switch ({selector})"
  arms
  arm "default" (return ())
  close

def braced (header : String) (texts : List String) : Emission Unit := do
  block header
  verbatim texts
  close

end Emission

end Cartridge.Code
