import Cartridge.Location

/-! Problems found while a game is compiled. They are collected and reported together. -/
namespace Cartridge

inductive Severity where
  | error
  | warning
  deriving DecidableEq, Repr

def Severity.word : Severity → String
  | .error => "error"
  | .warning => "warning"

inductive Category where
  | reference
  | naming
  | physics
  | navigation
  | resource
  deriving DecidableEq, Repr

def Category.word : Category → String
  | .reference => "reference"
  | .naming => "naming"
  | .physics => "physics"
  | .navigation => "navigation"
  | .resource => "resource"

/-- A rule a game has to keep, by its number. -/
structure Rule where
  number : UInt16
  deriving DecidableEq, Repr

namespace Rule

def unknownScene : Rule := ⟨100⟩
def unknownEntity : Rule := ⟨101⟩
def unknownInitialScene : Rule := ⟨102⟩
def noScenes : Rule := ⟨103⟩
def duplicateName : Rule := ⟨200⟩
def tagWithoutEntities : Rule := ⟨300⟩
def bodyWithoutInstances : Rule := ⟨301⟩
def gridNotWalkable : Rule := ⟨400⟩
def entityLimit : Rule := ⟨500⟩
def timelineTooLong : Rule := ⟨501⟩

/-- The category a number's hundred stands for. -/
def category (r : Rule) : Category :=
  match r.number.toNat / 100 with
  | 1 => .reference
  | 2 => .naming
  | 3 => .physics
  | 4 => .navigation
  | _ => .resource

def text (r : Rule) : String := "V" ++ toString r.number.toNat

end Rule

/-- One broken rule, where it was found and where it was written. -/
structure Diagnostic where
  rule : Rule
  severity : Severity
  sectionName : String
  message : String
  location : Option Location
  deriving DecidableEq, Repr

namespace Diagnostic

def text (d : Diagnostic) : String :=
  (match d.location with
    | some l => l.text ++ ": "
    | none => "")
    ++ d.rule.text ++ " [" ++ d.rule.category.word ++ "/" ++ d.sectionName ++ "] " ++ d.message

def toWarning (d : Diagnostic) : Diagnostic := { d with severity := .warning }

def toJson (d : Diagnostic) : Json :=
  .ofMembers
    ([("code", .ofNat d.rule.number.toNat), ("severity", .ofString d.severity.word),
        ("category", .ofString d.rule.category.word), ("section", .ofString d.sectionName),
        ("message", .ofString d.message)]
      ++ Json.member? "location" (d.location.map Location.toJson))

end Diagnostic

/-- The diagnostics of one run, and how many were counted. -/
structure Diagnostics where
  errors : List Diagnostic
  warnings : List Diagnostic
  totalErrors : Nat
  totalWarnings : Nat
  deriving DecidableEq, Repr

namespace Diagnostics

def empty : Diagnostics := ⟨[], [], 0, 0⟩

def hasErrors (d : Diagnostics) : Bool := 0 < d.totalErrors

def pushError (d : Diagnostics) (x : Diagnostic) : Diagnostics :=
  { d with errors := d.errors ++ [x], totalErrors := d.totalErrors + 1 }

def pushWarning (d : Diagnostics) (x : Diagnostic) : Diagnostics :=
  { d with warnings := d.warnings ++ [x.toWarning], totalWarnings := d.totalWarnings + 1 }

/-- Turns every error into a warning after those there are. -/
def downgrade (d : Diagnostics) : Diagnostics :=
  { d.errors.foldl pushWarning { d with errors := [] } with totalErrors := 0 }

def text (d : Diagnostics) : String :=
  toString d.totalErrors ++ " validation error(s)"
    ++ String.join (d.errors.map fun x => "\n  " ++ x.text)

def toJson (d : Diagnostics) : Json :=
  .ofMembers
    [("errors", .arr (d.errors.map Diagnostic.toJson)),
      ("warnings", .arr (d.warnings.map Diagnostic.toJson)),
      ("total_errors", .ofNat d.totalErrors), ("total_warnings", .ofNat d.totalWarnings)]

end Diagnostics

end Cartridge
