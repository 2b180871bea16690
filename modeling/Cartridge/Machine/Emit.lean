import Cartridge.Code.Construct
import Cartridge.Lower.Stmt

/-!
State machines in the generated program. An update runs the handler of the state and then takes the
first transition whose condition holds: the old state is left, the new one entered.
-/
namespace Cartridge.Machine.Emit

open Code Code.Emission Lower

def variableName (m : Machine) : String := Name.ident m.name ++ "_state"

def start (m : Machine) : Header := .procedure (Name.ident m.name ++ "_init")

def update (m : Machine) : Header := .procedure (Name.ident m.name ++ "_update")

def change (m : Machine) : Header :=
  let name := Name.ident m.name ++ "_transition"
  ⟨name, s!"static void {name}(uint8_t to)"⟩

def dispatcher (m : Machine) (occasion : String) : Header :=
  let name := s!"{Name.ident m.name}_{occasion}"
  ⟨name, s!"static void {name}(uint8_t s)"⟩

def prototypes (s : Scope) : List String :=
  s.game.machines.flatMap fun m => [(start m).prototype, (update m).prototype]

def stateNumbers (m : Machine) : List String :=
  [enumeration (m.states.map (fun s => Name.state m.name s.name)
      ++ [Name.upper m.name ++ "_STATE_COUNT"]),
    s!"uint8_t {variableName m};"]

def numbers (s : Scope) : Emission Unit :=
  if s.game.machines.isEmpty then return () else do
    each (fun m => ofConfig m.validate) s.game.machines
    banner
    verbatim (s.game.machines.flatMap stateNumbers)
    blank

def label (m : Machine) (state : State) : String := "case " ++ Name.state m.name state.name

def dispatch (s : Scope) (m : Machine) (occasion : String) (handler : State → List Stmt) :
    Emission Unit :=
  function (dispatcher m occasion) do
    choice "s" (each (fun state => arm (label m state) (Lower.block s (handler state)))
      (m.states.filter fun state => !(handler state).isEmpty))

def chain (m : Machine) : List Transition → Option Stmt
  | [] => none
  | t :: rest =>
    some (.cond t.test [.call (change m).name [.var (Name.state m.name t.target)] none]
      ((chain m rest).map fun s => [s]) none)

def leaving (m : Machine) (state : State) : List Transition :=
  m.transitions.filter fun t => t.source = state.name

def updateArm (s : Scope) (m : Machine) (state : State) : Emission Unit :=
  arm (label m state) do
    Lower.block s state.onUpdate
    Lower.block s (chain m (leaving m state)).toList

def machine (s : Scope) (m : Machine) : Emission Unit := do
  ofConfig m.validate
  let name := Name.ident m.name
  let var := variableName m
  dispatch s m "enter" State.onEnter
  dispatch s m "exit" State.onExit
  function (change m) (verbatim [s!"{name}_exit({var});", s!"{var} = to;", s!"{name}_enter(to);"])
  function (start m) (verbatim
    [s!"{var} = {Name.state m.name m.initial};", s!"{name}_enter({var});"])
  function (update m) (choice var (each (updateArm s m) m.states))

def functions (s : Scope) : Emission Unit :=
  if s.game.machines.isEmpty then return () else do
    banner
    each (machine s) s.game.machines

end Cartridge.Machine.Emit
