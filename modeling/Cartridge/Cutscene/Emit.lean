import Cartridge.Cutscene.Fade

/-! Cutscenes in the generated program: a frame counter and a switch over the frames with cues. -/
namespace Cartridge.Cutscene.Emit

open Code Code.Emission Lower

def frameLimit : Nat := 4294967296

def base (c : Cutscene) : String := "cutscene_" ++ Name.ident c.name

def frameName (c : Cutscene) : String := base c ++ "_frame"

def activeName (c : Cutscene) : String := base c ++ "_active"

def start (c : Cutscene) : Header := .procedure (base c ++ "_start")

def step (c : Cutscene) : Header := .procedure (Name.cutsceneStep c.name)

def prototypes (s : Scope) : List String :=
  s.game.cutscenes.flatMap fun c => [(start c).prototype, (step c).prototype]

def action (s : Scope) : Action → Emission Unit
  | .run stmts => Lower.block s stmts
  | .transition effect frames =>
    line s!"transition_start({Fade.effectName effect}, {frames.toNat});"

/-- Neighbouring cues of one frame together. -/
def groups : List Cue → List (Nat × List Action)
  | [] => []
  | cue :: rest =>
    match groups rest with
    | (frame, actions) :: later =>
      if frame = cue.frame then (frame, cue.action :: actions) :: later
      else (cue.frame, [cue.action]) :: (frame, actions) :: later
    | [] => [(cue.frame, [cue.action])]

def frameArm (s : Scope) (frame : Nat) (actions : List Action) : Emission Unit :=
  arm s!"case {frame}" (each (action s) actions)

def frameSwitch (s : Scope) (c : Cutscene) : Emission Unit :=
  match groups c.schedule with
  | [] => return ()
  | cues => choice (frameName c) (each (fun (frame, actions) => frameArm s frame actions) cues)

def stepBody (s : Scope) (c : Cutscene) : Emission Unit := do
  line s!"if (!{activeName c}) return;"
  frameSwitch s c
  block s!"if ({frameName c} >= {c.duration})"
  line s!"{activeName c} = 0;"
  reopen elseText
  line s!"{frameName c}++;"
  close

def cutscene (s : Scope) (c : Cutscene) : Emission Unit := do
  ofOption (if c.duration < frameLimit then some () else none)
  verbatim [s!"uint16_t {frameName c};", s!"uint8_t {activeName c};"]
  blank
  function (start c) (verbatim [s!"{frameName c} = 0;", s!"{activeName c} = 1;"])
  function (step c) (stepBody s c)

def emit (s : Scope) : Emission Unit :=
  if s.game.cutscenes.isEmpty then return () else do
    banner
    each (cutscene s) s.game.cutscenes

end Cartridge.Cutscene.Emit
