import Cartridge.Recorder.Basic

/-!
Authoring scripts: nested recorder operations as data, run until the first error. What a script
asks about the recorder is kept in a log.
-/
namespace Cartridge

/-- A recorder operation with the operations of its body. -/
inductive Operation where
  | emit (s : Stmt)
  | replaceLast (s : Stmt)
  | when (test : Expr) (body : List Operation)
  | otherwise (body : List Operation)
  | otherwiseWhen (test : Expr) (body : List Operation)
  | repeatWhile (test : Expr) (body : List Operation)
  | forRange (counter : String) (first last : Int32) (body : List Operation)
  | expand (block : String) (args : List Expr)
  | record (body : List Operation)
  /-- Runs its body in the open list and goes on after an error. -/
  | attempt (body : List Operation)
  | fail (text : String)
  | askLast
  | askDepth

/-- What a script learns. -/
inductive Event where
  | replaced (old : Stmt)
  | recorded (stmts : List Stmt)
  | attempted (outcome : Except Error Unit) (depth : Nat)
  | last (s : Option Stmt)
  | depth (n : Nat)

/-- The recorder, the logic blocks known so far, and the log, last event first. -/
structure Session where
  recorder : Recorder
  blocks : List LogicBlock
  log : List Event

namespace Session

def start : Session := ⟨.empty, [], []⟩

def note (s : Session) (e : Event) : Session := { s with log := e :: s.log }

def update (s : Session) : Except Error Recorder → Session × Except Error Unit
  | .ok r => ({ s with recorder := r }, .ok ())
  | .error e => (s, .error e)

def block? (s : Session) (name : String) : Option LogicBlock :=
  s.blocks.find? fun b => b.name = name

/-- Runs a body in a list of its own, which is closed again whatever happens. -/
def enclosed (body : Session → Session × Except Error Unit) (s : Session) :
    Session × Except Error (List Stmt) :=
  let (inner, outcome) := body { s with recorder := s.recorder.push }
  ({ inner with recorder := inner.recorder.pop }, outcome.map fun _ => inner.recorder.top)

def recorded (body : Session → Session × Except Error Unit) (s : Session)
    (use : Recorder → List Stmt → Except Error Recorder) : Session × Except Error Unit :=
  match enclosed body s with
  | (s, .ok stmts) => s.update (use s.recorder stmts)
  | (s, .error e) => (s, .error e)

end Session

namespace Operation

mutual

def run : Operation → Session → Session × Except Error Unit
  | .emit stmt, s => s.update (s.recorder.emit stmt)
  | .replaceLast stmt, s =>
    match s.recorder.replaceLast stmt with
    | .ok (r, old) => ({ s with recorder := r }.note (.replaced old), .ok ())
    | .error e => (s, .error e)
  | .when test body, s =>
    s.recorded (runAll body) fun r stmts => r.emit (.cond test stmts none none)
  | .otherwise body, s => s.recorded (runAll body) Recorder.attachElse
  | .otherwiseWhen test body, s =>
    s.recorded (runAll body) fun r stmts => r.attachElse [.cond test stmts none none]
  | .repeatWhile test body, s =>
    s.recorded (runAll body) fun r stmts => r.emit (.loop test stmts none)
  | .forRange counter first last body, s =>
    s.recorded (runAll body) fun r stmts => r.emit (.range counter first last stmts none)
  | .expand block args, s =>
    match s.block? block with
    | some b => s.update (s.recorder.expand b args)
    | none => (s, .error (.unknown .logicBlock block))
  | .record body, s =>
    match s.enclosed (runAll body) with
    | (s, .ok stmts) => (s.note (.recorded stmts), .ok ())
    | (s, .error e) => (s, .error e)
  | .attempt body, s =>
    let (s, outcome) := runAll body s
    (s.note (.attempted outcome s.recorder.depth), .ok ())
  | .fail text, s => (s, .error (.invalid (.other text)))
  | .askLast, s => (s.note (.last s.recorder.last?), .ok ())
  | .askDepth, s => (s.note (.depth s.recorder.depth), .ok ())

def runAll : List Operation → Session → Session × Except Error Unit
  | [], s => (s, .ok ())
  | o :: os, s =>
    match run o s with
    | (s, .ok ()) => runAll os s
    | (s, .error e) => (s, .error e)

end

end Operation

namespace Session

/-- Records a logic block; one that fails is not kept. -/
def defineBlock (s : Session) (name : String) (params : List String) (body : List Operation) :
    Session × Except Error LogicBlock :=
  match s.enclosed (Operation.runAll body) with
  | (s, .ok stmts) =>
    let b : LogicBlock := ⟨name, params, stmts⟩
    ({ s with blocks := b :: s.blocks }, .ok b)
  | (s, .error e) => (s, .error e)

end Session

namespace Script

/-- A logic block to be recorded. -/
structure Block where
  name : String
  params : List String
  body : List Operation

/-- A line of the log of a whole script. -/
inductive Entry where
  | event (e : Event)
  | block (name : String) (result : Except Error LogicBlock)
  /-- The outcome of a step, and how many lists are open after it. -/
  | step (i : Nat) (outcome : Except Error Unit) (depth : Nat)

def drain (s : Session) : List Entry × Session :=
  (s.log.reverse.map .event, { s with log := [] })

def runBlocks : List Block → Session → List Entry × Session
  | [], s => ([], s)
  | b :: rest, s =>
    let (s, result) := s.defineBlock b.name b.params b.body
    let (events, s) := drain s
    let (later, s) := runBlocks rest s
    (events ++ .block b.name result :: later, s)

/-- Runs steps in order, each whatever became of the one before it. -/
def runSteps (i : Nat) : List Operation → Session → List Entry
  | [], _ => []
  | o :: rest, s =>
    let (s, outcome) := o.run s
    let (events, s) := drain s
    events ++ .step i outcome s.recorder.depth :: runSteps (i + 1) rest s

end Script

/-- Logic blocks, and steps that may use them. -/
structure Script where
  blocks : List Script.Block
  steps : List Operation

def Script.run (s : Script) : List Script.Entry :=
  let (entries, session) := runBlocks s.blocks .start
  entries ++ runSteps 0 s.steps session

end Cartridge
