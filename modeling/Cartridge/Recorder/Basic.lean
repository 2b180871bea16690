import Cartridge.LogicBlock

/-!
A stack of open statement lists. Statements go to the innermost list; an else branch is attached
to the conditional recorded last.
-/
namespace Cartridge

/-- The open lists, innermost first, each in the order of recording. -/
structure Recorder where
  sinks : List (List Stmt)

namespace Recorder

def empty : Recorder := ⟨[]⟩

def depth (r : Recorder) : Nat := r.sinks.length

def isRecording (r : Recorder) : Bool := !r.sinks.isEmpty

def push (r : Recorder) : Recorder := ⟨[] :: r.sinks⟩

def pop (r : Recorder) : Recorder := ⟨r.sinks.tail⟩

def top (r : Recorder) : List Stmt := r.sinks.headD []

def last? (r : Recorder) : Option Stmt := r.top.getLast?

def emit (r : Recorder) (s : Stmt) : Except Error Recorder :=
  match r.sinks with
  | sink :: outer => .ok ⟨(sink ++ [s]) :: outer⟩
  | [] => .error .noOpenBlock

/-- Puts a statement in the place of the last one, and gives that back. -/
def replaceLast (r : Recorder) (s : Stmt) : Except Error (Recorder × Stmt) :=
  match r.sinks with
  | [] => .error .noOpenBlock
  | sink :: outer =>
    match sink.getLast? with
    | none => .error .noConditional
    | some old => .ok (⟨(sink.dropLast ++ [s]) :: outer⟩, old)

/-- Hangs an else branch on the last link of a chain of conditionals. -/
def extendChain (branch : List Stmt) : Stmt → Option Stmt
  | .cond test yes none loc => some (.cond test yes (some branch) loc)
  | .cond test yes (some [next]) loc =>
    (extendChain branch next).map fun next => .cond test yes (some [next]) loc
  | _ => none

def attachElse (r : Recorder) (branch : List Stmt) : Except Error Recorder :=
  match r.last? with
  | none => .error (if r.isRecording then .noConditional else .noOpenBlock)
  | some last =>
    match extendChain branch last with
    | none => .error .noConditional
    | some extended => (r.replaceLast extended).map Prod.fst

def emitAll (r : Recorder) (stmts : List Stmt) : Except Error Recorder :=
  stmts.foldlM emit r

def expand (r : Recorder) (b : LogicBlock) (args : List Expr) : Except Error Recorder :=
  if r.isRecording then (b.expand args).bind r.emitAll else .error .noOpenBlock

end Recorder

end Cartridge
