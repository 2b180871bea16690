import Cartridge.Proofs.Code.Defined
import Cartridge.Proofs.Lower.Stmt
import Cartridge.Proofs.Program.Fault
import Cartridge.Proofs.Program.Inert

/-!
The functions of a file. Statements define none, so that the functions of each section can be listed
from the game alone, and those of the file are the functions of its sections in their order.
-/
namespace Cartridge

open Code Code.Emission Lower

namespace Lower

variable {s : Scope}

private theorem plain_all : (∀ a, (stmt s a).Plain) ∧ ∀ no, (branch s no).Plain := by
  have hblock {stmts : List Stmt} (h : ∀ a ∈ stmts, (stmt s a).Plain) : (block s stmts).Plain :=
    block_eq_each stmts ▸ .each h
  apply Lower.induction
  case assign => simp [stmt, origin]
  case cond =>
    intro test yes no loc hyes hno
    simp [stmt, origin, hblock hyes, hno]
  case loop =>
    intro test body loc hbody
    simp [stmt, origin, hblock hbody]
  case range =>
    intro counter first last body loc hbody
    simp [stmt, origin, hblock hbody]
  case call => simp [stmt, origin]
  case changeScene =>
    intro scene loc
    rw [stmt, origin]
    cases s.game.sceneIndex? scene <;> simp [problem]
  case raw => simp [stmt, origin]
  case assignIndex => simp [stmt, origin]
  case absent => simp [branch]
  case chain =>
    intro test yes no loc hyes hno
    simp [branch, origin, hblock hyes, hno]
  case other =>
    intro stmts hother hstmts
    simp [branch_else hother, hblock hstmts]

/-- Statements define no function. -/
@[simp] theorem plain_block (stmts : List Stmt) : (block s stmts).Plain :=
  block_eq_each stmts ▸ .each fun a _ => plain_all.1 a

end Lower

namespace Scene.Emit

variable {s : Scope}

def definitions (g : Game) : List Header :=
  if g.scenes.isEmpty then [] else
    (g.scenes.flatMap fun scene => (hooks scene).map fun h => h.handler scene) ++
      ([change] ++ (Hook.all.map Hook.dispatcher ++ [applyPending]))

theorem defines_functions : (functions s).Defines (definitions s.game) := by
  have hscene (scene : Scene) : (handlerFunctions s scene).Defines ((hooks scene).map fun h => h.handler scene) :=
    .each_one fun h _ => defines_function (plain_block _)
  unfold functions definitions
  split
  next => exact defines_pure
  next =>
    refine .after (.bind (.each fun scene _ => hscene scene) ?_) (by simp)
    refine .bind (defines_function (by simp)) (.bind (.each_one fun h _ => ?_) (defines_function (by simp)))
    exact defines_function (by simp)

theorem defines_entryPoint : (entryPoint s).Defines [main] := .after (defines_function (by simp)) (by simp)

end Scene.Emit

namespace Machine.Emit

variable {s : Scope}

def definitions (m : Machine) : List Header :=
  [dispatcher m "enter", dispatcher m "exit", change m, start m, update m]

theorem defines_machine (m : Machine) : (machine s m).Defines (definitions m) := by
  refine .after (.bind (defines_function (by simp)) (.bind (defines_function (by simp)) ?_)) (by simp)
  refine .bind (defines_function (by simp)) (.bind (defines_function (by simp)) ?_)
  exact defines_function (by simp [updateArm])

theorem defines_functions : (functions s).Defines (s.game.machines.flatMap definitions) :=
  .unless_empty (.after (.each fun m _ => defines_machine m) (by simp))

end Machine.Emit

namespace Cutscene

variable {s : Scope}

private theorem plain_stepBody (c : Cutscene) : (Emit.stepBody s c).Plain := by
  have haction (a : Action) : (Emit.action s a).Plain := by
    cases a <;> simp [Emit.action]
  have hswitch : (Emit.frameSwitch s c).Plain := by
    unfold Emit.frameSwitch
    split
    next => exact every_pure ()
    next => simp [Emit.frameArm, haction]
  simp [Emit.stepBody, hswitch]

theorem Emit.defines_cutscene (c : Cutscene) : (Emit.cutscene s c).Defines [Emit.start c, Emit.step c] := by
  refine .after (.after (.after ?_ (by simp)) (by simp)) (by simp)
  exact .bind (defines_function (by simp)) (defines_function (plain_stepBody c))

theorem Emit.defines_emit :
    (Emit.emit s).Defines (s.game.cutscenes.flatMap fun c => [Emit.start c, Emit.step c]) :=
  .unless_empty (.after (.each fun c _ => Emit.defines_cutscene c) (by simp))

def Fade.definitions (g : Game) : List Header := if Fade.isUsed g then [Fade.start, Fade.step] else []

theorem Fade.defines_emit : (Fade.emit s).Defines (Fade.definitions s.game) := by
  unfold Fade.emit Fade.definitions
  split
  next =>
    refine .after (.after (.after ?_ (by simp)) (by simp)) (by simp)
    exact .bind (defines_function (by simp)) (defines_function (by simp [Fade.stepBody]))
  next => exact defines_pure

end Cutscene

namespace Game.Slots

variable {s : Scope}

theorem defines_functions :
    (functions s).Defines ((livePools s.game).flatMap fun p => [spawn p, despawn p]) := by
  have hpool (p : Pool) : (poolFunctions p).Defines [spawn p, despawn p] :=
    .bind (defines_function (by simp)) (defines_function (by simp))
  exact .unless_empty (.after (.each fun p _ => hpool p) (by simp))

end Game.Slots

namespace Physics.Emit

variable {s : Scope}

def helperDefinitions (g : Game) : List Header := if g.physics.isSome then [overlap] else []

theorem defines_overlapHelper : (overlapHelper s).Defines (helperDefinitions s.game) := by
  unfold overlapHelper helperDefinitions
  split
  next => exact .after (defines_function (by simp)) (by simp)
  next => exact defines_pure

def definitions (g : Game) : List Header :=
  if g.physics.isSome then
    (if g.instances.isEmpty then [] else [gravityAt, integrate, bounce, separate, collide]) ++ [step]
  else []

private theorem defines_world (w : World) : (world s w).Defines
    ((if s.game.instances.isEmpty then [] else [gravityAt, integrate, bounce, separate, collide]) ++ [step]) := by
  have hpair (p : Pair) : (pairLoops s p).Plain := by simp [pairLoops]
  have hcollide : (collideBody s w).Plain := by
    unfold collideBody
    split
    next => exact every_pure ()
    next => simp [hpair]
  refine .after (.after ?_ (by simp)) (by simp)
  split
  next => exact defines_function (every_pure ())
  next =>
    refine .after (.after ?_ (by simp)) (by simp)
    show Emission.Defines _ [gravityAt, integrate, bounce, separate, collide, step]
    refine .bind (defines_function (by simp [gravityBody])) (.bind (defines_function (by simp [integrateBody])) ?_)
    refine .bind (defines_function (by simp)) (.bind (defines_function (by simp [separateBody, separateOn])) ?_)
    exact .bind (defines_function hcollide) (defines_function (by simp))

theorem defines_emit : (emit s).Defines (definitions s.game) := by
  unfold emit definitions
  cases s.game.physics with
  | none => exact defines_pure
  | some w => exact defines_world w

end Physics.Emit

namespace Nav.Emit

variable {s : Scope}

def helperDefinitions : List Header := [heapBefore, push, pop, estimate, walk]

private theorem defines_helpers : helpers.Defines helperDefinitions := by
  refine .bind (defines_function (by simp)) (.bind (defines_function (by simp [pushBody])) ?_)
  refine .bind (defines_function (by simp [popBody])) (.bind (defines_function (by simp)) ?_)
  exact defines_function (by simp)

def definitions (g : Game) : List Header :=
  if g.maps.isEmpty then [] else helperDefinitions ++ ([search] ++ g.maps.map find)

theorem defines_emit : (emit s).Defines (definitions s.game) := by
  have hmap (m : Map) : (map m).Defines [find m] :=
    .after (.after (.after (defines_function (by simp)) (by simp)) (by simp)) (by simp)
  unfold emit definitions
  split
  next => exact defines_pure
  next =>
    refine .after (.after (.after (.after (.bind defines_helpers ?_) (by simp)) (by simp)) (by simp)) (by simp)
    exact .bind (defines_function (by simp [searchBody, neighbourBody])) (.each_one fun m _ => hmap m)

end Nav.Emit

namespace Save.Emit

variable {s : Scope}

def checksumDefinitions (c : Checksum) : List Header := if c = .none then [] else [checksum]

def definitions (layout : Schema) : List Header :=
  checksumDefinitions layout.checksum ++
    ((layout.fields.flatMap fun f => [getter f, setter f]) ++ [reset, validate, commit, load])

private theorem defines_schema (layout : Schema) : (schema s layout).Defines (definitions layout) := by
  have hchecksum : (checksumFunction layout.checksum).Defines (checksumDefinitions layout.checksum) := by
    cases layout.checksum with
    | none => exact defines_pure
    | xor | sum16 => exact defines_function (by simp)
    | crc8 => exact defines_function (by simp [crcBody])
  have haccessors (f : Field) : (accessors s f).Defines [getter f, setter f] :=
    .bind (defines_function (by simp)) (defines_function (by simp))
  refine .after (.after (.after (.after (.bind hchecksum ?_) (by simp)) (by simp)) (by simp)) (by simp)
  refine .bind (.each fun f _ => haccessors f) (.bind (defines_function (by simp)) ?_)
  refine .bind (defines_function (by simp)) (.bind (defines_function (by simp)) ?_)
  exact defines_function (by simp [loadBody])

theorem defines_emit : (emit s).Defines (s.game.save.toList.flatMap definitions) := by
  unfold emit
  cases s.game.save with
  | none => exact defines_pure
  | some layout => simpa using defines_schema layout

end Save.Emit

namespace Program

variable {s : Scope}

def definitionsOf (g : Game) : Section → List Header
  | .collisionHelpers => Physics.Emit.helperDefinitions g
  | .saveData => g.save.toList.flatMap Save.Emit.definitions
  | .poolFunctions => (Game.Slots.livePools g).flatMap fun p => [Game.Slots.spawn p, Game.Slots.despawn p]
  | .cutsceneFunctions => g.cutscenes.flatMap fun c => [Cutscene.Emit.start c, Cutscene.Emit.step c]
  | .stateMachineUpdate => g.machines.flatMap Machine.Emit.definitions
  | .cameraTransition => Cutscene.Fade.definitions g
  | .navigation => Nav.Emit.definitions g
  | .physicsFunctions => Physics.Emit.definitions g
  | .sceneFunctions => Scene.Emit.definitions g
  | .entryPoint => [Scene.Emit.main]
  | _ => []

theorem defines_content (place : Section) : (content s place).Defines (definitionsOf s.game place) := by
  cases place with
  | collisionHelpers => exact Physics.Emit.defines_overlapHelper
  | saveData => exact Save.Emit.defines_emit
  | poolData => exact Plain.defines (by simp [content, Game.Slots.data])
  | globals =>
    have harray (a : ArrayDecl) : (Game.Globals.array a).Plain := by simp [Game.Globals.array]
    exact Plain.defines (by simp [content, Game.Globals.emit, harray])
  | stateMachineEnums => exact Plain.defines (by simp [content, Machine.Emit.numbers])
  | sceneEnum => exact Plain.defines (by simp [content, Scene.Emit.numbers])
  | poolFunctions => exact Game.Slots.defines_functions
  | cutsceneFunctions => exact Cutscene.Emit.defines_emit
  | stateMachineUpdate => exact Machine.Emit.defines_functions
  | cameraTransition => exact Cutscene.Fade.defines_emit
  | navigation => exact Nav.Emit.defines_emit
  | physicsFunctions => exact Physics.Emit.defines_emit
  | sceneFunctions => exact Scene.Emit.defines_functions
  | entryPoint => exact Scene.Emit.defines_entryPoint
  | _ => exact defines_pure

theorem plain_preamble (prototypes : List String) : (Preamble.emit s prototypes).Plain := by
  simp [Preamble.emit, Preamble.boundsCheck]

theorem plain_checks : (Check.emit s).Plain := every_checks (by simp) (by simp)

def definitions (g : Game) : List Header := Section.order.flatMap (definitionsOf g)

/-- A file defines the functions of its sections in their order. -/
theorem Generator.defines_file {g : Generator} (h : g.emitters = []) : g.file.Defines (definitions g.game) := by
  refine .after (.after (.each fun place _ => ?_) plain_checks) (plain_preamble _)
  rw [sectionCode_eq h]
  exact .after (defines_content place) (by simp)

end Program

end Cartridge
