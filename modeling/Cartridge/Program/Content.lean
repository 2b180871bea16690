import Cartridge.Cutscene.Emit
import Cartridge.Game.Globals
import Cartridge.Game.Slots
import Cartridge.Machine.Emit
import Cartridge.Nav.Emit
import Cartridge.Physics.Emit
import Cartridge.Save.Emit
import Cartridge.Scene.Emit

/-! What each section of a generated file holds. -/
namespace Cartridge.Program

open Code Lower

def content (s : Scope) : Section → Emission Unit
  | .collisionHelpers => Physics.Emit.overlapHelper s
  | .saveData => Save.Emit.emit s
  | .poolData => Game.Slots.data s
  | .globals => Game.Globals.emit s
  | .stateMachineEnums => Machine.Emit.numbers s
  | .sceneEnum => Scene.Emit.numbers s
  | .poolFunctions => Game.Slots.functions s
  | .cutsceneFunctions => Cutscene.Emit.emit s
  | .stateMachineUpdate => Machine.Emit.functions s
  | .cameraTransition => Cutscene.Fade.emit s
  | .navigation => Nav.Emit.emit s
  | .physicsFunctions => Physics.Emit.emit s
  | .sceneFunctions => Scene.Emit.functions s
  | .entryPoint => Scene.Emit.entryPoint s
  | .paletteData | .tileData | .mapData | .soundData | .mixerData | .dialogData | .menuData
  | .animationData | .mixerFunctions | .linkFunctions | .animationUpdate | .tweenData => return ()

def prototypesOf (s : Scope) : Section → List String
  | .collisionHelpers => Physics.Emit.overlapPrototypes s
  | .saveData => Save.Emit.prototypes s
  | .poolFunctions => Game.Slots.prototypes s
  | .cutsceneFunctions => Cutscene.Emit.prototypes s
  | .stateMachineUpdate => Machine.Emit.prototypes s
  | .cameraTransition => Cutscene.Fade.prototypes s
  | .navigation => Nav.Emit.prototypes s
  | .physicsFunctions => Physics.Emit.prototypes s
  | .sceneFunctions => Scene.Emit.prototypes s
  | _ => []

def prototypes (s : Scope) : List String := Section.order.flatMap (prototypesOf s)

end Cartridge.Program
