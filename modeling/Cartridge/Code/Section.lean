/-! The sections of a generated file in their order. -/
namespace Cartridge.Code

inductive Section where
  | paletteData
  | tileData
  | mapData
  | collisionHelpers
  | soundData
  | mixerData
  | saveData
  | dialogData
  | menuData
  | poolData
  | globals
  | stateMachineEnums
  | animationData
  | sceneEnum
  | poolFunctions
  | mixerFunctions
  | linkFunctions
  | cutsceneFunctions
  | animationUpdate
  | stateMachineUpdate
  | tweenData
  | cameraTransition
  | navigation
  | physicsFunctions
  | sceneFunctions
  | entryPoint
  deriving DecidableEq, Repr

namespace Section

/-- Data is declared before the code that reads it. -/
def order : List Section :=
  [.paletteData, .tileData, .mapData, .collisionHelpers, .soundData, .mixerData, .saveData,
    .dialogData, .menuData, .poolData, .globals, .stateMachineEnums, .animationData, .sceneEnum,
    .poolFunctions, .mixerFunctions, .linkFunctions, .cutsceneFunctions, .animationUpdate,
    .stateMachineUpdate, .tweenData, .cameraTransition, .navigation, .physicsFunctions,
    .sceneFunctions, .entryPoint]

def words : Section → List String
  | .paletteData => ["palette", "data"]
  | .tileData => ["tile", "data"]
  | .mapData => ["map", "data"]
  | .collisionHelpers => ["collision", "helpers"]
  | .soundData => ["sound", "data"]
  | .mixerData => ["mixer", "data"]
  | .saveData => ["save", "data"]
  | .dialogData => ["dialog", "data"]
  | .menuData => ["menu", "data"]
  | .poolData => ["pool", "data"]
  | .globals => ["variables"]
  | .stateMachineEnums => ["state", "machine", "enums"]
  | .animationData => ["animation", "data"]
  | .sceneEnum => ["scene", "enum"]
  | .poolFunctions => ["pool", "functions"]
  | .mixerFunctions => ["mixer", "functions"]
  | .linkFunctions => ["link", "functions"]
  | .cutsceneFunctions => ["cutscene", "functions"]
  | .animationUpdate => ["animation", "update"]
  | .stateMachineUpdate => ["state", "machine", "update"]
  | .tweenData => ["tween", "data"]
  | .cameraTransition => ["camera", "transition"]
  | .navigation => ["navigation"]
  | .physicsFunctions => ["physics", "functions"]
  | .sceneFunctions => ["scene", "functions"]
  | .entryPoint => ["entry", "point"]

def name (s : Section) : String := String.intercalate " " s.words

def key (s : Section) : String := String.intercalate "_" s.words

/-- Whether a section is filled only by emitters from outside. -/
def isExternal : Section → Bool
  | .paletteData | .tileData | .mapData | .soundData | .mixerData | .dialogData | .menuData
  | .animationData | .mixerFunctions | .linkFunctions | .animationUpdate | .tweenData => true
  | _ => false

end Section

end Cartridge.Code
