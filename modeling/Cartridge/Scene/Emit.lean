import Cartridge.Code.Construct
import Cartridge.Cutscene.Fade
import Cartridge.Lower.Stmt

/-!
Scenes in the generated program. Changing the scene only notes the wish; it takes effect at the end
of the frame, so a frame ends in the scene it began in.
-/
namespace Cartridge.Scene.Emit

open Code Code.Emission Lower

/-- The occasions a scene has handlers for. -/
inductive Hook where
  | enter
  | frame
  | exit
  deriving DecidableEq, Repr

namespace Hook

def all : List Hook := [.enter, .frame, .exit]

def name : Hook → String
  | .enter => "enter"
  | .frame => "frame"
  | .exit => "exit"

def body (h : Hook) (scene : Scene) : List Stmt :=
  match h with
  | .enter => scene.onEnter
  | .frame => scene.onFrame
  | .exit => scene.onExit

def handler (h : Hook) (scene : Scene) : Header :=
  .procedure s!"scene_{Name.ident scene.name}_{h.name}"

def dispatcher (h : Hook) : Header :=
  match h with
  | .frame => .procedure "scene_frame"
  | .enter | .exit => ⟨s!"scene_{h.name}", s!"void scene_{h.name}(uint8_t s)"⟩

def selector : Hook → String
  | .frame => "current_scene"
  | .enter | .exit => "s"

end Hook

def hooks (scene : Scene) : List Hook := Hook.all.filter fun h => !(h.body scene).isEmpty

def change : Header := ⟨"change_scene", "void change_scene(uint8_t s)"⟩

def applyPending : Header :=
  ⟨"scene_apply_pending", "static void scene_apply_pending(void)"⟩

def prototypes (s : Scope) : List String :=
  if s.game.scenes.isEmpty then [] else
    ([change] ++ s.game.scenes.flatMap (fun scene => (hooks scene).map (·.handler scene))
      ++ Hook.all.map Hook.dispatcher).map Header.prototype

def numbers (s : Scope) : Emission Unit :=
  if s.game.scenes.isEmpty then return () else do
    banner
    line (enumeration (s.game.scenes.map (fun scene => Name.scene scene.name) ++ ["SCENE_COUNT"]))
    verbatim ["uint8_t current_scene;", "uint8_t next_scene;", "uint8_t scene_pending;"]
    blank

def handlerFunctions (s : Scope) (scene : Scene) : Emission Unit :=
  each (fun h => function (h.handler scene) (Lower.block s (h.body scene))) (hooks scene)

def dispatch (s : Scope) (h : Hook) : Emission Unit :=
  function h.dispatcher do
    choice h.selector (each
      (fun scene => arm ("case " ++ Name.scene scene.name) (line s!"{(h.handler scene).name}();"))
      (s.game.scenes.filter fun scene => !(h.body scene).isEmpty))

def functions (s : Scope) : Emission Unit :=
  if s.game.scenes.isEmpty then return () else do
    banner
    each (handlerFunctions s) s.game.scenes
    function change (verbatim ["next_scene = s;", "scene_pending = 1;"])
    each (dispatch s) Hook.all
    function applyPending (verbatim
      ["if (!scene_pending) return;", "scene_pending = 0;", "scene_exit(current_scene);",
        "current_scene = next_scene;", "scene_enter(current_scene);"])

/-- The scene the program begins in: the first one if the wanted one is unknown. -/
def start? (g : Game) : Option String :=
  (g.startScene?.filter fun name => (g.sceneIndex? name).isSome).or (g.scenes.head?.map Scene.name)

def call (function : String) : String := s!"{function}();"

def setUp (g : Game) : List String :=
  ["DISPLAY_ON;"]
    ++ (match start? g with
      | some name => [s!"current_scene = {Name.scene name};", "scene_enter(current_scene);"]
      | none => [])
    ++ g.machines.map fun m => call (Name.ident m.name ++ "_init")

def perFrame (g : Game) : List String :=
  let staged := (start? g).isSome
  (if staged then [call "scene_frame"] else [])
    ++ g.machines.map (fun m => call (Name.ident m.name ++ "_update"))
    ++ g.cutscenes.map (fun c => call (Name.cutsceneStep c.name))
    ++ (if Cutscene.Fade.isUsed g then [call "transition_step"] else [])
    ++ (if g.physics.isSome then [call "physics_step"] else [])
    ++ (if staged then [call "scene_apply_pending"] else [])
    ++ [call "wait_vbl_done"]

def main : Header := .procedure "main"

def entryPoint (s : Scope) : Emission Unit := do
  banner
  function main do
    verbatim (setUp s.game)
    braced "while (1)" (perFrame s.game)

end Cartridge.Scene.Emit
