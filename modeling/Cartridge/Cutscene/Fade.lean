import Cartridge.Code.Construct
import Cartridge.Lower.Stmt

/-! Screen effects, which go through levels of the background palette. -/
namespace Cartridge

def Cutscene.fades (c : Cutscene) : Bool := Cutscene.Step.anyFades c.steps

namespace Cutscene.Fade

open Code Code.Emission Lower

/-- Palettes from the normal one to all white. -/
def levels : List UInt8 := [0xE4, 0x90, 0x40, 0x00]

/-- The palette of a level; levels past the last are all white. -/
def palette (level : Nat) : UInt8 := levels.getD level 0

/-- The level after some frames of an effect. An effect lasts at least one frame. -/
def level (elapsed frames : UInt8) : Nat := min (elapsed.toNat * 4 / max frames.toNat 1) 3

def paletteAt (effect : Effect) (elapsed frames : UInt8) : UInt8 :=
  match effect with
  | .fadeOut => palette (level elapsed frames)
  | .fadeIn => palette (3 - level elapsed frames)
  | .flash => if elapsed &&& 4 = 0 then palette 0 else palette 3

def effectName : Effect → String
  | .fadeOut => "TRANSITION_FADE_OUT"
  | .fadeIn => "TRANSITION_FADE_IN"
  | .flash => "TRANSITION_FLASH"

def start : Header :=
  ⟨"transition_start", "void transition_start(uint8_t effect, uint8_t frames)"⟩

def step : Header := .procedure "transition_step"

def isUsed (g : Game) : Bool := g.cutscenes.any Cutscene.fades

def prototypes (s : Scope) : List String :=
  if isUsed s.game then [start.prototype, step.prototype] else []

def data : List String :=
  Effect.all.zipIdx.map (fun (effect, i) => constant (effectName effect) i)
    ++ [s!"static const uint8_t fade_levels[4] = {initializer (levels.map Text.hexByte)};",
      "uint8_t transition_effect;", "uint8_t transition_frames;", "uint8_t transition_elapsed;",
      "uint8_t transition_active;"]

def stepBody : Emission Unit := do
  verbatim ["uint8_t level;", "if (!transition_active) return;",
    "level = (uint8_t)(((uint16_t)transition_elapsed * 4) / transition_frames);",
    "if (level > 3) level = 3;"]
  block "switch (transition_effect)"
  arm "case TRANSITION_FADE_OUT" (line "BGP_REG = fade_levels[level];")
  arm "case TRANSITION_FADE_IN" (line "BGP_REG = fade_levels[3 - level];")
  arm "default" (line "BGP_REG = (transition_elapsed & 4) ? fade_levels[3] : fade_levels[0];")
  close
  braced "if (++transition_elapsed >= transition_frames)"
    ["transition_active = 0;",
      "BGP_REG = transition_effect == TRANSITION_FADE_OUT ? fade_levels[3] : fade_levels[0];"]

def emit (s : Scope) : Emission Unit :=
  if isUsed s.game then do
    banner
    verbatim data
    blank
    function start (verbatim
      ["transition_effect = effect;", "transition_frames = frames ? frames : 1;",
        "transition_elapsed = 0;", "transition_active = 1;"])
    function step stepBody
  else return ()

end Cutscene.Fade

end Cartridge
