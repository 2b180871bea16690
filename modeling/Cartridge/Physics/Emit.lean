import Cartridge.Code.Construct
import Cartridge.Game.Slots
import Cartridge.Lower.Stmt
import Cartridge.Physics.Simulation

/-! The physics of the generated program, which computes what the simulation computes. -/
namespace Cartridge.Physics.Emit

open Code Code.Emission Lower

def overlap : Header :=
  ⟨"aabb_overlap", "uint8_t aabb_overlap(int16_t ax, int16_t ay, uint8_t aw, uint8_t ah, "
    ++ "int16_t bx, int16_t by, uint8_t bw, uint8_t bh)"⟩

def overlapPrototypes (s : Scope) : List String :=
  if s.game.physics.isSome then [overlap.prototype] else []

def overlapHelper (s : Scope) : Emission Unit :=
  if s.game.physics.isSome then do
    banner
    function overlap (verbatim
      ["return ax < bx + bw && bx < ax + aw &&", "       ay < by + bh && by < ay + ah;"])
  else return ()

def step : Header := .procedure "physics_step"

def prototypes (s : Scope) : List String :=
  if s.game.physics.isSome then [step.prototype] else []

def fixedConstant (name : String) (value : Fixed) : String := s!"#define {name} {value.raw.toInt}"

def limitText (w : World) (entity : String) (limit : BodyDef → Fixed) : String :=
  toString (((w.body? entity).map limit).getD .greatest).raw.toInt

def massText (w : World) (entity : String) : String :=
  toString (((w.body? entity).map BodyDef.mass).getD 0).toNat

def frictionText (w : World) (entity : String) : String :=
  match (w.body? entity).bind BodyDef.friction with
  | some f => toString f.raw.toInt
  | none => "PHYS_FRICTION"

def bodyTable (w : World) (all : List Instance) : List String :=
  let column (declarator : String) (value : String → String) : String :=
    Game.Slots.column declarator (all.map fun i => value i.entity)
  [column "const uint8_t phys_mass" (massText w),
    column "const int16_t phys_friction" (frictionText w),
    column "const int16_t phys_max_vx" fun entity => limitText w entity BodyDef.maxVx,
    column "const int16_t phys_max_vy" fun entity => limitText w entity BodyDef.maxVy]

def zoneColumn (declarator : String) (values : List Int) : String :=
  s!"{declarator}[PHYS_ZONE_COUNT] = {initializer (values.map toString)};"

def zoneTable (zones : List Zone) : List String :=
  if zones.isEmpty then [] else
    [constant "PHYS_ZONE_COUNT" zones.length,
      zoneColumn "const int16_t phys_zone_x" (zones.map fun z => z.x.toInt),
      zoneColumn "const int16_t phys_zone_y" (zones.map fun z => z.y.toInt),
      zoneColumn "const uint16_t phys_zone_w" (zones.map fun z => z.width.toNat),
      zoneColumn "const uint16_t phys_zone_h" (zones.map fun z => z.height.toNat),
      zoneColumn "const int16_t phys_zone_g" (zones.map fun z => z.gravity.raw.toInt)]

def tables (w : World) (all : List Instance) : List String :=
  [fixedConstant "PHYS_GRAVITY" w.gravity, fixedConstant "PHYS_FRICTION" w.friction,
      fixedConstant "PHYS_BOUNCE" w.bounce]
    ++ bodyTable w all ++ zoneTable w.zones

def gravityAt : Header :=
  ⟨"phys_gravity_at", "static int16_t phys_gravity_at(int16_t x, int16_t y)"⟩

def gravityBody (w : World) : Emission Unit := do
  if w.zones.isEmpty then verbatim ["(void)x;", "(void)y;"] else do
    line "uint8_t z;"
    braced "for (z = 0; z < PHYS_ZONE_COUNT; z++)"
      ["if (x >= phys_zone_x[z] && (int32_t)x < (int32_t)phys_zone_x[z] + phys_zone_w[z] &&",
        "    y >= phys_zone_y[z] && (int32_t)y < (int32_t)phys_zone_y[z] + phys_zone_h[z])",
        "    return phys_zone_g[z];"]
  line "return PHYS_GRAVITY;"

def integrate : Header := ⟨"physics_integrate", "static void physics_integrate(void)"⟩

def clampLines (v : String) : List String :=
  [s!"if (ent_{v}[i] > phys_max_{v}[i]) ent_{v}[i] = phys_max_{v}[i];",
    s!"if (ent_{v}[i] < -phys_max_{v}[i]) ent_{v}[i] = -phys_max_{v}[i];"]

def integrateBody : Emission Unit := do
  line "uint8_t i;"
  braced "for (i = 0; i < MAX_ENTITIES; i++)"
    (["if (!ent_active[i] || phys_mass[i] == 0) continue;",
        "ent_vy[i] += phys_gravity_at(ent_x[i], ent_y[i]);",
        "ent_vx[i] = (int16_t)(((int32_t)ent_vx[i] * phys_friction[i]) >> 8);"]
      ++ clampLines "vx" ++ clampLines "vy"
      ++ ["ent_x[i] += ent_vx[i] >> 8;", "ent_y[i] += ent_vy[i] >> 8;"])

def bounce : Header :=
  ⟨"phys_bounce", "static int16_t phys_bounce(int16_t v, uint16_t ratio)"⟩

def bounceBody : List String :=
  ["int32_t scale = (int32_t)ratio * 2;", "if (scale > 256) scale = 256;",
    "return (int16_t)-(((((int32_t)v * PHYS_BOUNCE) >> 8) * scale) >> 8);"]

def separate : Header :=
  ⟨"physics_separate", "static void physics_separate(uint8_t a, uint8_t b)"⟩

def farText (axis size slot : String) : String :=
  s!"(int32_t)ent_{axis}[{slot}] + ent_{size}[{slot}]"

def separateOn (axis size delta velocity : String) : Emission Unit := do
  let farA := farText axis size "a"
  let farB := farText axis size "b"
  verbatim [s!"hi = {farA} < {farB} ? {farA} : {farB};",
    s!"lo = ent_{axis}[a] > ent_{axis}[b] ? ent_{axis}[a] : ent_{axis}[b];",
    "overlap = hi - lo;", "move_a = (int16_t)((overlap * ra) >> 8);",
    "move_b = (int16_t)((overlap * rb) >> 8);"]
  block s!"if ({delta} >= 0)"
  verbatim [s!"ent_{axis}[a] -= move_a;", s!"ent_{axis}[b] += move_b;",
    s!"if (ent_{velocity}[a] > 0) ent_{velocity}[a] = phys_bounce(ent_{velocity}[a], ra);",
    s!"if (ent_{velocity}[b] < 0) ent_{velocity}[b] = phys_bounce(ent_{velocity}[b], rb);"]
  reopen elseText
  verbatim [s!"ent_{axis}[a] += move_a;", s!"ent_{axis}[b] -= move_b;",
    s!"if (ent_{velocity}[a] < 0) ent_{velocity}[a] = phys_bounce(ent_{velocity}[a], ra);",
    s!"if (ent_{velocity}[b] > 0) ent_{velocity}[b] = phys_bounce(ent_{velocity}[b], rb);"]
  close

def separateBody : Emission Unit := do
  verbatim ["uint8_t ma = phys_mass[a];", "uint8_t mb = phys_mass[b];", "uint16_t ra, rb;",
    "int32_t dx, dy, lo, hi, overlap;", "int16_t move_a, move_b;",
    "if (ma == 0 && mb == 0) return;"]
  block "if (ma == 0)"
  verbatim ["ra = 0;", "rb = 256;"]
  reopen (elseIfText "mb == 0")
  verbatim ["ra = 256;", "rb = 0;"]
  reopen elseText
  verbatim ["ra = ((uint16_t)mb << 8) / (ma + mb);", "rb = ((uint16_t)ma << 8) / (ma + mb);"]
  close
  verbatim
    ["dx = ((int32_t)ent_x[b] * 2 + ent_w[b]) - ((int32_t)ent_x[a] * 2 + ent_w[a]);",
      "dy = ((int32_t)ent_y[b] * 2 + ent_h[b]) - ((int32_t)ent_y[a] * 2 + ent_h[a]);"]
  block "if ((dx < 0 ? -dx : dx) > (dy < 0 ? -dy : dy))"
  separateOn "x" "w" "dx" "vx"
  reopen elseText
  separateOn "y" "h" "dy" "vy"
  close

def collide : Header := ⟨"physics_collide", "static void physics_collide(void)"⟩

def pairLoops (s : Scope) (p : Pair) : Emission Unit := do
  let first := if p.tagA = p.tagB then "hit_a + 1" else "0"
  line s!"/* {p.tagA} / {p.tagB} */"
  block "for (hit_a = 0; hit_a < MAX_ENTITIES; hit_a++)"
  line s!"if (!ent_active[hit_a] || ent_tag[hit_a] != {Name.tag p.tagA}) continue;"
  block s!"for (hit_b = {first}; hit_b < MAX_ENTITIES; hit_b++)"
  verbatim
    [s!"if (hit_b == hit_a || !ent_active[hit_b] || ent_tag[hit_b] != {Name.tag p.tagB}) continue;",
      "if (!aabb_overlap(ent_x[hit_a], ent_y[hit_a], ent_w[hit_a], ent_h[hit_a],",
      "                  ent_x[hit_b], ent_y[hit_b], ent_w[hit_b], ent_h[hit_b])) continue;"]
  verbatim (if p.solid then ["physics_separate(hit_a, hit_b);"] else [])
  Lower.block s p.onHit
  close
  close

/-- The pairs both tags of which some entity has. -/
def livePairs (g : Game) (w : World) : List Pair :=
  w.pairs.filter fun p => g.hasTag p.tagA && g.hasTag p.tagB

def collideBody (s : Scope) (w : World) : Emission Unit :=
  match livePairs s.game w with
  | [] => return ()
  | pairs => do
    line "uint8_t hit_a, hit_b;"
    each (pairLoops s) pairs

def world (s : Scope) (w : World) : Emission Unit := do
  ofConfig w.validate
  banner
  if s.game.instances.isEmpty then function step (return ()) else do
    verbatim (tables w s.game.instances)
    blank
    function gravityAt (gravityBody w)
    function integrate integrateBody
    function bounce (verbatim bounceBody)
    function separate separateBody
    function collide (collideBody s w)
    function step (verbatim ["physics_integrate();", "physics_collide();"])

def emit (s : Scope) : Emission Unit :=
  match s.game.physics with
  | some w => world s w
  | none => return ()

end Cartridge.Physics.Emit
