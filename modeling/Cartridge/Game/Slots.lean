import Cartridge.Code.Construct
import Cartridge.Lower.Stmt

/-!
The instance table of the generated program, column by column, and the functions that take slots of
a pool and give them back.
-/
namespace Cartridge.Game.Slots

open Code Code.Emission Lower

def slotConstant (i : Instance) (slot : Nat) : Option String :=
  match i.pool with
  | none => some (constant ("ENT_" ++ Name.upper i.entity) slot)
  | some _ => none

def firstName (pool : String) : String := s!"POOL_{Name.upper pool}_FIRST"

def capacityName (pool : String) : String := s!"POOL_{Name.upper pool}_CAPACITY"

def rangeConstants (g : Game) (p : Pool) : List String :=
  match g.poolRange? p.name with
  | some r => [constant (firstName p.name) r.first, constant (capacityName p.name) r.size]
  | none => []

def column (declarator : String) (values : List String) : String :=
  s!"{declarator}[MAX_ENTITIES] = {initializer values};"

/-- The columns of the table. Slots of pools are free at first. -/
def columns (all : List Instance) : List String :=
  [column "int16_t ent_x" (all.map fun i => toString i.x.toInt),
    column "int16_t ent_y" (all.map fun i => toString i.y.toInt),
    "int16_t ent_vx[MAX_ENTITIES];",
    "int16_t ent_vy[MAX_ENTITIES];",
    column "const uint8_t ent_w" (all.map fun i => toString i.width.toNat),
    column "const uint8_t ent_h" (all.map fun i => toString i.height.toNat),
    column "const uint8_t ent_tag" (all.map fun i => Name.tag i.tag),
    column "uint8_t ent_active" (all.map fun i => if i.pool.isNone then "1" else "0")]

def table (g : Game) : List String :=
  constant "MAX_ENTITIES" g.instances.length
    :: g.instances.zipIdx.filterMap (fun (i, slot) => slotConstant i slot)
    ++ g.pools.flatMap (rangeConstants g)
    ++ columns g.instances

def data (s : Scope) : Emission Unit := do
  let count := s.game.instances.length
  if maxSlots < count then ofExcept (.error (.limit (.instances count)))
  if count = 0 && s.game.tags.isEmpty then return () else do
    banner
    line (enumeration (s.game.tags.map Name.tag ++ ["TAG_COUNT"]))
    verbatim (if count = 0 then [] else table s.game)
    blank

def spawn (p : Pool) : Header :=
  let name := Name.ident p.name ++ "_spawn"
  ⟨name, s!"uint8_t {name}(int16_t x, int16_t y)"⟩

def despawn (p : Pool) : Header :=
  let name := Name.ident p.name ++ "_despawn"
  ⟨name, s!"void {name}(uint8_t i)"⟩

def livePools (g : Game) : List Pool := g.pools.filter fun p => (g.poolRange? p.name).isSome

def prototypes (s : Scope) : List String :=
  (livePools s.game).flatMap fun p => [(spawn p).prototype, (despawn p).prototype]

def poolFunctions (p : Pool) : Emission Unit := do
  let first := firstName p.name
  let stop := s!"{first} + {capacityName p.name}"
  function (spawn p) do
    line "uint8_t i;"
    block s!"for (i = {first}; i < {stop}; i++)"
    braced "if (!ent_active[i])"
      ["ent_active[i] = 1;", "ent_x[i] = x;", "ent_y[i] = y;", "ent_vx[i] = 0;", "ent_vy[i] = 0;",
        "return i;"]
    close
    line "return 0xFF;"
  function (despawn p) do
    braced s!"if (i >= {first} && i < {stop})" ["ent_active[i] = 0;"]

def functions (s : Scope) : Emission Unit :=
  if (livePools s.game).isEmpty then return () else do
    banner
    each poolFunctions (livePools s.game)

end Cartridge.Game.Slots
