import Cartridge.Code.Construct
import Cartridge.Lower.Stmt
import Cartridge.Nav.Search

/-! The pathfinder of the generated program, which makes the same search in tables of fixed size. -/
namespace Cartridge.Nav.Emit

open Code Code.Emission Lower

def search : Header :=
  ⟨"astar_search", "uint8_t astar_search(const uint8_t *walk, const uint8_t *weights, "
    ++ "uint8_t w, uint8_t h, uint8_t sx, uint8_t sy, uint8_t gx, uint8_t gy, "
    ++ "uint8_t diagonal, uint8_t chebyshev, uint16_t max_iter)"⟩

def find (m : Map) : Header :=
  let name := s!"nav_{Name.ident m.name}_find"
  ⟨name, s!"uint8_t {name}(uint8_t sx, uint8_t sy, uint8_t gx, uint8_t gy)"⟩

def prototypes (s : Scope) : List String :=
  if s.game.maps.isEmpty then [] else (search :: s.game.maps.map find).map Header.prototype

def signed (b : UInt8) : Int := (b.toNat : Int).bmod 256

def tables : List String :=
  [constant "ASTAR_MAX_NODES" maxNodes, constant "ASTAR_HEAP_SIZE" maxWaiting,
    constant "ASTAR_FOUND" (Outcome.found []).status,
    constant "ASTAR_NO_PATH" Outcome.noPath.status,
    constant "ASTAR_BUDGET" Outcome.budgetExhausted.status,
    constant "ASTAR_FULL" Outcome.tableFull.status,
    "static uint16_t astar_node[ASTAR_MAX_NODES]; /* (tile << 6) | parent */",
    "static uint16_t astar_g[ASTAR_MAX_NODES];", "static uint16_t astar_f[ASTAR_MAX_NODES];",
    "static uint8_t astar_heap_n[ASTAR_HEAP_SIZE];",
    "static uint16_t astar_heap_f[ASTAR_HEAP_SIZE];", "static uint8_t astar_heap_len;",
    "static uint32_t astar_closed[32];", "uint8_t astar_path_x[ASTAR_MAX_NODES];",
    "uint8_t astar_path_y[ASTAR_MAX_NODES];", "uint8_t astar_path_len;",
    "static const int8_t astar_dx[8] = "
      ++ initializer (Direction.eight.map fun d => toString (signed d.dx)) ++ ";",
    "static const int8_t astar_dy[8] = "
      ++ initializer (Direction.eight.map fun d => toString (signed d.dy)) ++ ";"]

def heapBefore : Header :=
  ⟨"astar_heap_before", "static uint8_t astar_heap_before(uint8_t i, uint16_t f, uint8_t n)"⟩

def push : Header := ⟨"astar_push", "static void astar_push(uint8_t n, uint16_t f)"⟩

def pop : Header := ⟨"astar_pop", "static uint8_t astar_pop(void)"⟩

def estimate : Header :=
  ⟨"astar_h",
    "static uint16_t astar_h(uint8_t x, uint8_t y, uint8_t gx, uint8_t gy, uint8_t chebyshev)"⟩

def walk : Header :=
  ⟨"astar_walk",
    "static uint8_t astar_walk(const uint8_t *walk, uint8_t w, uint8_t x, uint8_t y)"⟩

def pushBody : Emission Unit := do
  verbatim ["uint8_t i = astar_heap_len++;", "uint8_t p;"]
  braced "while (i > 0)"
    ["p = (i - 1) >> 1;", "if (astar_heap_before(p, f, n)) break;",
      "astar_heap_n[i] = astar_heap_n[p];", "astar_heap_f[i] = astar_heap_f[p];", "i = p;"]
  verbatim ["astar_heap_n[i] = n;", "astar_heap_f[i] = f;"]

def popBody : Emission Unit := do
  verbatim ["uint8_t top = astar_heap_n[0];", "uint8_t i = 0;", "uint8_t c, ln;", "uint16_t lf;",
    "astar_heap_len--;", "ln = astar_heap_n[astar_heap_len];",
    "lf = astar_heap_f[astar_heap_len];"]
  braced "for (;;)"
    ["c = (i << 1) + 1;", "if (c >= astar_heap_len) break;",
      "if (c + 1 < astar_heap_len && "
        ++ "astar_heap_before(c + 1, astar_heap_f[c], astar_heap_n[c])) c++;",
      "if (!astar_heap_before(c, lf, ln)) break;", "astar_heap_n[i] = astar_heap_n[c];",
      "astar_heap_f[i] = astar_heap_f[c];", "i = c;"]
  verbatim ["astar_heap_n[i] = ln;", "astar_heap_f[i] = lf;", "return top;"]

def helpers : Emission Unit := do
  function heapBefore
    (line "return astar_heap_f[i] < f || (astar_heap_f[i] == f && astar_heap_n[i] < n);")
  function push pushBody
  function pop popBody
  function estimate (verbatim
    ["uint8_t dx = x > gx ? x - gx : gx - x;", "uint8_t dy = y > gy ? y - gy : gy - y;",
      "if (chebyshev) return dx > dy ? dx : dy;", "return (uint16_t)dx + dy;"])
  function walk (verbatim
    ["uint16_t t = (uint16_t)y * w + x;", "return (walk[t >> 3] >> (t & 7)) & 1;"])

def searchStart : List String :=
  ["uint8_t count, cur, n, d, step, x, y, nx, ny, k;", "uint16_t iter, tile, goal, nt, g;",
    "astar_path_len = 0;",
    "if (sx >= w || sy >= h || gx >= w || gy >= h) return ASTAR_NO_PATH;",
    "if (!astar_walk(walk, w, sx, sy) || !astar_walk(walk, w, gx, gy)) return ASTAR_NO_PATH;",
    "if (sx == gx && sy == gy) return ASTAR_FOUND;",
    "memset(astar_closed, 0, sizeof(astar_closed));", "goal = (uint16_t)gy * w + gx;",
    "astar_node[0] = ((uint16_t)sy * w + sx) << 6;", "astar_g[0] = 0;",
    "astar_f[0] = astar_h(sx, sy, gx, gy, chebyshev);", "count = 1;", "astar_heap_len = 0;",
    "astar_push(0, astar_f[0]);", "step = diagonal ? 1 : 2;", "iter = 0;"]

def neighbourBody : Emission Unit := do
  verbatim
    ["nx = x + astar_dx[d];", "ny = y + astar_dy[d];",
      "if (nx >= w || ny >= h || !astar_walk(walk, w, nx, ny)) continue;",
      "if ((d & 1) && (!astar_walk(walk, w, nx, y) || !astar_walk(walk, w, x, ny))) continue;",
      "nt = (uint16_t)ny * w + nx;",
      "if (astar_closed[nt >> 5] & ((uint32_t)1 << (nt & 31))) continue;",
      "g = astar_g[cur] + (weights ? weights[nt] : 1);",
      "for (k = 0; k < count; k++) if ((astar_node[k] >> 6) == nt) break;"]
  block "if (k < count)"
  line "if (astar_g[k] <= g) continue;"
  reopen elseText
  verbatim ["if (count == ASTAR_MAX_NODES) return ASTAR_FULL;", "k = count++;"]
  close
  verbatim
    ["if (astar_heap_len == ASTAR_HEAP_SIZE) return ASTAR_FULL;",
      "astar_node[k] = (nt << 6) | cur;", "astar_g[k] = g;",
      "astar_f[k] = g + astar_h(nx, ny, gx, gy, chebyshev);", "astar_push(k, astar_f[k]);"]

def searchBody : Emission Unit := do
  verbatim searchStart
  block "for (;;)"
  verbatim
    ["if (astar_heap_len == 0) return ASTAR_NO_PATH;", "if (iter >= max_iter) return ASTAR_BUDGET;",
      "cur = astar_pop();", "iter++;", "tile = astar_node[cur] >> 6;",
      "if (astar_closed[tile >> 5] & ((uint32_t)1 << (tile & 31))) continue;",
      "if (tile == goal) break;", "astar_closed[tile >> 5] |= (uint32_t)1 << (tile & 31);",
      "x = tile % w;", "y = tile / w;"]
  block "for (d = 0; d < 8; d += step)"
  neighbourBody
  close
  close
  line "/* parents lead back to the start (node 0); reverse into the path */"
  braced "for (n = cur; n != 0; n = astar_node[n] & 0x3F)"
    ["tile = astar_node[n] >> 6;", "astar_path_x[astar_path_len] = tile % w;",
      "astar_path_y[astar_path_len] = tile / w;", "astar_path_len++;"]
  braced "for (k = 0; k < astar_path_len / 2; k++)"
    ["n = astar_path_len - 1 - k;",
      "x = astar_path_x[k]; astar_path_x[k] = astar_path_x[n]; astar_path_x[n] = x;",
      "y = astar_path_y[k]; astar_path_y[k] = astar_path_y[n]; astar_path_y[n] = y;"]
  line "return ASTAR_FOUND;"

def layer (name : String) (bytes : List UInt8) : String :=
  s!"uint8_t {name}[{bytes.length}] = {initializer (bytes.map Text.hexByte)};"

def flag (b : Bool) : String := if b then "1" else "0"

def map (m : Map) : Emission Unit := do
  let width := s!"NAV_{Name.upper m.name}_WIDTH"
  let height := s!"NAV_{Name.upper m.name}_HEIGHT"
  let bits := s!"nav_{Name.ident m.name}_walk"
  let weights := s!"nav_{Name.ident m.name}_weights"
  verbatim
    [constant width m.grid.width.toNat, constant height m.grid.height.toNat,
      layer bits m.grid.walkable]
  verbatim ((m.grid.weights.map (layer weights)).toList)
  blank
  let given := if m.grid.hasWeights then weights else "0"
  let diagonal := flag m.config.diagonal
  let chebyshev := flag (m.config.heuristic = .chebyshev)
  function (find m) (line
    (s!"return astar_search({bits}, {given}, {width}, {height}, sx, sy, gx, gy, "
      ++ s!"{diagonal}, {chebyshev}, {m.config.maxIterations.toNat});"))

def emit (s : Scope) : Emission Unit :=
  if s.game.maps.isEmpty then return () else do
    each (fun m => ofConfig m.grid.validate) s.game.maps
    banner
    verbatim tables
    blank
    helpers
    function search searchBody
    each map s.game.maps

end Cartridge.Nav.Emit
