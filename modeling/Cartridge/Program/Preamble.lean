import Cartridge.Lower.Stmt

/-!
The head of a generated file: includes, the check of subscripts and prototypes. Since every
function that another section may call is declared here, the order of functions does not matter.
-/
namespace Cartridge.Program.Preamble

open Code Code.Emission Lower

def title (g : Game) : String :=
  s!"/* Generated by gbdsl from \"{Text.sanitize g.name}\". Do not edit. */"

def includes : List String :=
  ["#include <gb/gb.h>", "#include <stdint.h>", "#include <string.h>"]

/-- Subscripts are checked in debug builds only. -/
def boundsCheck : Emission Unit := do
  line "#ifdef GBDSL_DEBUG"
  block "static void bounds_fail(void)"
  line "for (;;) wait_vbl_done();"
  close
  verbatim
    ["#define BOUNDS_CHECK(i, len) ((i) < (len) ? (i) : (bounds_fail(), 0))", "#else",
      "#define BOUNDS_CHECK(i, len) (i)", "#endif"]

def emit (s : Scope) (prototypes : List String) : Emission Unit := do
  line (title s.game)
  verbatim includes
  blank
  boundsCheck
  blank
  if prototypes.isEmpty then return () else do
    verbatim prototypes
    blank

end Cartridge.Program.Preamble
