import Cartridge.Stmt.Basic

/-! A line about a statement, for listings. -/
namespace Cartridge.Stmt

def summary : Stmt → String
  | .assign target .. => s!"assign {target}"
  | .cond _ yes none _ => s!"if {yes.length}"
  | .cond _ yes (some no) _ => s!"if {yes.length} else {no.length}"
  | .loop _ body _ => s!"while {body.length}"
  | .range counter .. => s!"for {counter}"
  | .call name .. => s!"call {name}"
  | .changeScene name _ => s!"scene {name}"
  | .raw text _ => s!"raw {text}"
  | .assignIndex array .. => s!"assign_index {array}"

end Cartridge.Stmt
