import Cartridge.Lower.Expr

/-! How a file is generated. -/
namespace Cartridge.Program

structure Options where
  /-- Whether a broken rule ends the run. -/
  strict : Bool := true
  lower : Lower.Options := {}
  deriving DecidableEq, Repr

namespace Options

def toJson (o : Options) : Json :=
  .ofMembers
    [("strict", .bool o.strict), ("bounds_checks", .bool o.lower.boundsChecks),
      ("source_map", .bool o.lower.sourceMap), ("domain", o.lower.domain.toJson)]

def ofJson? (depth : Nat) (j : Json) : Option Options :=
  Json.within depth fun depth => do
    let f ← j.fields? ["strict", "bounds_checks", "source_map", "domain"]
    return {
      strict := ← f.getD "strict" true Json.bool?
      lower := {
        boundsChecks := ← f.getD "bounds_checks" true Json.bool?
        sourceMap := ← f.getD "source_map" true Json.bool?
        domain := ← f.getD "domain" .u8 (Domain.ofJson? depth) } }

end Options

end Cartridge.Program
