import Smrt.Domain.Manifest

/-!
# Classifications

What the registry knows of the presence of a mod: the side it runs on, whether both
sides must carry it, the kind of its jar, and where the verdict comes from.
-/

namespace Smrt

/-- Where a verdict comes from. -/
inductive Provenance
  | jarKind
  | modrinthEnv
  | bytecode
  | unclassified
  deriving DecidableEq

/-- The classification of one artifact of a mod. An axis that nothing decides is
    `none`. -/
structure Classification where
  side : Option SideClass
  policy : Option MatchPolicy
  /-- The kind of the scanned jar; `none` when it was never scanned, which reads as a
      mod. -/
  kind : Option String
  provenance : Provenance
  bytecodeSide : Option SideClass
  bytecodePolicy : Option MatchPolicy
  sideConfidence : Option String
  /-- Whether the mod declares itself optional on both sides. -/
  optionalBoth : Bool
  deriving DecidableEq

namespace Classification

variable (c : Classification)

/-- The jar is not a mod at all. -/
def isNonMod : Bool := c.kind = some "coremod" ∨ c.kind = some "library"

/-- A client verdict soft enough for a declared hard edge to outweigh: the heuristic
    on the bytecode, never a marker or a flag. -/
def clientVerdictIsSoft : Bool :=
  c.side = some .client ∧ c.provenance = .bytecode ∧ c.sideConfidence = some "low"

end Classification

end Smrt
