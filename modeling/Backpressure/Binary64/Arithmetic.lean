import Backpressure.Arithmetic
import Backpressure.Binary64

/-!
# Rounded arithmetic

Doubles as numbers of the controller.
-/

namespace Backpressure
namespace Binary64

instance : Add Binary64 := ⟨add⟩
instance : Sub Binary64 := ⟨subtract⟩
instance : Mul Binary64 := ⟨multiply⟩
instance : Div Binary64 := ⟨divide⟩
instance : NatCast Binary64 := ⟨fun value => round value⟩
instance : BEq Binary64 := ⟨equal⟩
instance : LT Binary64 := ⟨fun first second => first.less second = true⟩
instance : LE Binary64 := ⟨fun first second => first.lessOrEqual second = true⟩

/-- The residue of a double modulo `2 ^ 32`, without its fraction; a number
that is not finite counts as zero. -/
def residue (value : Binary64) : Binary64 :=
  finite (Arithmetic.ringResidue value.toRat)

/-- Rounded arithmetic: every operation gives the double nearest to its exact
result. -/
instance rounded : Arithmetic Binary64 where
  literal value := ⟨round value⟩
  decidableLT first second := inferInstanceAs (Decidable (first.less second = true))
  decidableLE first second :=
    inferInstanceAs (Decidable (first.lessOrEqual second = true))
  floor := floor
  nearest := nearest
  residue := residue
  smaller := smaller
  larger := larger

end Binary64
end Backpressure
