import DesignComponents.Number.Arithmetic
import DesignComponents.Text.Hex

/-!
# Colors

A design gives a color as four numbers from zero to one; a palette holds four bytes. Here are
both, the rounding from the first to the second, the hexadecimal name of four bytes and the
distance between two of them.
-/

namespace DesignComponents

structure Rgba where
  red : UInt8
  green : UInt8
  blue : UInt8
  alpha : UInt8
  deriving DecidableEq, Repr

namespace Rgba

def hex (c : Rgba) : String :=
  String.ofList ('#' :: hexPair c.red ++ hexPair c.green ++ hexPair c.blue ++ hexPair c.alpha)

def squaredGap (x y : UInt8) : Nat :=
  let gap := (x.toNat - y.toNat) + (y.toNat - x.toNat)
  gap * gap

def squaredDistance (c d : Rgba) : Nat :=
  squaredGap c.red d.red + squaredGap c.green d.green + squaredGap c.blue d.blue +
    squaredGap c.alpha d.alpha

def distance (c d : Rgba) : Double :=
  Binary.sqrtOfNat .double (squaredDistance c d)

end Rgba

structure Color where
  red : Double
  green : Double
  blue : Double
  alpha : Double
  deriving DecidableEq

namespace Color

def level (x : Double) : UInt8 := (x * 255).round.clampToByte

/-- The color in bytes, its alpha scaled by an opacity. -/
def toRgba (c : Color) (opacity : Double) : Rgba :=
  ⟨level c.red, level c.green, level c.blue, level (c.alpha * opacity)⟩

end Color

end DesignComponents
