import DesignComponents.Number.Arithmetic
import DesignComponents.Number.Text

/-!
# Scales

The named sizes of the utility classes. A scale names some whole numbers of pixels; a value that
it does not name is written out in brackets.
-/

namespace DesignComponents

abbrev Scale := List (Int × String)

namespace Scale

def spacings : Scale :=
  [(0, "0"), (1, "px"), (2, "0.5"), (4, "1"), (6, "1.5"), (8, "2"), (10, "2.5"), (12, "3"),
    (14, "3.5"), (16, "4"), (20, "5"), (24, "6"), (28, "7"), (32, "8"), (36, "9"), (40, "10"),
    (44, "11"), (48, "12"), (56, "14"), (64, "16"), (72, "18"), (80, "20"), (96, "24"),
    (112, "28"), (128, "32"), (144, "36"), (160, "40"), (176, "44"), (192, "48"), (208, "52"),
    (224, "56"), (240, "60"), (256, "64"), (288, "72"), (320, "80"), (384, "96")]

def radii : Scale :=
  [(0, "none"), (2, "sm"), (6, "md"), (8, "lg"), (12, "xl"), (16, "2xl"), (24, "3xl"),
    (9999, "full")]

def fontSizes : Scale :=
  [(12, "xs"), (14, "sm"), (16, "base"), (18, "lg"), (20, "xl"), (24, "2xl"), (30, "3xl"),
    (36, "4xl"), (48, "5xl"), (60, "6xl"), (72, "7xl"), (96, "8xl"), (128, "9xl")]

def fontWeights : Scale :=
  [(100, "thin"), (200, "extralight"), (300, "light"), (400, "normal"), (500, "medium"),
    (600, "semibold"), (700, "bold"), (800, "extrabold"), (900, "black")]

def find? (key : Int) : Scale → Option String
  | [] => none
  | (k, suffix) :: rest => if k = key then some suffix else find? key rest

/-- The suffix of a value; one that is no whole number has none. -/
def suffix? (s : Scale) (x : Double) : Option String := x.toInt?.bind fun key => s.find? key

end Scale

def bracketed (x : Double) : String := "[" ++ x.plain ++ "px]"

/-- The suffix of a length, taken to the nearest pixel. -/
def spacingSuffix (x : Double) : String := (Scale.spacings.suffix? x.round).getD (bracketed x.round)

def radiusSuffix (x : Double) : String := (Scale.radii.suffix? x).getD (bracketed x)

def fontSizeSuffix (x : Double) : String := (Scale.fontSizes.suffix? x).getD (bracketed x)

def fontWeightSuffix? (x : Double) : Option String := Scale.fontWeights.suffix? x

end DesignComponents
