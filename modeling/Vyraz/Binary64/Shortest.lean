import Vyraz.Decimal

namespace Vyraz.Binary64

/-- The number of decimal places kept of a value; enough for all 17 digits of the least number. -/
def places : Nat := 342

def exact (bits : Nat) : Decimal :=
  ⟨units bits * Nat.pow 5 1074, -1074⟩

def digitCount (n : Nat) : Nat :=
  let least := n.log2 * 30102 / 100000 + 1
  if n < Nat.pow 10 least then least else least + 1

/--
The neighbours of a number on the grid of decimals with `count` digits, the nearer one first and of
two equally near ones the greater. The number is `scaled / unitsPerOne * 10 ^ -places`, and
`expansion` is the whole part of that quotient, of which `dropped` digits are beyond the grid. If
all digits of the greater neighbour roll over, it is a `1` on a coarser grid.
-/
def neighbours (scaled expansion dropped count : Nat) : List Decimal :=
  let floor := expansion / Nat.pow 10 dropped
  let exponent : Int := dropped - places
  let below : Decimal := ⟨floor, exponent⟩
  let above : Decimal :=
    if floor + 1 = Nat.pow 10 count then ⟨1, exponent + count⟩ else ⟨floor + 1, exponent⟩
  if 2 * scaled < (2 * floor + 1) * Nat.pow 10 dropped * unitsPerOne then
    [below, above]
  else
    [above, below]

def fewest? (bits : Nat) : Option Decimal :=
  let scaled := units bits * Nat.pow 10 places
  let expansion := scaled / unitsPerOne
  let length := digitCount expansion
  (List.range' 1 17).findSome? fun count =>
    (neighbours scaled expansion (length - count) count).find? fun d => d.bits = bits

def shortest (bits : Nat) : Decimal :=
  (fewest? bits).getD (exact bits)

def magnitudeText (bits : Nat) : List Char :=
  if bits = 0 then
    ['0']
  else if bits = infinityBits then
    ['i', 'n', 'f']
  else
    (shortest bits).positional

def text (x : Float) : String :=
  if x.isNaN then
    "NaN"
  else
    let bits := x.toBits.toNat
    String.ofList <|
      if bits < signBit then magnitudeText bits else '-' :: magnitudeText (bits - signBit)

end Vyraz.Binary64
