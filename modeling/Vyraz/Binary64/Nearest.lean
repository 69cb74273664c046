/-!
This module contains the rounding of a fraction to the nearest number of the `binary64` format.

A finite nonnegative number of the format is a whole multiple of the unit `2 ^ -1074`. Ordered by
value, the bit patterns count up without gaps, which makes the rounding one division: with
`2 ^ x` units between neighbours, the pattern is `x * 2 ^ 52` plus the rounded quotient. A carry out
of the quotient moves to the next exponent, and beyond the last exponent to infinity, by itself.
-/

namespace Vyraz.Binary64

def unitsPerOne : Nat := Nat.pow 2 1074

def binade : Nat := Nat.pow 2 52

def infinityBits : Nat := 0x7ff * binade

def signBit : Nat := Nat.pow 2 63

def roundDiv (num den : Nat) : Nat :=
  let floor := num / den
  let excess := 2 * (num % den)
  if excess < den then
    floor
  else if den < excess then
    floor + 1
  else
    floor + floor % 2

def nearestBits (num den : Nat) : Nat :=
  let units := num * unitsPerOne
  let exponent := (units / den).log2 - 52
  min infinityBits (exponent * binade + roundDiv units (den * Nat.pow 2 exponent))

def nearest (num den : Nat) : Float :=
  Float.ofBits (nearestBits num den).toUInt64

def units (bits : Nat) : Nat :=
  if bits < binade then
    bits
  else
    (binade + bits % binade) * Nat.pow 2 (bits / binade - 1)

end Vyraz.Binary64
