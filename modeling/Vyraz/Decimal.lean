import Vyraz.Binary64.Nearest

namespace Vyraz

structure Decimal where
  digits : Nat
  exponent : Int
deriving DecidableEq, Repr

namespace Decimal

def numerator (d : Decimal) : Nat :=
  d.digits * Nat.pow 10 d.exponent.toNat

def denominator (d : Decimal) : Nat :=
  Nat.pow 10 (-d.exponent).toNat

def bits (d : Decimal) : Nat :=
  Binary64.nearestBits d.numerator d.denominator

def toFloat (d : Decimal) : Float :=
  Binary64.nearest d.numerator d.denominator

def ofDigits (whole fraction : List Char) : Decimal :=
  ⟨Nat.ofDigitChars 10 (whole ++ fraction) 0, -fraction.length⟩

def padded (places n : Nat) : List Char :=
  let digits := Nat.toDigits 10 n
  List.replicate (places - digits.length) '0' ++ digits

def positional (d : Decimal) : List Char :=
  match d.exponent with
  | .ofNat zeros => Nat.toDigits 10 (d.digits * Nat.pow 10 zeros)
  | .negSucc n =>
    let one := Nat.pow 10 (n + 1)
    Nat.toDigits 10 (d.digits / one) ++ '.' :: padded (n + 1) (d.digits % one)

end Decimal
end Vyraz
