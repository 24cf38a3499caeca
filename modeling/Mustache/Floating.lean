import Mustache.Decimal.Shortest

/-!
# Floating-point values

A floating-point value is not a number, infinite, or a finite number with a
sign; zero has a sign too. `Floating` is that view of it. It is read off the bits
of either binary interchange format, so the two widths differ only in how many
bits the fields have.

A finite value is written as the shortest decimal that reads back to it, after its
sign.
-/

namespace Mustache

/-- What a floating-point value stands for. -/
inductive Floating
  | notANumber
  | infinite (negative : Bool)
  | finite (negative : Bool) (magnitude : Binary)
deriving DecidableEq, Repr

namespace Floating

/-- The value with these bits, in the format with fields of these widths. -/
def ofBits (exponentBits fractionBits bits : Nat) : Floating :=
  /- The leading bit of a normal number, which is not stored. -/
  let hidden := Nat.pow 2 fractionBits
  /- The exponent field of what is not finite. -/
  let top := Nat.pow 2 exponentBits - 1
  let fraction := bits % hidden
  let biased := bits / hidden % (top + 1)
  let negative := bits / hidden / (top + 1) % 2 == 1
  /- The power of two that the last place of the smallest numbers stands for. -/
  let least : Int := 1 - (top / 2 : Nat) - fractionBits
  if biased = top then
    if fraction = 0 then infinite negative else notANumber
  else if biased = 0 then finite negative ⟨fraction, least, false⟩
  else
    finite negative
      ⟨hidden + fraction, least + (biased - 1 : Nat), fraction == 0 && biased != 1⟩

/-- The value of a double-precision number. -/
def ofFloat (x : Float) : Floating :=
  ofBits 11 52 x.toBits.toNat

/-- The value of a single-precision number. -/
def ofFloat32 (x : Float32) : Floating :=
  ofBits 8 23 x.toBits.toNat

/-- Whether the value is no number. -/
def isNaN : Floating → Bool
  | notANumber => true
  | _ => false

/-- The pieces of the value in decimal. -/
def pieces : Floating → List Text
  | notANumber => [['N', 'a', 'N']]
  | infinite negative => Decimal.signed negative [['i', 'n', 'f']]
  | finite negative b => Decimal.signed negative b.shortest.positional

end Floating

end Mustache
