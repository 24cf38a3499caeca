import Mustache.Text

/-!
# Decimal numerals

Numbers are written in positional notation whatever their size: no exponent, no
closing zeros after the point, and no point where nothing follows it. A
`Decimal` is the number to write, some digits and where their unit stands.

A numeral is written in several pieces, since its digits are computed at once
but its sign, its point and its zeros are not among them. So numerals are lists
of texts here. The order of the pieces is that of the numeral; zeros come in
pieces of a fixed size, as long as there are enough of them.

## Main results

* `withoutClosingZeros_append` — the zeros that close a text are all that its
  other characters leave out;
* `flatten_zeros` — however they are cut, so many zeros are written;
* `flatten_positional_ofNat` — a whole number is written as its digits.
-/

namespace Mustache

/-- The number `digits · 10 ^ exponent`. -/
structure Decimal where
  digits : Nat
  exponent : Int
deriving DecidableEq, Repr

namespace Decimal

/-- The decimal digits of a natural number. -/
def natural (n : Nat) : Text :=
  Nat.toDigits 10 n

/-- The pieces of a number after its sign, which only a negative one has. -/
def signed (negative : Bool) (magnitude : List Text) : List Text :=
  if negative then ['-'] :: magnitude else magnitude

/-- The pieces of an integer. -/
def integer (n : Int) : List Text :=
  signed (n < 0) [natural n.natAbs]

/-! ## Zeros -/

/-- The largest piece of zeros. -/
def zerosAtOnce : Nat := 64

/-- The pieces of so many zeros. -/
def zeros (n : Nat) : List Text :=
  let rest := n % zerosAtOnce
  List.replicate (n / zerosAtOnce) (List.replicate zerosAtOnce '0') ++
    if rest = 0 then [] else [List.replicate rest '0']

theorem flatten_zeros (n : Nat) : (zeros n).flatten = List.replicate n '0' := by
  have hrest : (if n % zerosAtOnce = 0 then [] else [List.replicate (n % zerosAtOnce) '0'] :
      List Text).flatten = List.replicate (n % zerosAtOnce) '0' := by
    split
    · rename_i h
      rw [h]
      rfl
    · simp
  simp only [zeros]
  rw [List.flatten_append, hrest, List.flatten_replicate_replicate, List.replicate_append_replicate,
    Nat.div_add_mod']

/-- A text without the zeros that close it. -/
def withoutClosingZeros (t : Text) : Text :=
  (t.reverse.dropWhile (· == '0')).reverse

theorem withoutClosingZeros_append (t : Text) :
    withoutClosingZeros t ++
      List.replicate (t.length - (withoutClosingZeros t).length) '0' = t := by
  have hsplit : withoutClosingZeros t ++ (t.reverse.takeWhile (· == '0')).reverse = t := by
    rw [withoutClosingZeros, ← List.reverse_append, List.takeWhile_append_dropWhile,
      List.reverse_reverse]
  have hzeros : (t.reverse.takeWhile (· == '0')).reverse =
      List.replicate (t.reverse.takeWhile (· == '0')).reverse.length '0' := by
    refine List.eq_replicate_iff.2 ⟨rfl, fun c hc => ?_⟩
    have hzero := List.all_takeWhile (p := (· == '0')) (l := t.reverse)
    rw [List.mem_reverse] at hc
    exact beq_iff_eq.1 (List.all_eq_true.1 hzero c hc)
  have hlength := congrArg List.length hsplit
  rw [List.length_append] at hlength
  rw [← hlength, Nat.add_sub_cancel_left, ← hzeros, hsplit]

/-! ## Positional notation -/

/-- The pieces of a number in positional notation. Zeros at the end of the digits are not written
as such, but where there are places for them before the point. -/
def positional (d : Decimal) : List Text :=
  let all := natural d.digits
  let digits := withoutClosingZeros all
  if d.digits = 0 then [all]
  else
    /- Where the point stands, counted from the first digit. -/
    match all.length + d.exponent with
    | .ofNat (places + 1) =>
      if places + 1 < digits.length then
        [digits.take (places + 1), ['.'], digits.drop (places + 1)]
      else digits :: zeros (places + 1 - digits.length)
    | point => ['0', '.'] :: zeros point.natAbs ++ [digits]

theorem flatten_positional_ofNat (n : Nat) : (positional ⟨n, 0⟩).flatten = natural n := by
  simp only [positional]
  split
  · simp
  · have hclosing := withoutClosingZeros_append (natural n)
    have hpos : 0 < (natural n).length := Nat.length_toDigits_pos
    obtain ⟨places, hplaces⟩ : ∃ places, (natural n).length = places + 1 :=
      ⟨(natural n).length - 1, by omega⟩
    have hle : (withoutClosingZeros (natural n)).length ≤ places + 1 := by
      have hlength := congrArg List.length hclosing
      rw [List.length_append] at hlength
      omega
    rw [hplaces] at hclosing ⊢
    simp only [Int.add_zero]
    rw [if_neg (Nat.not_lt_of_le hle), List.flatten_cons, flatten_zeros, hclosing]

example : positional ⟨1250, -2⟩ = ["12".toList, ".".toList, "5".toList] := by decide +kernel

example : positional ⟨7, -3⟩ = ["0.".toList, "00".toList, "7".toList] := by decide +kernel

example : positional ⟨10, 20⟩ = ["1".toList, "000000000000000000000".toList] := by decide +kernel

end Decimal

end Mustache
