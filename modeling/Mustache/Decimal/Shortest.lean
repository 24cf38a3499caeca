import Mustache.Decimal

/-!
# The shortest decimal that reads back

A binary floating-point number stands for every real number that is nearer to it
than to its neighbours; the two ends of that interval belong to it exactly when
its significand is even. Of the decimals in the interval `Binary.shortest` picks
one with the fewest digits, of those one nearest to the number, and of two that
are equally near the larger.

The computation is exact. The number and the ends of its interval are whole
multiples of a quarter of the number's last place, and such a quarter is a finite
decimal, so everything is compared as natural numbers in one decimal unit. On
the grid of multiples of `10 ^ k` only the two neighbours of the number need to
be tried: if any point of the grid lies in the interval, one of them does.

## Main results

* `accepts_value` — a number is in its own interval;
* `accepts_of_onGrid?` — what is picked on a grid reads back;
* `accepts_of_shortest` — so the decimal that is picked in the end reads back.
-/

namespace Mustache

/-- The floating-point number `significand · 2 ^ exponent`, which is not negative. -/
structure Binary where
  significand : Nat
  exponent : Int
  /-- Whether the next smaller number is only half as far away as the next larger one. -/
  narrowBelow : Bool
deriving DecidableEq, Repr

namespace Binary

/-- A quarter of the last place of a number, as a decimal. -/
def quarter (b : Binary) : Decimal :=
  match b.exponent - 2 with
  | .ofNat n => ⟨Nat.pow 2 n, 0⟩
  | .negSucc n => ⟨Nat.pow 5 (n + 1), .negSucc n⟩

/-- The number in units of the decimal place of its quarter. -/
def value (b : Binary) : Nat :=
  4 * b.significand * b.quarter.digits

/-- Whether so many of these units are nearer to the number than to its neighbours. -/
def accepts (b : Binary) (n : Nat) : Bool :=
  let low := (4 * b.significand - if b.narrowBelow then 1 else 2) * b.quarter.digits
  let high := (4 * b.significand + 2) * b.quarter.digits
  if b.significand % 2 = 0 then low ≤ n && n ≤ high else low < n && n < high

/-- The multiple of `10 ^ k` of these units that reads back, the nearer one of two, if there is
one. The answer counts in `10 ^ k`. -/
def onGrid? (b : Binary) (k : Nat) : Option Nat :=
  let scale := Nat.pow 10 k
  let below := b.value / scale
  let above := below + 1
  match b.accepts (below * scale), b.accepts (above * scale) with
  | true, true =>
    if b.value - below * scale < above * scale - b.value then some below else some above
  | true, false => some below
  | false, true => some above
  | false, false => none

/-- The coarsest grid up to `10 ^ k` that has a number which reads back, and that number. -/
def coarsest (b : Binary) : Nat → Decimal
  | 0 => ⟨b.value, b.quarter.exponent⟩
  | k + 1 =>
    match b.onGrid? (k + 1) with
    | some n => ⟨n, b.quarter.exponent + (k + 1 : Nat)⟩
    | none => b.coarsest k

/-- The shortest decimal that reads back. -/
def shortest (b : Binary) : Decimal :=
  b.coarsest ((Decimal.natural b.value).length - 1)

theorem quarter_digits_pos (b : Binary) : 0 < b.quarter.digits := by
  rw [quarter]
  split
  · exact Nat.pow_pos (by decide)
  · exact Nat.pow_pos (by decide)

theorem accepts_value {b : Binary} (h : 0 < b.significand) : b.accepts b.value = true := by
  have hq := b.quarter_digits_pos
  have hlow : (4 * b.significand - if b.narrowBelow then 1 else 2) * b.quarter.digits < b.value := by
    refine Nat.mul_lt_mul_of_pos_right ?_ hq
    split <;> omega
  have hhigh : b.value < (4 * b.significand + 2) * b.quarter.digits :=
    Nat.mul_lt_mul_of_pos_right (by omega) hq
  rw [accepts]
  split
  · simp [Nat.le_of_lt hlow, Nat.le_of_lt hhigh]
  · simp [hlow, hhigh]

theorem accepts_of_onGrid? {b : Binary} {k n : Nat} (h : b.onGrid? k = some n) :
    b.accepts (n * Nat.pow 10 k) = true := by
  simp only [onGrid?] at h
  split at h
  · split at h <;> cases h <;> assumption
  · cases h; assumption
  · cases h; assumption
  · cases h

/-- Whichever grid is the coarsest one, what is picked on it reads back. The finest grid has the
number itself. -/
theorem accepts_of_coarsest {b : Binary} (h : 0 < b.significand) (k : Nat) :
    ∃ j ≤ k, (b.coarsest k).exponent = b.quarter.exponent + j ∧
      b.accepts ((b.coarsest k).digits * Nat.pow 10 j) = true := by
  induction k with
  | zero =>
    refine ⟨0, Nat.le_refl 0, by simp [coarsest], ?_⟩
    show b.accepts (b.value * 1) = true
    rw [Nat.mul_one, accepts_value h]
  | succ k ih =>
    rw [coarsest]
    cases hgrid : b.onGrid? (k + 1) with
    | some n => exact ⟨k + 1, Nat.le_refl _, rfl, accepts_of_onGrid? hgrid⟩
    | none =>
      obtain ⟨j, hle, hexponent, haccepts⟩ := ih
      exact ⟨j, Nat.le_succ_of_le hle, hexponent, haccepts⟩

/-- The shortest decimal reads back. -/
theorem accepts_of_shortest {b : Binary} (h : 0 < b.significand) :
    ∃ j : Nat, b.shortest.exponent = b.quarter.exponent + j ∧
      b.accepts (b.shortest.digits * Nat.pow 10 j) = true := by
  obtain ⟨j, -, hshortest⟩ := accepts_of_coarsest h ((Decimal.natural b.value).length - 1)
  exact ⟨j, hshortest⟩

end Binary

end Mustache
