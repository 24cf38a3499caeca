import Mustache.Decimal

/-!
# Network addresses

Addresses print in their standard notation. Of the eight groups of an IPv6
address the longest run of zeros, the leftmost of equally long ones, is left out
if it has at least two groups; the groups are in lower-case hexadecimal without
leading zeros; and an address that stands for one of IPv4 ends in the notation
of that one. As with numerals, an address is a list of pieces: its numbers, and
what stands between them.
-/

namespace Mustache

/-- The address of a host. -/
inductive Host
  | v4 (octets : Vector UInt8 4)
  | v6 (groups : Vector UInt16 8)
deriving DecidableEq, Repr

/-- The address of a host, or of a numbered socket on it. -/
inductive Address
  | host (h : Host)
  /-- A socket of a host; the scope tells link-local hosts of IPv6 apart. -/
  | socket (h : Host) (scope : Nat) (number : UInt16)
deriving DecidableEq, Repr

namespace Host

/-- The pieces of octets in dotted decimal. -/
def dotted (octets : List Nat) : List Text :=
  (octets.map Decimal.natural).intersperse ['.']

/-- The pieces of groups in hexadecimal with colons in between. -/
def coloned (groups : List Nat) : List Text :=
  (groups.map (Nat.toDigits 16)).intersperse [':']

/-- How many zeros a list of groups begins with. -/
def leadingZeros (groups : List Nat) : Nat :=
  (groups.takeWhile (· == 0)).length

/-- Where the longest run of zeros in a list of groups begins, and its length: the leftmost one
of several, and the length zero if there is none. -/
def longestZeros (groups : List Nat) : Nat × Nat :=
  (List.range groups.length).foldl
    (fun best i =>
      let run := leadingZeros (groups.drop i)
      if best.2 < run then (i, run) else best)
    (0, 0)

/-- The pieces of groups with the longest run of zeros left out, if it has at least two. -/
def compressed (groups : List Nat) : List Text :=
  let (start, run) := longestZeros groups
  if 2 ≤ run then
    coloned (groups.take start) ++ [[':', ':']] ++ coloned (groups.drop (start + run))
  else coloned groups

/-- The pieces of the address in standard notation. -/
def pieces : Host → List Text
  | v4 octets => dotted (octets.toList.map UInt8.toNat)
  | v6 groups =>
    match groups.toList.map UInt16.toNat with
    | [0, 0, 0, 0, 0, 0xFFFF, high, low] =>
      "::ffff:".toList :: dotted [high / 256, high % 256, low / 256, low % 256]
    | groups => compressed groups

example : (compressed [0x2001, 0xDB8, 0, 0, 1, 0, 0, 1]).flatten = "2001:db8::1:0:0:1".toList := by
  decide +kernel

example : (compressed [1, 0, 2, 3, 4, 5, 6, 7]).flatten = "1:0:2:3:4:5:6:7".toList := by
  decide +kernel

example : compressed [0, 0, 0, 0, 0, 0, 0, 0] = ["::".toList] := by decide +kernel

end Host

namespace Address

/-- The pieces of the address in standard notation. -/
def pieces : Address → List Text
  | host h => h.pieces
  | socket (.v4 octets) _ number =>
    (Host.v4 octets).pieces ++ [[':'], Decimal.natural number.toNat]
  | socket (.v6 groups) scope number =>
    let zone := if scope = 0 then [] else [['%'], Decimal.natural scope]
    ['['] :: (Host.v6 groups).pieces ++ zone ++ [[']', ':'], Decimal.natural number.toNat]

end Address

end Mustache
