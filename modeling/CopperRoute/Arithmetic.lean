/-!
# Checked arithmetic

Board coordinates, identifiers and counters are machine words.  A sum that does
not fit its word is never wrapped: the computation stops with a **fault**, and
whatever it was part of has no result.  Everything that can fault lives in the
monad `Checked`.

* `Checked α` is a value of `α` or the fault that stopped the computation.
* `int32`, `int64` accept an exact integer when it is in range.
* `totalOrderKey` is the order of all doubles, signed zeros included, that
  sorting and minima use.
* `nearestInt32` turns a double into a coordinate word; both read the double off
  its bits.
-/

namespace CopperRoute

/-- Why a computation had to stop. -/
inductive Fault
  /-- A number left the range of its word. -/
  | overflow
  /-- Something was to be kept where nothing can be kept. -/
  | noCapacity
  deriving DecidableEq, Repr

/-- A result, or the fault that stopped the computation. -/
abbrev Checked (α : Type) := Except Fault α

/-- An exact integer as a coordinate word, if it is in range. -/
def int32 (v : Int) : Checked Int32 :=
  if -2147483648 ≤ v ∧ v ≤ 2147483647 then .ok (Int32.ofInt v) else .error .overflow

/-- A coordinate word that was made of an integer stands for it. -/
theorem toInt_of_int32 {v : Int} {a : Int32} (h : int32 v = .ok a) : a.toInt = v := by
  unfold int32 at h
  split at h
  · next hrange =>
      cases h
      exact Int32.toInt_ofInt_of_le (by omega) (by omega)
  · cases h

/-- An exact integer that has to fit a double coordinate word. -/
def int64 (v : Int) : Checked Int :=
  if -9223372036854775808 ≤ v ∧ v ≤ 9223372036854775807 then .ok v else .error .overflow

/-- The identifier after `id`; the last identifier has none. -/
def idAfter (id : UInt64) : Checked UInt64 :=
  if id.toNat + 1 < UInt64.size then .ok (id + 1) else .error .overflow

/-- The sign bit of a word of 64 bits, as a number. -/
def signBit : Nat := 0x8000000000000000

/-- The place of a double in the total order of doubles: negative numbers below
positive ones, `-0.0` just below `0.0`, equal keys only for equal bits. -/
def totalOrderKey (x : Float) : Int :=
  let bits := x.toBits.toNat
  if bits < signBit then bits else -1 - (bits - signBit : Nat)

/-- The coordinate word nearest to a double.  Halves go away from zero, a number
beyond the range stays at its edge, and what is no number stands for zero. -/
def nearestInt32 (x : Float) : Int32 :=
  let bits := x.toBits.toNat
  let exponent := (bits >>> 52) % 0x800
  let mantissa := bits % 0x10000000000000
  if exponent = 2047 ∧ mantissa ≠ 0 then 0
  else
    -- the size of the number is `significand / 2 ^ shift`, or it is out of range
    let significand := if exponent = 0 then mantissa else 0x10000000000000 + mantissa
    let shift := 1075 - max exponent 1
    let size : Int :=
      if exponent < 1075 then ((significand + (1 <<< (shift - 1))) >>> shift : Nat) else 2147483648
    if bits < signBit then Int32.ofInt (min size 2147483647)
    else Int32.ofInt (-min size 2147483648)

example : nearestInt32 (-2.5) = -3 ∧ nearestInt32 0.49999999999999994 = 0 ∧
    nearestInt32 1e300 = 2147483647 := by
  decide +kernel

/-- The sum of a list of doubles from left to right.  The empty sum is `-0.0`,
the neutral element of floating-point addition. -/
def floatSum (xs : List Float) : Float := xs.foldl (· + ·) (-0.0)

end CopperRoute
