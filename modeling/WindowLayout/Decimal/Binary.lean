/-!
# Binary floating point numbers taken apart

A finite binary floating point number of 64 bits is `± mantissa * 2 ^ exponent` for natural
and integer parts that its bits spell out. Rounding to whole numbers and writing in base ten
are exact arithmetic on these parts.

## Main definitions

* `Binary` — the parts of a number, or which of the other values it is;
* `Binary.ofFloat` — a number taken apart;
* `Binary.natAbs`, `Binary.natAbsRound`, `Binary.natAbsCeil` — the size of a finite number as
  a natural number, cut off, rounded to nearest and rounded up.
-/

namespace WindowLayout

/-- What a binary floating point number of 64 bits stands for. Subnormal numbers are finite ones
with a short mantissa, and zero is one without a mantissa. -/
inductive Binary where
  /-- `mantissa * 2 ^ exponent`, negated if `negative`. -/
  | finite (negative : Bool) (mantissa : Nat) (exponent : Int)
  | infinite (negative : Bool)
  /-- Not a number. -/
  | undefined
deriving DecidableEq, Repr

namespace Binary

/-- The leading bit of a mantissa, which is not spelled out. -/
def implicitBit : Nat := 0x10000000000000

/-- The value spelled by a sign bit, eleven bits of exponent and 52 bits of fraction. -/
def ofBits (bits : Nat) : Binary :=
  let negative := (bits >>> 63) % 2 == 1
  let exponent := (bits >>> 52) % 0x800
  let fraction := bits % implicitBit
  if exponent = 0x7ff then
    if fraction = 0 then .infinite negative else .undefined
  else if exponent = 0 then .finite negative fraction (-1074)
  else .finite negative (implicitBit + fraction) ((exponent : Int) - 1075)

/-- A floating point number taken apart. All that is computed with its parts is exact, so that
rounding happens only where it is named. -/
def ofFloat (x : Float) : Binary := ofBits x.toBits.toNat

/-- The whole part of `mantissa * 2 ^ exponent`. A negative exponent shifts the fraction out. -/
def natAbs (mantissa : Nat) : Int → Nat
  | .ofNat e => mantissa <<< e
  | .negSucc k => mantissa >>> (k + 1)

/-- The whole number nearest to `mantissa * 2 ^ exponent`, a half rounded up. As the sign is kept
apart, halves are rounded away from zero. -/
def natAbsRound (mantissa : Nat) : Int → Nat
  | .ofNat e => mantissa <<< e
  | .negSucc k => (mantissa + 1 <<< k) >>> (k + 1)

/-- The least whole number that is no less than `mantissa * 2 ^ exponent`: one is added to the whole
part as soon as a bit that is set is shifted out. -/
def natAbsCeil (mantissa : Nat) : Int → Nat
  | .ofNat e => mantissa <<< e
  | .negSucc k => (mantissa + (1 <<< (k + 1) - 1)) >>> (k + 1)

end Binary

end WindowLayout
