/-!
# Decimals of binary numbers

A double is a whole number times a power of two, so its decimals can be found with whole numbers
only. Two texts are supplied: a fixed number of places, and the fewest digits that read back.
-/

namespace ModBuild.Decimal

/-- The magnitude `significand * 2 ^ exponent`. -/
structure Binary where
  significand : Nat
  exponent : Int
  /-- The next smaller magnitude is only half as far away as the next larger one. -/
  atPowerOfTwo : Bool
  deriving DecidableEq, Repr

namespace Binary

/-- The magnitude of a finite double. -/
def ofFloat (f : Float) : Binary :=
  let bits := f.toBits.toNat
  let biased : Nat := bits / Nat.pow 2 52 % Nat.pow 2 11
  let fraction : Nat := bits % Nat.pow 2 52
  if biased = 0 then ⟨fraction, -1074, false⟩
  else ⟨fraction + Nat.pow 2 52, (biased : Int) - 1075, fraction = 0 && biased > 1⟩

/-- Numerator and denominator of the magnitude. -/
def fraction (b : Binary) : Nat × Nat :=
  (b.significand * Nat.pow 2 b.exponent.toNat, Nat.pow 2 (-b.exponent).toNat)

end Binary

/-- The nearest whole number to a quotient; a half goes to the even neighbour. -/
def roundHalfEven (num den : Nat) : Nat :=
  let q := num / den
  let r := num % den
  if 2 * r < den then q else if den < 2 * r then q + 1 else q + q % 2

def padLeft (width : Nat) (digits : List Char) : List Char :=
  List.replicate (width - digits.length) '0' ++ digits

/-- The magnitude with exactly `n` places. -/
def places (n : Nat) (b : Binary) : String :=
  let (num, den) := b.fraction
  let digits := padLeft (n + 1) (Nat.toDigits 10 (roundHalfEven (num * Nat.pow 10 n) den))
  .ofList (digits.take (digits.length - n) ++ '.' :: digits.drop (digits.length - n))

/-- Whether `c * 10 ^ e` reads back as the magnitude. The doubles next to it are two halves of a
step away, or one half and one quarter; a bound belongs to the even significand. -/
def readsBack (b : Binary) (c : Nat) (e : Int) : Bool :=
  let (num, den) := b.fraction
  let unit := Nat.pow 2 b.exponent.toNat
  let value := 4 * c * Nat.pow 10 e.toNat * den
  let scale := Nat.pow 10 (-e).toNat
  let low := (4 * num - (if b.atPowerOfTwo then 1 else 2) * unit) * scale
  let high := (4 * num + 2 * unit) * scale
  if b.significand % 2 = 0 then low ≤ value && value ≤ high else low < value && value < high

/-- The exponent of the first decimal digit, for a magnitude that is not zero. -/
def leadingExponent (b : Binary) : Int :=
  let (num, den) := b.fraction
  if den ≤ num then ((Nat.toDigits 10 (num / den)).length : Int) - 1
  else
    let digits := (Nat.toDigits 10 (den / num)).length
    if num * Nat.pow 10 (digits - 1) < den then -(digits : Int) else 1 - (digits : Int)

/-- The nearer neighbour of the magnitude among the decimals of `n` digits, if it reads back. -/
def candidate? (b : Binary) (n : Nat) : Option (Nat × Int) :=
  let (num, den) := b.fraction
  let e := leadingExponent b - (n : Int) + 1
  let scaledNum := num * Nat.pow 10 (-e).toNat
  let scaledDen := den * Nat.pow 10 e.toNat
  let below := scaledNum / scaledDen
  let rest := scaledNum % scaledDen
  let near := if 2 * rest < scaledDen || (2 * rest = scaledDen && below % 2 = 0) then below else below + 1
  let far := if near = below then below + 1 else below
  if readsBack b near e then some (near, e)
  else if readsBack b far e then some (far, e)
  else none

/-- Digits without trailing zeros, and the exponent of the first one. -/
def shortest (b : Binary) : List Char × Int :=
  if b.significand = 0 then (['0'], 0)
  else
    match (List.range 17).findSome? fun n => candidate? b (n + 1) with
    | some (c, e) =>
      let digits := Nat.toDigits 10 c
      let trimmed := (digits.reverse.dropWhile (· = '0')).reverse
      (trimmed, e + (digits.length : Int) - 1)
    | none => (['0'], 0)

/-- Exponents from -5 to 15 are written out with at least one place; others follow an `e` with
their sign. -/
def written (digits : List Char) (exponent : Int) : List Char :=
  let zeros (n : Nat) : List Char := List.replicate n '0'
  if exponent < -5 || 15 < exponent then
    let sign := if exponent < 0 then '-' else '+'
    let tail := 'e' :: sign :: Nat.toDigits 10 exponent.natAbs
    digits.take 1 ++ (if digits.length > 1 then '.' :: digits.drop 1 else []) ++ tail
  else if exponent < 0 then
    '0' :: '.' :: zeros (exponent.natAbs - 1) ++ digits
  else
    let whole := exponent.toNat + 1
    if digits.length ≤ whole then digits ++ zeros (whole - digits.length) ++ ['.', '0']
    else digits.take whole ++ '.' :: digits.drop whole

end ModBuild.Decimal
