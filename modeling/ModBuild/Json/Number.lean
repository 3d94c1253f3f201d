import ModBuild.Decimal
import ModBuild.Text.Basic

/-!
# JSON numbers

A number is read as a machine integer when it is one, and as a double otherwise. Its text is the one
that such a value is written with. A number too large for a double is refused.
-/

namespace ModBuild.Json

/-- The parts of a number as it is written. -/
structure Numeral where
  negative : Bool
  whole : List Char
  fraction : Option (List Char)
  /-- Sign and digits of the exponent. -/
  exponent : Option (Bool × List Char)
  deriving DecidableEq, Repr

namespace Numeral

def digits? (cs : List Char) : Option (List Char) :=
  if !cs.isEmpty && cs.all Char.isDigit then some cs else none

def exponent? : List Char → Option (Bool × List Char)
  | '+' :: cs => (digits? cs).map (false, ·)
  | '-' :: cs => (digits? cs).map (true, ·)
  | cs => (digits? cs).map (false, ·)

/-- Whether the word starts with a minus, and what follows it. -/
def sign : List Char → Bool × List Char
  | '-' :: rest => (true, rest)
  | rest => (false, rest)

/-- The digits at the start; whole numbers start with no needless zero. -/
def whole? (word : List Char) : Option (List Char) :=
  (digits? (word.takeWhile Char.isDigit)).filter fun whole =>
    whole.length ≤ 1 || whole.head? ≠ some '0'

/-- The digits after a point, and what follows them. -/
def fraction? : List Char → Option (Option (List Char) × List Char)
  | '.' :: after =>
    (digits? (after.takeWhile Char.isDigit)).map fun f => (some f, after.dropWhile Char.isDigit)
  | rest => some (none, rest)

def power? : List Char → Option (Option (Bool × List Char))
  | [] => some none
  | e :: after => if e = 'e' || e = 'E' then (exponent? after).map some else none

def ofWord? (word : List Char) : Option Numeral := do
  let (negative, unsigned) := sign word
  let whole ← whole? unsigned
  let (fraction, rest) ← fraction? (unsigned.dropWhile Char.isDigit)
  let exponent ← power? rest
  return ⟨negative, whole, fraction, exponent⟩

def valueOf (digits : List Char) : Nat :=
  digits.foldl (fun n c => 10 * n + (c.toNat - '0'.toNat)) 0

/-- Takes digits into `n` as long as it fits a machine word; the rest is only counted. -/
def absorb (n : Nat) : List Char → Nat × Nat
  | [] => (n, 0)
  | c :: cs =>
    let next := 10 * n + (c.toNat - '0'.toNat)
    if next < Nat.pow 2 64 then absorb next cs else (n, cs.length + 1)

def powerOfTen (n : Nat) : Float := Float.ofScientific 1 false n

/-- `f * 10 ^ e`, unless it is too large. Each step is rounded. -/
def scale (f : Float) (e : Int) : Option Float :=
  if e.natAbs ≤ 308 then
    if 0 ≤ e then
      let r := f * powerOfTen e.natAbs
      if r.isInf then none else some r
    else some (f / powerOfTen e.natAbs)
  else if f == 0.0 then some f
  else if 0 ≤ e then none
  else scale (f / powerOfTen 308) (e + 308)
termination_by e.natAbs
decreasing_by omega

def maxExponent : Nat := Nat.pow 2 31 - 1

/-- The magnitude as a double. -/
def magnitude? (n : Numeral) : Option Float :=
  let (s, dropped) := absorb 0 n.whole
  let (s, e) := match n.fraction with
    | some f =>
      let (s', dropped') := absorb s f
      (s', (dropped : Int) - ((f.length - dropped' : Nat) : Int))
    | none => (s, (dropped : Int))
  let f := s.toUInt64.toFloat
  match n.exponent with
  | none => scale f e
  | some (down, digits) =>
    let x := valueOf digits
    if x ≤ maxExponent then scale f (if down then e - (x : Int) else e + (x : Int))
    else if s ≠ 0 && !down then none
    else some 0.0

def isWhole (n : Numeral) : Bool := n.fraction.isNone && n.exponent.isNone

/-- The text of the value. Minus zero is a double. -/
def text? (n : Numeral) : Option String :=
  let sign := if n.negative then ['-'] else []
  let value := valueOf n.whole
  if n.isWhole && (if n.negative then 0 < value && value ≤ Nat.pow 2 63 else value < Nat.pow 2 64) then
    some (.ofList (sign ++ Nat.toDigits 10 value))
  else
    n.magnitude?.map fun f =>
      let (digits, exponent) := Decimal.shortest (.ofFloat f)
      .ofList (sign ++ Decimal.written digits exponent)

end Numeral

end ModBuild.Json
