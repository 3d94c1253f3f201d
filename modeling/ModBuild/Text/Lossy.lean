import ModBuild.Text.Basic

/-!
# Bytes as text

Output of other programs need not be UTF-8. It is read as far as it is; the bytes of a character that
is not completed are shown together as one replacement character.
-/

namespace ModBuild.Text

/-- A character of which some bytes are read. -/
structure Pending where
  code : Nat
  /-- The number of bytes that are missing. -/
  missing : Nat
  /-- The range of the next byte. -/
  low : Nat
  high : Nat
  deriving DecidableEq, Repr

def replacement : Char := '\uFFFD'

/-- A byte at which a character starts. -/
def firstByte (b : Nat) : List Char × Option Pending :=
  if b < 0x80 then ([.ofNat b], none)
  else if 0xC2 ≤ b && b ≤ 0xDF then ([], some ⟨b - 0xC0, 1, 0x80, 0xBF⟩)
  else if 0xE0 ≤ b && b ≤ 0xEF then
    ([], some ⟨b - 0xE0, 2, if b = 0xE0 then 0xA0 else 0x80, if b = 0xED then 0x9F else 0xBF⟩)
  else if 0xF0 ≤ b && b ≤ 0xF4 then
    ([], some ⟨b - 0xF0, 3, if b = 0xF0 then 0x90 else 0x80, if b = 0xF4 then 0x8F else 0xBF⟩)
  else ([replacement], none)

def nextByte (p : Pending) (b : Nat) : List Char × Option Pending :=
  if p.low ≤ b && b ≤ p.high then
    let code := 64 * p.code + (b - 0x80)
    if p.missing ≤ 1 then ([.ofNat code], none)
    else ([], some ⟨code, p.missing - 1, 0x80, 0xBF⟩)
  else
    let (cs, pending) := firstByte b
    (replacement :: cs, pending)

def readBytes : Option Pending → List UInt8 → List Char
  | pending, [] => if pending.isSome then [replacement] else []
  | pending, b :: bs =>
    let (cs, pending) := match pending with
      | some p => nextByte p b.toNat
      | none => firstByte b.toNat
    cs ++ readBytes pending bs

def lossy (bytes : ByteArray) : String := .ofList (readBytes none bytes.toList)

end ModBuild.Text
