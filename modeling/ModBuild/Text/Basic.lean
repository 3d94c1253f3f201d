/-!
# Characters of a text

Texts are cut, trimmed and searched as lists of characters. This module has the cuts that every
format of a mod project shares: at a separator, at the first occurrence of a needle, at line ends.

It does NOT know any format, and it does not supply a full Unicode case map: keys and file
extensions are compared in ASCII.
-/

namespace ModBuild.Text

/-- The characters with Unicode's property `White_Space`. -/
def isBlank (c : Char) : Bool :=
  let n := c.toNat
  (9 ≤ n && n ≤ 13) || n = 0x20 || n = 0x85 || n = 0xA0 || n = 0x1680 ||
    (0x2000 ≤ n && n ≤ 0x200A) || n = 0x2028 || n = 0x2029 || n = 0x202F || n = 0x205F || n = 0x3000

/-- The text without its longest ending of characters that satisfy `p`. -/
def dropEndWhile (p : Char → Bool) (cs : List Char) : List Char :=
  (cs.reverse.dropWhile p).reverse

theorem length_dropWhile_le (p : Char → Bool) (cs : List Char) :
    (cs.dropWhile p).length ≤ cs.length :=
  (List.dropWhile_sublist p).length_le

def trimStart (cs : List Char) : List Char := cs.dropWhile isBlank

def trimEnd (cs : List Char) : List Char := dropEndWhile isBlank cs

def trim (cs : List Char) : List Char := trimEnd (trimStart cs)

/-- ASCII capitals become small letters; every other character stays. -/
def lower (cs : List Char) : List Char := cs.map Char.toLower

/-- A letter, digit or underscore of ASCII: what a name of the script language is made of. -/
def isNameChar (c : Char) : Bool := c.isAlphanum || c = '_'

def isNameStart (c : Char) : Bool := c.isAlpha || c = '_'

/-- Number of bytes of the text in UTF-8. -/
def byteCount (cs : List Char) : Nat := cs.foldr (fun c n => c.utf8Size + n) 0

/-- What stands before and after the first occurrence of `needle`. -/
def cut? (needle : List Char) : List Char → Option (List Char × List Char)
  | [] => if needle.isEmpty then some ([], []) else none
  | c :: cs =>
    if needle.isPrefixOf (c :: cs) then some ([], (c :: cs).drop needle.length)
    else (cut? needle cs).map fun r => (c :: r.1, r.2)

theorem eq_of_cut? {needle cs a b : List Char} (h : cut? needle cs = some (a, b)) :
    cs = a ++ needle ++ b := by
  induction cs generalizing a b with
  | nil =>
    simp only [cut?] at h
    split at h <;> simp_all
  | cons c cs ih =>
    simp only [cut?] at h
    split at h
    · next hp =>
      simp only [Option.some.injEq, Prod.mk.injEq] at h
      obtain ⟨rfl, rfl⟩ := h
      obtain ⟨t, ht⟩ := List.isPrefixOf_iff_prefix.1 hp
      simp [← ht]
    · simp only [Option.map_eq_some_iff, Prod.mk.injEq] at h
      obtain ⟨⟨a', b'⟩, h', rfl, rfl⟩ := h
      simp [ih h']

theorem length_of_cut? {needle cs a b : List Char} (h : cut? needle cs = some (a, b)) :
    cs.length = a.length + needle.length + b.length := by
  simp [eq_of_cut? h, Nat.add_assoc]

def contains (needle cs : List Char) : Bool := (cut? needle cs).isSome

/-- The first occurrence of `needle` replaced; the text itself when there is none. -/
def replaceFirst (needle new cs : List Char) : List Char :=
  match cut? needle cs with
  | some (before, after) => before ++ new ++ after
  | none => cs

/-- The parts of the text between the separators, at least one. -/
def split (sep : Char) : List Char → List (List Char)
  | [] => [[]]
  | c :: cs =>
    if c = sep then [] :: split sep cs
    else
      match split sep cs with
      | part :: parts => (c :: part) :: parts
      | [] => [[c]]

/-- The inverse of `split`. -/
def joinWith (sep : List Char) : List (List Char) → List Char
  | [] => []
  | [part] => part
  | part :: parts => part ++ sep ++ joinWith sep parts

theorem split_ne_nil (sep : Char) (cs : List Char) : split sep cs ≠ [] := by
  cases cs with
  | nil => simp [split]
  | cons c cs => simp only [split]; split <;> (try split) <;> simp

theorem joinWith_split (sep : Char) (cs : List Char) : joinWith [sep] (split sep cs) = cs := by
  induction cs with
  | nil => rfl
  | cons c cs ih =>
    simp only [split]
    split
    · next h =>
      subst h
      match hs : split c cs with
      | [] => exact absurd hs (split_ne_nil c cs)
      | part :: parts => rw [hs] at ih; simp [joinWith, ih]
    · match hs : split sep cs with
      | [] => exact absurd hs (split_ne_nil sep cs)
      | [part] => rw [hs] at ih; simpa [joinWith] using ih
      | part :: next :: parts => rw [hs] at ih; simpa [joinWith] using ih

/-- The parts of the text between blanks. -/
def words (cs : List Char) : List (List Char) :=
  (split ' ' (cs.map fun c => if isBlank c then ' ' else c)).filter fun word => !word.isEmpty

/-- A carriage return at the end of a line belongs to the line break. -/
def dropReturn (cs : List Char) : List Char :=
  if cs.getLast? = some '\r' then cs.dropLast else cs

/-- The lines of the text. A break is a line feed with at most one carriage return before it; text
after the last break is a line of its own, kept as it is. -/
def lines (cs : List Char) : List (List Char) :=
  let parts := split '\n' cs
  parts.dropLast.map dropReturn ++ (parts.getLast?.filter (!·.isEmpty)).toList

/-- The text after the last line feed. -/
def lastLine (cs : List Char) : List Char := (cs.reverse.takeWhile (· ≠ '\n')).reverse

/-- The first `n` bytes, if a character ends there. -/
def takeBytes? (n : Nat) : List Char → Option (List Char)
  | [] => if n = 0 then some [] else none
  | c :: cs =>
    if n = 0 then some []
    else if c.utf8Size ≤ n then (takeBytes? (n - c.utf8Size) cs).map (c :: ·)
    else none

/-- `text` with `note` written after each occurrence of `needle`, found from the left. -/
def annotate (needle note cs : List Char) : List Char :=
  match _h : cut? needle cs with
  | none => cs
  | some (before, after) =>
    if _hn : needle = [] then cs
    else before ++ needle ++ note ++ annotate needle note after
termination_by cs.length
decreasing_by
  have := length_of_cut? _h
  have := List.length_pos_iff.2 _hn
  omega

/-- The decimal digits of a number. -/
def decimal (n : Nat) : String := .ofList (Nat.toDigits 10 n)

end ModBuild.Text
