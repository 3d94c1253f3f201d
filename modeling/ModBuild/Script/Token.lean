import ModBuild.Script.Basic

/-!
# Tokens of a script

A script is cut into words, marks and redirections. A backslash keeps a character as it is, single
quotes keep everything, and expansions are found outside of them.
-/

namespace ModBuild.Script

inductive Token
  | word (word : Word)
  /-- An operator or a line break. -/
  | mark (text : String)
  | redirect (stream : Nat) (mode : String)
  deriving DecidableEq, Repr

structure Lexeme where
  token : Token
  /-- Lines are counted from 1. -/
  line : Nat
  deriving DecidableEq, Repr

/-- Cuts at the parenthesis that closes `depth` open ones; those in quotes do not count. -/
def closing (quote : Option Char) (depth : Nat) : List Char → Option (List Char × List Char)
  | [] => none
  | c :: cs =>
    let goOn (quote : Option Char) (depth : Nat) :=
      (closing quote depth cs).map fun r => (c :: r.1, r.2)
    match quote with
    | some q => goOn (if c = q then none else quote) depth
    | none =>
      if c = '\'' || c = '"' then goOn (some c) depth
      else if c = '(' then goOn none (depth + 1)
      else if c = ')' then
        match depth with
        | 0 => some ([], cs)
        | depth + 1 => goOn none depth
      else goOn none depth

/-- Parameters whose name is one character. -/
def specialNames : List Char := ['@', '*', '#', '?', '0', '1', '2', '3', '4', '5', '6', '7', '8', '9']

/-- A parameter between braces. -/
def braced? (inside : List Char) : Part :=
  match Text.cut? [':', '-'] inside with
  | some (name, source) => .fallback (.ofList name) source
  | none => .parameter (.ofList inside)

/-- The expansion after a dollar sign. -/
def expansion? : List Char → Option (Part × List Char)
  | '(' :: cs => (closing none 0 cs).map fun r => (.output r.1, r.2)
  | '{' :: cs => (Text.cut? ['}'] cs).map fun r => (braced? r.1, r.2)
  | c :: cs =>
    if c ∈ specialNames then some (.parameter (.ofList [c]), cs)
    else if Text.isNameStart c then
      some (.parameter (.ofList ((c :: cs).takeWhile Text.isNameChar)),
        (c :: cs).dropWhile Text.isNameChar)
    else none
  | [] => none

/-- Characters that end a word. -/
def endsWord (c : Char) : Bool := c ∈ [' ', '\t', '\n', ';', '&', '|', '<', '>', '(', ')']

/-- A word, from inside double quotes when `quoted`. Each step takes a character at least. -/
def scanWord : Nat → Bool → List Char → Option (Word × List Char)
  | 0, _, _ => none
  | fuel + 1, quoted, cs =>
    let add (part : Part) (quoted' : Bool) (rest : List Char) :=
      (scanWord fuel quoted rest).map fun r => (⟨part, quoted'⟩ :: r.1, r.2)
    match cs with
    | [] => if quoted then none else some ([], [])
    | '\\' :: '\n' :: cs => scanWord fuel quoted cs
    | '\\' :: c :: cs =>
      if quoted && c ∉ ['$', '\x60', '"', '\\'] then add (.text ['\\', c]) true cs
      else add (.text [c]) true cs
    | '\x60' :: cs =>
      match Text.cut? ['\x60'] cs with
      | some (source, rest) => add (.output source) quoted rest
      | none => none
    | '$' :: cs =>
      match expansion? cs with
      | some (part, rest) => add part quoted rest
      | none => add (.text ['$']) quoted cs
    | '"' :: cs =>
      (scanWord fuel (!quoted) cs).map fun r => (⟨.text [], true⟩ :: r.1, r.2)
    | c :: cs =>
      if quoted then add (.text [c]) true cs
      else if c = '\'' then
        match Text.cut? ['\''] cs with
        | some (chars, rest) => add (.text chars) true rest
        | none => none
      else if endsWord c then some ([], c :: cs)
      else add (.text [c]) false cs

/-- The longest operator at the start. -/
def mark? (cs : List Char) : Option String :=
  ["&&", "||", ";", "&", "|", "(", ")"].find? fun m => m.toList.isPrefixOf cs

def redirect? (cs : List Char) : Option (Nat × String × List Char) :=
  let digits := cs.takeWhile Char.isDigit
  let rest := cs.drop digits.length
  match [">>", ">&", ">", "<"].find? fun m => m.toList.isPrefixOf rest with
  | some mode =>
    let default := if mode = "<" then 0 else 1
    some ((String.ofList digits).toNat?.getD default, mode, rest.drop mode.length)
  | none => none

/-- The tokens of a script, `none` when a quote is not closed. -/
def scan : Nat → Nat → List Char → Option (List Lexeme)
  | 0, _, _ => none
  | _ + 1, _, [] => some []
  | fuel + 1, line, c :: cs =>
    let add (token : Token) (rest : List Char) (line' : Nat) :=
      (scan fuel line' rest).map (⟨token, line⟩ :: ·)
    if c = ' ' || c = '\t' then scan fuel line cs
    else if c = '#' then scan fuel line (cs.dropWhile (· ≠ '\n'))
    else if c = '\n' then add (.mark "\n") cs (line + 1)
    else
      match redirect? (c :: cs), mark? (c :: cs) with
      | some (stream, mode, rest), _ => add (.redirect stream mode) rest line
      | none, some m => add (.mark m) ((c :: cs).drop m.length) line
      | none, none =>
        match scanWord ((c :: cs).length + 1) false (c :: cs) with
        | some (word, rest) =>
          let taken := (c :: cs).take ((c :: cs).length - rest.length)
          add (.word word) rest (line + taken.count '\n')
        | none => none

def tokens? (source : List Char) : Option (List Lexeme) := scan (source.length + 1) 1 source

end ModBuild.Script
