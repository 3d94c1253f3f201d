import ModBuild.Script.Token

/-!
# Reading a script

The tokens of a script are put together to commands. Every call takes a token or goes down one level
of the grammar, so a multiple of their number is fuel enough.
-/

namespace ModBuild.Script

/-- A reader of tokens gives what it read and the tokens that are left. -/
abbrev Reader (α : Type) := List Lexeme → Option (α × List Lexeme)

/-- The reserved word at the start. -/
def keyword? : List Lexeme → Option String
  | ⟨.word w, _⟩ :: _ => w.plain?.map String.ofList
  | _ => none

def markAt? : List Lexeme → Option String
  | ⟨.mark m, _⟩ :: _ => some m
  | _ => none

def expect (word : String) (ts : List Lexeme) : Option (List Lexeme) :=
  if keyword? ts = some word || markAt? ts = some word then some ts.tail else none

def skipBreaks (ts : List Lexeme) : List Lexeme :=
  ts.dropWhile fun t => t.token = .mark "\n"

/-- Words that end a list of commands. -/
def closers : List String := ["then", "else", "elif", "fi", "do", "done", "\x7d", ")"]

def isClosed (ts : List Lexeme) : Bool :=
  ts.isEmpty || closers.any fun word => (expect word ts).isSome

def target (mode : String) (w : Word) : Target :=
  if mode = ">" then .create w
  else if mode = ">>" then .append w
  else if mode = "<" then .read w
  else .stream (((w.plain?.map String.ofList).bind String.toNat?).getD 1)

def takeRedirections : List Lexeme → List Redirection × List Lexeme
  | ⟨.redirect stream mode, _⟩ :: ⟨.word w, _⟩ :: ts =>
    let (rs, rest) := takeRedirections ts
    (⟨stream, target mode w⟩ :: rs, rest)
  | ts => ([], ts)

/-- The words and redirections of a simple command, in any order. -/
def takeSimple : List Lexeme → List Word × List Redirection × List Lexeme
  | ⟨.word w, _⟩ :: ts =>
    let (ws, rs, rest) := takeSimple ts
    (w :: ws, rs, rest)
  | ⟨.redirect stream mode, _⟩ :: ⟨.word w, _⟩ :: ts =>
    let (ws, rs, rest) := takeSimple ts
    (ws, ⟨stream, target mode w⟩ :: rs, rest)
  | ts => ([], [], ts)

def takeWords : List Lexeme → List Word × List Lexeme
  | ⟨.word w, _⟩ :: ts =>
    let (ws, rest) := takeWords ts
    (w :: ws, rest)
  | ts => ([], ts)

def simple : Reader Command := fun ts =>
  match takeSimple ts, ts.head? with
  | ([], [], _), _ | _, none => none
  | (ws, rs, rest), some first => some (.simple first.line ws rs, rest)

/-- The redirections after a command that is made of others. -/
def withRedirections (body : Command) (ts : List Lexeme) : Command × List Lexeme :=
  match takeRedirections ts, ts.head? with
  | ([], rest), _ => (body, rest)
  | (rs, rest), first => (.redirected ((first.map Lexeme.line).getD 0) body rs, rest)

mutual

/-- Commands up to a closing word. -/
def list : Nat → Reader Command
  | 0, _ => none
  | fuel + 1, ts => do
    let ts := skipBreaks ts
    if isClosed ts then return (.nothing, ts)
    let (first, ts) ← chain fuel ts
    match markAt? ts with
    | some ";" | some "\n" | some "&" =>
      let (rest, ts) ← list fuel ts.tail
      return (.sequence first rest, ts)
    | _ => return (first, ts)

/-- Commands joined by `&&` and `||`. -/
def chain : Nat → Reader Command
  | 0, _ => none
  | fuel + 1, ts => do
    let (first, ts) ← pipeline fuel ts
    chainTail fuel first ts

def chainTail : Nat → Command → Reader Command
  | 0, _, _ => none
  | fuel + 1, first, ts =>
    match markAt? ts with
    | some "&&" => do
      let (second, ts) ← pipeline fuel (skipBreaks ts.tail)
      chainTail fuel (.both first second) ts
    | some "||" => do
      let (second, ts) ← pipeline fuel (skipBreaks ts.tail)
      chainTail fuel (.either first second) ts
    | _ => some (first, ts)

def pipeline : Nat → Reader Command
  | 0, _ => none
  | fuel + 1, ts => do
    if keyword? ts = some "!" then
      let (body, ts) ← pipeline fuel ts.tail
      return (.negated body, ts)
    let (first, ts) ← single fuel ts
    if markAt? ts = some "|" then
      let (second, ts) ← pipeline fuel (skipBreaks ts.tail)
      return (.pipe first second, ts)
    return (first, ts)

/-- What follows `if` or `elif`, with its `fi`. -/
def branches : Nat → Reader Command
  | 0, _ => none
  | fuel + 1, ts => do
    let (condition, ts) ← list fuel ts
    let (yes, ts) ← list fuel (← expect "then" ts)
    match keyword? ts with
    | some "elif" =>
      let (no, ts) ← branches fuel ts.tail
      return (.branch condition yes no, ts)
    | some "else" =>
      let (no, ts) ← list fuel ts.tail
      return (.branch condition yes no, ← expect "fi" ts)
    | _ => return (.branch condition yes .nothing, ← expect "fi" ts)

/-- The body of a loop, from `do` to `done`. -/
def loopBody : Nat → Reader Command
  | 0, _ => none
  | fuel + 1, ts => do
    let (body, ts) ← list fuel (← expect "do" (skipBreaks ts))
    return (body, ← expect "done" ts)

def single : Nat → Reader Command
  | 0, _ => none
  | fuel + 1, ts => do
    let (body, rest) ← match keyword? ts, markAt? ts with
      | some "if", _ => branches fuel ts.tail
      | some "while", _ => do
        let (condition, ts) ← list fuel ts.tail
        let (body, ts) ← loopBody fuel ts
        return (.repeated true condition body, ts)
      | some "until", _ => do
        let (condition, ts) ← list fuel ts.tail
        let (body, ts) ← loopBody fuel ts
        return (.repeated false condition body, ts)
      | some "for", _ => do
        let name ← keyword? ts.tail
        let (words, ts) := takeWords (← expect "in" ts.tail.tail)
        let (body, ts) ← loopBody fuel (← expect ";" ts <|> expect "\n" ts)
        return (.each name words body, ts)
      | some "\x7b", _ => do
        let (body, ts) ← list fuel ts.tail
        return (body, ← expect "\x7d" ts)
      | none, some "(" => do
        let (body, ts) ← list fuel ts.tail
        return (.separate body, ← expect ")" ts)
      | _, _ => simple ts
    return withRedirections body rest

end

/-- The commands of a script, `none` when it is malformed. -/
def parse? (source : List Char) : Option Command := do
  let ts ← tokens? source
  match ← list (8 * ts.length + 8) ts with
  | (body, []) => some body
  | _ => none

end ModBuild.Script
