import ModBuild.Json.Basic
import ModBuild.Json.Number

/-!
# Tokens of JSON

A document is cut into brackets, separators, strings and words. A word is a run of the characters
that numbers and the three constants are made of.
-/

namespace ModBuild.Json

inductive Token
  | openBrace | closeBrace | openBracket | closeBracket | comma | colon
  | text (value : String)
  /-- A number or a constant. -/
  | word (value : Json)
  deriving Repr, BEq

namespace Token

def isGap (c : Char) : Bool := c = ' ' || c = '\n' || c = '\r' || c = '\t'

def isWordChar (c : Char) : Bool := c.isAlphanum || c = '+' || c = '-' || c = '.'

def hexValue? (c : Char) : Option Nat :=
  if c.isDigit then some (c.toNat - '0'.toNat)
  else if 'a' ≤ c && c ≤ 'f' then some (c.toNat - 'a'.toNat + 10)
  else if 'A' ≤ c && c ≤ 'F' then some (c.toNat - 'A'.toNat + 10)
  else none

def hexUnit? : List Char → Option (Nat × List Char)
  | a :: b :: c :: d :: rest => do
    let n := ((← hexValue? a) * 16 + (← hexValue? b)) * 256 + (← hexValue? c) * 16 + (← hexValue? d)
    some (n, rest)
  | _ => none

theorem length_hexUnit? {cs rest : List Char} {n : Nat} (h : hexUnit? cs = some (n, rest)) :
    rest.length < cs.length := by
  match cs with
  | [] | [_] | [_, _] | [_, _, _] => simp [hexUnit?] at h
  | a :: b :: c :: d :: more =>
    simp only [hexUnit?, Option.bind_eq_bind, Option.bind_eq_some_iff, Option.some.injEq,
      Prod.mk.injEq] at h
    obtain ⟨_, _, _, _, _, _, _, _, _, rfl⟩ := h
    simp only [List.length_cons]
    omega

/-- A character given by its number; a pair of surrogates makes one character. -/
def unicode? (cs : List Char) : Option (Char × List Char) :=
  match hexUnit? cs with
  | some (n, rest) =>
    if n < 0xD800 || 0xE000 ≤ n then some (Char.ofNat n, rest)
    else if 0xDC00 ≤ n then none
    else
      match rest with
      | '\\' :: 'u' :: more =>
        match hexUnit? more with
        | some (low, rest) =>
          if 0xDC00 ≤ low && low < 0xE000 then
            some (Char.ofNat (0x10000 + (n - 0xD800) * 0x400 + (low - 0xDC00)), rest)
          else none
        | none => none
      | _ => none
  | none => none

theorem length_unicode? {cs rest : List Char} {c : Char} (h : unicode? cs = some (c, rest)) :
    rest.length < cs.length := by
  unfold unicode? at h
  split at h
  · next n r hr =>
    have h₁ := length_hexUnit? hr
    split at h
    · simp only [Option.some.injEq, Prod.mk.injEq] at h
      rw [← h.2]
      exact h₁
    · split at h
      · simp at h
      · split at h
        · next more =>
          split at h
          · next low r' hr' =>
            have h₂ := length_hexUnit? hr'
            split at h
            · simp only [Option.some.injEq, Prod.mk.injEq] at h
              simp only [List.length_cons] at h₁
              rw [← h.2]
              omega
            · simp at h
          · simp at h
        · simp at h
  · simp at h

/-- The character that stands for itself after a backslash, or is named there. -/
def named? (c : Char) : Option Char :=
  if c = '"' || c = '\\' || c = '/' then some c
  else if c = 'b' then some (Char.ofNat 8)
  else if c = 'f' then some (Char.ofNat 12)
  else if c = 'n' then some '\n'
  else if c = 'r' then some '\r'
  else if c = 't' then some '\t'
  else none

/-- The text up to the closing quote, and what follows it. Control characters must be escaped. -/
def stringBody? (cs : List Char) : Option (List Char × List Char) :=
  match cs with
  | [] => none
  | c :: rest =>
    if c = '"' then some ([], rest)
    else if c = '\\' then
      match rest with
      | 'u' :: digits =>
        match _h : unicode? digits with
        | some (c, rest) => (stringBody? rest).map fun r => (c :: r.1, r.2)
        | none => none
      | e :: rest =>
        match named? e with
        | some c => (stringBody? rest).map fun r => (c :: r.1, r.2)
        | none => none
      | [] => none
    else if c.toNat < 32 then none
    else (stringBody? rest).map fun r => (c :: r.1, r.2)
termination_by cs.length
decreasing_by
  · have := length_unicode? _h
    simp only [List.length_cons]
    omega
  · simp only [List.length_cons]
    omega
  · simp

theorem eq_some_of_map_cons {o : Option (List Char × List Char)} {c : Char} {body rest : List Char}
    (h : o.map (fun r => (c :: r.1, r.2)) = some (body, rest)) : ∃ b, o = some (b, rest) := by
  obtain ⟨⟨b, r⟩, hr, he⟩ := Option.map_eq_some_iff.1 h
  simp only [Prod.mk.injEq] at he
  exact ⟨b, by rw [hr, he.2]⟩

theorem length_stringBody? {cs body rest : List Char} (h : stringBody? cs = some (body, rest)) :
    rest.length < cs.length := by
  fun_induction stringBody? cs generalizing body with
  | case1 => simp at h
  | case2 =>
    simp only [Option.some.injEq, Prod.mk.injEq] at h
    simp [h.2]
  | case3 digits c more hu _ ih =>
    have h₁ := length_unicode? hu
    obtain ⟨_, hb⟩ := eq_some_of_map_cons h
    have h₂ := ih hb
    simp only [List.length_cons]
    omega
  | case4 => simp at h
  | case5 e more _ c _ _ ih =>
    obtain ⟨_, hb⟩ := eq_some_of_map_cons h
    have := ih hb
    simp only [List.length_cons]
    omega
  | case6 => simp at h
  | case7 => simp at h
  | case8 => simp at h
  | case9 c more _ _ _ ih =>
    obtain ⟨_, hb⟩ := eq_some_of_map_cons h
    have := ih hb
    simp only [List.length_cons]
    omega

def ofWord? (word : List Char) : Option Token :=
  if word = "null".toList then some (.word .null)
  else if word = "true".toList then some (.word (.bool true))
  else if word = "false".toList then some (.word (.bool false))
  else ((Numeral.ofWord? word).bind Numeral.text?).map fun text => .word (.number text)

def ofChar? (c : Char) : Option Token :=
  if c = '{' then some openBrace
  else if c = '}' then some closeBrace
  else if c = '[' then some openBracket
  else if c = ']' then some closeBracket
  else if c = ',' then some comma
  else if c = ':' then some colon
  else none

/-- The tokens of a text, gaps left out. -/
def scan? (cs : List Char) : Option (List Token) :=
  match cs with
  | [] => some []
  | c :: rest =>
    if isGap c then scan? rest
    else if c = '"' then
      match _h : stringBody? rest with
      | some (body, rest) => (scan? rest).map (text (.ofList body) :: ·)
      | none => none
    else if isWordChar c then
      match ofWord? (c :: rest.takeWhile isWordChar) with
      | some t => (scan? (rest.dropWhile isWordChar)).map (t :: ·)
      | none => none
    else
      match ofChar? c with
      | some t => (scan? rest).map (t :: ·)
      | none => none
termination_by cs.length
decreasing_by
  · simp
  · have := length_stringBody? _h
    simp only [List.length_cons]
    omega
  · have := Text.length_dropWhile_le isWordChar rest
    simp only [List.length_cons]
    omega
  · simp

end Token

end ModBuild.Json
