import ModBuild.Text.Basic

/-!
# Local declarations

A module-scope declaration stands on one line, starts in its first column, and has the form of a
keyword, names between commas, an equals sign and an initializer.
-/

namespace ModBuild.Rebinding

structure Declaration where
  /-- The names as they are written, with the blanks around the commas. -/
  names : List Char
  initializer : List Char
  deriving DecidableEq, Repr

namespace Declaration

def keyword : List Char := "local".toList

def takeName? : List Char → Option (List Char × List Char)
  | c :: cs =>
    if Text.isNameStart c then some (c :: cs.takeWhile Text.isNameChar, cs.dropWhile Text.isNameChar)
    else none
  | [] => none

theorem length_takeName? {cs name rest : List Char} (h : takeName? cs = some (name, rest)) :
    rest.length < cs.length := by
  match cs with
  | [] => simp [takeName?] at h
  | c :: cs =>
    simp only [takeName?] at h
    split at h
    · simp only [Option.some.injEq, Prod.mk.injEq] at h
      have := Text.length_dropWhile_le Text.isNameChar cs
      simp only [List.length_cons, ← h.2]
      omega
    · simp at h

/-- Further names, each after a comma, and the text behind them. -/
def takeMoreNames (cs : List Char) : List Char × List Char :=
  let blanks := cs.takeWhile Text.isBlank
  match _h : cs.dropWhile Text.isBlank with
  | ',' :: after =>
    let gap := after.takeWhile Text.isBlank
    match _h' : takeName? (after.dropWhile Text.isBlank) with
    | some (name, rest) =>
      let more := takeMoreNames rest
      (blanks ++ ',' :: gap ++ name ++ more.1, more.2)
    | none => ([], cs)
  | _ => ([], cs)
termination_by cs.length
decreasing_by
  have h₁ := Text.length_dropWhile_le Text.isBlank cs
  have h₂ := Text.length_dropWhile_le Text.isBlank after
  have h₃ := length_takeName? _h'
  rw [_h, List.length_cons] at h₁
  omega

/-- Blanks may surround every comma and the equals sign; one is needed after the keyword. -/
def ofLine? (line : List Char) : Option Declaration :=
  match Text.cut? keyword line with
  | some ([], rest) =>
    if rest.head?.any Text.isBlank then
      match takeName? (rest.dropWhile Text.isBlank) with
      | some (name, afterName) =>
        let more := takeMoreNames afterName
        match more.2.dropWhile Text.isBlank with
        | '=' :: value =>
          let initializer := value.dropWhile Text.isBlank
          if initializer.isEmpty then none else some ⟨name ++ more.1, initializer⟩
        | _ => none
      | none => none
    else none
  | _ => none

/-- The single names, without the blanks around them. -/
def nameList (d : Declaration) : List (List Char) := (Text.split ',' d.names).map Text.trim

end Declaration

end ModBuild.Rebinding
