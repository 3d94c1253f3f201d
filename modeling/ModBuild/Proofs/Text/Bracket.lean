import ModBuild.Text.Basic

/-!
# Brackets of a text

A text is read against the brackets that are open, the innermost first, each kept as the character
that closes it. Reading a character is injective in the open brackets, hence what stands in the middle
of a nested text can be replaced only by something that leaves the same brackets open.
-/

namespace ModBuild.Text

set_option autoImplicit false

/-- The character that closes a bracket. -/
def closer? (c : Char) : Option Char :=
  if c = '(' then some ')' else if c = '[' then some ']' else if c = '{' then some '}' else none

def isCloser (c : Char) : Bool := c = ')' || c = ']' || c = '}'

def isBracket (c : Char) : Bool := (closer? c).isSome || isCloser c

/-- The open brackets after one more character; only the innermost one may be closed. -/
def readBracket (pending : List Char) (c : Char) : Option (List Char) :=
  match closer? c with
  | some d => some (d :: pending)
  | none =>
    if isCloser c then if pending.head? = some c then some pending.tail else none
    else some pending

def readBrackets (pending cs : List Char) : Option (List Char) := cs.foldlM readBracket pending

/-- Every bracket of the text is closed in the text, inner ones first. -/
def Nested (cs : List Char) : Prop := readBrackets [] cs = some []

instance (cs : List Char) : Decidable (Nested cs) :=
  inferInstanceAs (Decidable (readBrackets [] cs = some []))

/-- Reading the text changes no bracket. -/
def Plain (cs : List Char) : Prop := ∀ c ∈ cs, isBracket c = false

instance (cs : List Char) : Decidable (Plain cs) :=
  decidable_of_iff (cs.all (fun c => !isBracket c) = true) (by simp [Plain])

section
variable {s s' r : List Char} {c : Char} {cs : List Char}

theorem readBracket_plain (h : isBracket c = false) (s : List Char) : readBracket s c = some s := by
  simp only [isBracket, Bool.or_eq_false_iff, Option.isSome_eq_false_iff, Option.isNone_iff_eq_none] at h
  simp [readBracket, h.1, h.2]

theorem readBracket_injective (h : readBracket s c = some r) (h' : readBracket s' c = some r) :
    s = s' := by
  simp only [readBracket] at h h'
  cases hc : closer? c with
  | some d =>
    rw [hc] at h h'
    cases h
    cases h'
    rfl
  | none =>
    rw [hc] at h h'
    by_cases hclose : isCloser c = true
    · simp only [hclose, if_true] at h h'
      cases s with
      | nil => simp at h
      | cons a s =>
        cases s' with
        | nil => simp at h'
        | cons b s' => simp_all
    · simp_all

theorem readBracket_append (h : readBracket s c = some r) (t : List Char) :
    readBracket (s ++ t) c = some (r ++ t) := by
  simp only [readBracket] at h ⊢
  cases hc : closer? c with
  | some d =>
    rw [hc] at h
    cases h
    rfl
  | none =>
    rw [hc] at h
    by_cases hclose : isCloser c = true
    · simp only [hclose, if_true] at h ⊢
      cases s with
      | nil => simp at h
      | cons a s => simp_all
    · simp_all

theorem readBrackets_append (s a b : List Char) :
    readBrackets s (a ++ b) = (readBrackets s a).bind (readBrackets · b) :=
  List.foldlM_append

theorem readBrackets_plain (h : Plain cs) (s : List Char) :
    readBrackets s cs = some s := by
  induction cs with
  | nil => rfl
  | cons c cs ih =>
    rw [readBrackets, List.foldlM_cons, readBracket_plain (h c List.mem_cons_self)]
    exact ih fun x hx => h x (List.mem_cons_of_mem c hx)

theorem readBrackets_injective (h : readBrackets s cs = some r) (h' : readBrackets s' cs = some r) :
    s = s' := by
  induction cs generalizing s s' with
  | nil =>
    cases h
    cases h'
    rfl
  | cons c cs ih =>
    obtain ⟨u, hu, hr⟩ := Option.bind_eq_some_iff.mp h
    obtain ⟨u', hu', hr'⟩ := Option.bind_eq_some_iff.mp h'
    cases ih hr hr'
    exact readBracket_injective hu hu'

theorem Nested.readBrackets (h : Nested cs) (s : List Char) : Text.readBrackets s cs = some s := by
  have happend : ∀ {cs p r : List Char}, Text.readBrackets p cs = some r →
      Text.readBrackets (p ++ s) cs = some (r ++ s) := by
    intro cs
    induction cs with
    | nil =>
      intro p r hp
      cases hp
      rfl
    | cons c cs ih =>
      intro p r hp
      obtain ⟨u, hu, hr⟩ := Option.bind_eq_some_iff.mp hp
      exact Option.bind_eq_some_iff.mpr ⟨u ++ s, readBracket_append hu s, ih hr⟩
  exact happend h

end

/-- What is put into a nested text has to leave open what is open there. -/
theorem nested_insert_iff {a b : List Char} (h : Nested (a ++ b)) (m : List Char) :
    Nested (a ++ m ++ b) ↔
      ∃ s, readBrackets [] a = some s ∧ readBrackets s m = some s := by
  unfold Nested at h ⊢
  rw [readBrackets_append] at h
  obtain ⟨s, hs, hb⟩ := Option.bind_eq_some_iff.mp h
  rw [List.append_assoc, readBrackets_append, hs, Option.bind_some, readBrackets_append]
  constructor
  · intro hm
    obtain ⟨s', hs', hb'⟩ := Option.bind_eq_some_iff.mp hm
    cases readBrackets_injective hb hb'
    exact ⟨s, rfl, hs'⟩
  · rintro ⟨s', hs', hm⟩
    cases hs'
    rw [hm]
    exact hb

end ModBuild.Text
