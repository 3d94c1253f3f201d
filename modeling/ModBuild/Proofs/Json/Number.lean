import Mathlib.Data.List.TakeWhile
import ModBuild.Json.Number

/-!
# The spelling of numbers

A numeral is written as a sign, a whole part, a fraction and an exponent. Reading a word finds
exactly the numeral that spells it (`ofWord?_eq_some_iff`): digits go on as long as there are
digits, and what follows them is no digit.
-/

namespace ModBuild.Json.Numeral

set_option autoImplicit false

/-- One or more digits. -/
def Digits (cs : List Char) : Prop := cs ≠ [] ∧ ∀ c ∈ cs, c.isDigit

/-- The fraction after its point. -/
inductive Fraction : Option (List Char) → List Char → Prop
  | none : Fraction none []
  | some {digits : List Char} : Digits digits → Fraction (some digits) ('.' :: digits)

/-- The exponent after its sign, the one for a positive exponent may be left out. -/
inductive Exponent : Bool × List Char → List Char → Prop
  | unsigned {digits : List Char} : Digits digits → Exponent (false, digits) digits
  | plus {digits : List Char} : Digits digits → Exponent (false, digits) ('+' :: digits)
  | minus {digits : List Char} : Digits digits → Exponent (true, digits) ('-' :: digits)

inductive Power : Option (Bool × List Char) → List Char → Prop
  | none : Power none []
  | some {e : Char} {x : Bool × List Char} {cs : List Char} : e = 'e' ∨ e = 'E' → Exponent x cs →
      Power (some x) (e :: cs)

/-- The word is the numeral written out. -/
structure Spells (n : Numeral) (word : List Char) : Prop where
  whole : Digits n.whole
  /-- There is no needless zero. -/
  leading : n.whole.head? = some '0' → n.whole = ['0']
  parts : ∃ fraction power, Fraction n.fraction fraction ∧ Power n.exponent power ∧
    word = (if n.negative then ['-'] else []) ++ n.whole ++ fraction ++ power

section
variable {cs ds rest power fraction : List Char}

theorem digits?_eq_some_iff : digits? cs = some ds ↔ Digits cs ∧ cs = ds := by
  unfold digits? Digits
  split
  · next h => simp_all
  · next h =>
    simp only [reduceCtorEq, false_iff]
    rintro ⟨⟨hne, hall⟩, -⟩
    simp_all

theorem Digits.head? (h : Digits ds) (rest : List Char) :
    ∃ c cs, ds ++ rest = c :: cs ∧ c.isDigit := by
  obtain ⟨c, ds, rfl⟩ := List.exists_cons_of_ne_nil h.1
  exact ⟨c, ds ++ rest, rfl, h.2 c List.mem_cons_self⟩

theorem exponent?_eq_some_iff {x : Bool × List Char} : exponent? cs = some x ↔ Exponent x cs := by
  constructor
  · intro h
    unfold exponent? at h
    split at h <;> obtain ⟨ds, hds, rfl⟩ := Option.map_eq_some_iff.mp h <;>
      obtain ⟨hdigits, rfl⟩ := digits?_eq_some_iff.mp hds
    · exact .plus hdigits
    · exact .minus hdigits
    · exact .unsigned hdigits
  · rintro (h | h | h)
    · have hdigits := digits?_eq_some_iff.mpr ⟨h, rfl⟩
      obtain ⟨c, cs, hcs, hc⟩ := h.head? []
      rw [List.append_nil] at hcs
      subst hcs
      unfold exponent?
      split
      · next heq =>
        cases heq
        exact absurd hc (by decide)
      · next heq =>
        cases heq
        exact absurd hc (by decide)
      · rw [hdigits, Option.map_some]
    · simp [exponent?, digits?_eq_some_iff.mpr ⟨h, rfl⟩]
    · simp [exponent?, digits?_eq_some_iff.mpr ⟨h, rfl⟩]

theorem power?_eq_some_iff {x : Option (Bool × List Char)} : power? cs = some x ↔ Power x cs := by
  constructor
  · intro h
    unfold power? at h
    split at h
    · cases h
      exact .none
    · split at h
      · next he =>
        obtain ⟨x, hx, rfl⟩ := Option.map_eq_some_iff.mp h
        exact .some (by simpa using he) (exponent?_eq_some_iff.mp hx)
      · cases h
  · rintro (_ | ⟨he, hx⟩)
    · rfl
    · simp [power?, he, exponent?_eq_some_iff.mpr hx]

theorem read_digits (h : ∀ c ∈ ds, c.isDigit) (hrest : ∀ c ∈ rest.head?, ¬ c.isDigit) :
    (ds ++ rest).takeWhile Char.isDigit = ds ∧ (ds ++ rest).dropWhile Char.isDigit = rest := by
  rw [List.takeWhile_append_of_pos h, List.dropWhile_append_of_pos h]
  cases rest with
  | nil => simp
  | cons c rest => simp [hrest c rfl]

theorem Power.head?_not_digit {x : Option (Bool × List Char)} (h : Power x power) :
    ∀ c ∈ power.head?, ¬ c.isDigit ∧ c ≠ '.' := by
  rintro c hc
  cases h with
  | none => cases hc
  | some he _ =>
    cases hc
    rcases he with rfl | rfl <;> decide

theorem Fraction.head?_not_digit {f : Option (List Char)} {x : Option (Bool × List Char)}
    (hf : Fraction f fraction) (hx : Power x power) :
    ∀ c ∈ (fraction ++ power).head?, ¬ c.isDigit := by
  cases hf with
  | none => exact fun c hc => (hx.head?_not_digit c hc).1
  | some _ =>
    intro c hc
    cases hc
    decide

theorem fraction?_eq_some {f : Option (List Char)} (h : fraction? cs = some (f, rest)) :
    ∃ fraction, Fraction f fraction ∧ cs = fraction ++ rest := by
  unfold fraction? at h
  split at h
  · next after =>
    obtain ⟨digits, hread, hpair⟩ := Option.map_eq_some_iff.mp h
    cases hpair
    obtain ⟨hdigits, rfl⟩ := digits?_eq_some_iff.mp hread
    exact ⟨_, .some hdigits, by simp [List.takeWhile_append_dropWhile]⟩
  · cases h
    exact ⟨[], .none, rfl⟩

theorem fraction?_append {f : Option (List Char)} {x : Option (Bool × List Char)}
    (hf : Fraction f fraction) (hx : Power x power) :
    fraction? (fraction ++ power) = some (f, power) := by
  cases hf with
  | none =>
    unfold fraction?
    split
    · next after hafter =>
      exact absurd rfl (hx.head?_not_digit '.' (by rw [← List.nil_append power, hafter]; rfl)).2
    · rfl
  | some hdigits =>
    obtain ⟨htake, hdrop⟩ := read_digits hdigits.2 fun c hc => (hx.head?_not_digit c hc).1
    simp only [fraction?, List.cons_append, htake, hdrop, digits?_eq_some_iff.mpr ⟨hdigits, rfl⟩,
      Option.map_some]

theorem sign_append (word : List Char) :
    word = (if (sign word).1 then ['-'] else []) ++ (sign word).2 := by
  unfold sign
  split <;> rfl

theorem sign_of_digits {negative : Bool} (h : Digits ds) (rest : List Char) :
    sign ((if negative then ['-'] else []) ++ (ds ++ rest)) = (negative, ds ++ rest) := by
  cases negative with
  | true => rfl
  | false =>
    obtain ⟨c, cs, hcs, hc⟩ := h.head? rest
    rw [hcs]
    unfold sign
    split
    · next heq =>
      cases heq
      exact absurd hc (by decide)
    · rfl

theorem whole?_eq_some_iff : whole? cs = some ds ↔
    Digits ds ∧ cs.takeWhile Char.isDigit = ds ∧ (ds.head? = some '0' → ds = ['0']) := by
  rw [whole?, Option.filter_eq_some_iff, digits?_eq_some_iff]
  have hleading : (ds.length ≤ 1 || ds.head? ≠ some '0') = true ↔
      (ds.head? = some '0' → ds = ['0']) := by
    match ds with
    | [] => simp
    | [c] => simp
    | c :: d :: ds => simp
  rw [hleading]
  exact ⟨fun ⟨⟨hdigits, htake⟩, hlead⟩ => ⟨htake ▸ hdigits, htake, hlead⟩,
    fun ⟨hdigits, htake, hlead⟩ => ⟨⟨htake.symm ▸ hdigits, htake⟩, hlead⟩⟩

theorem ofWord?_eq_some_iff {n : Numeral} {word : List Char} :
    ofWord? word = some n ↔ n.Spells word := by
  constructor
  · intro h
    simp only [ofWord?, Option.bind_eq_bind, Option.bind_eq_some_iff, Option.pure_def,
      Option.some.injEq] at h
    obtain ⟨whole, hwhole, ⟨f, rest⟩, hfraction, x, hpower, rfl⟩ := h
    obtain ⟨hdigits, htake, hleading⟩ := whole?_eq_some_iff.mp hwhole
    obtain ⟨fraction, hf, hrest⟩ := fraction?_eq_some hfraction
    refine ⟨hdigits, hleading, fraction, rest, hf, power?_eq_some_iff.mp hpower, ?_⟩
    have hunsigned := List.takeWhile_append_dropWhile (p := Char.isDigit) (l := (sign word).2)
    rw [htake, hrest] at hunsigned
    calc word = (if (sign word).1 then ['-'] else []) ++ (sign word).2 := sign_append word
      _ = _ := by simp [← hunsigned]
  · rintro ⟨hdigits, hleading, fraction, power, hf, hx, rfl⟩
    obtain ⟨htake, hdrop⟩ := read_digits hdigits.2 (hf.head?_not_digit hx)
    have hwhole := whole?_eq_some_iff.mpr ⟨hdigits, htake, hleading⟩
    rw [List.append_assoc, List.append_assoc]
    simp only [ofWord?, sign_of_digits hdigits, hwhole, hdrop, fraction?_append hf hx,
      power?_eq_some_iff.mpr hx, Option.bind_eq_bind, Option.bind_some, Option.pure_def]

theorem Spells.mem {n : Numeral} {word : List Char} (h : n.Spells word) {c : Char} (hc : c ∈ word) :
    c.isDigit ∨ c ∈ ['-', '+', '.', 'e', 'E'] := by
  obtain ⟨negative, whole, f, x⟩ := n
  obtain ⟨hdigits, -, fraction, power, hf, hx, rfl⟩ := h
  simp only [List.mem_append, or_assoc] at hc
  rcases hc with hc | hc | hc | hc
  · split at hc
    · exact Or.inr (by simp [List.mem_singleton.mp hc])
    · cases hc
  · exact Or.inl (hdigits.2 c hc)
  · cases hf with
    | none => cases hc
    | some hfraction =>
      rcases List.mem_cons.mp hc with rfl | hc
      · exact Or.inr (by decide)
      · exact Or.inl (hfraction.2 c hc)
  · cases hx with
    | none => cases hc
    | some he hx =>
      rcases List.mem_cons.mp hc with rfl | hc
      · exact Or.inr (by rcases he with rfl | rfl <;> decide)
      · cases hx with
        | unsigned hexponent => exact Or.inl (hexponent.2 c hc)
        | plus hexponent | minus hexponent =>
          rcases List.mem_cons.mp hc with rfl | hc
          · exact Or.inr (by decide)
          · exact Or.inl (hexponent.2 c hc)

theorem Spells.head? {n : Numeral} {word : List Char} (h : n.Spells word) :
    ∃ c cs, word = c :: cs ∧ (c = '-' ∨ c.isDigit) := by
  obtain ⟨hdigits, -, fraction, power, -, -, rfl⟩ := h
  rw [List.append_assoc, List.append_assoc]
  split
  · exact ⟨'-', _, rfl, Or.inl rfl⟩
  · obtain ⟨c, cs, hcs, hc⟩ := hdigits.head? (fraction ++ power)
    exact ⟨c, cs, hcs, Or.inr hc⟩

end

end ModBuild.Json.Numeral
