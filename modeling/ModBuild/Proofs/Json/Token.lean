import Mathlib.Data.List.Chain
import ModBuild.Json.Token
import ModBuild.Proofs.Json.Number

/-!
# The spelling of tokens

A token is spelled in one or several ways, and between tokens there may be gaps. Scanning finds the
tokens that a text spells (`spellsAll_of_scan?`, `scan?_of_spellsAll`); only two words without
anything between them would be read as one.
-/

namespace ModBuild.Json.Token

set_option autoImplicit false

/-- Four hexadecimal digits and their value. -/
def HexUnit (n : Nat) (cs : List Char) : Prop :=
  ∃ a b c d x y z w, cs = [a, b, c, d] ∧ hexValue? a = some x ∧ hexValue? b = some y ∧
    hexValue? c = some z ∧ hexValue? d = some w ∧ n = 4096 * x + 256 * y + 16 * z + w

/-- The digits of a character after a backslash and `u`; two surrogates make one character. -/
inductive Unicode : Char → List Char → Prop
  | unit {n : Nat} {cs : List Char} : HexUnit n cs → n < 0xD800 ∨ 0xE000 ≤ n →
      Unicode (Char.ofNat n) cs
  | pair {high low : Nat} {cs ds : List Char} : HexUnit high cs → HexUnit low ds →
      0xD800 ≤ high → high < 0xDC00 → 0xDC00 ≤ low → low < 0xE000 →
      Unicode (Char.ofNat (0x10000 + (high - 0xD800) * 0x400 + (low - 0xDC00)))
        (cs ++ '\\' :: 'u' :: ds)

/-- A character of a string and how it is written. -/
inductive Escaped : Char → List Char → Prop
  | plain {c : Char} : 32 ≤ c.toNat → c ≠ '"' → c ≠ '\\' → Escaped c [c]
  | named {c e : Char} : named? e = some c → Escaped c ['\\', e]
  | unicode {c : Char} {cs : List Char} : Unicode c cs → Escaped c ('\\' :: 'u' :: cs)

/-- The characters between the quotes. -/
inductive Body : List Char → List Char → Prop
  | nil : Body [] []
  | cons {c : Char} {w body cs : List Char} : Escaped c w → Body body cs →
      Body (c :: body) (w ++ cs)

section
variable {n : Nat} {c : Char} {cs body rest : List Char}

theorem hexUnit?_eq_some_iff :
    hexUnit? cs = some (n, rest) ↔ ∃ unit, HexUnit n unit ∧ cs = unit ++ rest := by
  constructor
  · intro h
    match cs with
    | [] | [_] | [_, _] | [_, _, _] => simp [hexUnit?] at h
    | a :: b :: c :: d :: more =>
      simp only [hexUnit?, Option.bind_eq_bind, Option.bind_eq_some_iff, Option.some.injEq,
        Prod.mk.injEq] at h
      obtain ⟨x, hx, y, hy, z, hz, w, hw, hn, rfl⟩ := h
      exact ⟨[a, b, c, d], ⟨a, b, c, d, x, y, z, w, rfl, hx, hy, hz, hw, by omega⟩, rfl⟩
  · rintro ⟨unit, ⟨a, b, c, d, x, y, z, w, rfl, hx, hy, hz, hw, rfl⟩, rfl⟩
    simp only [List.cons_append, List.nil_append, hexUnit?, hx, hy, hz, hw, Option.bind_eq_bind,
      Option.bind_some, Option.some.injEq, Prod.mk.injEq, and_true]
    omega

theorem HexUnit.read (h : HexUnit n cs) (rest : List Char) :
    hexUnit? (cs ++ rest) = some (n, rest) :=
  hexUnit?_eq_some_iff.mpr ⟨cs, h, rfl⟩

theorem unicode?_eq_some_iff :
    unicode? cs = some (c, rest) ↔ ∃ w, Unicode c w ∧ cs = w ++ rest := by
  constructor
  · intro h
    unfold unicode? at h
    split at h
    · next n more hmore =>
      obtain ⟨unit, hunit, rfl⟩ := hexUnit?_eq_some_iff.mp hmore
      split at h
      · next hn =>
        cases h
        exact ⟨unit, .unit hunit (by simpa using hn), rfl⟩
      · next hn =>
        simp only [Bool.or_eq_true, decide_eq_true_eq, not_or, Nat.not_lt, Nat.not_le] at hn
        split at h
        · cases h
        · next hhigh =>
          split at h
          · split at h
            · next low rest' hlow =>
              obtain ⟨unit', hunit', rfl⟩ := hexUnit?_eq_some_iff.mp hlow
              split at h
              · next hrange =>
                simp only [Bool.and_eq_true, decide_eq_true_eq] at hrange
                simp only [Option.some.injEq, Prod.mk.injEq] at h
                obtain ⟨rfl, rfl⟩ := h
                exact ⟨unit ++ '\\' :: 'u' :: unit',
                  .pair hunit hunit' hn.1 (by omega) hrange.1 hrange.2, by simp⟩
              · cases h
            · cases h
          · cases h
    · cases h
  · rintro ⟨w, hw, rfl⟩
    cases hw with
    | unit hunit hn => simp [unicode?, hunit.read, hn]
    | pair hhigh hlow h₁ h₂ h₃ h₄ =>
      rw [List.append_assoc]
      simp only [unicode?, hhigh.read, List.cons_append, hlow.read]
      rw [if_neg (by simp; omega), if_neg (by omega), if_pos (by simp [h₃, h₄])]

theorem Escaped.read {w : List Char} (h : Escaped c w)
    (hread : stringBody? cs = some (body, rest)) :
    stringBody? (w ++ cs) = some (c :: body, rest) := by
  cases h with
  | plain hcontrol hquote hslash =>
    rw [List.singleton_append, stringBody?.eq_def]
    simp only [hquote, hslash, Nat.not_lt.mpr hcontrol, if_false, hread, Option.map_some]
  | named hnamed =>
    rename_i e
    rw [List.cons_append, List.singleton_append, stringBody?.eq_def]
    simp only [reduceIte, Char.reduceEq]
    split
    · next heq =>
      cases heq
      simp [named?] at hnamed
    · next heq =>
      cases heq
      rw [hnamed]
      dsimp only
      rw [hread, Option.map_some]
    · next heq => cases heq
  | unicode hunicode =>
    rename_i digits
    have hdigits : unicode? (digits ++ cs) = some (c, cs) :=
      unicode?_eq_some_iff.mpr ⟨digits, hunicode, rfl⟩
    rw [List.cons_append, List.cons_append, stringBody?.eq_def]
    simp only [reduceIte, Char.reduceEq]
    split
    · next c' rest' heq =>
      cases hdigits.symm.trans heq
      rw [hread, Option.map_some]
    · next heq => cases hdigits.symm.trans heq

/-- Reading a string finds the characters that it spells, up to the first quote that is not
escaped. -/
theorem stringBody?_eq_some_iff :
    stringBody? cs = some (body, rest) ↔ ∃ w, Body body w ∧ cs = w ++ '"' :: rest := by
  constructor
  · intro h
    fun_induction stringBody? cs generalizing body with
    | case1 => cases h
    | case2 =>
      cases h
      exact ⟨[], .nil, rfl⟩
    | case3 digits c more hu _ ih =>
      obtain ⟨⟨b, more'⟩, hb, hpair⟩ := Option.map_eq_some_iff.mp h
      cases hpair
      obtain ⟨w, hw, hrest⟩ := ih hb
      obtain ⟨v, hv, rfl⟩ := unicode?_eq_some_iff.mp hu
      exact ⟨_, .cons (.unicode hv) hw, by simp [hrest]⟩
    | case4 => cases h
    | case5 e more _ c hnamed _ ih =>
      obtain ⟨⟨b, more'⟩, hb, hpair⟩ := Option.map_eq_some_iff.mp h
      cases hpair
      obtain ⟨w, hw, rfl⟩ := ih hb
      exact ⟨_, .cons (.named hnamed) hw, rfl⟩
    | case6 => cases h
    | case7 => cases h
    | case8 => cases h
    | case9 c more hquote hslash hcontrol ih =>
      obtain ⟨⟨b, more'⟩, hb, hpair⟩ := Option.map_eq_some_iff.mp h
      cases hpair
      obtain ⟨w, hw, rfl⟩ := ih hb
      exact ⟨_, .cons (.plain (Nat.not_lt.mp hcontrol) hquote hslash) hw, rfl⟩
  · rintro ⟨w, hw, rfl⟩
    induction hw with
    | nil =>
      rw [List.nil_append, stringBody?.eq_def]
      simp
    | cons hescaped _ ih =>
      rw [List.append_assoc]
      exact hescaped.read ih

end

/-- A token and how it is written. -/
inductive Spells : Token → List Char → Prop
  | openBrace : Spells openBrace ['{']
  | closeBrace : Spells closeBrace ['}']
  | openBracket : Spells openBracket ['[']
  | closeBracket : Spells closeBracket [']']
  | comma : Spells comma [',']
  | colon : Spells colon [':']
  | text {body cs : List Char} : Body body cs → Spells (text (.ofList body)) ('"' :: cs ++ ['"'])
  | null : Spells (word .null) "null".toList
  | bool {value : Bool} : Spells (word (.bool value)) (toString value).toList
  /-- A number has a text unless it is too large. -/
  | number {n : Numeral} {cs : List Char} {value : String} : n.Spells cs → n.text? = some value →
      Spells (word (.number value)) cs

/-- Tokens with gaps before, between and after them. -/
inductive SpellsAll : List Token → List Char → Prop
  | nil : SpellsAll [] []
  | gap {ts : List Token} {c : Char} {cs : List Char} : isGap c → SpellsAll ts cs →
      SpellsAll ts (c :: cs)
  | token {t : Token} {ts : List Token} {w cs : List Char} : Spells t w → SpellsAll ts cs →
      SpellsAll (t :: ts) (w ++ cs)

def isWord : Token → Bool
  | word _ => true
  | _ => false

/-- No two words stand next to each other. -/
def WordsApart (ts : List Token) : Prop := ts.IsChain fun t next => ¬ (t.isWord ∧ next.isWord)

section
variable {t : Token} {ts : List Token} {w cs : List Char}

theorem ofWord?_eq_some_iff : ofWord? cs = some t ↔ t.isWord ∧ Spells t cs := by
  constructor
  · intro h
    unfold ofWord? at h
    split at h
    · next hcs =>
      cases h
      exact ⟨rfl, hcs ▸ .null⟩
    split at h
    · next hcs =>
      cases h
      exact ⟨rfl, hcs ▸ .bool⟩
    split at h
    · next hcs =>
      cases h
      exact ⟨rfl, hcs ▸ .bool⟩
    · obtain ⟨value, hvalue, rfl⟩ := Option.map_eq_some_iff.mp h
      obtain ⟨n, hn, hvalue⟩ := Option.bind_eq_some_iff.mp hvalue
      exact ⟨rfl, .number (Numeral.ofWord?_eq_some_iff.mp hn) hvalue⟩
  · rintro ⟨hword, h⟩
    cases h with
    | null => rfl
    | @bool value => cases value <;> rfl
    | number hn hvalue =>
      have hread := Numeral.ofWord?_eq_some_iff.mpr hn
      obtain ⟨c, rest, rfl, hc⟩ := hn.head?
      have hletter : c ≠ 'n' ∧ c ≠ 't' ∧ c ≠ 'f' := by
        refine ⟨?_, ?_, ?_⟩ <;> rintro rfl <;> simp at hc
      have hnull : c :: rest ≠ "null".toList := fun h => hletter.1 (List.cons.inj h).1
      have htrue : c :: rest ≠ "true".toList := fun h => hletter.2.1 (List.cons.inj h).1
      have hfalse : c :: rest ≠ "false".toList := fun h => hletter.2.2 (List.cons.inj h).1
      rw [ofWord?, if_neg hnull, if_neg htrue, if_neg hfalse, hread, Option.bind_some, hvalue,
        Option.map_some]
    | _ => cases hword

theorem Spells.isWordChar (h : Spells t cs) (hword : t.isWord) :
    cs ≠ [] ∧ ∀ c ∈ cs, isWordChar c := by
  cases h with
  | null => exact ⟨List.cons_ne_nil _ _, List.all_eq_true.mp rfl⟩
  | bool =>
    rename_i value
    cases value <;> exact ⟨List.cons_ne_nil _ _, List.all_eq_true.mp rfl⟩
  | number hn _ =>
    obtain ⟨c, rest, hcs, -⟩ := hn.head?
    refine ⟨hcs ▸ List.cons_ne_nil c rest, fun c hc => ?_⟩
    rcases hn.mem hc with hdigit | hother
    · simp [Token.isWordChar, Char.isAlphanum, hdigit]
    · have hall : ['-', '+', '.', 'e', 'E'].all Token.isWordChar = true := rfl
      exact List.all_eq_true.mp hall c hother
  | _ => cases hword

theorem SpellsAll.head?_not_wordChar (h : SpellsAll ts cs) (hword : ∀ t ∈ ts.head?, ¬ t.isWord) :
    ∀ c ∈ cs.head?, ¬ Token.isWordChar c := by
  intro c hc
  cases h with
  | nil => cases hc
  | gap hgap _ =>
    cases hc
    simp only [isGap, Bool.or_eq_true, decide_eq_true_eq] at hgap
    rcases hgap with ((rfl | rfl) | rfl) | rfl <;> decide
  | @token t _ _ _ ht _ =>
    cases ht with
    | null | bool | number _ _ => exact absurd rfl (hword _ rfl)
    | _ =>
      cases hc
      decide

theorem scan?_gap {c : Char} (hc : isGap c) : scan? (c :: cs) = scan? cs := by
  rw [scan?.eq_def]
  simp only [hc, if_true]

theorem not_isGap_of_isWordChar {c : Char} (hc : Token.isWordChar c) : ¬ isGap c ∧ c ≠ '"' := by
  constructor
  · intro hgap
    simp only [isGap, Bool.or_eq_true, decide_eq_true_eq] at hgap
    rcases hgap with ((rfl | rfl) | rfl) | rfl <;> exact absurd hc (by decide)
  · rintro rfl
    exact absurd hc (by decide)

theorem scan?_word (h : Spells t w) (hword : t.isWord)
    (hnext : ∀ c ∈ cs.head?, ¬ Token.isWordChar c) :
    scan? (w ++ cs) = (scan? cs).map (t :: ·) := by
  obtain ⟨hne, hall⟩ := h.isWordChar hword
  obtain ⟨c, rest, rfl⟩ := List.exists_cons_of_ne_nil hne
  have hc := hall c List.mem_cons_self
  obtain ⟨hgap, hquote⟩ := not_isGap_of_isWordChar hc
  have hrest : ∀ d ∈ rest, Token.isWordChar d := fun d hd => hall d (List.mem_cons_of_mem c hd)
  have htake : (rest ++ cs).takeWhile Token.isWordChar = rest := by
    rw [List.takeWhile_append_of_pos hrest]
    cases cs with
    | nil => simp
    | cons d cs => simp [hnext d rfl]
  have hdrop : (rest ++ cs).dropWhile Token.isWordChar = cs := by
    rw [List.dropWhile_append_of_pos hrest]
    cases cs with
    | nil => rfl
    | cons d cs => simp [hnext d rfl]
  rw [List.cons_append, scan?.eq_def]
  simp only [hgap, hquote, hc, htake, hdrop, ofWord?_eq_some_iff.mpr ⟨hword, h⟩, if_false, if_true]
  rfl

theorem scan?_text {body : List Char} (h : Body body w) :
    scan? ('"' :: w ++ ['"'] ++ cs) = (scan? cs).map (text (.ofList body) :: ·) := by
  have hread : stringBody? (w ++ '"' :: cs) = some (body, cs) :=
    stringBody?_eq_some_iff.mpr ⟨w, h, rfl⟩
  rw [List.cons_append, List.cons_append, List.append_assoc, List.singleton_append, scan?.eq_def]
  have hgap : ¬ isGap '"' := by decide
  simp only [hgap, Bool.false_eq_true, if_false, if_true]
  split
  · next body' rest heq =>
    cases hread.symm.trans heq
    rfl
  · next heq => cases hread.symm.trans heq

theorem scan?_token (h : Spells t w) (hnext : t.isWord → ∀ c ∈ cs.head?, ¬ Token.isWordChar c) :
    scan? (w ++ cs) = (scan? cs).map (t :: ·) := by
  cases h with
  | text hbody => exact scan?_text hbody
  | null => exact scan?_word .null rfl (hnext rfl)
  | bool => exact scan?_word .bool rfl (hnext rfl)
  | number hn hvalue => exact scan?_word (.number hn hvalue) rfl (hnext rfl)
  | _ =>
    rw [List.singleton_append, scan?.eq_def]
    simp [isGap, Token.isWordChar, ofChar?]

theorem ofChar?_eq_some {c : Char} (h : ofChar? c = some t) : Spells t [c] := by
  unfold ofChar? at h
  split at h
  · next hc =>
    cases h
    exact hc ▸ .openBrace
  split at h
  · next hc =>
    cases h
    exact hc ▸ .closeBrace
  split at h
  · next hc =>
    cases h
    exact hc ▸ .openBracket
  split at h
  · next hc =>
    cases h
    exact hc ▸ .closeBracket
  split at h
  · next hc =>
    cases h
    exact hc ▸ .comma
  split at h
  · next hc =>
    cases h
    exact hc ▸ .colon
  · cases h

theorem spellsAll_of_scan? (h : scan? cs = some ts) : SpellsAll ts cs := by
  fun_induction scan? cs generalizing ts with
  | case1 =>
    cases h
    exact .nil
  | case2 c rest hgap ih => exact .gap hgap (ih h)
  | case3 rest body after hbody hgap ih =>
    obtain ⟨ts, hts, rfl⟩ := Option.map_eq_some_iff.mp h
    obtain ⟨w, hw, rfl⟩ := stringBody?_eq_some_iff.mp hbody
    simpa using SpellsAll.token (.text hw) (ih hts)
  | case4 => cases h
  | case5 c rest hgap hquote hc t ht ih =>
    obtain ⟨ts, hts, rfl⟩ := Option.map_eq_some_iff.mp h
    simpa [List.takeWhile_append_dropWhile] using
      SpellsAll.token (ofWord?_eq_some_iff.mp ht).2 (ih hts)
  | case6 => cases h
  | case7 c rest hgap hquote hc t ht ih =>
    obtain ⟨ts, hts, rfl⟩ := Option.map_eq_some_iff.mp h
    exact SpellsAll.token (ofChar?_eq_some ht) (ih hts)
  | case8 => cases h

/-- A text is read as the tokens that it spells, unless two words run into each other. -/
theorem scan?_of_spellsAll (h : SpellsAll ts cs) (hapart : WordsApart ts) : scan? cs = some ts := by
  induction h with
  | nil => rw [scan?]
  | gap hc _ ih => rw [scan?_gap hc, ih hapart]
  | @token t ts w cs ht hts ih =>
    have hnext : t.isWord → ∀ c ∈ cs.head?, ¬ Token.isWordChar c := by
      intro hword
      refine hts.head?_not_wordChar fun next hmem hnext => ?_
      obtain ⟨ts, rfl⟩ := List.head?_eq_some_iff.mp hmem
      exact (List.isChain_cons_cons.mp hapart).1 ⟨hword, hnext⟩
    rw [scan?_token ht hnext, ih hapart.tail, Option.map_some]

end

end ModBuild.Json.Token
