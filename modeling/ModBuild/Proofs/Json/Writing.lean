import ModBuild.Json.Basic
import ModBuild.Proofs.Json.Document
import ModBuild.Proofs.Text.Split

/-!
# Trees written out

What is written of a tree spells the tokens of the tree, in every layout (`Legible.spellsAll_write`).
So it is a document again, unless a number has a text that no number is written with or the tree is
nested too deeply (`Legible.document_pretty`).
-/

namespace ModBuild.Json

set_option autoImplicit false

namespace Token

variable {ts us : List Token} {cs ds : List Char}

theorem hexValue?_hexDigit (n : Nat) : hexValue? (hexDigit n) = some (n % 16) := by
  have hall : ∀ k < 16, hexValue? ((Nat.toDigits 16 k).headD '0') = some k := by decide
  exact hall (n % 16) (Nat.mod_lt n (by decide))

theorem escaped_escape (c : Char) : Escaped c (escape c) := by
  have hof : ∀ n, c.toNat = n → c = Char.ofNat n := fun n h => by rw [← h, Char.ofNat_toNat]
  unfold escape
  split
  · next h =>
    rw [h]
    exact .named rfl
  split
  · next h =>
    rw [h]
    exact .named rfl
  split
  · next h =>
    rw [h]
    exact .named rfl
  split
  · next h =>
    rw [h]
    exact .named rfl
  split
  · next h =>
    rw [h]
    exact .named rfl
  split
  · next h =>
    rw [hof _ h]
    exact .named rfl
  split
  · next h =>
    rw [hof _ h]
    exact .named rfl
  split
  · next hcontrol =>
    have hunit : HexUnit c.toNat ['0', '0', hexDigit (c.toNat / 16), hexDigit c.toNat] :=
      ⟨_, _, _, _, 0, 0, _, _, rfl, rfl, rfl, hexValue?_hexDigit _, hexValue?_hexDigit _, by omega⟩
    have hunicode := Unicode.unit hunit (by omega)
    rw [Char.ofNat_toNat] at hunicode
    exact .unicode hunicode
  · next hquote hslash _ _ _ _ _ hcontrol => exact .plain (Nat.not_lt.mp hcontrol) hquote hslash

theorem body_flatMap_escape (cs : List Char) : Body cs (cs.flatMap escape) := by
  induction cs with
  | nil => exact .nil
  | cons c cs ih => exact .cons (escaped_escape c) ih

theorem spells_quoted (value : String) : Spells (.text value) (quoted value) := by
  have h := Spells.text (body_flatMap_escape value.toList)
  rwa [String.ofList_toList] at h

theorem SpellsAll.append (h : SpellsAll ts cs) (h' : SpellsAll us ds) :
    SpellsAll (ts ++ us) (cs ++ ds) := by
  induction h with
  | nil => exact h'
  | gap hgap _ ih => exact .gap hgap ih
  | token ht _ ih =>
    rw [List.append_assoc]
    exact .token ht ih

theorem Spells.all {t : Token} (h : Spells t cs) : SpellsAll [t] cs := by
  have h' := SpellsAll.token h .nil
  rwa [List.append_nil] at h'

theorem SpellsAll.of_gaps (h : SpellsAll ts cs) {gaps : List Char} (hgaps : ∀ c ∈ gaps, isGap c) :
    SpellsAll ts (gaps ++ cs) := by
  induction gaps with
  | nil => exact h
  | cons c gaps ih =>
    exact .gap (hgaps c List.mem_cons_self) (ih fun d hd => hgaps d (List.mem_cons_of_mem c hd))

theorem spellsAll_intercalate {tss : List (List Token)} {css : List (List Char)}
    (h : List.Forall₂ SpellsAll tss css) :
    SpellsAll ([comma].intercalate tss) ([','].intercalate css) := by
  induction h with
  | nil => exact .nil
  | @cons ts cs tss css hpart hparts ih =>
    cases hparts with
    | nil =>
      rw [List.intercalate_singleton, List.intercalate_singleton]
      exact hpart
    | cons _ _ =>
      rw [List.intercalate_cons_cons, List.intercalate_cons_cons]
      exact (hpart.append Spells.comma.all).append ih

theorem isGap_of_mem_lineBreak (s : Spacing) (depth : Nat) : ∀ c ∈ s.lineBreak depth, isGap c := by
  intro c hc
  unfold Spacing.lineBreak at hc
  split at hc
  · rcases List.mem_cons.mp hc with rfl | hc
    · rfl
    · rw [List.eq_of_mem_replicate hc]
      rfl
  · cases hc

theorem spellsAll_bracketed {t u : Token} {first last : Char} (ht : Spells t [first])
    (hu : Spells u [last]) {tss : List (List Token)} {css : List (List Char)}
    (h : List.Forall₂ SpellsAll tss css) (s : Spacing) (depth : Nat) :
    SpellsAll (t :: [comma].intercalate tss ++ [u]) (bracketed s depth first last css) := by
  unfold bracketed
  split
  · next hempty =>
    obtain rfl := List.isEmpty_iff.mp hempty
    cases h
    exact .token ht hu.all
  · have hbroken : List.Forall₂ SpellsAll tss (css.map fun item => s.lineBreak (depth + 1) ++ item) := by
      rw [List.forall₂_map_right_iff]
      exact h.imp fun _ _ hpart => hpart.of_gaps (isGap_of_mem_lineBreak s (depth + 1))
    dsimp only
    rw [Text.joinWith_eq_intercalate, List.cons_append, List.cons_append, List.cons_append,
      List.append_assoc]
    exact .token ht ((spellsAll_intercalate hbroken).append
      (hu.all.of_gaps (isGap_of_mem_lineBreak s depth)))

end Token

theorem tokens_append_moreItems (item : Json) (items : List Json) :
    item.tokens ++ moreItems items =
      [Token.comma].intercalate ((item :: items).map tokens) ++ [.closeBracket] := by
  induction items generalizing item with
  | nil => simp [moreItems]
  | cons next items ih =>
    rw [List.map_cons, List.map_cons, List.intercalate_cons_cons, List.append_assoc,
      List.append_assoc, ← List.map_cons, ← ih]
    rfl

theorem tokens_array (items : List Json) :
    (array items).tokens =
      .openBracket :: [Token.comma].intercalate (items.map tokens) ++ [.closeBracket] := by
  cases items with
  | nil => rfl
  | cons item items => rw [tokens, List.cons_append, tokens_append_moreItems, List.cons_append]

def fieldTokens (field : String × Json) : List Token := .text field.1 :: .colon :: field.2.tokens

theorem fieldTokens_append_moreFields (field : String × Json) (fields : List (String × Json)) :
    fieldTokens field ++ moreFields fields =
      [Token.comma].intercalate ((field :: fields).map fieldTokens) ++ [.closeBrace] := by
  induction fields generalizing field with
  | nil => simp [moreFields]
  | cons next fields ih =>
    rw [List.map_cons, List.map_cons, List.intercalate_cons_cons, List.append_assoc, List.append_assoc,
      ← List.map_cons, ← ih]
    rfl

theorem tokens_object (fields : List (String × Json)) :
    (object fields).tokens =
      .openBrace :: [Token.comma].intercalate (fields.map fieldTokens) ++ [.closeBrace] := by
  cases fields with
  | nil => rfl
  | cons field fields =>
    rw [List.cons_append, ← fieldTokens_append_moreFields]
    rfl

theorem writeItems_eq_map (s : Spacing) (depth : Nat) (items : List Json) :
    writeItems s depth items = items.map (write s depth) := by
  induction items with
  | nil => rfl
  | cons item items ih => rw [writeItems, ih, List.map_cons]

theorem writeFields_eq_map (s : Spacing) (depth : Nat) (fields : List (String × Json)) :
    writeFields s depth fields =
      fields.map fun field => quoted field.1 ++ s.colon ++ write s depth field.2 := by
  induction fields with
  | nil => rfl
  | cons field fields ih => rw [writeFields, ih, List.map_cons]

/-- Every number in the tree has the text of a number that is written so. -/
inductive Legible : Json → Prop
  | null : Legible null
  | bool (value : Bool) : Legible (bool value)
  | number {n : Numeral} {text : String} : n.Spells text.toList → n.text? = some text →
      Legible (number text)
  | string (text : String) : Legible (string text)
  | array {items : List Json} : (∀ item ∈ items, Legible item) → Legible (array items)
  | object {fields : List (String × Json)} : (∀ field ∈ fields, Legible field.2) →
      Legible (object fields)

namespace Legible

variable {j : Json}

theorem spellsAll_write (h : j.Legible) (s : Spacing) (depth : Nat) :
    Token.SpellsAll j.tokens (write s depth j) := by
  induction h generalizing depth with
  | null => exact Token.Spells.null.all
  | bool value => cases value <;> exact Token.Spells.bool.all
  | number hspells htext => exact (Token.Spells.number hspells htext).all
  | string text => exact (Token.spells_quoted text).all
  | @array items _ ih =>
    rw [tokens_array, write, writeItems_eq_map]
    refine Token.spellsAll_bracketed .openBracket .closeBracket ?_ s depth
    rw [List.forall₂_map_left_iff, List.forall₂_map_right_iff, List.forall₂_same]
    exact fun item hitem => ih item hitem (depth + 1)
  | @object fields _ ih =>
    rw [tokens_object, write, writeFields_eq_map]
    refine Token.spellsAll_bracketed .openBrace .closeBrace ?_ s depth
    rw [List.forall₂_map_left_iff, List.forall₂_map_right_iff, List.forall₂_same]
    intro field hfield
    have hcolon : Token.SpellsAll [.colon] s.colon := by
      unfold Spacing.colon
      split
      · exact .token .colon (.gap rfl .nil)
      · exact Token.Spells.colon.all
    exact ((Token.spells_quoted field.1).all.append hcolon).append (ih field hfield (depth + 1))

theorem document_pretty (h : j.Legible) (hdepth : j.depth ≤ maxDepth) : Document j.pretty j := by
  refine ⟨?_, hdepth⟩
  rw [pretty, String.toList_ofList]
  exact h.spellsAll_write ⟨some 2⟩ 0

end Legible

end ModBuild.Json
