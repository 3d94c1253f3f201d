import ModBuild.Json.Parser
import ModBuild.Proofs.Json.Token

/-!
# Documents

A document is a tree written out as tokens; here the fields of an object are in the order in which
they are written, and a key may come again. Reading a text is defined exactly when it is a document
that is not nested too deeply, and yields the tree with the fields in the order of their keys and
the last value of each (`parse?_eq_some_iff`).
-/

namespace ModBuild.Json

set_option autoImplicit false

mutual

/-- The tokens of a tree. -/
def tokens : Json → List Token
  | null => [.word null]
  | bool value => [.word (bool value)]
  | number text => [.word (number text)]
  | string text => [.text text]
  | array [] => [.openBracket, .closeBracket]
  | array (item :: items) => .openBracket :: item.tokens ++ moreItems items
  | object [] => [.openBrace, .closeBrace]
  | object ((key, value) :: fields) =>
    .openBrace :: .text key :: .colon :: value.tokens ++ moreFields fields

/-- The items after the first one, up to the bracket. -/
def moreItems : List Json → List Token
  | [] => [.closeBracket]
  | item :: items => .comma :: item.tokens ++ moreItems items

def moreFields : List (String × Json) → List Token
  | [] => [.closeBrace]
  | (key, value) :: fields => .comma :: .text key :: .colon :: value.tokens ++ moreFields fields

end

mutual

/-- How deeply arrays and objects are nested. -/
def depth : Json → Nat
  | array items => itemsDepth items + 1
  | object fields => fieldsDepth fields + 1
  | _ => 0

def itemsDepth : List Json → Nat
  | [] => 0
  | item :: items => max item.depth (itemsDepth items)

def fieldsDepth : List (String × Json) → Nat
  | [] => 0
  | (_, value) :: fields => max value.depth (fieldsDepth fields)

end

mutual

/-- The tree with the fields of each object in order of their keys, and the last value of a key. -/
def settled : Json → Json
  | array items => array (settledItems items)
  | object fields => object (settledFields fields [])
  | j => j

def settledItems : List Json → List Json
  | [] => []
  | item :: items => item.settled :: settledItems items

/-- The fields put into those that are there already. -/
def settledFields : List (String × Json) → List (String × Json) → List (String × Json)
  | [], done => done
  | (key, value) :: fields, done => settledFields fields (insertField key value.settled done)

end

/-- The text writes out the tree. A reader of JSON may limit the nesting of values and the range of
numbers: deeper documents are none here, and a number has a finite value (`Token.Spells`). -/
structure Document (text : String) (j : Json) : Prop where
  spells : Token.SpellsAll j.tokens text.toList
  nested : j.depth ≤ maxDepth

theorem wordsApart_cons {t : Token} {ts : List Token} (ht : ¬ t.isWord)
    (hts : Token.WordsApart ts) : Token.WordsApart (t :: ts) := by
  cases ts with
  | nil => exact .singleton t
  | cons next ts => exact List.isChain_cons_cons.mpr ⟨fun h => ht h.1, hts⟩

theorem head?_moreItems (items : List Json) (ts : List Token) :
    ∀ t ∈ (moreItems items ++ ts).head?, ¬ t.isWord := by
  cases items <;> simp [moreItems, Token.isWord]

theorem head?_moreFields (fields : List (String × Json)) (ts : List Token) :
    ∀ t ∈ (moreFields fields ++ ts).head?, ¬ t.isWord := by
  cases fields <;> simp [moreFields, Token.isWord]

theorem wordsApart_word (value : Json) {ts : List Token} (hts : Token.WordsApart ts)
    (hhead : ∀ t ∈ ts.head?, ¬ t.isWord) : Token.WordsApart (.word value :: ts) := by
  cases ts with
  | nil => exact .singleton _
  | cons next ts => exact List.isChain_cons_cons.mpr ⟨fun h => hhead next rfl h.2, hts⟩

mutual

theorem wordsApart_tokens (j : Json) {ts : List Token} (hts : Token.WordsApart ts)
    (hhead : ∀ t ∈ ts.head?, ¬ t.isWord) : Token.WordsApart (j.tokens ++ ts) := by
  cases j with
  | null | bool value | number text => exact wordsApart_word _ hts hhead
  | string text => exact wordsApart_cons Bool.false_ne_true hts
  | array items =>
    cases items with
    | nil => exact wordsApart_cons (by decide) (wordsApart_cons (by decide) hts)
    | cons item items =>
      simp only [tokens, List.cons_append, List.append_assoc]
      exact wordsApart_cons (by decide)
        (wordsApart_tokens item (wordsApart_moreItems items hts) (head?_moreItems items ts))
  | object fields =>
    cases fields with
    | nil => exact wordsApart_cons (by decide) (wordsApart_cons (by decide) hts)
    | cons field fields =>
      obtain ⟨key, value⟩ := field
      simp only [tokens, List.cons_append, List.append_assoc]
      have hvalue := wordsApart_tokens value (wordsApart_moreFields fields hts)
        (head?_moreFields fields ts)
      exact wordsApart_cons (by decide) (wordsApart_cons Bool.false_ne_true
        (wordsApart_cons (by decide) hvalue))

theorem wordsApart_moreItems (items : List Json) {ts : List Token} (hts : Token.WordsApart ts) :
    Token.WordsApart (moreItems items ++ ts) := by
  cases items with
  | nil => exact wordsApart_cons (by decide) hts
  | cons item items =>
    simp only [moreItems, List.cons_append, List.append_assoc]
    exact wordsApart_cons (by decide)
      (wordsApart_tokens item (wordsApart_moreItems items hts) (head?_moreItems items ts))

theorem wordsApart_moreFields (fields : List (String × Json)) {ts : List Token}
    (hts : Token.WordsApart ts) : Token.WordsApart (moreFields fields ++ ts) := by
  cases fields with
  | nil => exact wordsApart_cons (by decide) hts
  | cons field fields =>
    obtain ⟨key, value⟩ := field
    simp only [moreFields, List.cons_append, List.append_assoc]
    have hvalue := wordsApart_tokens value (wordsApart_moreFields fields hts)
      (head?_moreFields fields ts)
    exact wordsApart_cons (by decide) (wordsApart_cons Bool.false_ne_true
      (wordsApart_cons (by decide) hvalue))

end

theorem tokens_ne_nil (j : Json) : ∃ t ts, j.tokens = t :: ts ∧ t ≠ .closeBracket := by
  cases j with
  | null | bool value | number text | string text => exact ⟨_, _, rfl, by simp⟩
  | array items => cases items <;> exact ⟨.openBracket, _, rfl, by simp⟩
  | object fields =>
    cases fields with
    | nil => exact ⟨.openBrace, _, rfl, by simp⟩
    | cons field fields => exact ⟨.openBrace, _, rfl, by simp⟩

mutual

/-- After the tokens of a tree the reader goes on with its settled value. -/
theorem readValue_tokens (j : Json) (stack : List Frame) (ts : List Token)
    (hdepth : stack.length + j.depth ≤ maxDepth) :
    readValue stack (j.tokens ++ ts) = readAfter j.settled stack ts := by
  cases j with
  | null | bool value | number text | string text => simp [tokens, readValue, settled]
  | array items =>
    rw [depth] at hdepth
    have hroom : stack.length < maxDepth := by omega
    cases items with
    | nil => simp [tokens, readValue, settled, settledItems, hroom]
    | cons item items =>
      obtain ⟨t, rest, htokens, ht⟩ := tokens_ne_nil item
      rw [itemsDepth] at hdepth
      have hitem := readValue_tokens item (.items [] :: stack) (moreItems items ++ ts)
        (by rw [List.length_cons]; omega)
      rw [htokens] at hitem
      simp only [tokens, List.cons_append, List.append_assoc, settled, settledItems, htokens]
      rw [readValue, if_pos hroom, ← List.cons_append, hitem,
        readAfter_moreItems items (by omega)]
      · rfl
      · exact fun more h => ht (List.cons.inj h).1
  | object fields =>
    rw [depth] at hdepth
    have hroom : stack.length < maxDepth := by omega
    cases fields with
    | nil => simp [tokens, readValue, settled, settledFields, hroom]
    | cons field fields =>
      obtain ⟨key, value⟩ := field
      rw [fieldsDepth] at hdepth
      simp only [tokens, List.cons_append, List.append_assoc, settled, settledFields]
      rw [readValue, if_pos hroom, readValue_tokens value _ _ (by rw [List.length_cons]; omega),
        readAfter_moreFields fields (by omega)]

theorem readAfter_moreItems (items : List Json) {v : Json} {done : List Json} {stack : List Frame}
    {ts : List Token} (hdepth : stack.length + 1 + itemsDepth items ≤ maxDepth) :
    readAfter v (.items done :: stack) (moreItems items ++ ts) =
      readAfter (array ((v :: done).reverse ++ settledItems items)) stack ts := by
  cases items with
  | nil => simp [moreItems, readAfter, settledItems]
  | cons item items =>
    rw [itemsDepth] at hdepth
    simp only [moreItems, List.cons_append, List.append_assoc, settledItems]
    rw [readAfter, readValue_tokens item _ _ (by rw [List.length_cons]; omega),
      readAfter_moreItems items (by omega)]
    simp

theorem readAfter_moreFields (fields : List (String × Json)) {v : Json} {key : String}
    {done : List (String × Json)} {stack : List Frame} {ts : List Token}
    (hdepth : stack.length + 1 + fieldsDepth fields ≤ maxDepth) :
    readAfter v (.fields done key :: stack) (moreFields fields ++ ts) =
      readAfter (object (settledFields fields (insertField key v done))) stack ts := by
  cases fields with
  | nil => simp [moreFields, readAfter, settledFields]
  | cons field fields =>
    obtain ⟨next, value⟩ := field
    rw [fieldsDepth] at hdepth
    simp only [moreFields, List.cons_append, List.append_assoc, settledFields]
    rw [readAfter, readValue_tokens value _ _ (by rw [List.length_cons]; omega),
      readAfter_moreFields fields (by omega)]

end

/-- A word is no string, array or object. -/
def SimpleWord : Token → Prop
  | .word (string _) | .word (array _) | .word (object _) => False
  | _ => True

/-- A value that is read is written at the start, and the reader goes on behind it. -/
def ValueWritten (ts : List Token) : Prop :=
  ∀ {stack : List Frame} {v : Json}, readValue stack ts = some v → stack.length ≤ maxDepth →
    ∃ (j : Json) (after : List Token), ts = j.tokens ++ after ∧ stack.length + j.depth ≤ maxDepth ∧
      readAfter j.settled stack after = some v

def ItemsWritten (ts : List Token) : Prop :=
  ∀ {stack : List Frame} {v w : Json} {done : List Json},
    readAfter w (.items done :: stack) ts = some v → stack.length < maxDepth →
    ∃ (items : List Json) (after : List Token), ts = moreItems items ++ after ∧
      stack.length + 1 + itemsDepth items ≤ maxDepth ∧
      readAfter (array ((w :: done).reverse ++ settledItems items)) stack after = some v

def FieldsWritten (ts : List Token) : Prop :=
  ∀ {stack : List Frame} {v w : Json} {key : String} {done : List (String × Json)},
    readAfter w (.fields done key :: stack) ts = some v → stack.length < maxDepth →
    ∃ (fields : List (String × Json)) (after : List Token), ts = moreFields fields ++ after ∧
      stack.length + 1 + fieldsDepth fields ≤ maxDepth ∧
      readAfter (object (settledFields fields (insertField key w done))) stack after = some v

/-- What the reader finds in these tokens is written there. -/
structure Written (ts : List Token) : Prop where
  value : ValueWritten ts
  items : ItemsWritten ts
  fields : FieldsWritten ts

section
variable {ts : List Token}
variable (ih : ∀ {ts' : List Token}, ts'.length < ts.length → ts' ⊆ ts → Written ts')
include ih

theorem written_value (hsimple : ∀ t ∈ ts, SimpleWord t) : ValueWritten ts := by
  intro stack v h hstack
  unfold readValue at h
  split at h
  · next w ts =>
    have hw : SimpleWord (.word w) := hsimple _ List.mem_cons_self
    cases w with
    | null => exact ⟨null, ts, rfl, hstack, h⟩
    | bool value => exact ⟨bool value, ts, rfl, hstack, h⟩
    | number text => exact ⟨number text, ts, rfl, hstack, h⟩
    | _ => exact hw.elim
  · next text ts => exact ⟨string text, ts, rfl, hstack, h⟩
  · next ts =>
    split at h
    · next hroom => exact ⟨array [], ts, rfl, hroom, h⟩
    · cases h
  · next ts hne =>
    split at h
    · next hroom =>
      obtain ⟨item, after, rfl, hitem, h⟩ := (ih (by simp) (by simp)).value h hroom
      obtain ⟨items, after, rfl, hitems, h⟩ := (ih (by grind) (by simp)).items h hroom
      refine ⟨array (item :: items), after, by simp [tokens], ?_, h⟩
      rw [List.length_cons] at hitem
      rw [depth, itemsDepth]
      omega
    · cases h
  · next ts =>
    split at h
    · next hroom => exact ⟨object [], ts, rfl, hroom, h⟩
    · cases h
  · next key ts =>
    split at h
    · next hroom =>
      obtain ⟨value, after, rfl, hvalue, h⟩ :=
        (ih (by simp; omega) fun t ht => by simp [ht]).value h hroom
      obtain ⟨fields, after, rfl, hfields, h⟩ :=
        (ih (by simp; omega) fun t ht => by simp [ht]).fields h hroom
      refine ⟨object ((key, value) :: fields), after, by simp [tokens], ?_, h⟩
      rw [List.length_cons] at hvalue
      rw [depth, fieldsDepth]
      omega
    · cases h
  · cases h

theorem written_items : ItemsWritten ts := by
  intro stack v w done h hroom
  cases ts with
  | nil => simp [readAfter] at h
  | cons t ts =>
    cases t with
    | comma =>
      rw [readAfter] at h
      obtain ⟨item, after, rfl, hitem, h⟩ := (ih (by simp) (by simp)).value h hroom
      obtain ⟨items, after, rfl, hitems, h⟩ := (ih (by grind) (by simp)).items h hroom
      refine ⟨item :: items, after, by simp [moreItems], ?_, by simpa [settledItems] using h⟩
      rw [List.length_cons] at hitem
      rw [itemsDepth]
      omega
    | closeBracket =>
      rw [readAfter] at h
      exact ⟨[], ts, rfl, hroom, by simpa [settledItems] using h⟩
    | _ => simp [readAfter] at h

theorem written_fields : FieldsWritten ts := by
  intro stack v w key done h hroom
  unfold readAfter at h
  split at h
  · next hstack => cases hstack
  · next hstack => cases hstack
  · next hstack => cases hstack
  · next next ts hstack =>
    cases hstack
    obtain ⟨value, after, rfl, hvalue, h⟩ :=
      (ih (by simp; omega) fun t ht => by simp [ht]).value h hroom
    obtain ⟨fields, after, rfl, hfields, h⟩ :=
      (ih (by simp; omega) fun t ht => by simp [ht]).fields h hroom
    refine ⟨(next, value) :: fields, after, by simp [moreFields], ?_, h⟩
    rw [List.length_cons] at hvalue
    rw [fieldsDepth]
    omega
  · next hstack =>
    cases hstack
    exact ⟨[], _, rfl, hroom, h⟩
  · cases h

end

/-- By the number of the tokens and not by the value: behind a value the reader goes on with tokens
that are no part of it. -/
theorem written (ts : List Token) (hsimple : ∀ t ∈ ts, SimpleWord t) : Written ts := by
  induction hn : ts.length using Nat.strongRecOn generalizing ts with
  | _ n ih =>
    have ih' : ∀ {ts' : List Token}, ts'.length < ts.length → ts' ⊆ ts → Written ts' :=
      fun hlt hsub => ih _ (hn ▸ hlt) _ (fun t ht => hsimple t (hsub ht)) rfl
    exact ⟨written_value ih' hsimple, written_items ih', written_fields ih'⟩

theorem simpleWord_of_spellsAll {ts : List Token} {cs : List Char} (h : Token.SpellsAll ts cs) :
    ∀ t ∈ ts, SimpleWord t := by
  induction h with
  | nil => exact fun t ht => nomatch ht
  | gap _ _ ih => exact ih
  | token ht _ ih =>
    intro t hmem
    rcases List.mem_cons.mp hmem with rfl | hmem
    · cases ht <;> exact True.intro
    · exact ih t hmem

theorem parse?_eq_some_iff {text : String} {v : Json} :
    parse? text = some v ↔ ∃ j, Document text j ∧ j.settled = v := by
  constructor
  · intro h
    obtain ⟨ts, hscan, hread⟩ := Option.bind_eq_some_iff.mp h
    have hspells := Token.spellsAll_of_scan? hscan
    obtain ⟨j, after, rfl, hdepth, hafter⟩ :=
      (written ts (simpleWord_of_spellsAll hspells)).value hread (Nat.zero_le _)
    cases after with
    | nil =>
      rw [readAfter, Option.some.injEq] at hafter
      rw [List.append_nil] at hspells
      rw [List.length_nil, Nat.zero_add] at hdepth
      exact ⟨j, ⟨hspells, hdepth⟩, hafter⟩
    | cons t after => simp [readAfter] at hafter
  · rintro ⟨j, ⟨hspells, hdepth⟩, rfl⟩
    have hapart : Token.WordsApart (j.tokens ++ []) := wordsApart_tokens j .nil (by simp)
    have hread := readValue_tokens j [] [] (by simpa using hdepth)
    rw [List.append_nil] at hapart
    rw [List.append_nil, readAfter] at hread
    rw [parse?, Token.scan?_of_spellsAll hspells hapart, Option.bind_some, hread]

theorem parse?_eq_none_iff {text : String} : parse? text = none ↔ ¬ ∃ j, Document text j := by
  rw [Option.eq_none_iff_forall_ne_some]
  constructor
  · rintro h ⟨j, hj⟩
    exact h j.settled (parse?_eq_some_iff.mpr ⟨j, hj, rfl⟩)
  · intro h v hv
    obtain ⟨j, hj, -⟩ := parse?_eq_some_iff.mp hv
    exact h ⟨j, hj⟩

end ModBuild.Json
