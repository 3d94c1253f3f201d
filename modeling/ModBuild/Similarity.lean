/-!
# Similar names

Suggestions are found by the Jaro-Winkler measure. Two characters match when they are equal and not
too far apart, each position being used once; matches in a different order count half. A common
beginning lifts the score of names that are similar already.
-/

namespace ModBuild.Similarity

/-- Marks the first free place with character `c` among the positions from `low` up to `high`. The
list starts at position `i`. -/
def mark? (c : Char) (low high : Nat) : Nat → List (Char × Bool) → Option (List (Char × Bool))
  | _, [] => none
  | i, (d, used) :: rest =>
    if high ≤ i then none
    else if low ≤ i && c = d && !used then some ((d, true) :: rest)
    else (mark? c low high (i + 1) rest).map ((d, used) :: ·)

/-- The characters of the first name, from position `i`, that find a match, and the second name with
its matched places marked. -/
def pair (reach : Nat) : Nat → List Char → List (Char × Bool) → List Char × List (Char × Bool)
  | _, [], places => ([], places)
  | i, c :: cs, places =>
    match mark? c (i - reach) (i + reach + 1) 0 places with
    | some places =>
      let (matched, rest) := pair reach (i + 1) cs places
      (c :: matched, rest)
    | none => pair reach (i + 1) cs places

def jaro (a b : List Char) : Float :=
  if a.isEmpty && b.isEmpty then 1.0
  else if a.isEmpty || b.isEmpty then 0.0
  else
    let reach := max a.length b.length / 2 - 1
    let (matched, places) := pair reach 0 a (b.map (·, false))
    let partners := (places.filter (·.2)).map (·.1)
    let moved := ((matched.zip partners).filter fun p => p.1 ≠ p.2).length / 2
    let n := matched.length
    if n = 0 then 0.0
    else
      (n.toFloat / a.length.toFloat + n.toFloat / b.length.toFloat +
        (n - moved).toFloat / n.toFloat) / 3.0

/-- Length of the common beginning, at most four. -/
def commonStart (a b : List Char) : Nat :=
  (((a.take 4).zip b).takeWhile fun p => p.1 = p.2).length

def score (a b : String) : Float :=
  let s := jaro a.toList b.toList
  if s > 0.7 then s + 0.1 * (commonStart a.toList b.toList).toFloat * (1.0 - s) else s

/-- The candidates that score above `threshold`, best first, at most `limit`; equal scores keep
their order. -/
def similarNames (target : String) (candidates : List String) (threshold : Float) (limit : Nat) :
    List String :=
  let scored := (candidates.map fun c => (c, score target c)).filter fun p => p.2 > threshold
  let sorted := scored.mergeSort fun p q => q.2 ≤ p.2
  (sorted.take limit).map (·.1)

end ModBuild.Similarity
