/-!
# Glob patterns

A star stands for any characters, a question mark for one, and brackets for one character of a set;
everything else stands for itself. A bracket that is never closed stands for itself too.

* `Member`, `Piece`: the parts of a pattern;
* `pieces`: reading a pattern;
* `matchesGlob`: whether a whole text matches.
-/

namespace HashedAssets.Text.Glob

/-- A member of a set: a character, or the characters from `low` to `high`. -/
inductive Member
  | single (c : Char)
  | span (low high : Char)
  deriving DecidableEq, Repr

/-- Whether there is a character in a member: a span may end before it begins. -/
def Member.isInhabited : Member → Bool
  | .single _ => true
  | .span low high => low ≤ high

/-- Whether a character is in a member. -/
def Member.contains (c : Char) : Member → Bool
  | .single d => c == d
  | .span low high => low ≤ c && c ≤ high

/-- A part of a pattern. -/
inductive Piece
  | any
  | one
  | literal (c : Char)
  | set (negated : Bool) (members : List Member)
  deriving DecidableEq, Repr

/-- The members in brackets: a hyphen between two characters spans the characters between them. -/
def members : List Char → List Member
  | a :: '-' :: b :: rest => .span a b :: members rest
  | a :: rest => .single a :: members rest
  | [] => []

/-- The set in brackets. Empty spans are left out first. An exclamation mark that is then the first
character turns the set around; if a span begins with it, the hyphen and the end of the span are
members of the set. -/
def setOf (inside : List Char) : Piece :=
  match (members inside).filter Member.isInhabited with
  | .single '!' :: rest => .set true rest
  | .span '!' high :: rest => .set true (.single '-' :: .single high :: rest)
  | ms => .set false ms

/-- The characters up to the bracket that closes a set, and those after it. A bracket right at the
beginning belongs to the set. -/
def splitSet? (cs : List Char) : Option (List Char × List Char) :=
  let (first, rest) := match cs with
    | ']' :: rest => ([']'], rest)
    | _ => ([], cs)
  if rest.contains ']' then
    some (first ++ rest.takeWhile (· != ']'), (rest.dropWhile (· != ']')).drop 1)
  else none

theorem length_splitSet? {cs inside rest : List Char} (h : splitSet? cs = some (inside, rest)) :
    rest.length ≤ cs.length := by
  have hd : ∀ l : List Char, ((l.dropWhile (· != ']')).drop 1).length ≤ l.length := fun l => by
    have := (List.dropWhile_suffix (l := l) (· != ']')).length_le
    simp only [List.length_drop]
    omega
  unfold splitSet? at h
  split at h
  next first left heq =>
  split at h
  · simp only [Option.some.injEq, Prod.mk.injEq] at h
    have hl : left.length ≤ cs.length := by
      split at heq
      · simp only [Prod.mk.injEq] at heq
        simp [← heq.2]
      · simp only [Prod.mk.injEq] at heq
        simp [← heq.2]
    rw [← h.2]
    exact Nat.le_trans (hd left) hl
  · exact absurd h (by simp)

/-- The pieces of a pattern. -/
def pieces (pattern : List Char) : List Piece :=
  match pattern with
  | [] => []
  | '*' :: rest => .any :: pieces rest
  | '?' :: rest => .one :: pieces rest
  | '[' :: '!' :: rest =>
      match _h : splitSet? rest with
      | some (inside, after) => .set true (members inside) :: pieces after
      | none => .literal '[' :: pieces ('!' :: rest)
  | '[' :: rest =>
      match _h : splitSet? rest with
      | some (inside, after) => setOf inside :: pieces after
      | none => .literal '[' :: pieces rest
  | c :: rest => .literal c :: pieces rest
termination_by pattern.length
decreasing_by
  all_goals simp only [List.length_cons]
  all_goals try have := length_splitSet? _h
  all_goals omega

/-- Whether a piece other than a star takes a character. -/
def Piece.takes (c : Char) : Piece → Bool
  | .any => true
  | .one => true
  | .literal d => c == d
  | .set negated ms => ms.any (Member.contains c) != negated

/-- A list and all that is left of it as elements are taken from its front. -/
def tails : List Char → List (List Char)
  | [] => [[]]
  | c :: rest => (c :: rest) :: tails rest

/-- What may be left of a text after a piece, from what may be left before it, the longest first. -/
def Piece.leave (lefts : List (List Char)) : Piece → List (List Char)
  | .any => match lefts with
    | [] => []
    | longest :: _ => tails longest
  | p => lefts.filterMap fun
    | [] => none
    | c :: rest => if p.takes c then some rest else none

/-- Whether a whole text matches a pattern. -/
def matchesGlob (pattern text : String) : Bool :=
  ((pieces pattern.toList).foldl Piece.leave [text.toList]).any List.isEmpty

end HashedAssets.Text.Glob
