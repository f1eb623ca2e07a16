import ReactiveView.Text.Table.CaseMaps
import ReactiveView.Text.Table.Cased
import ReactiveView.Text.Table.CaseIgnorable

/-!
# Upper and lower case

The full case mappings of the character standard, without regard to language: a character may map
to several (`ß` to `SS`), and a capital sigma at the end of a word has the final form in lower case.
-/

namespace ReactiveView.Text

open Table

/-- Whether a code point lies in one of the ranges. -/
def inRanges (table : Array (Nat × Nat)) (n : Nat) : Bool :=
  table.any fun (first, last) => first ≤ n && n ≤ last

/-- The image of a code point under the run that holds it, or the code point itself. -/
def applyRuns (runs : Array CaseRun) (n : Nat) : Nat :=
  match runs.find? fun r => r.first ≤ n && n ≤ r.last && (n - r.first) % r.step == 0 with
  | some r => ((n : Int) + r.shift).toNat
  | none => n

/-- The upper case form of a character. -/
def upperChar (c : Char) : List Char :=
  if c.toNat < 128 then [c.toUpper]
  else match upperExpansions.find? (·.1 == c.toNat) with
  | some (_, image) => image.map Char.ofNat
  | none => [Char.ofNat (applyRuns upperRuns c.toNat)]

/-- The lower case form of a character, wherever it stands. -/
def lowerChar (c : Char) : List Char :=
  if c.toNat < 128 then [c.toLower]
  else if c.toNat = 0x130 then ['i', '\u0307'] else [Char.ofNat (applyRuns lowerRuns c.toNat)]

/-- Whether the first character that casing does not look through is cased. -/
def startsCased (cs : List Char) : Bool :=
  match cs.dropWhile fun c => inRanges ignorableRanges c.toNat with
  | c :: _ => inRanges casedRanges c.toNat
  | [] => false

/-- Lower case of `cs`, which follows the characters `before` (nearest first), put behind the
reversed text `done`. -/
def lowerAfter (before done : List Char) : List Char → List Char
  | [] => done.reverse
  | c :: cs =>
    let image :=
      if c = 'Σ' then (if startsCased before && !startsCased cs then ['ς'] else ['σ'])
      else lowerChar c
    lowerAfter (c :: before) (image.reverse ++ done) cs

/-- The upper case form of a text. -/
def upper (s : String) : String := String.ofList (s.toList.flatMap upperChar)

/-- The lower case form of a text. -/
def lower (s : String) : String := String.ofList (lowerAfter [] [] s.toList)

end ReactiveView.Text
