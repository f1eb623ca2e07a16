/-!
# Blank characters, trimming and words

Two classes of blanks matter to a template. `isBlank` is the White_Space property of the character
standard; text is trimmed and split into words with it. `isAsciiBlank` holds the five ASCII blanks
that separate the attributes of a tag (a vertical tab is not among them).
-/

namespace ReactiveView.Text

/-- The characters with the White_Space property. -/
def isBlank (c : Char) : Bool :=
  let n := c.toNat
  (9 ≤ n && n ≤ 13) || n == 0x20 || n == 0x85 || n == 0xA0 || n == 0x1680 ||
    (0x2000 ≤ n && n ≤ 0x200A) || n == 0x2028 || n == 0x2029 || n == 0x202F || n == 0x205F ||
    n == 0x3000

/-- Space, tab, line feed, form feed and carriage return. -/
def isAsciiBlank (c : Char) : Bool :=
  c == ' ' || c == '\t' || c == '\n' || c == '\x0c' || c == '\r'

/-- Drop the blanks in front. -/
def trimStart (cs : List Char) : List Char := cs.dropWhile isBlank

/-- Drop the blanks at the end. -/
def trimEnd (cs : List Char) : List Char := (cs.reverse.dropWhile isBlank).reverse

/-- Drop the blanks at both ends. -/
def trim (cs : List Char) : List Char := trimEnd (trimStart cs)

/-- Cut at every character that satisfies `sep`; there is one piece more than there are cuts. -/
def splitBy (sep : Char → Bool) : List Char → List (List Char)
  | [] => [[]]
  | c :: cs =>
    match splitBy sep cs with
    | [] => [[c]]
    | piece :: pieces => if sep c then [] :: piece :: pieces else (c :: piece) :: pieces

/-- The maximal runs of characters that do not satisfy `sep`. -/
def piecesBy (sep : Char → Bool) (cs : List Char) : List (List Char) :=
  (splitBy sep cs).filter (!·.isEmpty)

/-- The words of a text: its maximal runs of characters that are not blank. -/
def words (s : String) : List String := (piecesBy isBlank s.toList).map String.ofList

/-- What is cut off at both ends is blank, so a text without blanks is its own trimming. -/
theorem trim_eq_self {cs : List Char} (h : ∀ c ∈ cs, isBlank c = false) : trim cs = cs := by
  have start : ∀ ds : List Char, (∀ c ∈ ds, isBlank c = false) → ds.dropWhile isBlank = ds := by
    intro ds hd
    cases ds with
    | nil => rfl
    | cons d ds => simp [hd d (by simp)]
  have rev : ∀ c ∈ cs.reverse, isBlank c = false := fun c hc => h c (by simpa using hc)
  simp [trim, trimStart, trimEnd, start cs h, start cs.reverse rev]

end ReactiveView.Text
