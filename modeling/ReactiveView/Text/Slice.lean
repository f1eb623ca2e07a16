/-!
# Cutting text

Template source is read as a list of characters. Here are the cuts that its readers make (a known
start, the text before the first occurrence of a marker), the length in bytes that source offsets
count, and the ASCII classes of names and numerals.
-/

namespace ReactiveView.Text

/-- The rest of `cs` after `start`, when `cs` begins with it. -/
def dropPrefix? (start : List Char) (cs : List Char) : Option (List Char) :=
  match start, cs with
  | [], cs => some cs
  | _ :: _, [] => none
  | a :: start, c :: cs => if a = c then dropPrefix? start cs else none

/-- Split at the first occurrence of `needle`: what stands before it and what follows it. -/
def splitAt? (needle : List Char) : List Char → Option (List Char × List Char)
  | [] => (dropPrefix? needle []).map ([], ·)
  | c :: cs =>
    match dropPrefix? needle (c :: cs) with
    | some rest => some ([], rest)
    | none => (splitAt? needle cs).map fun (before, rest) => (c :: before, rest)

/-- The number of bytes of a text in UTF-8. -/
def byteLength (cs : List Char) : Nat := cs.foldl (fun n c => n + c.utf8Size) 0

/-- ASCII letters. -/
def isAsciiLetter (c : Char) : Bool := ('a' ≤ c && c ≤ 'z') || ('A' ≤ c && c ≤ 'Z')

/-- ASCII digits. -/
def isAsciiDigit (c : Char) : Bool := '0' ≤ c && c ≤ '9'

/-- The value of a run of ASCII digits, read after the digits whose value is `acc`. -/
def digitsValue (acc : Nat) (cs : List Char) : Nat :=
  cs.foldl (fun n c => 10 * n + (c.toNat - '0'.toNat)) acc

/-- What is dropped from the front is the given start. -/
theorem append_of_dropPrefix? {start cs rest : List Char} (h : dropPrefix? start cs = some rest) :
    cs = start ++ rest := by
  induction start generalizing cs with
  | nil => exact Option.some.inj h
  | cons a start ih =>
    cases cs with
    | nil => cases h
    | cons c cs =>
      rw [dropPrefix?] at h
      split at h
      · next hac => rw [hac, List.cons_append, ← ih h]
      · cases h

/-- Cutting at the first occurrence loses nothing. -/
theorem append_of_splitAt? {needle cs before rest : List Char}
    (h : splitAt? needle cs = some (before, rest)) : cs = before ++ needle ++ rest := by
  induction cs generalizing before with
  | nil =>
    simp only [splitAt?, Option.map_eq_some_iff] at h
    obtain ⟨tail, ht, he⟩ := h
    have := append_of_dropPrefix? ht
    simp_all
  | cons c cs ih =>
    simp only [splitAt?] at h
    split at h
    · rename_i tail ht
      have := append_of_dropPrefix? ht
      simp_all
    · simp only [Option.map_eq_some_iff] at h
      obtain ⟨⟨b, r⟩, hb, he⟩ := h
      simp only [Prod.mk.injEq] at he
      obtain ⟨rfl, rfl⟩ := he
      simp [ih hb]

end ReactiveView.Text
