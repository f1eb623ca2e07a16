import ReactiveView.Template.Position
import ReactiveView.Text.Blank
import Mathlib.Data.List.Infix

/-!
# Places of a text

What a reader of characters may say about its text: an offset that cuts no character
(`Text.Boundary`), a line that the text has (`Text.Located`), a place that is counted from the start
(`Position.Of`). The cuts that readers make take contiguous parts of the text, and what two
neighbouring characters show in a part they show in the whole (`Text.BrokenEscape`).
-/

namespace ReactiveView
namespace Text

/-! ## Lengths in bytes -/

theorem foldl_utf8Size (n : Nat) (cs : List Char) :
    cs.foldl (fun n c => n + c.utf8Size) n = n + byteLength cs := by
  induction cs generalizing n with
  | nil => rfl
  | cons c cs ih =>
    rw [byteLength, List.foldl_cons, List.foldl_cons, ih, ih (0 + c.utf8Size)]
    omega

@[simp] theorem byteLength_nil : byteLength [] = 0 := rfl

@[simp] theorem byteLength_cons (c : Char) (cs : List Char) :
    byteLength (c :: cs) = c.utf8Size + byteLength cs := by
  rw [byteLength, List.foldl_cons, foldl_utf8Size, Nat.zero_add]

@[simp] theorem byteLength_append (cs ds : List Char) :
    byteLength (cs ++ ds) = byteLength cs + byteLength ds := by
  rw [byteLength, List.foldl_append, foldl_utf8Size]
  rfl

theorem byteLength_le_of_part {cs ds : List Char} (h : cs <:+: ds) :
    byteLength cs ≤ byteLength ds := by
  obtain ⟨before, after, rfl⟩ := h
  simp only [byteLength_append]
  omega

/-- An ASCII character has one byte. -/
theorem utf8Size_of_ascii {c : Char} (h : c.toNat < 128) : c.utf8Size = 1 := by
  have hle : c.val.toNat ≤ 127 := Nat.le_of_lt_succ h
  exact if_pos (UInt32.le_iff_toNat_le.2 hle)

/-- A text of ASCII characters has as many bytes as characters. -/
theorem byteLength_of_ascii {cs : List Char} (h : ∀ c ∈ cs, c.toNat < 128) :
    byteLength cs = cs.length := by
  induction cs with
  | nil => rfl
  | cons c cs ih =>
    rw [byteLength_cons, utf8Size_of_ascii (h c List.mem_cons_self),
      ih fun d hd => h d (List.mem_cons_of_mem c hd), List.length_cons, Nat.add_comm]

/-! ## Offsets and lines -/

/-- An offset that cuts no character of a text. -/
def Boundary (cs : List Char) (offset : Nat) : Prop :=
  ∃ before after, cs = before ++ after ∧ byteLength before = offset

/-- The number of lines of a text. -/
def lineCount (cs : List Char) : Nat := cs.count '\n' + 1

theorem lineCount_append (cs ds : List Char) :
    lineCount (cs ++ ds) = lineCount cs + ds.count '\n' := by
  rw [lineCount, lineCount, List.count_append]
  omega

theorem lineCount_le_of_start {cs ds : List Char} (h : cs <+: ds) : lineCount cs ≤ lineCount ds :=
  Nat.succ_le_succ (h.sublist.count_le _)

/-- An offset that cuts no character and a line that the text has. -/
structure Located (cs : List Char) (offset line : Nat) : Prop where
  /-- The offset cuts no character. -/
  boundary : Boundary cs offset
  /-- Lines are counted from one. -/
  line_pos : 1 ≤ line
  /-- The line is not behind the last. -/
  line_le : line ≤ lineCount cs

theorem Boundary.le {cs : List Char} {offset : Nat} (h : Boundary cs offset) :
    offset ≤ byteLength cs := by
  obtain ⟨before, after, rfl, rfl⟩ := h
  exact byteLength_le_of_part (List.prefix_append before after).isInfix

/-- What is located in the end of a text is located in the text. -/
theorem Located.append {before cs : List Char} {offset line : Nat} (h : Located cs offset line) :
    Located (before ++ cs) (byteLength before + offset) (lineCount before + line - 1) := by
  obtain ⟨⟨first, rest, rfl, rfl⟩, hpos, hle⟩ := h
  refine ⟨⟨before ++ first, rest, (List.append_assoc ..).symm, byteLength_append ..⟩, ?_, ?_⟩
  · have := hpos
    simp only [lineCount] at *
    omega
  · rw [lineCount_append]
    simp only [lineCount] at *
    omega

theorem Boundary.append {cs : List Char} {offset : Nat} (h : Boundary cs offset) (ds : List Char) :
    Boundary (cs ++ ds) offset := by
  obtain ⟨before, after, rfl, hoffset⟩ := h
  exact ⟨before, after ++ ds, List.append_assoc .., hoffset⟩

/-- What is located in the front of a text is located in the text. -/
theorem Located.extend {cs : List Char} {offset line : Nat} (h : Located cs offset line)
    (ds : List Char) : Located (cs ++ ds) offset line :=
  ⟨h.boundary.append ds, h.line_pos,
    Nat.le_trans h.line_le (lineCount_le_of_start (List.prefix_append cs ds))⟩

/-- A contiguous part of a text stands at an offset. -/
def Stands (cs : List Char) (offset : Nat) (part : List Char) : Prop :=
  ∃ before after, cs = before ++ (part ++ after) ∧ byteLength before = offset

namespace Stands

variable {cs first second part : List Char} {offset : Nat}

theorem boundary (h : Stands cs offset part) : Boundary cs offset := by
  obtain ⟨before, after, hcs, hoffset⟩ := h
  exact ⟨before, part ++ after, hcs, hoffset⟩

theorem part_of (h : Stands cs offset part) : part <:+: cs := by
  obtain ⟨before, after, rfl, -⟩ := h
  exact ⟨before, after, List.append_assoc ..⟩

theorem le (h : Stands cs offset part) : offset + byteLength part ≤ byteLength cs := by
  obtain ⟨before, after, rfl, rfl⟩ := h
  simp only [byteLength_append]
  omega

theorem left (h : Stands cs offset (first ++ second)) : Stands cs offset first := by
  obtain ⟨before, after, rfl, hoffset⟩ := h
  exact ⟨before, second ++ after, by simp only [List.append_assoc], hoffset⟩

theorem right (h : Stands cs offset (first ++ second)) :
    Stands cs (offset + byteLength first) second := by
  obtain ⟨before, after, rfl, rfl⟩ := h
  exact ⟨before ++ first, after, by simp only [List.append_assoc], byteLength_append ..⟩

end Stands

/-- A part of a text that errors may be placed in, counted from an offset. -/
structure Fits (cs : List Char) (offset : Nat) (part : List Char) : Prop where
  /-- It is a part. -/
  part_of : part <:+: cs
  /-- It does not reach behind the end. -/
  le : offset + byteLength part ≤ byteLength cs

theorem Stands.fits {cs part : List Char} {offset : Nat} (h : Stands cs offset part) :
    Fits cs offset part := ⟨h.part_of, h.le⟩

theorem Fits.mono {cs part sub : List Char} {offset : Nat} (h : Fits cs offset part)
    (hsub : sub <:+: part) : Fits cs offset sub :=
  ⟨hsub.trans h.part_of,
    Nat.le_trans (Nat.add_le_add_left (byteLength_le_of_part hsub) _) h.le⟩

/-! ## Neighbours -/

/-- A backslash stands directly before a character that is not ASCII. -/
def BrokenEscape (cs : List Char) : Prop := ∃ c : Char, 128 ≤ c.toNat ∧ ['\\', c] <:+: cs

theorem BrokenEscape.mono {cs ds : List Char} (h : BrokenEscape cs) (hsub : cs <:+: ds) :
    BrokenEscape ds := by
  obtain ⟨c, hc, hin⟩ := h
  exact ⟨c, hc, hin.trans hsub⟩

/-! ## Cuts -/

theorem trimStart_suffix (cs : List Char) : trimStart cs <:+ cs := List.dropWhile_suffix _

theorem trimEnd_start (cs : List Char) : trimEnd cs <+: cs := by
  have h := List.reverse_prefix.2 (List.dropWhile_suffix isBlank (l := cs.reverse))
  rwa [List.reverse_reverse] at h

theorem trim_part (cs : List Char) : trim cs <:+: cs :=
  (trimEnd_start _).isInfix.trans (trimStart_suffix cs).isInfix

/-- The pieces of a text are contiguous parts of it, and the first is its beginning. -/
theorem splitBy_parts (sep : Char → Bool) (cs : List Char) :
    (∀ piece ∈ splitBy sep cs, piece <:+: cs) ∧ ∀ piece ∈ (splitBy sep cs).head?, piece <+: cs := by
  induction cs with
  | nil => simp [splitBy]
  | cons c cs ih =>
    obtain ⟨hall, hfirst⟩ := ih
    have hpart {piece : List Char} (h : piece <:+: cs) : piece <:+: c :: cs :=
      h.trans (List.suffix_cons c cs).isInfix
    rw [splitBy]
    cases hpieces : splitBy sep cs with
    | nil => simp [List.singleton_infix_iff]
    | cons piece pieces =>
      rw [hpieces] at hall hfirst
      have hpiece : c :: piece <+: c :: cs := List.cons_prefix_cons.2 ⟨rfl, hfirst piece rfl⟩
      dsimp only
      split
      · refine ⟨fun p hp => ?_, fun p hp => ?_⟩
        · rcases List.mem_cons.1 hp with rfl | hp
          · exact List.nil_infix
          · exact hpart (hall p hp)
        · obtain rfl := Option.some.inj hp
          exact List.nil_prefix
      · refine ⟨fun p hp => ?_, fun p hp => ?_⟩
        · rcases List.mem_cons.1 hp with rfl | hp
          · exact hpiece.isInfix
          · exact hpart (hall p (List.mem_cons_of_mem _ hp))
        · obtain rfl := Option.some.inj hp
          exact hpiece

theorem splitBy_part {sep : Char → Bool} {cs piece : List Char} (h : piece ∈ splitBy sep cs) :
    piece <:+: cs := (splitBy_parts sep cs).1 piece h

theorem splitAt?_rest {needle cs before rest : List Char}
    (h : splitAt? needle cs = some (before, rest)) : rest <:+ cs := by
  rw [append_of_splitAt? h]
  exact List.suffix_append ..

theorem dropPrefix?_append (start rest : List Char) :
    dropPrefix? start (start ++ rest) = some rest := by
  induction start with
  | nil => rfl
  | cons c start ih => rw [List.cons_append, dropPrefix?, if_pos rfl, ih]

end Text

/-! ## Positions -/

namespace Position

/-- A place of a source: what counting from the start up to some of its characters gives. -/
def Of (source : List Char) (p : Position) : Prop := ∃ before, before <+: source ∧ p = start.after
    before

@[simp] theorem after_nil (p : Position) : p.after [] = p := rfl

@[simp] theorem after_cons (p : Position) (c : Char) (cs : List Char) :
    p.after (c :: cs) = (p.next c).after cs := rfl

theorem after_append (p : Position) (cs ds : List Char) :
    p.after (cs ++ ds) = (p.after cs).after ds := List.foldl_append

theorem offset_next (p : Position) (c : Char) : (p.next c).offset = p.offset + c.utf8Size := by
  rw [next]
  split
  · next h => rw [h]; rfl
  · rfl

theorem line_next (p : Position) (c : Char) : (p.next c).line = p.line + [c].count '\n' := by
  rw [next]
  split
  · next h => rw [h]; rfl
  · next h => rw [List.count_singleton, if_neg (by simpa using h)]; rfl

/-- The offset of a place counts bytes, and its line counts line breaks. -/
theorem after_eq (p : Position) (cs : List Char) :
    (p.after cs).offset = p.offset + Text.byteLength cs ∧
      (p.after cs).line = p.line + cs.count '\n' := by
  induction cs generalizing p with
  | nil => exact ⟨rfl, rfl⟩
  | cons c cs ih =>
    have hcount : (c :: cs).count '\n' = [c].count '\n' + cs.count '\n' := by
      rw [← List.count_append, List.singleton_append]
    rw [after_cons, (ih _).1, (ih _).2, offset_next, line_next, Text.byteLength_cons, hcount]
    omega

theorem offset_after_start (cs : List Char) : (start.after cs).offset = Text.byteLength cs := by
  rw [(after_eq start cs).1]
  exact Nat.zero_add _

theorem line_after_start (cs : List Char) : (start.after cs).line = Text.lineCount cs := by
  rw [(after_eq start cs).2]
  exact Nat.add_comm ..

/-- A place of a source is located in it. -/
theorem Of.located {source : List Char} {p : Position} (h : Of source p) :
    Text.Located source p.offset p.line := by
  obtain ⟨before, hbefore, rfl⟩ := h
  obtain ⟨rest, rfl⟩ := hbefore
  rw [offset_after_start, line_after_start]
  exact ⟨⟨before, rest, rfl, rfl⟩, Nat.le_add_left ..,
    Text.lineCount_le_of_start (List.prefix_append ..)⟩

/-- Seeking an offset passes only characters that end at or before it, so that the distance from the
last one is not negative. -/
theorem seek_spec {offset : Nat} {p : Position} (hp : p.offset ≤ offset) (cs : List Char) :
    (seek offset p cs).offset = offset ∧ ∃ before, before <+: cs ∧ (p.after before).offset ≤ offset
      ∧
      (seek offset p cs).line = (p.after before).line ∧
      (seek offset p cs).column + (p.after before).offset = (p.after before).column + offset := by
  induction cs generalizing p with
  | nil => exact ⟨rfl, [], List.nil_prefix, hp, rfl, by simp only [seek, after_nil]; omega⟩
  | cons c cs ih =>
    rw [seek]
    split
    · exact ⟨rfl, [], List.nil_prefix, hp, rfl, by simp only [after_nil]; omega⟩
    · next h =>
      rw [Nat.not_lt, ← offset_next] at h
      obtain ⟨hoffset, before, hbefore, hrest⟩ := ih h
      exact ⟨hoffset, c :: before, List.cons_prefix_cons.2 ⟨rfl, hbefore⟩, hrest⟩

theorem offset_ofOffset (source : List Char) (offset : Nat) :
    (ofOffset source offset).offset = offset := (seek_spec (Nat.zero_le _) source).1

/-- The line of an offset is one of the source. -/
theorem line_ofOffset (source : List Char) (offset : Nat) :
    1 ≤ (ofOffset source offset).line ∧ (ofOffset source offset).line ≤ Text.lineCount source := by
  obtain ⟨-, before, hbefore, -, hline, -⟩ := seek_spec (p := start) (Nat.zero_le offset) source
  rw [ofOffset, hline, line_after_start]
  exact ⟨Nat.le_add_left .., Text.lineCount_le_of_start hbefore⟩

end Position
end ReactiveView
