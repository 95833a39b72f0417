import Mathlib

/-! # Lines and columns of a text

Lines end with LF, CR, CR LF, U+2028 and U+2029, columns are counted in UTF-16 code
units and offsets in UTF-8 bytes. A place in a text is the pair of what stands before and
what stands after it.
-/
namespace Lib.TextPosition

structure Position where
  line : Nat
  column : Nat

variable (c : Char)

def utf16Length : Nat := if c.toNat < 0x10000 then 1 else 2

def byteLength (text : List Char) : Nat := (text.map Char.utf8Size).sum

/-- A line ends with the character, unless that is the CR of a CR LF. -/
def endsLine (rest : List Char) : Bool :=
  c == '\n' || c == '\u2028' || c == '\u2029' || (c == '\r' && rest.head? != some '\n')

def Position.next (p : Position) (c : Char) (rest : List Char) : Position :=
  if endsLine c rest then ⟨p.line + 1, 0⟩ else ⟨p.line, p.column + utf16Length c⟩

def positionFrom (p : Position) : (before after : List Char) → Position
  | [], _ => p
  | c :: before, after => positionFrom (p.next c (before ++ after)) before after

def position (before after : List Char) : Position := positionFrom ⟨0, 0⟩ before after

/-- The offsets at which a line starts, after the first one. -/
def lineStartsFrom (offset : Nat) : List Char → List Nat
  | [] => []
  | c :: rest =>
    if endsLine c rest then (offset + c.utf8Size) :: lineStartsFrom (offset + c.utf8Size) rest
    else lineStartsFrom (offset + c.utf8Size) rest

def lineStarts (text : List Char) : List Nat := 0 :: lineStartsFrom 0 text

/-! ## Offsets -/

@[simp] theorem byteLength_nil : byteLength [] = 0 := rfl

@[simp] theorem byteLength_cons (rest : List Char) : byteLength (c :: rest) = c.utf8Size + byteLength rest := by
  simp [byteLength]

@[simp] theorem byteLength_append (front back : List Char) :
    byteLength (front ++ back) = byteLength front + byteLength back := by
  simp [byteLength]

variable {text back back' front front' between after after' : List Char} {p : Position} {offset start : Nat}

theorem byteLength_pos (h : text ≠ []) : 0 < byteLength text := by
  cases text with
  | nil => exact absurd rfl h
  | cons c rest =>
    rw [byteLength_cons]
    have := c.utf8Size_pos
    omega

theorem prefix_of_byteLength_le (h : text = front ++ back)
    (h' : text = front' ++ back') (hLength : byteLength front ≤ byteLength front') : front <+: front' := by
  have hFront : front <+: text := ⟨back, h.symm⟩
  have hFront' : front' <+: text := ⟨back', h'.symm⟩
  rcases List.prefix_or_prefix_of_prefix hFront hFront' with hPrefix | ⟨more, rfl⟩
  · exact hPrefix
  · rw [byteLength_append] at hLength
    have hMore : more = [] := by
      by_contra hMore
      have := byteLength_pos hMore
      omega
    exact ⟨[], by rw [hMore, List.append_nil, List.append_nil]⟩

theorem eq_of_byteLength_eq (h : text = front ++ back)
    (h' : text = front' ++ back') (hLength : byteLength front = byteLength front') : front = front' ∧ back = back' := by
  have hPrefix : front <+: front' := prefix_of_byteLength_le h h' (Nat.le_of_eq hLength)
  have hEq : front = front' := by
    obtain ⟨more, rfl⟩ := hPrefix
    rw [byteLength_append] at hLength
    by_cases hMore : more = []
    · rw [hMore, List.append_nil]
    · have := byteLength_pos hMore
      omega
  subst hEq
  exact ⟨rfl, List.append_cancel_left (h.symm.trans h')⟩

/-! ## Positions -/

def Position.Before (p q : Position) : Prop := p.line < q.line ∨ p.line = q.line ∧ p.column < q.column

theorem Position.Before.trans {q r : Position} (h : p.Before q) (h' : q.Before r) : p.Before r := by
  unfold Position.Before at *
  omega

theorem Position.Before.irrefl (p : Position) : ¬p.Before p := by
  unfold Position.Before
  omega

theorem utf16Length_pos : 0 < utf16Length c := by
  unfold utf16Length
  split <;> omega

theorem Position.before_next (p : Position) (c : Char) (rest : List Char) : p.Before (p.next c rest) := by
  have := utf16Length_pos c
  unfold Position.Before Position.next
  split
  · exact .inl (Nat.lt_succ_self _)
  · exact .inr ⟨rfl, Nat.lt_add_of_pos_right this⟩

theorem positionFrom_append (p : Position) (before between after : List Char) :
    positionFrom p (before ++ between) after =
      positionFrom (positionFrom p before (between ++ after)) between after := by
  induction before generalizing p with
  | nil => rfl
  | cons c before ih =>
    simp only [List.cons_append, positionFrom, List.append_assoc]
    exact ih _

theorem positionFrom_before (after : List Char) (h : between ≠ []) : p.Before (positionFrom p between after) := by
  induction between generalizing p with
  | nil => exact absurd rfl h
  | cons c between ih =>
    have hNext := p.before_next c (between ++ after)
    by_cases hBetween : between = []
    · subst hBetween
      exact hNext
    · exact hNext.trans (ih hBetween)

theorem position_before (before after : List Char) (h : between ≠ []) :
    (position before (between ++ after)).Before (position (before ++ between) after) := by
  rw [position, position, positionFrom_append]
  exact positionFrom_before after h

theorem utf16Length_le : utf16Length c ≤ c.utf8Size := by
  have hPos := c.utf8Size_pos
  rw [utf16Length]
  split
  · exact hPos
  · next hLarge =>
    have hChar : c.val.toNat = c.toNat := rfl
    simp only [Char.utf8Size, UInt32.le_iff_toNat_le, hChar, UInt32.toNat_ofNatLT]
    split_ifs <;> omega

theorem positionFrom_le (p : Position) (before after : List Char) :
    (positionFrom p before after).line + (positionFrom p before after).column ≤
      p.line + p.column + byteLength before := by
  induction before generalizing p with
  | nil => exact Nat.le_refl _
  | cons c before ih =>
    have hNext := ih (p.next c (before ++ after))
    have hStep : (p.next c (before ++ after)).line + (p.next c (before ++ after)).column ≤
        p.line + p.column + c.utf8Size := by
      have hPos := c.utf8Size_pos
      have hWidth := utf16Length_le c
      rw [Position.next]
      split
      · dsimp only
        omega
      · dsimp only
        omega
    rw [positionFrom, byteLength_cons]
    omega

theorem position_le (before after : List Char) :
    (position before after).line + (position before after).column ≤ byteLength before := by
  have h := positionFrom_le ⟨0, 0⟩ before after
  rwa [Nat.zero_add, Nat.zero_add] at h

/-! ## Within a line -/

/-- No line ends in the text. -/
def WithinLine (between after : List Char) : Prop :=
  ∀ front c back, between = front ++ c :: back → endsLine c (back ++ after) = false

def width (text : List Char) : Nat := (text.map utf16Length).sum

theorem WithinLine.tail {c : Char} (h : WithinLine (c :: between) after) : WithinLine between after :=
  fun front d back hBetween => h (c :: front) d back (by rw [hBetween, List.cons_append])

theorem positionFrom_withinLine (h : WithinLine between after) (p : Position) :
    positionFrom p between after = ⟨p.line, p.column + width between⟩ := by
  induction between generalizing p with
  | nil => rfl
  | cons c between ih =>
    have hNext : p.next c (between ++ after) = ⟨p.line, p.column + utf16Length c⟩ := by
      rw [Position.next, h [] c between rfl]
      rfl
    rw [positionFrom, hNext, ih h.tail]
    simp [width, Nat.add_assoc]

theorem position_withinLine {before : List Char} (h : WithinLine between after) :
    position (before ++ between) after =
      ⟨(position before (between ++ after)).line, (position before (between ++ after)).column + width between⟩ := by
  rw [position, positionFrom_append, positionFrom_withinLine h]
  rfl

theorem endsLine_congr (back : List Char) (h : after.head? = some '\n' ↔ after'.head? = some '\n') :
    endsLine c (back ++ after) = endsLine c (back ++ after') := by
  cases back with
  | nil =>
    have hHead : (after.head? != some '\n') = (after'.head? != some '\n') := by
      rw [Bool.eq_iff_iff]
      simp only [bne_iff_ne]
      exact not_congr h
    rw [endsLine, endsLine, List.nil_append, List.nil_append, hHead]
  | cons d back => rfl

theorem WithinLine.congr (h : WithinLine between after)
    (hAfter : after.head? = some '\n' ↔ after'.head? = some '\n') : WithinLine between after' := by
  intro front c back hBetween
  rw [← endsLine_congr c back hAfter]
  exact h front c back hBetween

/-! ## Line starts -/

theorem mem_lineStartsFrom : start ∈ lineStartsFrom offset text ↔
    ∃ front c back, text = front ++ c :: back ∧ endsLine c back = true ∧
      start = offset + byteLength (front ++ [c]) := by
  induction text generalizing offset with
  | nil =>
    simp only [lineStartsFrom, List.not_mem_nil, false_iff]
    rintro ⟨front, c, back, h, -⟩
    exact absurd h.symm (by simp)
  | cons c rest ih =>
    have hRest : start ∈ lineStartsFrom (offset + c.utf8Size) rest ↔
        ∃ front d back, rest = front ++ d :: back ∧ endsLine d back = true ∧
          start = offset + byteLength (c :: front ++ [d]) := by
      rw [ih]
      simp [Nat.add_assoc]
    have hSplit : (∃ front d back, c :: rest = front ++ d :: back ∧ endsLine d back = true ∧
          start = offset + byteLength (front ++ [d])) ↔
        (endsLine c rest = true ∧ start = offset + c.utf8Size) ∨
          ∃ front d back, rest = front ++ d :: back ∧ endsLine d back = true ∧
            start = offset + byteLength (c :: front ++ [d]) := by
      constructor
      · rintro ⟨front, d, back, hText, hEnds, hStart⟩
        cases front with
        | nil =>
          cases hText
          exact .inl ⟨hEnds, by simpa using hStart⟩
        | cons e front =>
          cases hText
          exact .inr ⟨front, d, back, rfl, hEnds, hStart⟩
      · rintro (⟨hEnds, hStart⟩ | ⟨front, d, back, rfl, hEnds, hStart⟩)
        · exact ⟨[], c, rest, rfl, hEnds, by simpa using hStart⟩
        · exact ⟨c :: front, d, back, rfl, hEnds, hStart⟩
    rw [hSplit, lineStartsFrom]
    split
    · rename_i hEnds
      rw [List.mem_cons, hRest]
      simp [hEnds]
    · rename_i hEnds
      rw [hRest]
      simp [hEnds]

theorem lineStartsFrom_gt (h : start ∈ lineStartsFrom offset text) : offset < start := by
  obtain ⟨front, c, back, -, -, rfl⟩ := mem_lineStartsFrom.mp h
  have hFront : front ++ [c] ≠ [] := by simp
  have := byteLength_pos hFront
  omega

theorem lineStartsFrom_sorted (offset : Nat) (text : List Char) : (lineStartsFrom offset text).Pairwise (· < ·) := by
  induction text generalizing offset with
  | nil => exact .nil
  | cons c rest ih =>
    rw [lineStartsFrom]
    split
    · exact .cons (fun start hStart => lineStartsFrom_gt hStart) (ih _)
    · exact ih _

theorem lineStarts_sorted (text : List Char) : (lineStarts text).Pairwise (· < ·) :=
  .cons (fun _ hStart => lineStartsFrom_gt hStart) (lineStartsFrom_sorted 0 text)

theorem mem_lineStarts : start ∈ lineStarts text ↔
    start = 0 ∨ ∃ front c back, text = front ++ c :: back ∧ endsLine c back = true ∧
      start = byteLength (front ++ [c]) := by
  rw [lineStarts, List.mem_cons, mem_lineStartsFrom]
  simp

end Lib.TextPosition
