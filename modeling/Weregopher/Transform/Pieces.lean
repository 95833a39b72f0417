import Weregopher.Lib.EcmaString
import Weregopher.Transform.Positions

/-! # A text cut by its edits

Edits cut a text into parts that stay and literals that are replaced. A place in a part
that stays, its two ends included, is a place of both texts.
-/
namespace Weregopher.Transform
open Lib.EcmaString Lib.TextPosition

structure SingleLine (text : List Char) : Prop where
  nonempty : text ≠ []
  unbroken : ∀ c ∈ text, isLineTerminator c = false

instance (text : List Char) : Decidable (SingleLine text) :=
  decidable_of_iff (text ≠ [] ∧ (text.all fun c => !isLineTerminator c) = true) <| by
    simp only [List.all_eq_true, Bool.not_eq_true']
    exact ⟨fun h => ⟨h.1, h.2⟩, fun h => ⟨h.nonempty, h.unbroken⟩⟩

/-- The text of a literal that may go over several lines: no CR LF is cut at its ends. -/
structure Enclosed (text : List Char) : Prop where
  nonempty : text ≠ []
  head : text.head? ≠ some '\n'
  last : text.getLast? ≠ some '\r'

/-- The edits replace single-line literals of the text by others, in order and without overlap. -/
structure LiteralEdits (text : List Char) (edits : List TextEdit) : Prop where
  ordered : edits.Pairwise fun edit later => edit.endByte ≤ later.startByte
  literal : ∀ edit ∈ edits, ∃ before literal after, text = before ++ literal ++ after ∧
    edit.startByte = byteLength before ∧ edit.endByte = byteLength (before ++ literal) ∧ SingleLine literal
  replacement : ∀ edit ∈ edits, SingleLine edit.replacement

/-- A part that stays, the literal after it and what replaces that. -/
structure Piece where
  (unchanged literal replacement : List Char)

structure Piece.Valid (piece : Piece) : Prop where
  literal : Enclosed piece.literal
  replacement : SingleLine piece.replacement

abbrev PiecesValid (pieces : List Piece) : Prop := ∀ piece ∈ pieces, piece.Valid

def sourceOf (pieces : List Piece) : List Char := pieces.flatMap fun piece => piece.unchanged ++ piece.literal

def generatedOf (pieces : List Piece) : List Char := pieces.flatMap fun piece => piece.unchanged ++ piece.replacement

def editsFrom (offset : Nat) : List Piece → List TextEdit
  | [] => []
  | piece :: rest =>
    ⟨offset + byteLength piece.unchanged, offset + byteLength piece.unchanged + byteLength piece.literal,
      piece.replacement⟩ :: editsFrom (offset + byteLength piece.unchanged + byteLength piece.literal) rest

@[simp] theorem sourceOf_nil : sourceOf [] = [] := rfl

@[simp] theorem sourceOf_cons (piece : Piece) (rest : List Piece) :
    sourceOf (piece :: rest) = piece.unchanged ++ piece.literal ++ sourceOf rest := rfl

@[simp] theorem sourceOf_append (front back : List Piece) :
    sourceOf (front ++ back) = sourceOf front ++ sourceOf back :=
  List.flatMap_append

@[simp] theorem generatedOf_nil : generatedOf [] = [] := rfl

@[simp] theorem generatedOf_cons (piece : Piece) (rest : List Piece) :
    generatedOf (piece :: rest) = piece.unchanged ++ piece.replacement ++ generatedOf rest := rfl

@[simp] theorem generatedOf_append (front back : List Piece) :
    generatedOf (front ++ back) = generatedOf front ++ generatedOf back :=
  List.flatMap_append

variable {c : Char} {rest text back front tail : List Char} {edits : List TextEdit} {pieces : List Piece}

theorem isLineTerminator_of_endsLine (h : endsLine c rest = true) : isLineTerminator c = true := by
  simp only [endsLine, isLineTerminator, Bool.or_eq_true, Bool.and_eq_true] at *
  tauto

theorem SingleLine.not_mem (h : SingleLine text) (hc : isLineTerminator c = true) : c ∉ text := by
  intro hMem
  rw [h.unbroken c hMem] at hc
  cases hc

theorem SingleLine.enclosed (h : SingleLine text) : Enclosed text where
  nonempty := h.nonempty
  head := fun hHead => h.not_mem (by decide) (List.mem_of_head? hHead)
  last := fun hLast => h.not_mem (by decide) (List.mem_of_getLast? hLast)

/-- The edits replace literals of the text by others on one line, in order and without overlap. -/
structure EnclosedEdits (text : List Char) (edits : List TextEdit) : Prop where
  ordered : edits.Pairwise fun edit later => edit.endByte ≤ later.startByte
  literal : ∀ edit ∈ edits, ∃ before literal after, text = before ++ literal ++ after ∧
    edit.startByte = byteLength before ∧ edit.endByte = byteLength (before ++ literal) ∧ Enclosed literal
  replacement : ∀ edit ∈ edits, SingleLine edit.replacement

theorem LiteralEdits.enclosed (h : LiteralEdits text edits) : EnclosedEdits text edits := by
  refine ⟨h.ordered, ?_, h.replacement⟩
  intro edit hEdit
  obtain ⟨before, literal, after, hText, hStart, hEnd, hLiteral⟩ := h.literal edit hEdit
  exact ⟨before, literal, after, hText, hStart, hEnd, hLiteral.enclosed⟩

theorem exists_pieces (done : List Char) (hText : text = done ++ rest)
    (h : EnclosedEdits text edits) (hDone : ∀ edit ∈ edits, byteLength done ≤ edit.startByte) :
    ∃ pieces tail, rest = sourceOf pieces ++ tail ∧ edits = editsFrom (byteLength done) pieces ∧
      ∀ piece ∈ pieces, piece.Valid := by
  induction edits generalizing done rest with
  | nil => exact ⟨[], rest, rfl, rfl, nofun⟩
  | cons edit edits ih =>
    obtain ⟨before, literal, after, hLiteral, hStart, hEnd, hSingle⟩ := h.literal edit List.mem_cons_self
    have hAssoc : text = before ++ (literal ++ after) := by rw [hLiteral, List.append_assoc]
    obtain ⟨unchanged, rfl⟩ := prefix_of_byteLength_le hText hAssoc (hStart ▸ hDone edit List.mem_cons_self)
    have hRest : rest = unchanged ++ literal ++ after := by
      rw [hText, List.append_assoc, List.append_assoc] at hLiteral
      rw [List.append_assoc]
      exact List.append_cancel_left hLiteral
    have hEdits : EnclosedEdits text edits :=
      ⟨h.ordered.of_cons, fun other hOther => h.literal other (List.mem_cons_of_mem edit hOther),
        fun other hOther => h.replacement other (List.mem_cons_of_mem edit hOther)⟩
    obtain ⟨pieces, tail, rfl, rfl, hPieces⟩ := ih _ hLiteral hEdits fun later hLater => by
      rw [← hEnd]
      exact List.rel_of_pairwise_cons h.ordered hLater
    refine ⟨⟨unchanged, literal, edit.replacement⟩ :: pieces, tail, ?_, ?_, ?_⟩
    · simp [hRest]
    · obtain ⟨start, stop, replacement⟩ := edit
      simp only [byteLength_append] at hStart hEnd
      simp only [editsFrom, byteLength_append, hStart, hEnd]
    · intro piece hPiece
      rcases List.mem_cons.mp hPiece with rfl | hPiece
      · exact ⟨hSingle, h.replacement edit List.mem_cons_self⟩
      · exact hPieces piece hPiece

/-! ## Places -/

def run (tail : List Char) : List Piece → List Char
  | [] => tail
  | piece :: _ => piece.unchanged

def sourceRest (tail : List Char) : List Piece → List Char
  | [] => []
  | piece :: rest => piece.literal ++ sourceOf rest ++ tail

def generatedRest (tail : List Char) : List Piece → List Char
  | [] => []
  | piece :: rest => piece.replacement ++ generatedOf rest ++ tail

theorem run_sourceRest (tail : List Char) (pieces : List Piece) :
    run tail pieces ++ sourceRest tail pieces = sourceOf pieces ++ tail := by
  cases pieces with
  | nil => simp [run, sourceRest]
  | cons piece rest => simp [run, sourceRest]

theorem run_generatedRest (tail : List Char) (pieces : List Piece) :
    run tail pieces ++ generatedRest tail pieces = generatedOf pieces ++ tail := by
  cases pieces with
  | nil => simp [run, generatedRest]
  | cons piece rest => simp [run, generatedRest]

structure Place (pieces : List Piece) (tail : List Char) where
  (front back : List Piece)
  (before after : List Char)
  pieces_eq : front ++ back = pieces
  run_eq : before ++ after = run tail back

namespace Place

variable {pieces : List Piece} {tail : List Char} (place : Place pieces tail)

def source : Cut (sourceOf pieces ++ tail) where
  before := sourceOf place.front ++ place.before
  after := place.after ++ sourceRest tail place.back
  text_eq := by
    rw [List.append_assoc, ← List.append_assoc place.before, place.run_eq, run_sourceRest, ← List.append_assoc,
      ← sourceOf_append, place.pieces_eq]

def generated : Cut (generatedOf pieces ++ tail) where
  before := generatedOf place.front ++ place.before
  after := place.after ++ generatedRest tail place.back
  text_eq := by
    rw [List.append_assoc, ← List.append_assoc place.before, place.run_eq, run_generatedRest, ← List.append_assoc,
      ← generatedOf_append, place.pieces_eq]

def anchor : ByteAnchor := ⟨place.generated.offset, place.source.offset⟩

theorem generated_offset :
    place.generated.offset = byteLength (generatedOf place.front) + byteLength place.before :=
  byteLength_append _ _

theorem source_offset : place.source.offset = byteLength (sourceOf place.front) + byteLength place.before :=
  byteLength_append _ _

def runStart (front back : List Piece) (h : front ++ back = pieces) : Place pieces tail :=
  ⟨front, back, [], run tail back, h, rfl⟩

def runEnd (front : List Piece) (piece : Piece) (back : List Piece) (h : front ++ piece :: back = pieces) :
    Place pieces tail :=
  ⟨front, piece :: back, piece.unchanged, [], h, List.append_nil _⟩

def shift (piece : Piece) (place : Place pieces tail) : Place (piece :: pieces) tail :=
  ⟨piece :: place.front, place.back, place.before, place.after, by rw [List.cons_append, place.pieces_eq], place.run_eq⟩

theorem source_before_shift (piece : Piece) (place : Place pieces tail) :
    (place.shift piece).source.before = piece.unchanged ++ piece.literal ++ place.source.before := by
  simp [source, shift]

theorem generated_before_shift (piece : Piece) (place : Place pieces tail) :
    (place.shift piece).generated.before = piece.unchanged ++ piece.replacement ++ place.generated.before := by
  simp [generated, shift]

end Place

theorem append_eq_append_cons (h : text ++ rest = front ++ c :: back) :
    (∃ more, text = front ++ c :: more ∧ back = more ++ rest) ∨
      ∃ more, front = text ++ more ∧ rest = more ++ c :: back := by
  rcases List.append_eq_append_iff.mp h with ⟨more, hFront, hRest⟩ | ⟨more, hText, hRest⟩
  · exact .inr ⟨more, hFront, hRest⟩
  · cases more with
    | nil => exact .inr ⟨[], by simpa using hText.symm, by simpa using hRest.symm⟩
    | cons d more =>
      obtain ⟨rfl, hBack⟩ := List.cons.inj hRest
      exact .inl ⟨more, hText, hBack⟩

theorem exists_place (hPieces : PiecesValid pieces) (hc : isLineTerminator c = true)
    (hText : generatedOf pieces ++ tail = front ++ c :: back) :
    ∃ place : Place pieces tail, (∃ start, place.before = start ++ [c]) ∧ place.generated.before = front ++ [c] := by
  induction pieces generalizing front with
  | nil =>
    refine ⟨⟨[], [], front ++ [c], back, rfl, ?_⟩, ⟨front, rfl⟩, rfl⟩
    rw [List.append_assoc]
    exact hText.symm
  | cons piece pieces ih =>
    rw [generatedOf_cons, List.append_assoc, List.append_assoc] at hText
    rcases append_eq_append_cons hText with ⟨more, hUnchanged, -⟩ | ⟨more, rfl, hMore⟩
    · refine ⟨⟨[], piece :: pieces, front ++ [c], more, rfl, ?_⟩, ⟨front, rfl⟩, rfl⟩
      rw [run, hUnchanged, List.append_assoc]
      rfl
    · rcases append_eq_append_cons hMore with ⟨last, hReplacement, -⟩ | ⟨last, rfl, hLast⟩
      · refine absurd ?_ ((hPieces piece List.mem_cons_self).replacement.not_mem hc)
        rw [hReplacement]
        simp
      · obtain ⟨place, hEnds, hPlace⟩ :=
          ih (fun other hOther => hPieces other (List.mem_cons_of_mem piece hOther)) hLast
        refine ⟨place.shift piece, hEnds, ?_⟩
        rw [Place.generated_before_shift, hPlace]
        simp

/-! ## Line terminators around a place -/

theorem Enclosed.head_ne (h : Enclosed text) (rest : List Char) : (text ++ rest).head? ≠ some '\n' := by
  rw [List.head?_append_of_ne_nil text h.nonempty]
  exact h.head

theorem Enclosed.getLast_ne (h : Enclosed text) (front : List Char) : (front ++ text).getLast? ≠ some '\r' := by
  rw [List.getLast?_append_of_ne_nil front h.nonempty]
  exact h.last

theorem rest_head (tail : List Char) (hPieces : PiecesValid pieces) :
    (generatedRest tail pieces).head? ≠ some '\n' ∧ (sourceRest tail pieces).head? ≠ some '\n' := by
  cases pieces with
  | nil => exact ⟨nofun, nofun⟩
  | cons piece rest =>
    have hPiece := hPieces piece List.mem_cons_self
    rw [generatedRest, sourceRest, List.append_assoc, List.append_assoc]
    exact ⟨hPiece.replacement.enclosed.head_ne _, hPiece.literal.head_ne _⟩

theorem Place.head_iff (hPieces : PiecesValid pieces) (place : Place pieces tail) :
    place.generated.after.head? = some '\n' ↔ place.source.after.head? = some '\n' := by
  have hBack : ∀ piece ∈ place.back, piece.Valid := fun piece hPiece =>
    hPieces piece (place.pieces_eq ▸ List.mem_append_right _ hPiece)
  obtain ⟨hGenerated, hSource⟩ := rest_head tail hBack
  rw [generated, source]
  dsimp only
  cases place.after with
  | nil => exact ⟨fun h => absurd h hGenerated, fun h => absurd h hSource⟩
  | cons c after => exact Iff.rfl

end Weregopher.Transform
