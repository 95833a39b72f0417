import Weregopher.Lib.Loop
import Weregopher.Lib.SourceMapV3
import Weregopher.Transform.Positions

/-! # Mappings are decoded as they were encoded

The decoder is carried along with the cursor of the encoder. Between two mappings the
numbers of the last one have been read but not yet been added up; `settled` is the
decoder after that.
-/
namespace Weregopher.Transform
open Lib.Checked Lib.Outcome Lib.TextPosition Lib.SourceMapV3 SourceMapError

/-! ## Numbers -/

theorem base64_digit : ∀ digit < 64, ∃ byte, base64[digit]? = some byte ∧ byte ≠ 0x2c ∧ byte ≠ 0x3b ∧
    sextet? byte = some digit := by decide +kernel

variable {bytes : List UInt8} {remaining line digit : Nat} {byte : UInt8} {value : Int} {decoder : Decoder}
  {cursor next : MappingCursor} {generated original : LineColumn} {mappings : List Mapping}
  {numbers : List (List UInt8)} {deltas : List Int}

theorem read_digit (hDigit : digit < 64) (hByte : base64[digit]? = some byte) (decoder : Decoder) :
    decoder.read byte = some (decoder.digit digit) := by
  obtain ⟨_, hFound, hComma, hSemicolon, hSextet⟩ := base64_digit digit hDigit
  rw [hByte] at hFound
  cases hFound
  rw [Decoder.read, if_neg hComma, if_neg hSemicolon, hSextet]
  rfl

theorem vlqDigits_small (h : remaining < 32) :
    ∃ byte, base64[remaining]? = some byte ∧ vlqDigits remaining = .ok [byte] := by
  have hNext : remaining >>> 5 = 0 := (Nat.shiftRight_eq_div_pow remaining 5).trans (Nat.div_eq_of_lt h)
  have hMask : remaining &&& 31 = remaining := (Nat.and_two_pow_sub_one_eq_mod remaining 5).trans (Nat.mod_eq_of_lt h)
  obtain ⟨byte, hByte, -⟩ := base64_digit remaining (by omega)
  refine ⟨byte, hByte, ?_⟩
  rw [vlqDigits]
  simp only [hNext, hMask, gt_iff_lt, Nat.lt_irrefl, if_false, hByte]
  rfl

theorem vlqDigits_large (h : 32 ≤ remaining) : ∃ byte, base64[remaining % 32 + 32]? = some byte ∧
    vlqDigits remaining = (byte :: ·) <$> vlqDigits (remaining / 32) := by
  have hShift : remaining >>> 5 = remaining / 32 := Nat.shiftRight_eq_div_pow remaining 5
  have hMask : remaining &&& 31 = remaining % 32 := Nat.and_two_pow_sub_one_eq_mod remaining 5
  have hMarked : remaining % 32 ||| 32 = remaining % 32 + 32 := by
    rw [Nat.or_comm, Nat.add_comm]
    exact (Nat.two_pow_add_eq_or_of_lt (i := 5) (Nat.mod_lt _ (by decide)) 1).symm
  have hNext : 0 < remaining / 32 := Nat.div_pos h (by decide)
  obtain ⟨byte, hByte, -⟩ := base64_digit (remaining % 32 + 32) (by omega)
  refine ⟨byte, hByte, ?_⟩
  rw [vlqDigits]
  simp only [hShift, hMask, hMarked, gt_iff_lt, hNext, if_true, hByte, dif_neg hNext.ne']
  rfl

/-- The first digit tells whether others follow. -/
theorem vlqDigits_cons (h : vlqDigits remaining = .ok bytes) :
    ∃ digit byte rest, bytes = byte :: rest ∧ base64[digit]? = some byte ∧
      (remaining < 32 ∧ digit = remaining ∧ rest = [] ∨
        32 ≤ remaining ∧ digit = remaining % 32 + 32 ∧ vlqDigits (remaining / 32) = .ok rest) := by
  rcases Nat.lt_or_ge remaining 32 with hSmall | hLarge
  · obtain ⟨byte, hByte, hDigits⟩ := vlqDigits_small hSmall
    cases hDigits.symm.trans h
    exact ⟨_, byte, [], rfl, hByte, .inl ⟨hSmall, rfl, rfl⟩⟩
  · obtain ⟨byte, hByte, hDigits⟩ := vlqDigits_large hLarge
    rw [hDigits, map_ok] at h
    obtain ⟨rest, hRest, rfl⟩ := h
    exact ⟨_, byte, rest, rfl, hByte, .inr ⟨hLarge, rfl, hRest⟩⟩

theorem read_vlqDigits (h : vlqDigits remaining = .ok bytes) (decoder : Decoder) : bytes.foldlM Decoder.read decoder =
      some { decoder with
        fields := decoder.fields ++ [signed (decoder.unfinished.1 + remaining * decoder.unfinished.2)]
        digits := none } := by
  induction remaining using Nat.strongRecOn generalizing bytes decoder with
  | ind remaining ih =>
    obtain ⟨_, byte, rest, rfl, hByte, ⟨hSmall, rfl, rfl⟩ | ⟨hLarge, rfl, hRest⟩⟩ := vlqDigits_cons h
    · rw [List.foldlM_cons, read_digit (by omega) hByte, decoder.digit_last hSmall]
      rfl
    · rw [List.foldlM_cons, read_digit (by omega) hByte, decoder.digit_more (Nat.mod_lt _ (by decide)),
        Option.bind_eq_bind, Option.bind_some, ih (remaining / 32) (by omega) hRest]
      have hSum : decoder.unfinished.1 + remaining % 32 * decoder.unfinished.2 +
          remaining / 32 * (decoder.unfinished.2 * 32) = decoder.unfinished.1 + remaining * decoder.unfinished.2 := by
        have hDivMod := Nat.div_add_mod remaining 32
        calc _ = decoder.unfinished.1 + (32 * (remaining / 32) + remaining % 32) * decoder.unfinished.2 := by ring
          _ = _ := by rw [hDivMod]
      simp only [Decoder.unfinished, Option.getD_some] at hSum ⊢
      rw [hSum]

/-- The digits of a number show where it ends. -/
theorem vlqDigits_append_inj {other : Nat} {others rest more : List UInt8} (h : vlqDigits remaining = .ok bytes)
    (hOther : vlqDigits other = .ok others) (hSame : bytes ++ rest = others ++ more) :
    remaining = other ∧ rest = more := by
  induction remaining using Nat.strongRecOn generalizing bytes other others with
  | ind remaining ih =>
    obtain ⟨digit, byte, tail, rfl, hByte, hTail⟩ := vlqDigits_cons h
    obtain ⟨_, _, back, rfl, hHead, hBack⟩ := vlqDigits_cons hOther
    obtain ⟨rfl, hRest⟩ := List.cons.inj hSame
    have hBound := (List.getElem?_eq_some_iff.mp hByte).1
    obtain rfl := (List.getElem?_inj hBound (by decide +kernel)).mp (hByte.trans hHead.symm)
    rcases hTail with ⟨hSmall, rfl, rfl⟩ | ⟨hLarge, rfl, hTail⟩ <;>
      rcases hBack with ⟨_, hDigit, rfl⟩ | ⟨_, hDigit, hBack⟩
    · exact ⟨hDigit, hRest⟩
    · omega
    · omega
    · obtain ⟨hDiv, hMore⟩ := ih (remaining / 32) (by omega) hTail hBack hRest
      exact ⟨by omega, hMore⟩

theorem signed_vlqValue (h : value.natAbs ≤ i64Max) : signed (vlqValue value) = value := by
  have hSaturate : saturatingMul u64Max value.natAbs 2 = 2 * value.natAbs := by
    simp only [saturatingMul, u64Max, i64Max] at *
    omega
  rw [vlqValue, hSaturate]
  split
  · rename_i hNegative
    have hOr : 2 * value.natAbs ||| 1 = 2 * value.natAbs + 1 :=
      (Nat.two_pow_add_eq_or_of_lt (i := 1) (by decide) value.natAbs).symm
    rw [hOr, signed]
    omega
  · rename_i hNegative
    rw [Nat.or_zero, signed]
    omega

theorem read_appendVlq (hValue : value.natAbs ≤ i64Max)
    (h : appendVlq value = .ok bytes) (hDigits : decoder.digits = none) :
    bytes.foldlM Decoder.read decoder = some { decoder with fields := decoder.fields ++ [value] } := by
  have hUnfinished : decoder.unfinished = (0, 1) := by
    rw [Decoder.unfinished, hDigits]
    rfl
  rw [read_vlqDigits h, hUnfinished, Nat.zero_add, Nat.mul_one, signed_vlqValue hValue, ← hDigits]

/-! ## Steps of the encoder -/

theorem signedDelta_ok {current previous : Nat} {delta : Int} (h : signedDelta current previous = .ok delta) :
    delta = (current : Int) - previous ∧ delta.natAbs ≤ i64Max := by
  rw [signedDelta] at h
  split at h <;> split at h <;> cases h <;> omega

def MappingCursor.onLine (cursor : MappingCursor) (line : Nat) : MappingCursor :=
  if line - cursor.generatedLine > 0 then
    { cursor with generatedLine := line, generatedColumn := 0, hasSegment := false }
  else cursor

theorem step_ok {step : MappingStep} (h : cursor.step generated original = .ok (step, next)) :
    cursor.generatedLine ≤ generated.line ∧
    (cursor.onLine generated.line).generatedColumn ≤ generated.column ∧
    ∃ column line originalColumn : Int,
      step = ⟨generated.line - cursor.generatedLine, (cursor.onLine generated.line).hasSegment,
        [column, 0, line, originalColumn]⟩ ∧
      (column = generated.column - (cursor.onLine generated.line).generatedColumn ∧ column.natAbs ≤ i64Max) ∧
      (line = original.line - (cursor.onLine generated.line).originalLine ∧ line.natAbs ≤ i64Max) ∧
      (originalColumn = original.column - (cursor.onLine generated.line).originalColumn ∧
        originalColumn.natAbs ≤ i64Max) ∧
      next =
        ⟨(cursor.onLine generated.line).generatedLine, generated.column, original.line, original.column, true⟩ := by
  simp only [MappingCursor.step, guard_ok, bind_ok, pure_ok, Prod.mk.injEq, Nat.not_lt] at h
  obtain ⟨hLine, hColumn, column, hColumnDelta, line, hLineDelta, originalColumn, hOriginalDelta, hStep, hNext⟩ := h
  exact ⟨hLine, hColumn, column, line, originalColumn, hStep.symm, signedDelta_ok hColumnDelta,
    signedDelta_ok hLineDelta, signedDelta_ok hOriginalDelta, hNext.symm⟩

theorem onLine_generatedLine (h : cursor.generatedLine ≤ line) : (cursor.onLine line).generatedLine = line := by
  rw [MappingCursor.onLine]
  split
  · rfl
  · omega

/-! ## Both along the positions -/

/-- The decoder when it has added up what the encoder has written. -/
def settled (cursor : MappingCursor) (mappings : List Mapping) : Decoder :=
  ⟨cursor.generatedLine, cursor.generatedColumn, 0, cursor.originalLine, cursor.originalColumn, 0, [], none, mappings⟩

structure Follows (decoder : Decoder) (cursor : MappingCursor) (mappings : List Mapping) : Prop where
  ended : decoder.endMapping = some (settled cursor mappings)
  fresh : cursor.hasSegment = false → decoder = settled cursor mappings

theorem read_comma (decoder : Decoder) : decoder.read 0x2c = decoder.endMapping := rfl

theorem read_semicolon (decoder : Decoder) : decoder.read 0x3b =
    decoder.endMapping.map fun decoder => { decoder with line := decoder.line + 1, column := 0 } := rfl

theorem read_semicolons (h : decoder.endMapping = some (settled cursor mappings)) (count : Nat) :
    (List.replicate (count + 1) 0x3b).foldlM Decoder.read decoder =
      some (settled ⟨cursor.generatedLine + (count + 1), 0, cursor.originalLine, cursor.originalColumn, false⟩
        mappings) := by
  induction count generalizing decoder cursor with
  | zero =>
    simp only [List.replicate_succ, List.replicate_zero, List.foldlM_cons, List.foldlM_nil, read_semicolon, h]
    rfl
  | succ count ih =>
    rw [List.replicate_succ, List.foldlM_cons, read_semicolon, h]
    let onNextLine : MappingCursor :=
      ⟨cursor.generatedLine + 1, 0, cursor.originalLine, cursor.originalColumn, false⟩
    have hNext := ih (rfl : (settled onNextLine mappings).endMapping = some (settled onNextLine mappings))
    rw [Nat.add_assoc cursor.generatedLine 1, Nat.add_comm 1] at hNext
    exact hNext

theorem read_separators (h : Follows decoder cursor mappings) (hLine : cursor.generatedLine ≤ line) :
    (List.replicate (line - cursor.generatedLine) (0x3b : UInt8) ++
      if (cursor.onLine line).hasSegment then [0x2c] else []).foldlM Decoder.read decoder =
        some (settled (cursor.onLine line) mappings) := by
  rw [MappingCursor.onLine]
  split
  · rename_i hNew
    obtain ⟨count, hCount⟩ := Nat.exists_eq_succ_of_ne_zero (Nat.pos_iff_ne_zero.mp hNew)
    have hEnd : cursor.generatedLine + (count + 1) = line := by omega
    rw [hCount, if_neg Bool.false_ne_true, List.append_nil, read_semicolons h.ended, hEnd]
  · rename_i hNew
    have hNone : line - cursor.generatedLine = 0 := by omega
    rw [hNone, List.replicate_zero, List.nil_append]
    cases hSegment : cursor.hasSegment with
    | true =>
      rw [if_pos rfl, List.foldlM_cons, read_comma, h.ended]
      rfl
    | false =>
      rw [if_neg Bool.false_ne_true, h.fresh hSegment]
      rfl

theorem read_numbers (h : deltas.mapM appendVlq = .ok numbers)
    (hDeltas : ∀ delta ∈ deltas, delta.natAbs ≤ i64Max) (decoder : Decoder) (hDigits : decoder.digits = none) :
    numbers.flatten.foldlM Decoder.read decoder = some { decoder with fields := decoder.fields ++ deltas } := by
  induction deltas generalizing numbers decoder with
  | nil =>
    rw [List.mapM_nil, pure_ok] at h
    subst h
    rw [List.append_nil]
    rfl
  | cons delta deltas ih =>
    simp only [List.mapM_cons, bind_ok, pure_ok] at h
    obtain ⟨bytes, hBytes, rest, hRest, rfl⟩ := h
    rw [List.flatten_cons, List.foldlM_append, read_appendVlq (hDeltas delta List.mem_cons_self) hBytes hDigits,
      Option.bind_eq_bind, Option.bind_some,
      ih hRest (fun other hOther => hDeltas other (List.mem_cons_of_mem delta hOther))
        { decoder with fields := decoder.fields ++ [delta] } hDigits,
      List.append_assoc, List.singleton_append]

theorem endMapping_numbers
    {column line originalColumn : Int} (hColumn : column = generated.column - cursor.generatedColumn)
    (hLine : line = original.line - cursor.originalLine)
    (hOriginal : originalColumn = original.column - cursor.originalColumn)
    (hGenerated : cursor.generatedLine = generated.line) :
    Decoder.endMapping { settled cursor mappings with fields := [column, 0, line, originalColumn] } =
      some (settled ⟨generated.line, generated.column, original.line, original.column, true⟩
        (mappings ++ [⟨generated, some ⟨0, original, none⟩⟩])) := by
  have hColumnSum : (cursor.generatedColumn : Int) + column = generated.column := by omega
  have hLineSum : (cursor.originalLine : Int) + line = original.line := by omega
  have hOriginalSum : (cursor.originalColumn : Int) + originalColumn = original.column := by omega
  simp only [Decoder.endMapping, Decoder.addOriginal, settled, hColumnSum, hLineSum, hOriginalSum, hGenerated]
  rfl

theorem Follows.step {step : MappingStep}
    (h : Follows decoder cursor mappings) (hStep : cursor.step generated original = .ok (step, next))
    (hNumbers : step.deltas.mapM appendVlq = .ok numbers) :
    ∃ read, (List.replicate step.newLines 0x3b ++ (if step.comma then [0x2c] else []) ++ numbers.flatten).foldlM
        Decoder.read decoder = some read ∧
      Follows read next (mappings ++ [⟨generated, some ⟨0, original, none⟩⟩]) := by
  obtain ⟨hLine, hColumn, column, line, originalColumn, rfl, ⟨hColumnDelta, hColumnBound⟩, ⟨hLineDelta, hLineBound⟩,
    ⟨hOriginalDelta, hOriginalBound⟩, rfl⟩ := step_ok hStep
  have hDeltas : ∀ delta ∈ [column, 0, line, originalColumn], delta.natAbs ≤ i64Max := by
    intro delta hDelta
    simp only [List.mem_cons, List.not_mem_nil, or_false] at hDelta
    rcases hDelta with rfl | rfl | rfl | rfl
    · exact hColumnBound
    · exact Nat.zero_le _
    · exact hLineBound
    · exact hOriginalBound
  have hRead := read_numbers hNumbers hDeltas (settled (cursor.onLine generated.line) mappings) rfl
  have hOnLine := onLine_generatedLine hLine
  refine ⟨{ settled (cursor.onLine generated.line) mappings with fields := [column, 0, line, originalColumn] }, ?_, ?_,
    nofun⟩
  · rw [List.foldlM_append, read_separators h hLine, Option.bind_eq_bind, Option.bind_some]
    exact hRead
  · rw [hOnLine]
    exact endMapping_numbers hColumnDelta hLineDelta hOriginalDelta hOnLine

theorem Follows.run {pairs : List (LineColumn × LineColumn)} (h : Follows decoder cursor mappings)
    (hBytes : appendMappingsFrom pairs cursor = .ok bytes) :
    ∃ read ended, bytes.foldlM Decoder.read decoder = some read ∧ read.endMapping = some ended ∧
      ended.mappings = mappings ++ pairs.map fun pair => ⟨pair.1, some ⟨0, pair.2, none⟩⟩ := by
  induction pairs generalizing decoder cursor mappings bytes with
  | nil =>
    rw [appendMappingsFrom, pure_ok] at hBytes
    subst hBytes
    exact ⟨decoder, _, rfl, h.ended, by simp [settled]⟩
  | cons pair pairs ih =>
    obtain ⟨generated, original⟩ := pair
    simp only [appendMappingsFrom, bind_ok, pure_ok] at hBytes
    obtain ⟨⟨step, next⟩, hStep, numbers, hNumbers, rest, hRest, rfl⟩ := hBytes
    obtain ⟨read, hRead, hFollows⟩ := h.step hStep hNumbers
    obtain ⟨last, ended, hLast, hEnded, hMappings⟩ := ih hFollows hRest
    refine ⟨last, ended, ?_, hEnded, ?_⟩
    · rw [List.foldlM_append, hRead, Option.bind_eq_bind, Option.bind_some, hLast]
    · rw [hMappings]
      simp

theorem decode_appendMappings {generated original : List LineColumn}
    (h : appendMappings generated original = .ok bytes) : decode bytes =
      some ((generated.zip original).map fun pair => ⟨pair.1, some ⟨0, pair.2, none⟩⟩) := by
  simp only [appendMappings, guard_ok] at h
  have hStart : Follows Decoder.start MappingCursor.new [] := ⟨rfl, fun _ => rfl⟩
  obtain ⟨read, ended, hRead, hEnded, hMappings⟩ := hStart.run h.2
  simp only [decode, hRead, Option.bind_eq_bind, Option.bind_some, hEnded, hMappings, List.nil_append]
  rfl

/-! ## Lengths

The length of the mappings is computed beforehand; when that succeeds, so does writing them. -/

theorem vlqDigits_ok (remaining : Nat) :
    ∃ bytes, vlqDigits remaining = .ok bytes ∧ bytes.length = vlqLengthLoop remaining := by
  induction remaining using Nat.strongRecOn with
  | ind remaining ih =>
    rw [vlqLengthLoop, Nat.shiftRight_eq_div_pow]
    split
    · next hLarge =>
      obtain ⟨byte, -, hDigits⟩ := vlqDigits_large hLarge
      obtain ⟨rest, hRest, hLength⟩ := ih (remaining / 32) (by omega)
      exact ⟨byte :: rest, by rw [hDigits, hRest]; rfl, by rw [List.length_cons, hLength]⟩
    · next hSmall =>
      obtain ⟨byte, -, hDigits⟩ := vlqDigits_small (Nat.lt_of_not_le hSmall)
      exact ⟨[byte], hDigits, rfl⟩

theorem numbers_ok (deltas : List Int) :
    ∃ numbers, deltas.mapM appendVlq = .ok numbers ∧ numbers.map List.length = deltas.map vlqLength := by
  induction deltas with
  | nil => exact ⟨[], rfl, rfl⟩
  | cons delta deltas ih =>
    obtain ⟨bytes, hBytes, hLength⟩ := vlqDigits_ok (vlqValue delta)
    obtain ⟨numbers, hNumbers, hLengths⟩ := ih
    refine ⟨bytes :: numbers, ?_, by rw [List.map_cons, List.map_cons, hLength, hLengths, vlqLength]⟩
    simp only [List.mapM_cons, bind_ok, pure_ok]
    exact ⟨bytes, hBytes, numbers, hNumbers, rfl⟩

theorem foldlM_addLength {α : Type} (size : α → Nat) {items : List α} {length : Nat} (h : length ≤ usizeMax) :
    items.foldlM (fun length item => addLength length (size item)) length = addLength length (items.map size).sum :=
  (foldlM_okOr items length).trans (congrArg _ (foldlM_checkedAdd h size items))

theorem vlqLengthLoop_le {width : Nat} (h : remaining < 32 ^ (width + 1)) :
    vlqLengthLoop remaining ≤ width + 1 := by
  induction width generalizing remaining with
  | zero =>
    have hSmall : ¬remaining ≥ 32 := Nat.not_le.mpr h
    rw [vlqLengthLoop, if_neg hSmall]
  | succ width ih =>
    have hShift : remaining >>> 5 = remaining / 32 := Nat.shiftRight_eq_div_pow remaining 5
    rw [vlqLengthLoop, hShift]
    split
    · rw [Nat.pow_succ] at h
      have hRest := @ih (remaining / 32) (by omega)
      omega
    · omega

theorem vlqLength_le (value : Int) : vlqLength value ≤ 13 := by
  have hValue : vlqValue value < 2 ^ 64 := by
    refine Nat.or_lt_two_pow ?_ ?_
    · exact Nat.lt_of_le_of_lt (Nat.min_le_right _ _) (by decide)
    · split <;> decide
  exact vlqLengthLoop_le (Nat.lt_trans hValue (by decide))

section

variable {bound : Nat}

variable {length lastLine : Nat} {cursor : MappingCursor}

theorem yields_addLength {more : Nat} (h : length + more ≤ bound) :
    Yields (Overflows bound) (· = length + more) (addLength length more) :=
  yields_checkedAdd (by trivial) h

theorem yields_numbersLength {deltas : List Int} (hBound : length + 13 * deltas.length ≤ bound) :
    Yields (Overflows bound)
      (fun total => ∃ numbers, deltas.mapM appendVlq = .ok numbers ∧ total = length + numbers.flatten.length ∧
        total ≤ length + 13 * deltas.length)
      (deltas.foldlM (fun length delta => addLength length (vlqLength delta)) length) := by
  induction deltas generalizing length with
  | nil => exact yields_pure ⟨[], rfl, rfl, Nat.le_add_right _ _⟩
  | cons delta deltas ih =>
    obtain ⟨bytes, hBytes, hLength⟩ := vlqDigits_ok (vlqValue delta)
    have hDelta := vlqLength_le delta
    rw [List.length_cons] at hBound ⊢
    rw [List.foldlM_cons]
    apply yields_bind (yields_addLength (by omega))
    rintro _ rfl
    apply (ih (by omega)).mono
    rintro total ⟨numbers, hNumbers, rfl, hTotal⟩
    refine ⟨bytes :: numbers, ?_, ?_, by omega⟩
    · simp only [List.mapM_cons, bind_ok, pure_ok]
      exact ⟨bytes, hBytes, numbers, hNumbers, rfl⟩
    · rw [vlqLength, ← hLength, List.flatten_cons, List.length_append, Nat.add_assoc]

theorem yields_signedDelta {current previous : Nat} (hCurrent : current ≤ bound) (hPrevious : previous ≤ bound) :
    Yields (Overflows bound) (fun _ => True) (signedDelta current previous) := by
  rw [signedDelta]
  split <;> split
  · exact trivial
  · exact ⟨trivial, by omega⟩
  · exact trivial
  · exact ⟨trivial, by omega⟩

def MappingCursor.Reaches (cursor : MappingCursor) (p : LineColumn) : Prop :=
  cursor.generatedLine < p.line ∨ cursor.generatedLine = p.line ∧ cursor.generatedColumn ≤ p.column

def MappingCursor.Within (bound : Nat) (cursor : MappingCursor) : Prop :=
  cursor.generatedColumn ≤ bound ∧ cursor.originalLine ≤ bound ∧ cursor.originalColumn ≤ bound

theorem MappingCursor.Within.onLine (h : cursor.Within bound) (line : Nat) : (cursor.onLine line).Within bound := by
  rw [MappingCursor.onLine]
  split
  · exact ⟨Nat.zero_le _, h.2⟩
  · exact h

theorem yields_step {generated original : LineColumn} (h : cursor.Reaches generated)
    (hCursor : cursor.Within bound) (hGenerated : generated.column ≤ bound)
    (hOriginal : original.line ≤ bound ∧ original.column ≤ bound) : Yields (Overflows bound)
      (fun result => cursor.step generated original = .ok result ∧ result.2.generatedLine = generated.line ∧
        result.2.generatedColumn = generated.column ∧ result.2.Within bound ∧
        result.1.newLines = generated.line - cursor.generatedLine ∧ result.1.deltas.length = 4)
      (cursor.step generated original) := by
  have hRaises : Yields (Overflows bound) (fun _ => True) (cursor.step generated original) := by
    obtain ⟨hColumn, hLine, hOriginalColumn⟩ := hCursor.onLine generated.line
    unfold MappingCursor.Reaches at h
    rw [MappingCursor.step]
    refine yields_guard (fun hBehind => absurd hBehind (by omega)) fun _ => ?_
    refine yields_guard ?_ fun _ => ?_
    · intro hBehind
      split at hBehind
      · exact absurd hBehind (Nat.not_lt_zero _)
      · exact absurd hBehind (by omega)
    · refine yields_bind (yields_signedDelta hGenerated hColumn) fun _ _ => ?_
      refine yields_bind (yields_signedDelta hOriginal.1 hLine) fun _ _ => ?_
      exact yields_bind (yields_signedDelta hOriginal.2 hOriginalColumn) fun _ _ => yields_pure trivial
  cases hStep : cursor.step generated original with
  | error error => exact hRaises.error hStep
  | ok result =>
    obtain ⟨step, next⟩ := result
    obtain ⟨hLine, -, _, _, _, rfl, -, -, -, rfl⟩ := step_ok hStep
    exact ⟨rfl, onLine_generatedLine hLine, rfl, ⟨hGenerated, hOriginal⟩, rfl, rfl⟩

theorem yields_mappingsLengthFrom {pairs : List (LineColumn × LineColumn)}
    (hSorted : pairs.Pairwise fun pair later => pair.1.Before later.1)
    (hReaches : ∀ pair ∈ pairs, cursor.Reaches pair.1) (hCursor : cursor.Within bound)
    (hPositions : ∀ pair ∈ pairs, pair.1.line ≤ lastLine ∧ pair.1.column ≤ bound ∧ pair.2.line ≤ bound ∧
      pair.2.column ≤ bound)
    (hBound : length + (lastLine - cursor.generatedLine) + 53 * pairs.length ≤ bound) :
    Yields (Overflows bound)
      (fun total => ∃ bytes, appendMappingsFrom pairs cursor = .ok bytes ∧ total = length + bytes.length ∧
        total ≤ length + (lastLine - cursor.generatedLine) + 53 * pairs.length)
      (mappingsLengthFrom pairs cursor length) := by
  induction pairs generalizing cursor length with
  | nil => exact yields_pure ⟨[], rfl, rfl, by omega⟩
  | cons pair pairs ih =>
    obtain ⟨generated, original⟩ := pair
    obtain ⟨hLastLine, hGenerated, hOriginal⟩ := hPositions _ List.mem_cons_self
    have hReach := hReaches _ List.mem_cons_self
    dsimp only at hLastLine hGenerated hOriginal hReach
    rw [mappingsLengthFrom]
    apply yields_bind (yields_step hReach hCursor hGenerated hOriginal)
    rintro ⟨step, next⟩ ⟨hStep, hLine, hColumn, hWithin, hNewLines, hDeltas⟩
    have hNext : ∀ later ∈ pairs, next.Reaches later.1 := by
      intro later hLater
      have hBefore : generated.Before later.1 := List.rel_of_pairwise_cons hSorted hLater
      unfold Position.Before at hBefore
      unfold MappingCursor.Reaches
      dsimp only at hLine hColumn
      omega
    unfold MappingCursor.Reaches at hReach
    rw [List.length_cons] at hBound ⊢
    dsimp only at hLine hNewLines hDeltas ⊢
    apply yields_bind (yields_addLength (by omega))
    rintro _ rfl
    have hCommaLength : (if step.comma then [0x2c] else ([] : List UInt8)).length ≤ 1 := by split <;> decide
    have hComma : Yields (Overflows bound)
        (· = length + step.newLines + (if step.comma then [0x2c] else ([] : List UInt8)).length)
        (addComma (length + step.newLines) step.comma) := by
      rw [addComma]
      split
      · rw [List.length_singleton]
        exact yields_addLength (by omega)
      · exact yields_pure rfl
    apply yields_bind hComma
    rintro _ rfl
    apply yields_bind (yields_numbersLength (by omega))
    rintro _ ⟨numbers, hNumbers, rfl, hTotal⟩
    refine (ih hSorted.of_cons hNext hWithin (fun later hLater => hPositions later (List.mem_cons_of_mem _ hLater))
      (by omega)).mono ?_
    rintro total ⟨bytes, hBytes, rfl, hLength⟩
    refine ⟨List.replicate step.newLines 0x3b ++ (if step.comma then [0x2c] else []) ++ numbers.flatten ++ bytes,
      ?_, ?_, by omega⟩
    · simp only [appendMappingsFrom, bind_ok, pure_ok]
      exact ⟨_, hStep, numbers, hNumbers, bytes, hBytes, rfl⟩
    · simp only [List.length_append, List.length_replicate]
      omega

theorem yields_mappingsLength {generated original : List LineColumn}
    (hLength : generated.length = original.length) (hSorted : generated.Pairwise Position.Before)
    (hGenerated : ∀ p ∈ generated, p.line ≤ lastLine ∧ p.column ≤ bound)
    (hOriginal : ∀ p ∈ original, p.line ≤ bound ∧ p.column ≤ bound)
    (hBound : lastLine + 53 * generated.length ≤ bound) : Yields (Overflows bound)
      (fun total => ∃ bytes, appendMappings generated original = .ok bytes ∧ total = bytes.length ∧
        total ≤ lastLine + 53 * generated.length)
      (mappingsLength generated original) := by
  have hPairs : (generated.zip original).Pairwise fun pair later => pair.1.Before later.1 := by
    have hMap : ((generated.zip original).map Prod.fst).Pairwise Position.Before := by
      rw [List.map_fst_zip (Nat.le_of_eq hLength)]
      exact hSorted
    exact List.pairwise_map.mp hMap
  have hStart : ∀ pair ∈ generated.zip original, MappingCursor.new.Reaches pair.1 := by
    intro pair _
    rcases Nat.eq_zero_or_pos pair.1.line with hZero | hPos
    · exact .inr ⟨hZero.symm, Nat.zero_le _⟩
    · exact .inl hPos
  have hPositions : ∀ pair ∈ generated.zip original, pair.1.line ≤ lastLine ∧ pair.1.column ≤ bound ∧
      pair.2.line ≤ bound ∧ pair.2.column ≤ bound := by
    rintro ⟨p, q⟩ hPair
    obtain ⟨hp, hq⟩ := List.of_mem_zip hPair
    exact ⟨(hGenerated p hp).1, (hGenerated p hp).2, hOriginal q hq⟩
  have hCount : (generated.zip original).length = generated.length := by
    rw [List.length_zip, hLength, Nat.min_self]
  have hLine : MappingCursor.new.generatedLine = 0 := rfl
  have hCursor : MappingCursor.new.Within bound := ⟨Nat.zero_le _, Nat.zero_le _, Nat.zero_le _⟩
  rw [mappingsLength, appendMappings]
  refine yields_guard (fun hNe => absurd hLength hNe) fun hEq => ?_
  apply (yields_mappingsLengthFrom hPairs hStart hCursor hPositions (by omega)).mono
  rintro total ⟨bytes, hBytes, hTotal, hMost⟩
  rw [if_neg hEq]
  exact ⟨bytes, hBytes, by omega, by omega⟩

end

/-! ## Segments -/

/-- A difference that `signedDelta` computes. -/
def IsDelta (delta : Int) : Prop := ∃ current previous, signedDelta current previous = .ok delta

theorem numbers_append_inj {others : List Int} {otherNumbers : List (List UInt8)} {rest more : List UInt8}
    (hDeltas : ∀ delta ∈ deltas, IsDelta delta) (hOthers : ∀ delta ∈ others, IsDelta delta)
    (hCount : deltas.length = others.length) (h : deltas.mapM appendVlq = .ok numbers)
    (hOther : others.mapM appendVlq = .ok otherNumbers)
    (hSame : numbers.flatten ++ rest = otherNumbers.flatten ++ more) : deltas = others ∧ rest = more := by
  induction deltas generalizing others numbers otherNumbers with
  | nil =>
    obtain rfl := List.length_eq_zero_iff.mp hCount.symm
    cases h
    cases hOther
    exact ⟨rfl, hSame⟩
  | cons delta deltas ih =>
    obtain ⟨other, others, rfl⟩ := List.exists_cons_of_length_eq_add_one hCount.symm
    simp only [List.mapM_cons, bind_ok, pure_ok] at h hOther
    obtain ⟨bytes, hBytes, numbers, hNumbers, rfl⟩ := h
    obtain ⟨otherBytes, hOtherBytes, otherNumbers, hOtherNumbers, rfl⟩ := hOther
    rw [List.forall_mem_cons] at hDeltas hOthers
    rw [List.flatten_cons, List.flatten_cons, List.append_assoc, List.append_assoc] at hSame
    obtain ⟨hValue, hTail⟩ := vlqDigits_append_inj hBytes hOtherBytes hSame
    obtain ⟨⟨_, _, hDelta⟩, ⟨_, _, hOtherDelta⟩⟩ := And.intro hDeltas.1 hOthers.1
    have hHead : delta = other := by
      rw [← signed_vlqValue (signedDelta_ok hDelta).2, hValue, signed_vlqValue (signedDelta_ok hOtherDelta).2]
    obtain ⟨rfl, hRest⟩ := ih hDeltas.2 hOthers.2 (Nat.succ.inj hCount) hNumbers hOtherNumbers hTail
    exact ⟨by rw [hHead], hRest⟩

/-- A segment is encoded as the numbers of its deltas, one or more of them; the digits of a segment are no beginning
of those of another with as many deltas. -/
theorem deltas_encoded_exactly (deltas : List Int) (hDeltas : ∀ delta ∈ deltas, IsDelta delta) :
    ∃ numbers, deltas.mapM appendVlq = .ok numbers ∧
      numbers.flatten.foldlM Decoder.read .start = some { Decoder.start with fields := deltas } ∧
      (∀ length ≤ usizeMax, deltas.foldlM (fun length delta => addLength length (vlqLength delta)) length =
        addLength length numbers.flatten.length) ∧
      ∀ others otherNumbers, (∀ delta ∈ others, IsDelta delta) → deltas.length = others.length →
        others.mapM appendVlq = .ok otherNumbers → numbers.flatten <+: otherNumbers.flatten → deltas = others := by
  obtain ⟨numbers, hNumbers, hLengths⟩ := numbers_ok deltas
  refine ⟨numbers, hNumbers, ?_, fun length hLength => ?_, ?_⟩
  · refine read_numbers hNumbers (fun delta hDelta => ?_) .start rfl
    obtain ⟨_, _, h⟩ := hDeltas delta hDelta
    exact (signedDelta_ok h).2
  · rw [foldlM_addLength vlqLength hLength, ← hLengths, List.length_flatten]
  · rintro others otherNumbers hOthers hCount hOther ⟨rest, hRest⟩
    rw [← List.append_nil otherNumbers.flatten] at hRest
    exact (numbers_append_inj hDeltas hOthers hCount hNumbers hOther hRest).1

theorem widest_deltas_read_back : ∃ numbers, [(i64Max : Int), -i64Max].mapM appendVlq = .ok numbers ∧
    numbers.flatten.foldlM Decoder.read .start = some { Decoder.start with fields := [(i64Max : Int), -i64Max] } := by
  have hDeltas : ∀ delta ∈ [(i64Max : Int), -i64Max], IsDelta delta := by
    rw [List.forall_mem_cons, List.forall_mem_singleton]
    exact ⟨⟨i64Max, 0, rfl⟩, ⟨0, i64Max, rfl⟩⟩
  obtain ⟨numbers, hNumbers, hRead, -⟩ := deltas_encoded_exactly _ hDeltas
  exact ⟨numbers, hNumbers, hRead⟩

end Weregopher.Transform
