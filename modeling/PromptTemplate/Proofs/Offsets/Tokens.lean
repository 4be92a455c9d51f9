import PromptTemplate.Proofs.Offsets.Slices
import PromptTemplate.Proofs.Token.Tiling

/-!
# Tokens by offsets

The reader of tokens is at a place of the text. It slices the text before the place where it
begins, to count lines and columns; what it has gone over, for numbers and words; and what
comes next, to look at more than one character. Every round takes something off the text.
-/

namespace PromptTemplate

namespace ByOffset

open Text Token

/-! ## The reader -/

/-- The offset of the last line feed. -/
def lastBreak? : List Char → Option Nat
  | [] => none
  | c :: cs =>
    match lastBreak? cs with
    | some n => some (c.utf8Size + n)
    | none => if c = '\n' then some 0 else none

/-- The line and the column after a text. -/
def endOf (front : List Char) : Guarded (Nat × Nat) := do
  let line := front.count '\n' + 1
  match lastBreak? front with
  | some n =>
    let last ← textFrom front (n + 1)
    return (line, last.length + 1)
  | none => return (line, front.length + 1)

/-- The place of an offset, counted in the text before it. -/
def placeAt (source : List Char) (offset : Nat) : Guarded Position := do
  let front ← textBetween source 0 offset
  let (line, column) ← endOf front
  return ⟨offset, line, column⟩

/-- The digits of another base after its announcement at a place. -/
def basedAt (source : List Char) (p : Position) (base : Nat) (cs : List Char) :
    Guarded (Kind × Position) := do
  let first := p.advance (cs.take 2)
  let more ← textFrom source first.offset
  let stop := first.advance (more.takeWhile (Number.isDigitOf base))
  let digits ← textBetween source first.offset stop.offset
  match Number.natural? base (Nat.pow 2 64) digits with
  | some n => return (.number (Float.ofNat n), stop)
  | none =>
    let literal ← textBetween source p.offset stop.offset
    return (.invalid (.invalidNumber (String.ofList literal)), stop)

/-- The decimal literal that begins at a place. -/
def decimalAt (source : List Char) (p : Position) (cs : List Char) :
    Guarded (List Char × Position) := do
  let whole := p.advance (cs.takeWhile Char.isDigit)
  let point ← textFrom source whole.offset
  let part := whole.advance (fraction point).1
  let power ← textFrom source part.offset
  let stop := part.advance (exponent power).1
  let literal ← textBetween source p.offset stop.offset
  return (literal, stop)

/-- A number that begins at a place. -/
def numberAt (source : List Char) (p : Position) : Guarded (Kind × Position) := do
  let cs ← textFrom source p.offset
  match Number.announcedBase cs with
  | some base => basedAt source p base cs
  | none =>
    let (literal, stop) ← decimalAt source p cs
    let invalid : Kind := .invalid (.invalidNumber (String.ofList literal))
    let rest ← textFrom source stop.offset
    if rest.head?.any isIdentifierStart then return (invalid, stop.advance (rest.take 1))
    else
      match Number.decimal? literal with
      | some x => return (.number x, stop)
      | none => return (invalid, stop)

/-- A word that begins at a place. -/
def wordAt (source : List Char) (p : Position) (cs : List Char) : Guarded (Kind × Position) := do
  let stop := p.advance (cs.takeWhile isIdentifierPart)
  let name ← textBetween source p.offset stop.offset
  match Keyword.ofWord? name with
  | some k => return (.keyword k, stop)
  | none => return (.identifier (String.ofList name), stop)

/-- A token that is read character by character, without slices. -/
def plainAt (mode : Mode) (depth : Nat) (p : Position) (c : Char) (cs : List Char) :
    Kind × Position :=
  let scanned := scan mode depth c cs
  (scanned.1, p.advance (c :: cs.take (cs.length - scanned.2.length)))

/-- The token that begins at a place with a character. -/
def scanAt (source : List Char) (mode : Mode) (depth : Nat) (p : Position) (c : Char)
    (cs : List Char) : Guarded (Kind × Position) :=
  if c = '}' ∧ mode = .tag ∧ depth = 0 then return plainAt mode depth p c cs
  else if c = '.' then do
    let ahead ← textFrom source p.offset
    if (ahead.drop 1).head?.any Char.isDigit then numberAt source p
    else return plainAt mode depth p c cs
  else if c = '?' ∧ cs.head? = some '.' then do
    let ahead ← textFrom source (p.next c).offset
    if (ahead.drop 1).head?.any Char.isDigit then return (.mark .question, p.next c)
    else return (.mark .questionDot, (p.next c).next '.')
  else if c.isDigit then numberAt source p
  else if isIdentifierStart c then wordAt source p (c :: cs)
  else return plainAt mode depth p c cs

/-- The tokens from a place on, and the place after them. -/
def tokensAt (source : List Char) (mode : Mode) (depth : Nat) (p : Position) :
    Guarded (List Token × Position) := do
  let front ← textFrom source p.offset
  let start := p.advance (front.takeWhile isBlank)
  let rest ← textFrom source start.offset
  match rest with
  | [] => return ([⟨.inputEnd, Span.between start start⟩], start)
  | c :: cs =>
    let (kind, stop) ← scanAt source mode depth start c cs
    let token : Token := ⟨kind, Span.between start stop⟩
    if kind.isTerminator then return ([token], stop)
    else
      let ⟨_⟩ ← onward (byteLength source) start.offset stop.offset
      let (tokens, last) ← tokensAt source mode (depthAfter depth kind) stop
      return (token :: tokens, last)
termination_by byteLength source - p.offset
decreasing_by
  have skipped : start.offset = _ := Position.offset_advance p (front.takeWhile isBlank)
  omega

/-! ## Copies -/

variable {source cs used rest : List Char} {p : Position}

/-- What stands before the last line feed, and after it. -/
theorem lastBreak?_cases (cs : List Char) :
    lastBreak? cs = none ∧ '\n' ∉ cs ∨
      ∃ before after, cs = before ++ '\n' :: after ∧ '\n' ∉ after ∧
        lastBreak? cs = some (byteLength before) := by
  induction cs with
  | nil => exact Or.inl ⟨rfl, List.not_mem_nil⟩
  | cons c cs ih =>
    rcases ih with ⟨hnone, hno⟩ | ⟨before, after, rfl, hno, hsome⟩
    · by_cases hc : c = '\n'
      · subst hc
        exact Or.inr ⟨[], cs, rfl, hno, by simp [lastBreak?, hnone, byteLength]⟩
      · refine Or.inl ⟨by simp [lastBreak?, hnone, hc], ?_⟩
        rw [List.mem_cons]
        rintro (rfl | inside)
        · exact hc rfl
        · exact hno inside
    · exact Or.inr ⟨c :: before, after, rfl, hno, by simp [lastBreak?, hsome, byteLength]⟩

theorem endOf_eq (front : List Char) :
    endOf front =
      pure ((Position.first.advance front).line, (Position.first.advance front).column) := by
  rw [endOf, Position.advance_first]
  have no_break : ∀ xs : List Char, '\n' ∉ xs → ∀ x ∈ xs.reverse, decide (x ≠ '\n') = true := by
    intro xs hno x hx
    rw [List.mem_reverse] at hx
    rw [decide_eq_true_iff]
    rintro rfl
    exact hno hx
  rcases lastBreak?_cases front with ⟨hnone, hno⟩ | ⟨above, last, rfl, hno, hsome⟩
  · have all : front.reverse.takeWhile (· ≠ '\n') = front.reverse :=
      List.takeWhile_eq_self_iff.mpr (no_break front hno)
    rw [hnone, all, List.length_reverse]
  · have line : (above ++ '\n' :: last).reverse.takeWhile (· ≠ '\n') = last.reverse := by
      rw [List.reverse_append, List.reverse_cons, List.append_assoc]
      exact Cursor.takeWhile_front (no_break last hno) (by simp)
    have after : textFrom (above ++ '\n' :: last) (byteLength above + 1) = pure last := by
      have cut := cut?_append (above ++ ['\n']) last
      rw [List.append_assoc, byteLength_append] at cut
      rw [textFrom]
      have feed : byteLength ['\n'] = 1 := by decide
      rw [feed] at cut
      rw [show above ++ '\n' :: last = above ++ (['\n'] ++ last) from rfl, cut]
    rw [hsome]
    dsimp only
    rw [after, pure_bind, line, List.length_reverse]

theorem placeAt_offset (h : (Cursor.mk p cs).On source) : placeAt source p.offset = pure p := by
  obtain ⟨front, rfl, rfl⟩ := h
  have before : textBetween (front ++ cs) 0 (Position.first.advance front).offset = pure front :=
    textBetween_advance (Cursor.on_start (front ++ cs))
  rw [placeAt]
  dsimp only
  rw [before, pure_bind, endOf_eq]
  rfl

theorem append_fraction (cs : List Char) : (fraction cs).1 ++ (fraction cs).2 = cs := by
  unfold fraction
  split
  · rw [List.cons_append, List.takeWhile_append_dropWhile]
  · rfl

theorem append_exponent (cs : List Char) : (exponent cs).1 ++ (exponent cs).2 = cs := by
  unfold exponent
  split
  · rfl
  · split
    · split
      · rfl
      · split
        · rw [List.cons_append, List.takeWhile_append_dropWhile]
        · split
          · rw [List.cons_append, List.cons_append, List.takeWhile_append_dropWhile]
          · rfl
    · rfl

theorem append_decimal (cs : List Char) : (decimal cs).1 ++ (decimal cs).2 = cs := by
  simp only [decimal, List.append_assoc]
  rw [append_exponent, append_fraction, List.takeWhile_append_dropWhile]

theorem decimalAt_eq (h : (Cursor.mk p cs).On source) :
    decimalAt source p cs = pure ((decimal cs).1, p.advance (decimal cs).1) := by
  have literal := textBetween_advance ((append_decimal cs).symm ▸ h)
  have whole : cs.takeWhile Char.isDigit ++ cs.dropWhile Char.isDigit = cs :=
    List.takeWhile_append_dropWhile
  have on_point := on_advance (whole.symm ▸ h)
  have on_power := on_advance ((append_fraction (cs.dropWhile Char.isDigit)).symm ▸ on_point)
  simp only [decimal, Position.advance_append] at literal ⊢
  rw [decimalAt, textFrom_place on_point, pure_bind]
  dsimp only
  rw [textFrom_place on_power, pure_bind, literal, pure_bind]

/-- What a number takes off is its announcement with the digits after it. -/
theorem basedAt_eq (h : (Cursor.mk p cs).On source) {base : Nat}
    (hbase : Number.announcedBase cs = some base) (reads : cs = used ++ (number cs).2) :
    basedAt source p base cs = pure ((number cs).1, p.advance used) := by
  rw [basedAt]
  rw [number, hbase] at reads ⊢
  dsimp only at reads ⊢
  generalize hdigits : (cs.drop 2).takeWhile (Number.isDigitOf base) = digits at reads ⊢
  generalize hleft : (cs.drop 2).dropWhile (Number.isDigitOf base) = left at reads ⊢
  have split : cs.drop 2 = digits ++ left := by
    rw [← hdigits, ← hleft, List.takeWhile_append_dropWhile]
  have whole : cs = (cs.take 2 ++ digits) ++ left := by
    rw [List.append_assoc, ← split, List.take_append_drop]
  have on_first : (Cursor.mk (p.advance (cs.take 2)) (cs.drop 2)).On source :=
    on_advance (by rwa [List.take_append_drop])
  have sliced := textBetween_advance (split ▸ on_first)
  have literal := textBetween_advance (whole ▸ h)
  rw [Position.advance_append] at literal
  rw [textFrom_place on_first, pure_bind, hdigits, sliced, pure_bind]
  have same (reads : cs = used ++ left) :
      (p.advance (cs.take 2)).advance digits = p.advance used := by
    rw [← Position.advance_append, List.append_cancel_right (reads.symm.trans whole)]
  cases hn : Number.natural? base (Nat.pow 2 64) digits with
  | some n =>
    rw [hn] at reads
    dsimp only
    rw [same reads]
  | none =>
    rw [hn] at reads
    dsimp only
    rw [literal, pure_bind, same reads]

theorem numberAt_eq (h : (Cursor.mk p cs).On source) (reads : cs = used ++ (number cs).2) :
    numberAt source p = pure ((number cs).1, p.advance used) := by
  rw [numberAt, textFrom_place h, pure_bind]
  cases hbase : Number.announcedBase cs with
  | some base => exact basedAt_eq h hbase reads
  | none =>
    have whole := append_decimal cs
    have on_rest := on_advance (whole.symm ▸ h)
    rw [number, hbase] at reads ⊢
    dsimp only at reads ⊢
    rw [decimalAt_eq h, pure_bind]
    dsimp only
    rw [textFrom_place on_rest, pure_bind]
    generalize (decimal cs).1 = literal at *
    generalize (decimal cs).2 = rest at *
    split
    · rename_i letter
      rw [if_pos letter] at reads
      have taken : used = literal ++ rest.take 1 := by
        refine List.append_cancel_right (reads.symm.trans ?_)
        rw [List.append_assoc, List.take_append_drop, whole]
      rw [taken, Position.advance_append]
    · rename_i ended
      rw [if_neg ended] at reads
      cases hx : Number.decimal? literal <;> rw [hx] at reads <;>
      · rw [List.append_cancel_right (reads.symm.trans whole.symm)]

theorem wordAt_eq (h : (Cursor.mk p cs).On source) (reads : cs = used ++ (word cs).2) :
    wordAt source p cs = pure ((word cs).1, p.advance used) := by
  have split : cs = cs.takeWhile isIdentifierPart ++ cs.dropWhile isIdentifierPart :=
    List.takeWhile_append_dropWhile.symm
  have taken : used = cs.takeWhile isIdentifierPart :=
    List.append_cancel_right (reads.symm.trans split)
  have sliced := textBetween_advance (split ▸ h)
  rw [wordAt, word, ← taken]
  rw [← taken] at sliced
  rw [sliced, pure_bind]
  dsimp only
  cases Keyword.ofWord? used <;> rfl

theorem markAt_optional (cs : List Char) :
    markAt ('?' :: '.' :: cs) =
      if cs.head?.any Char.isDigit then some .question else some .questionDot := by
  have longest : Mark.longest? ('?' :: '.' :: cs) = some .questionDot := rfl
  rw [markAt, longest]
  rfl

/-- Between a question mark and a digit a point belongs to the digit. -/
theorem plainAt_optional (mode : Mode) (depth : Nat) (p : Position) (cs : List Char) :
    plainAt mode depth p '?' ('.' :: cs) =
      if cs.head?.any Char.isDigit then (.mark .question, p.next '?')
      else (.mark .questionDot, (p.next '?').next '.') := by
  have letter : isIdentifierStart '?' = false := by decide +kernel
  rw [plainAt, scan, if_neg (by simp), if_neg (by simp [Char.isDigit]), if_neg (by simp),
    if_neg (by simp [letter]), if_neg (by simp), if_neg (by simp), markAt_optional]
  by_cases digit : cs.head?.any Char.isDigit = true
  · rw [if_pos digit, if_pos digit]
    simp [Mark.chars]
  · rw [if_neg digit, if_neg digit]
    simp [Mark.chars]

/-- The slices that a token is read with are those that it should be read with. -/
theorem scanAt_eq (mode : Mode) (depth : Nat) {c : Char} (h : (Cursor.mk p (c :: cs)).On source) :
    scanAt source mode depth p c cs = pure (plainAt mode depth p c cs) := by
  have reads : c :: cs = _ ++ (scan mode depth c cs).2 := (takes_scan mode depth p c cs).rest
  rw [scanAt]
  split
  · rfl
  · rename_i outside
    split
    · rename_i point
      rw [textFrom_place h, pure_bind]
      split
      · rename_i digit
        have number_read : scan mode depth c cs = number (c :: cs) := by
          rw [scan, if_neg outside, if_pos (Or.inr ⟨point, digit⟩)]
        rw [number_read] at reads
        rw [numberAt_eq h reads, plainAt, number_read]
      · rfl
    · split
      · rename_i optional
        obtain ⟨rfl, follows⟩ := optional
        obtain ⟨more, rfl⟩ := List.head?_eq_some_iff.mp follows
        have on_point : (Cursor.mk (p.advance ['?']) ('.' :: more)).On source := on_advance h
        have ahead : textFrom source (p.next '?').offset = pure ('.' :: more) :=
          textFrom_place on_point
        rw [ahead, pure_bind, plainAt_optional]
        by_cases digit : more.head?.any Char.isDigit = true
        · rw [if_pos digit]
          exact if_pos digit
        · rw [if_neg digit]
          exact if_neg digit
      · split
        · rename_i digit
          have number_read : scan mode depth c cs = number (c :: cs) := by
            rw [scan, if_neg outside, if_pos (Or.inl digit)]
          rw [number_read] at reads
          rw [numberAt_eq h reads, plainAt, number_read]
        · split
          · rename_i not_point _ not_digit letter
            have quoted : ¬ (c = '"' ∨ c = '\'') := by
              rintro (rfl | rfl)
              · exact absurd letter (by decide +kernel)
              · exact absurd letter (by decide +kernel)
            have word_read : scan mode depth c cs = word (c :: cs) := by
              rw [scan, if_neg outside, if_neg (by simp [not_digit, not_point]), if_neg quoted,
                if_pos letter]
            rw [word_read] at reads
            rw [wordAt_eq h reads, plainAt, word_read]
          · rfl

/-- The reader by offsets finds the tokens that are there, and stops where they end. Every
token but the last takes its first character off the text, at least. -/
theorem tokensAt_eq (mode : Mode) (depth : Nat) (h : (Cursor.mk p cs).On source) :
    tokensAt source mode depth p =
      pure ((scanAll mode depth p cs).1, (scanAll mode depth p cs).2.1) := by
  fun_induction scanAll mode depth p cs with
  | case1 depth p cs start none =>
    have on_start : (Cursor.mk start []).On source :=
      none ▸ on_advance (List.takeWhile_append_dropWhile (p := isBlank) (l := cs) |>.symm ▸ h)
    rw [tokensAt, textFrom_place h, pure_bind]
    dsimp only
    rw [textFrom_place on_start, pure_bind]
  | case2 depth p cs start c more first scanned stop token ends =>
    have on_start : (Cursor.mk start (c :: more)).On source :=
      first ▸ on_advance (List.takeWhile_append_dropWhile (p := isBlank) (l := cs) |>.symm ▸ h)
    rw [tokensAt, textFrom_place h, pure_bind]
    dsimp only
    rw [textFrom_place on_start, pure_bind]
    dsimp only
    rw [scanAt_eq mode depth on_start, pure_bind]
    exact if_pos ends
  | case3 depth p cs start c more first scanned stop token goes_on tokens after rest ih =>
    have on_start : (Cursor.mk start (c :: more)).On source :=
      first ▸ on_advance (List.takeWhile_append_dropWhile (p := isBlank) (l := cs) |>.symm ▸ h)
    have reads := takes_scan mode depth start c more
    have on_stop := (on_start.takes reads).on
    have further : start.offset < stop.offset ∧ stop.offset ≤ byteLength source := by
      have positive := c.utf8Size_pos
      have read : stop.offset = start.offset + _ := reads.offset
      rw [byteLength] at read
      exact ⟨by omega, offset_le on_stop⟩
    rw [tokensAt, textFrom_place h, pure_bind]
    dsimp only
    rw [textFrom_place on_start, pure_bind]
    dsimp only
    have token_read : plainAt mode depth start c more = (scanned.1, stop) := rfl
    have checked : onward (byteLength source) start.offset stop.offset = pure ⟨further⟩ :=
      onward_eq further
    rw [scanAt_eq mode depth on_start, token_read, pure_bind]
    refine (if_neg goes_on).trans ?_
    change (onward (byteLength source) start.offset stop.offset >>= _) = _
    rw [checked, pure_bind]
    dsimp only
    rw [ih on_stop, rest, pure_bind]

end ByOffset

end PromptTemplate
