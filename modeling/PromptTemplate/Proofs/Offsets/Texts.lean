import PromptTemplate.Proofs.Offsets.Slices
import PromptTemplate.Proofs.Template.Fences
import PromptTemplate.Proofs.Template.Lexemes

/-!
# Texts by offsets

The reader of templates keeps one offset. It slices the text at that offset whenever it looks
at what comes next, and moves the offset by the bytes of what it has seen: of a character or an
escape, of a comment with its marks, of a line. In a config block the offset of a line may be
past the end of the text, and then no slice is taken.
-/

namespace PromptTemplate

namespace ByOffset

open Text Template

variable {source : List Char}

/-- What has been read up to a cursor of the text, and the same with the offset there. -/
def LandsAt (source : List Char) {α : Type} (a : α) (d : Cursor) (y : α × Nat) : Prop :=
  y = (a, d.offset) ∧ d.On source

/-- For a reader that promises something of the cursor. -/
abbrev Lands (source : List Char) {α : Type} {P : Cursor → Prop} (x : α × { d : Cursor // P d })
    (y : α × Nat) : Prop :=
  LandsAt source x.1 x.2.1 y

/-! ## Texts -/

/-- Characters one after another, each with the offset after it, up to where a step finds
none. -/
def charsAt (source : List Char) (step : Nat → List Char → Guarded (Option (Char × Nat)))
    (offset : Nat) : Guarded (List Char × { stop : Nat // offset ≤ stop }) := do
  let rest ← textFrom source offset
  match ← step offset rest with
  | none => return ([], ⟨offset, Nat.le_refl _⟩)
  | some (x, next) =>
    let ⟨h⟩ ← onward (byteLength source) offset next
    let (data, ⟨stop, hstop⟩) ← charsAt source step next
    return (x :: data, ⟨stop, by omega⟩)
termination_by byteLength source - offset
decreasing_by omega

/-- The character that a backslash makes literal. -/
def escapedAt (source : List Char) (offset : Nat) (c : Char) : Guarded (Option Char) :=
  if c = '\\' then do
    let more ← textFrom source (offset + 1)
    return more.head?.filter isEscapable
  else return none

/-- Whether a tag, a comment or braces begin at an offset. -/
def marksAt (source : List Char) (offset : Nat) (rest : List Char) : Guarded Bool :=
  if ['/', '*'].isPrefixOf rest || ['<', '!', '-', '-'].isPrefixOf rest
      || ['\x7b', '\x7b'].isPrefixOf rest then return true
  else if rest.head? == some '<' then do
    let more ← textFrom source (offset + 1)
    return beginsTag more
  else return false

/-- The next character of a literal text. -/
def literalStep (source : List Char) (offset : Nat) (rest : List Char) :
    Guarded (Option (Char × Nat)) :=
  match rest with
  | [] => return none
  | c :: cs => do
    match ← escapedAt source offset c with
    | some x => return some (x, offset + 1 + x.utf8Size)
    | none =>
      if ← marksAt source offset (c :: cs) then return none
      else return some (c, offset + c.utf8Size)

/-- The next character of a quoted value. -/
def quotedStep (quote : Char) (offset : Nat) (rest : List Char) :
    Guarded (Option (Char × Nat)) :=
  match rest with
  | [] => return none
  | c :: cs =>
    if c = quote || ['\x7b', '\x7b'].isPrefixOf (c :: cs) then return none
    else return some (c, offset + c.utf8Size)

/-- A comment between two marks. -/
def commentAt (source opening closing : List Char) (start : Nat) : Guarded (Node × Nat) := do
  let bodyStart := start + byteLength opening
  let rest ← textFrom source bodyStart
  match before? closing rest with
  | none =>
    throw ((Cause.endOfInput s!"'{String.ofList closing}'").within start (byteLength source))
  | some found =>
    let bodyStop := bodyStart + byteLength found
    let data ← textBetween source bodyStart bodyStop
    let stop := bodyStop + byteLength closing
    return (.comment (String.ofList data) (ignoredCodes data) (spanAt source start stop), stop)

/-! ## The config block -/

/-- The lines of a config block from the offset of a line on. After the last line of the text
the offset is past its end. -/
def configLinesAt (source : List Char) (start bodyStart line : Nat) : Guarded (Node × Nat) :=
  if byteLength source ≤ line then
    throw ((Cause.endOfInput "closing '---' of the config block").within start (byteLength source))
  else do
    let rest ← textFrom source line
    let stop := line + byteLength (rest.takeWhile (· ≠ '\n'))
    let data ← textBetween source line stop
    if trimEnd data = ['-', '-', '-'] then do
      let body ← textBetween source bodyStart line
      match Config.read (String.ofList body) with
      | .error fault => throw ((Cause.invalidConfig fault.message).within start stop)
      | .ok config => return (.config config (spanAt source start stop), stop)
    else
      let ⟨_⟩ ← onward (byteLength source + 1) line (stop + 1)
      configLinesAt source start bodyStart (stop + 1)
termination_by byteLength source + 1 - line
decreasing_by omega

/-- The config block that a text may begin with, and the offset after it. -/
def configBlockAt (source : List Char) : Guarded (Option Node × Nat) := do
  let start := byteLength source - byteLength (trimStart source)
  let rest ← textFrom source start
  if ['-', '-', '-'].isPrefixOf rest then do
    let after := rest.drop 3
    let first := byteLength (after.takeWhile (· ≠ '\n'))
    let line ← textBetween after 0 first
    if line.all isBlank then do
      let bodyStart := start + 3 + min (first + 1) (byteLength after)
      let (a, stop) ← configLinesAt source start bodyStart bodyStart
      return (some a, stop)
    else return (none, 0)
  else return (none, 0)

/-! ## Copies of texts -/

variable {c d : Cursor}

/-- A cursor with less left is further on in the text. -/
theorem further (hc : c.On source) (hd : d.On source) (h : d.rest.length < c.rest.length) :
    c.offset < d.offset ∧ d.offset ≤ byteLength source := by
  refine ⟨?_, offset_le hd⟩
  have c_end := finish_eq hc
  have d_end := finish_eq hd
  obtain ⟨front, hfront, -⟩ := hc
  obtain ⟨more, hmore, -⟩ := hd
  obtain ⟨used, hused⟩ : d.rest <:+ c.rest :=
    List.suffix_of_suffix_length_le ⟨more, hmore.symm⟩ ⟨front, hfront.symm⟩ (Nat.le_of_lt h)
  cases used with
  | nil =>
    rw [← hused] at h
    exact absurd h (Nat.lt_irrefl _)
  | cons x used =>
    have positive := x.utf8Size_pos
    rw [Cursor.finish, ← hused, byteLength_append, byteLength] at c_end
    rw [Cursor.finish] at d_end
    rw [Cursor.offset, Cursor.offset]
    omega

/-- A character further on. -/
theorem further_skip (h : c.On source) {n : Nat} (hne : c.rest ≠ []) (hn : 0 < n) :
    c.offset < (c.skip n).offset ∧ (c.skip n).offset ≤ byteLength source :=
  further h (h.skip n).on (Cursor.length_skip_lt hne hn)

theorem offset_skip_of_take {front : List Char} {n : Nat} (h : c.rest.take n = front) :
    (c.skip n).offset = c.offset + byteLength front := by
  rw [offset_skip, h]

theorem offset_skip_cons {x : Char} {cs : List Char} (hrest : c.rest = x :: cs) :
    (c.skip 1).offset = c.offset + x.utf8Size := by
  rw [offset_skip, hrest]
  rfl

theorem offset_skip_sees {x : Char} (h : c.sees x = true) (hx : x.utf8Size = 1) :
    (c.skip 1).offset = c.offset + 1 := by
  obtain ⟨more, hmore⟩ := List.head?_eq_some_iff.mp (beq_iff_eq.mp h)
  rw [offset_skip_cons hmore, hx]

/-- Taking characters off, each with the number of characters that it takes up, comes to all
that stands before the first place where none is found. -/
structure TakesAll (next? : List Char → Option (Char × Nat))
    (all : List Char → List Char × Nat) : Prop where
  none : ∀ cs, next? cs = none → all cs = ([], 0)
  some : ∀ cs x n, next? cs = some (x, n) →
    cs ≠ [] ∧ 0 < n ∧ all cs = (x :: (all (cs.drop n)).1, (all (cs.drop n)).2 + n)

/-- A step that finds what is taken off next keeps the offset at a cursor. -/
theorem charsAt_eq {step : Nat → List Char → Guarded (Option (Char × Nat))}
    {next? : List Char → Option (Char × Nat)} {all : List Char → List Char × Nat}
    (finds : ∀ c : Cursor, c.On source → step c.offset c.rest =
      pure ((next? c.rest).map fun r => (r.1, (c.skip r.2).offset)))
    (takes : TakesAll next? all) {c : Cursor} (h : c.On source) :
    charsAt source step c.offset =
      pure ((all c.rest).1, ⟨(c.skip (all c.rest).2).offset, (h.skip _).le⟩) := by
  rw [charsAt, textFrom_offset h, pure_bind, finds c h, pure_bind]
  cases hnext : next? c.rest with
  | none =>
    simp only [takes.none c.rest hnext]
    rfl
  | some r =>
    obtain ⟨x, n⟩ := r
    obtain ⟨hne, positive, hall⟩ := takes.some c.rest x n hnext
    have shorter := Cursor.length_skip_lt hne positive
    have later := charsAt_eq finds takes (h.skip n).on
    dsimp only [Option.map_some]
    rw [onward_eq (further_skip h hne positive), pure_bind, later, pure_bind]
    simp only [hall, Nat.add_comm _ n, Cursor.skip_add, Cursor.rest_skip]
termination_by c.rest.length

/-! ### Literal texts -/

/-- The next character of a literal text. An escape takes up two characters. -/
def literalNext? : List Char → Option (Char × Nat)
  | [] => none
  | x :: cs =>
    if x = '\\' ∧ cs.head?.any isEscapable then cs.head?.map fun y => (y, 2)
    else if beginsMarkup (x :: cs) then none
    else some (x, 1)

theorem takesAll_literal : TakesAll literalNext? literal where
  none cs ends := by
    cases cs with
    | nil => rw [literal]
    | cons x cs =>
      rw [literalNext?] at ends
      split at ends
      · rename_i escaped
        cases cs with
        | nil => cases escaped.2
        | cons y cs => cases ends
      · split at ends
        · rename_i marks
          exact literal_markup marks
        · cases ends
  some cs x n found := by
    cases cs with
    | nil => cases found
    | cons y cs =>
      rw [literalNext?] at found
      refine ⟨List.cons_ne_nil _ _, ?_⟩
      split at found
      · rename_i escaped
        obtain ⟨rfl, escapable⟩ := escaped
        cases cs with
        | nil => cases escapable
        | cons z cs =>
          cases found
          exact ⟨Nat.two_pos, literal_escape escapable cs⟩
      · rename_i plain
        split at found
        · cases found
        · rename_i noMarks
          cases found
          refine ⟨Nat.one_pos, literal_char ?_⟩
          simpa [beginsMark, noMarks] using plain

theorem escapedAt_offset {x : Char} {cs : List Char} (hrest : c.rest = x :: cs)
    (h : c.On source) :
    escapedAt source c.offset x =
      pure (if x = '\\' then cs.head?.filter isEscapable else none) := by
  rw [escapedAt]
  split
  · rename_i backslash
    subst backslash
    have place : (c.skip 1).offset = c.offset + 1 := offset_skip_cons hrest
    rw [← place, textFrom_offset (h.skip 1).on, pure_bind, Cursor.rest_skip, hrest]
    rfl
  · rfl

theorem marksAt_offset (h : c.On source) :
    marksAt source c.offset c.rest = pure (beginsMarkup c.rest) := by
  rw [marksAt, beginsMarkup]
  split
  · rename_i mark
    rw [mark, Bool.true_or]
  · rename_i noMark
    rw [Bool.not_eq_true] at noMark
    rw [noMark, Bool.false_or]
    split
    · rename_i bracket
      rw [← offset_skip_sees bracket rfl, textFrom_offset (h.skip 1).on, pure_bind, bracket,
        Bool.true_and]
      rfl
    · rename_i other
      rw [Bool.not_eq_true] at other
      rw [other, Bool.false_and]

theorem literalStep_offset (h : c.On source) :
    literalStep source c.offset c.rest =
      pure ((literalNext? c.rest).map fun r => (r.1, (c.skip r.2).offset)) := by
  have marks := marksAt_offset h
  cases hrest : c.rest with
  | nil => rfl
  | cons x cs =>
    rw [hrest] at marks
    rw [literalStep, escapedAt_offset hrest h, pure_bind, marks, literalNext?]
    by_cases escaped : x = '\\' ∧ cs.head?.any isEscapable = true
    · obtain ⟨rfl, escapable⟩ := escaped
      cases cs with
      | nil => cases escapable
      | cons y cs =>
        have place : (c.skip 2).offset = c.offset + 1 + y.utf8Size := by
          rw [offset_skip, hrest, Nat.add_assoc]
          rfl
        have found : (y :: cs).head?.filter isEscapable = some y :=
          Option.filter_some_pos (show isEscapable y = true from escapable)
        rw [if_pos rfl, if_pos ⟨rfl, escapable⟩, found, List.head?_cons, Option.map_some,
          Option.map_some, place]
    · have missing : (if x = '\\' then cs.head?.filter isEscapable else none) = none := by
        split
        · rename_i backslash
          cases cs with
          | nil => rfl
          | cons y cs =>
            exact Option.filter_some_neg
              (Bool.eq_false_iff.mpr fun escapable => escaped ⟨backslash, escapable⟩)
        · rfl
      rw [missing, if_neg escaped]
      dsimp only
      rw [pure_bind, ← offset_skip_cons hrest]
      split <;> rfl

theorem charsAt_literal (h : c.On source) :
    charsAt source (literalStep source) c.offset =
      pure ((literal c.rest).1, ⟨(c.skip (literal c.rest).2).offset, (h.skip _).le⟩) :=
  charsAt_eq (fun _ hc => literalStep_offset hc) takesAll_literal h

/-! ### Quoted texts -/

/-- The next character of a quoted text. -/
def quotedNext? (quote : Char) : List Char → Option (Char × Nat)
  | [] => none
  | x :: cs => if quotedStops quote (x :: cs) then none else some (x, 1)

theorem takesAll_quoted (quote : Char) :
    TakesAll (quotedNext? quote) fun cs => (quotedText quote cs, (quotedText quote cs).length) where
  none cs ends := by
    cases cs with
    | nil => rfl
    | cons x cs =>
      rw [quotedNext?] at ends
      split at ends
      · rename_i stops
        rw [quotedText_cons, if_pos stops]
        rfl
      · cases ends
  some cs x n found := by
    cases cs with
    | nil => cases found
    | cons y cs =>
      rw [quotedNext?] at found
      split at found
      · cases found
      · rename_i goes_on
        cases found
        refine ⟨List.cons_ne_nil _ _, Nat.one_pos, ?_⟩
        rw [quotedText_cons, if_neg goes_on]
        rfl

theorem quotedStep_offset (quote : Char) (c : Cursor) :
    quotedStep quote c.offset c.rest =
      pure ((quotedNext? quote c.rest).map fun r => (r.1, (c.skip r.2).offset)) := by
  cases hrest : c.rest with
  | nil => rfl
  | cons x cs =>
    rw [quotedStep, quotedNext?, ← offset_skip_cons hrest]
    by_cases stops : quotedStops quote (x :: cs) = true
    · rw [if_pos stops, if_pos (by simpa [quotedStops] using stops)]
      rfl
    · rw [if_neg stops, if_neg (by simpa [quotedStops] using stops)]
      rfl

theorem charsAt_quoted (quote : Char) (h : c.On source) :
    charsAt source (quotedStep quote) c.offset =
      pure (quotedText quote c.rest,
        ⟨(c.skip (quotedText quote c.rest).length).offset, (h.skip _).le⟩) :=
  charsAt_eq (fun c _ => quotedStep_offset quote c) (takesAll_quoted quote) h

/-! ### Comments -/

/-- A comment that begins with its opening mark. -/
theorem copies_comment {opening closing : List Char} {hne : c.rest ≠ []}
    {ho : 0 < opening.length} (begins : opening <+: c.rest) (h : c.On source) :
    Copies (Lands source) (comment opening closing c hne ho)
      (commentAt source opening closing c.offset) := by
  have opened : c.Takes opening (c.skip opening.length) := by
    have takes := Cursor.Takes.skip c opening.length
    rwa [← List.prefix_iff_eq_take.mp begins] at takes
  have on_body := (h.takes opened).on
  rw [commentAt, comment, ← opened.offset, textFrom_offset on_body, pure_bind, finish_eq h,
    Cursor.rest_skip]
  cases found : before? closing (c.rest.drop opening.length) with
  | none => exact .throw _
  | some data =>
    obtain ⟨more, hmore, -⟩ := before?_append found
    have body : (c.skip opening.length).Takes data ((c.skip opening.length).skip data.length) := by
      have takes := Cursor.Takes.skip (c.skip opening.length) data.length
      rwa [Cursor.rest_skip, hmore, List.append_assoc, List.take_left] at takes
    have closed : (c.skip (opening.length + data.length + closing.length)).offset =
        (c.skip opening.length).offset + byteLength data + byteLength closing := by
      have last : ((c.skip opening.length).skip data.length).rest.take closing.length =
          closing := by
        rw [Cursor.rest_skip, Cursor.rest_skip, hmore, List.append_assoc, List.drop_left,
          List.take_left]
      rw [Cursor.skip_add, Cursor.skip_add, offset_skip_of_take last, body.offset]
    dsimp only
    rw [← body.offset, textBetween_takes on_body body, pure_bind, body.offset, ← closed,
      spanAt_offset h]
    exact .pure ⟨rfl, (h.skip _).on⟩

/-! ## Copies of the config block -/

/-- What comes of the lines of a config block, whose first tag is at the first cursor and whose
lines begin at the second. -/
def blockOf (source : List Char) (start b : Cursor) : Option (List Char × Nat) →
    Guarded (Node × Nat)
  | none =>
    throw ((Cause.endOfInput "closing '---' of the config block").within start.offset
      (byteLength source))
  | some (body, n) =>
    let stop := b.skip (body.length + n)
    match Config.read (String.ofList body) with
    | .error fault => throw ((Cause.invalidConfig fault.message).on (start.span stop))
    | .ok config => pure (.config config (start.span stop), stop.offset)

theorem offset_lt (h : c.On source) (hne : c.rest ≠ []) : c.offset < byteLength source :=
  Nat.lt_of_lt_of_le (further_skip h hne Nat.one_pos).1 (offset_le (h.skip 1).on)

theorem skip_of_takes {b : Cursor} {used : List Char} (taken : b.Takes used d) :
    b.skip used.length = d := by
  obtain ⟨hrest, hposition⟩ := taken
  rw [Cursor.skip, hrest, List.take_left, List.drop_left, ← hposition]

/-- The reader of lines stops at the line that closes the block, or past the end of the text. -/
theorem configLinesAt_eq {start b : Cursor} (hs : start.On source) (hb : b.On source)
    {used : List Char} (taken : b.Takes used d) :
    configLinesAt source start.offset b.offset d.offset =
      blockOf source start b ((configBody? d.rest).map fun (body, n) => (used ++ body, n)) := by
  have hd := (hb.takes taken).on
  induction hn : d.rest.length using Nat.strongRecOn generalizing d used with
  | ind n ih =>
    rw [configLinesAt]
    by_cases hnil : d.rest = []
    · rw [if_pos (Nat.le_of_eq (hd.offset_of_nil hnil).symm), hnil]
      simp only [configBody?]
      rfl
    · obtain ⟨x, xs, hcons⟩ := List.exists_cons_of_ne_nil hnil
      obtain ⟨line, rest, hsplit, -, hrest, hfront⟩ := exists_line d.rest
      have read : d.Takes line (d.skip line.length) := by
        have takes := Cursor.Takes.skip d line.length
        rwa [hsplit, List.take_left] at takes
      have left : (d.skip line.length).rest = rest := by
        rw [Cursor.rest_skip, hsplit, List.drop_left]
      have on_left := (hd.skip line.length).on
      have goes_on : d.offset < (d.skip line.length).offset + 1 ∧
          (d.skip line.length).offset + 1 ≤ byteLength source + 1 :=
        ⟨Nat.lt_succ_of_le (hd.skip _).le, Nat.succ_le_succ (offset_le on_left)⟩
      rw [if_neg (Nat.not_le.mpr (offset_lt hd hnil)), textFrom_offset hd, pure_bind, hfront,
        ← read.offset]
      dsimp only
      rw [textBetween_takes hd read, pure_bind, configBody?_cons hcons, hfront]
      by_cases fence : trimEnd line = ['-', '-', '-']
      · have stop : b.skip (used.length + line.length) = d.skip line.length := by
          rw [Cursor.skip_add, skip_of_takes taken]
        rw [if_pos fence, if_pos fence, textBetween_takes hb taken, pure_bind]
        simp only [Option.map_some, blockOf, List.append_nil, stop, ← spanAt_offset hs]
        rfl
      · rw [if_neg fence, if_neg fence, onward_eq goes_on, pure_bind]
        cases rest with
        | nil =>
          have past : byteLength source ≤ (d.skip line.length).offset + 1 :=
            Nat.le_succ_of_le (Nat.le_of_eq (on_left.offset_of_nil left).symm)
          rw [configLinesAt, if_pos past, hsplit, List.append_nil, if_pos rfl]
          rfl
        | cons y tail =>
          cases hrest y rfl
          have feed : (d.skip line.length).Takes ['\n'] (d.skip (line.length + 1)) := by
            rw [Cursor.skip_add]
            have takes := Cursor.Takes.skip (d.skip line.length) 1
            rwa [left] at takes
          have next : (d.skip line.length).offset + 1 = (d.skip (line.length + 1)).offset :=
            feed.offset.symm
          have shorter : (d.skip (line.length + 1)).rest.length < n :=
            hn ▸ Cursor.length_skip_lt hnil (Nat.succ_pos _)
          have longer : line.length ≠ d.rest.length := by
            rw [hsplit, List.length_append, List.length_cons]
            omega
          rw [if_neg longer, next, ih _ shorter (taken.trans (read.trans feed))
            (hd.skip _).on rfl, Option.map_map]
          congr 2
          funext body
          simp

theorem eq_of_isPrefixOf {mark cs : List Char} (h : mark.isPrefixOf cs = true) :
    cs = mark ++ cs.drop mark.length := by
  obtain ⟨more, rfl⟩ := List.isPrefixOf_iff_prefix.mp h
  rw [List.drop_left]

/-- The lines of a block begin after the line of its fence, or at the end of the text. -/
theorem offset_opened {start : Cursor} {line rest : List Char}
    (hrest : start.rest = ['-', '-', '-'] ++ (line ++ rest)) (ends : EndsLine rest) :
    (start.skip ((['-', '-', '-'] ++ line).length + 1)).offset =
      start.offset + 3 + min (byteLength line + 1) (byteLength (line ++ rest)) := by
  have marks : byteLength ['-', '-', '-'] = 3 := by decide
  have feed : byteLength ['\n'] = 1 := by decide
  rw [← List.append_assoc] at hrest
  rw [offset_skip, hrest, List.take_length_add_append, byteLength_append, byteLength_append, marks,
    byteLength_append]
  cases rest with
  | nil =>
    rw [List.take_nil, byteLength]
    omega
  | cons x rest =>
    cases ends x rfl
    rw [List.take_succ_cons, List.take_zero, feed, show '\n' :: rest = ['\n'] ++ rest from rfl,
      byteLength_append, feed]
    omega

theorem copies_configBlock (source : List Char) :
    Copies (fun x => LandsAt source x.1 x.2) (configBlock (Cursor.start source))
      (configBlockAt source) := by
  have spaced := (Cursor.on_start source).skipBlank.on
  have trimmed : (Cursor.start source).skipBlank.rest = trimStart source :=
    Cursor.rest_skipWhile _ _
  rw [configBlockAt, configBlock]
  generalize (Cursor.start source).skipBlank = start at spaced trimmed ⊢
  have place : byteLength source - byteLength (trimStart source) = start.offset := by
    have finish := finish_eq spaced
    rw [Cursor.finish, trimmed] at finish
    rw [← finish, Nat.add_sub_cancel_right]
    rfl
  have plain : Copies (fun x => LandsAt source x.1 x.2)
      (.ok (none, Cursor.start source)) (pure ((none : Option Node), 0)) :=
    .pure ⟨rfl, Cursor.on_start source⟩
  rw [place]
  dsimp only
  rw [textFrom_offset spaced, pure_bind, isFence]
  cases marks : ['-', '-', '-'].isPrefixOf start.rest with
  | false =>
    rw [Bool.false_and, Bool.not_false, if_pos rfl, if_neg Bool.false_ne_true]
    exact plain
  | true =>
    obtain ⟨line, rest, hsplit, hline, hrest, hfront⟩ := exists_line (start.rest.drop 3)
    have hstart : start.rest = ['-', '-', '-'] ++ (line ++ rest) :=
      (eq_of_isPrefixOf marks).trans (congrArg _ hsplit)
    have first : textBetween (start.rest.drop 3) 0 (byteLength line) = pure line := by
      have sliced := textBetween_advance (Cursor.on_start (line ++ rest))
      rw [Position.offset_advance, ← hsplit] at sliced
      exact (congrArg (textBetween _ 0) (Nat.zero_add _)).symm.trans sliced
    rw [if_pos rfl, hfront, first, pure_bind, Bool.true_and]
    cases blanks : line.all isBlank with
    | false => exact plain
    | true =>
      have whole : start.rest.takeWhile (· ≠ '\n') = ['-', '-', '-'] ++ line := by
        rw [hstart, ← List.append_assoc]
        exact takeWhile_line (by simpa using hline) hrest
      rw [whole, hsplit, ← offset_opened hstart hrest]
      have opened := (spaced.skip ((['-', '-', '-'] ++ line).length + 1)).on
      rw [configLinesAt_eq spaced opened (.refl _)]
      generalize start.skip ((['-', '-', '-'] ++ line).length + 1) = body at opened ⊢
      cases configBody? body.rest with
      | none =>
        rw [finish_eq spaced]
        exact .throw _
      | some r =>
        obtain ⟨lines, n⟩ := r
        simp only [Option.map_some, blockOf, List.nil_append]
        cases Config.read (String.ofList lines) with
        | error fault => exact .throw _
        | ok config => exact .pure ⟨rfl, (opened.skip _).on⟩

end ByOffset

end PromptTemplate
