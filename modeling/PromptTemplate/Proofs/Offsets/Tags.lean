import PromptTemplate.Proofs.Offsets.Texts
import PromptTemplate.Proofs.Offsets.Tokens
import PromptTemplate.Proofs.Template.Tags

/-!
# Tags by offsets

The reader of templates moves its offset over the marks, the names and the blanks of a tag. It
gives an offset inside braces to the reader of tokens and goes on at the offset that it gets
back.
-/

namespace PromptTemplate

namespace ByOffset

open Text Template

/-! ## Tags in braces -/

/-- The characters of a kind at an offset, and the offset after them. -/
def runAt (source : List Char) (fits : Char → Bool) (offset : Nat) :
    Guarded (List Char × Nat) := do
  let rest ← textFrom source offset
  let run := rest.takeWhile fits
  return (run, offset + byteLength run)

/-- The tokens from an offset on, up to the closing braces of a tag that begins at another. -/
def tagTokensAt (source : List Char) (start offset : Nat) : Guarded (List Token × Nat) := do
  let p ← placeAt source (min offset (byteLength source))
  let (tokens, last) ← tokensAt source .tag 0 p
  match tokens.getLast? with
  | some ⟨.tagEnd, _⟩ => return (tokens, last.offset)
  | some ⟨.invalid fault, span⟩ => throw ((Cause.lexical fault).on span)
  | _ => throw ((Cause.endOfInput "'\x7d\x7d'").within start (byteLength source))

def tagEndAt (source : List Char) (start offset : Nat) : Guarded Nat := do
  let (tokens, stop) ← tagTokensAt source start offset
  match tokens with
  | t :: _ :: _ => throw ((Cause.tokenInBlockTag t.kind.display).on t.span)
  | _ => return stop

/-- An expression in braces. -/
def mustacheAt (source : List Char) (start : Nat) : Guarded (Expr × Nat) := do
  let (tokens, stop) ← tagTokensAt source start (start + 2)
  let e ← result (Expr.ofTokens tokens)
  return (e, stop)

/-- A tag in braces. -/
def braceTagAt (source : List Char) (start : Nat) : Guarded (BraceTag × Nat) := do
  let marker ← skipBlankAt source (start + 2)
  let rest ← textFrom source marker
  if rest.head? == some '#' then do
    let (name, after) ← runAt source isWordPart (marker + 1)
    if name = "if".toList then do
      let (tokens, stop) ← tagTokensAt source start after
      let condition ← result (Expr.ofTokens tokens)
      return (.ifOpening condition, stop)
    else if name = "each".toList then do
      let (tokens, stop) ← tagTokensAt source start after
      let header ← result (EachHeader.ofTokens tokens (spanAt source start stop))
      return (.eachOpening header, stop)
    else throw ((Cause.unknownBlock (String.ofList name)).within start after)
  else if rest.head? == some ':' then do
    let (name, after) ← runAt source isWordPart (marker + 1)
    if name ≠ "else".toList then
      throw ((Cause.unknownContinuation (String.ofList name)).within start after)
    else do
      let spaced ← skipBlankAt source after
      let (next, afterNext) ← runAt source isWordPart spaced
      if next = "if".toList then do
        let (tokens, stop) ← tagTokensAt source start afterNext
        let condition ← result (Expr.ofTokens tokens)
        return (.otherwise (some condition), stop)
      else do
        let stop ← tagEndAt source start after
        return (.otherwise none, stop)
  else if rest.head? == some '/' then do
    let (name, after) ← runAt source isWordPart (marker + 1)
    let stop ← tagEndAt source start after
    return (.closing (String.ofList name), stop)
  else do
    let (e, stop) ← mustacheAt source start
    return (.output e, stop)

/-! ## Elements -/

def closingTagAt (source : List Char) (start : Nat) : Guarded (String × Nat) := do
  let (name, after) ← runAt source isTagNamePart (start + 2)
  let spaced ← skipBlankAt source after
  let rest ← textFrom source spaced
  if rest.head? == some '>' then return (String.ofList name, spaced + 1)
  else throw ((Cause.malformedClosingTag (String.ofList name)).within start after)

/-- The rest of a quoted value whose opening quote is at the first offset. -/
def quotedPiecesAt (source : List Char) (start : Nat) (quote : Char) (offset : Nat) :
    Guarded (List Piece × Nat) := do
  let (data, ⟨stop, _⟩) ← charsAt source (quotedStep quote) offset
  let front := if data.isEmpty then []
    else [Piece.text (String.ofList data) (spanAt source offset stop)]
  let rest ← textFrom source stop
  if rest = [] then
    throw ((Cause.endOfInput s!"closing {quote}").within start (byteLength source))
  else if rest.head? == some quote then return (front, stop + 1)
  else do
    let (e, next) ← mustacheAt source stop
    let ⟨_⟩ ← onward (byteLength source) stop next
    let (more, last) ← quotedPiecesAt source start quote next
    return (front ++ Piece.mustache e (spanAt source stop next) :: more, last)
termination_by byteLength source - offset
decreasing_by omega

/-- The value of an attribute. -/
def attributePiecesAt (source : List Char) (start : Nat) : Guarded (List Piece × Nat) := do
  let rest ← textFrom source start
  if rest = [] then throw ((Cause.endOfInput "attribute value").within start start)
  else if ['\x7b', '\x7b'].isPrefixOf rest then do
    let (e, stop) ← mustacheAt source start
    return ([.mustache e (spanAt source start stop)], stop)
  else if rest.head? == some '"' || rest.head? == some '\'' then do
    let (ps, stop) ← quotedPiecesAt source start (rest.headD '"') (start + 1)
    return (ps, stop)
  else
    let data := rest.takeWhile (!endsValue ·)
    let stop := start + byteLength data
    if data.isEmpty then throw (Cause.malformedAttributeValue.within start (start + 1))
    else return ([.text (String.ofList data) (spanAt source start stop)], stop)

def attributeValueAt (source : List Char) (offset : Nat) : Guarded (AttributeValue × Nat) := do
  let spaced ← skipBlankAt source offset
  let rest ← textFrom source spaced
  if rest.head? == some '=' then do
    let valued ← skipBlankAt source (spaced + 1)
    let (ps, stop) ← attributePiecesAt source valued
    return (.pieces ps, stop)
  else return (.flag, spaced)

/-- The attributes up to the end of a tag, and whether the tag closes itself. -/
def attributesAt (source : List Char) (used : List String) (offset : Nat) :
    Guarded ((List Attribute × Bool) × Nat) := do
  let start ← skipBlankAt source offset
  let rest ← textFrom source start
  if rest = [] then throw ((Cause.endOfInput "'>'").within start start)
  else if ['/', '>'].isPrefixOf rest then return (([], true), start + 2)
  else if rest.head? == some '>' then return (([], false), start + 1)
  else do
    let letters := rest.takeWhile isAttributeNamePart
    let name := String.ofList letters
    let named := start + byteLength letters
    if letters.length = 0 then throw (Cause.malformedAttribute.within start (start + 1))
    else if !letters.head?.any fun x => x.isAlpha || x == '_' then
      throw (Cause.malformedAttribute.within start (start + 1))
    else if used.contains name then throw ((Cause.duplicateAttribute name).within start named)
    else do
      let (value, stop) ← attributeValueAt source named
      let ⟨_⟩ ← onward (byteLength source) offset stop
      let ((more, closed), last) ← attributesAt source (name :: used) stop
      return ((⟨name, value, spanAt source start stop⟩ :: more, closed), last)
termination_by byteLength source - offset
decreasing_by omega

def openingTagAt (source : List Char) (start : Nat) : Guarded (Opening × Nat) := do
  let (letters, named) ← runAt source isTagNamePart (start + 1)
  let ((as, closed), stop) ← attributesAt source [] named
  return (⟨String.ofList letters, as, closed⟩, stop)

/-! ## Copies -/

variable {source : List Char} {c start : Cursor}

theorem runAt_offset (fits : Char → Bool) (h : c.On source) :
    runAt source fits c.offset = pure (c.rest.takeWhile fits, (c.skipWhile fits).offset) := by
  rw [runAt, textFrom_offset h, pure_bind, offset_skipWhile]

/-- The tokens of a tag begin at the second cursor, and a tag that is not closed is to blame as
a whole. -/
theorem copies_tagTokens (hs : start.On source) (h : c.On source) :
    Copies (Lands source) (tagTokens start c) (tagTokensAt source start.offset c.offset) := by
  have closed {s : Span} (hlast : (Token.ofTag c.position c.rest).1.getLast? = some ⟨.tagEnd, s⟩) :
      (Cursor.mk (Token.ofTag c.position c.rest).2.1 (Token.ofTag c.position c.rest).2.2).On
        source := by
    have read := tagTokens_of_tagEnd rfl (by rw [List.getLast?_map, hlast]; rfl) start
    exact (reaches_of_local h (local_tagTokens read)).on
  have place : placeAt source c.offset = pure c.position := placeAt_offset h
  have tokens : tokensAt source .tag 0 c.position =
      pure ((Token.ofTag c.position c.rest).1, (Token.ofTag c.position c.rest).2.1) :=
    tokensAt_eq .tag 0 h
  rw [tagTokensAt, Nat.min_eq_left (offset_le h), place, pure_bind, tokens, pure_bind, tagTokens,
    finish_eq hs]
  dsimp only
  cases last : (Token.ofTag c.position c.rest).1.getLast? with
  | none => exact .throw _
  | some t =>
    obtain ⟨kind, s⟩ := t
    cases kind with
    | tagEnd => exact .pure ⟨rfl, closed last⟩
    | _ => exact .throw _

theorem copies_tagEnd (hs : start.On source) (h : c.On source) :
    Copies (fun x y => y = x.1.offset ∧ x.1.On source) (tagEnd start c)
      (tagEndAt source start.offset c.offset) := by
  rw [tagEnd, tagEndAt]
  refine .bind (copies_tagTokens hs h) ?_
  rintro ⟨tokens, d, hd⟩ _ ⟨rfl, on_stop⟩
  rcases tokens with _ | ⟨t, _ | ⟨u, ts⟩⟩
  · exact .pure ⟨rfl, on_stop⟩
  · exact .pure ⟨rfl, on_stop⟩
  · exact .throw _

/-- Where two marks stand there are two bytes. -/
theorem offset_skip_two {x y : Char} (h : [x, y].isPrefixOf c.rest = true)
    (hx : x.utf8Size = 1) (hy : y.utf8Size = 1) : (c.skip 2).offset = c.offset + 2 := by
  rw [isPrefixOf_pair] at h
  rw [offset_skip_of_take h, byteLength, byteLength, byteLength, hx, hy]

theorem copies_mustache {hne : c.rest ≠ []} (h : c.On source)
    (braces : ['\x7b', '\x7b'].isPrefixOf c.rest = true) :
    Copies (Lands source) (mustache c hne) (mustacheAt source c.offset) := by
  rw [mustache, mustacheAt, ← offset_skip_two braces rfl rfl]
  refine .bind (copies_tagTokens h (h.skip 2).on) ?_
  rintro ⟨tokens, d, hd⟩ _ ⟨rfl, on_stop⟩
  exact .reading _ fun e => .pure ⟨rfl, on_stop⟩

/-- A name after some characters of a tag. -/
theorem runAt_skip (fits : Char → Bool) (n : Nat) (h : c.On source) :
    runAt source fits (c.skip n).offset = pure ((c.rest.drop n).takeWhile fits,
      (c.skip (n + ((c.rest.drop n).takeWhile fits).length)).offset) := by
  rw [runAt_offset fits (h.skip n).on, Cursor.skip_add]
  rfl

/-- The name after the sign of a tag. -/
theorem runAt_braceNamed {x : Char} (h : c.On source) (sees : (braceSign c).sees x = true)
    (hx : x.utf8Size = 1) :
    runAt source isWordPart ((braceSign c).offset + 1) =
      pure (word ((braceSign c).rest.drop 1), (braceNamed c).offset) := by
  rw [← offset_skip_sees sees hx]
  exact runAt_skip isWordPart 1 (h.skip 2).on.skipBlank.on

/-- The second word of another branch. -/
theorem runAt_braceMore (h : (braceNamed c).skipBlank.On source) :
    runAt source isWordPart (braceNamed c).skipBlank.offset =
      pure (word (braceNamed c).skipBlank.rest, (braceMore c).offset) :=
  runAt_offset isWordPart h

theorem copies_braceTag {hne : c.rest ≠ []} (h : c.On source)
    (braces : ['\x7b', '\x7b'].isPrefixOf c.rest = true) :
    Copies (Lands source) (braceTag c hne) (braceTagAt source c.offset) := by
  have sign : (braceSign c).On source := (h.skip 2).on.skipBlank.on
  have named : (braceNamed c).On source := (sign.skip _).on
  have spaced := named.skipBlank.on
  have more : (braceMore c).On source := (spaced.skip _).on
  rw [braceTagAt, ← offset_skip_two braces rfl rfl, skipBlankAt_offset (h.skip 2).on, pure_bind,
    textFrom_offset sign, pure_bind, braceTag]
  dsimp only
  refine .ite (fun hash => ?_) fun _ => .ite (fun colon => ?_) fun _ => .ite (fun slash => ?_)
    fun _ => ?_
  · rw [runAt_braceNamed h hash rfl, pure_bind]
    dsimp only
    refine .ite (fun _ => ?_) fun _ => .ite (fun _ => ?_) fun _ => .throw _
    · refine .bind (copies_tagTokens h named) ?_
      rintro ⟨tokens, d, hd⟩ _ ⟨rfl, on_stop⟩
      exact .reading _ fun e => .pure ⟨rfl, on_stop⟩
    · refine .bind (copies_tagTokens h named) ?_
      rintro ⟨tokens, d, hd⟩ _ ⟨rfl, on_stop⟩
      dsimp only
      rw [spanAt_offset h]
      exact .reading _ fun header => .pure ⟨rfl, on_stop⟩
  · rw [runAt_braceNamed h colon rfl, pure_bind]
    dsimp only
    refine .ite (fun _ => .throw _) fun _ => ?_
    rw [skipBlankAt_offset named, pure_bind, runAt_braceMore spaced, pure_bind]
    dsimp only
    refine .ite (fun _ => ?_) fun _ => ?_
    · refine .bind (copies_tagTokens h more) ?_
      rintro ⟨tokens, d, hd⟩ _ ⟨rfl, on_stop⟩
      exact .reading _ fun e => .pure ⟨rfl, on_stop⟩
    · refine .bind (copies_tagEnd h named) ?_
      rintro ⟨d, hd⟩ _ ⟨rfl, on_stop⟩
      exact .pure ⟨rfl, on_stop⟩
  · rw [runAt_braceNamed h slash rfl, pure_bind]
    refine .bind (copies_tagEnd h named) ?_
    rintro ⟨d, hd⟩ _ ⟨rfl, on_stop⟩
    exact .pure ⟨rfl, on_stop⟩
  · refine .bind (copies_mustache h braces) ?_
    rintro ⟨e, d, hd⟩ _ ⟨rfl, on_stop⟩
    exact .pure ⟨rfl, on_stop⟩

theorem copies_closingTag {hne : c.rest ≠ []} (h : c.On source)
    (marks : ['<', '/'].isPrefixOf c.rest = true) :
    Copies (Lands source) (closingTag c hne) (closingTagAt source c.offset) := by
  have named : ((c.skip 2).skipWhile isTagNamePart).On source := ((h.skip 2).on.skip _).on
  have closed := named.skipBlank.on
  rw [closingTagAt, ← offset_skip_two marks rfl rfl, runAt_offset _ (h.skip 2).on, pure_bind]
  dsimp only
  rw [skipBlankAt_offset named, pure_bind, textFrom_offset closed, pure_bind, closingTag_eq]
  refine .ite (fun sees => ?_) fun _ => .throw _
  exact .pure ⟨congrArg _ (offset_skip_sees sees rfl).symm, (closed.skip 1).on⟩

theorem copies_quotedPieces {quote : Char} (hquote : quote.utf8Size = 1) (hs : start.On source)
    {c : Cursor} (h : c.On source) :
    Copies (Lands source) (quotedPieces start quote c)
      (quotedPiecesAt source start.offset quote c.offset) := by
  have stop : (quotedEnd quote c).On source := (h.skip _).on
  rw [quotedPieces_eq, quotedPiecesAt, charsAt_quoted quote h, pure_bind]
  dsimp only
  rw [textFrom_offset stop, pure_bind, finish_eq hs, spanAt_offset h]
  refine .dite (fun _ => .throw _) fun hne => .ite (fun sees => ?_) fun goes_on => ?_
  · rw [← offset_skip_sees sees hquote]
    exact .pure ⟨rfl, (stop.skip 1).on⟩
  · have braces : ['\x7b', '\x7b'].isPrefixOf (quotedEnd quote c).rest = true := by
      have stops := quotedStops_drop hne
      rw [quotedStops, Bool.or_eq_true] at stops
      exact stops.resolve_left goes_on
    refine .bind (copies_mustache stop braces) ?_
    rintro ⟨e, next, hnext⟩ _ ⟨rfl, on_next⟩
    dsimp only
    rw [onward_eq (further stop on_next hnext), pure_bind, spanAt_offset stop]
    have shorter : next.rest.length < c.rest.length :=
      Nat.lt_of_lt_of_le hnext (Cursor.length_skip_le _ _)
    refine .bind (copies_quotedPieces hquote hs on_next) ?_
    rintro ⟨more, last, hlast⟩ _ ⟨rfl, on_last⟩
    exact .pure ⟨rfl, on_last⟩
termination_by c.rest.length

theorem copies_attributePieces (h : c.On source) :
    Copies (Lands source) (attributePieces c) (attributePiecesAt source c.offset) := by
  rw [attributePieces, attributePiecesAt, textFrom_offset h, pure_bind]
  refine .dite (fun _ => .throw _) fun hne => .ite (fun braces => ?_) fun _ =>
    .ite (fun quoted => ?_) fun _ => ?_
  · refine .bind (copies_mustache h braces) ?_
    rintro ⟨e, d, hd⟩ _ ⟨rfl, on_stop⟩
    dsimp only
    rw [spanAt_offset h]
    exact .pure ⟨rfl, on_stop⟩
  · obtain ⟨quote, hquote, sees⟩ : ∃ quote : Char, quote.utf8Size = 1 ∧ c.sees quote = true := by
      rcases Bool.or_eq_true_iff.mp quoted with sees | sees
      · exact ⟨_, rfl, sees⟩
      · exact ⟨_, rfl, sees⟩
    have first : c.rest.headD '"' = quote := by
      rw [List.headD_eq_head?_getD, beq_iff_eq.mp sees]
      rfl
    rw [first, ← offset_skip_sees sees hquote]
    refine .bind (copies_quotedPieces hquote h (h.skip 1).on) ?_
    rintro ⟨ps, d, hd⟩ _ ⟨rfl, on_stop⟩
    exact .pure ⟨rfl, on_stop⟩
  · have word := offset_skipWhile c (!endsValue ·)
    refine .ite (fun _ => .throw _) fun _ => ?_
    rw [← word, spanAt_offset h]
    exact .pure ⟨rfl, (h.skip _).on⟩

theorem copies_attributeValue (h : c.On source) :
    Copies (Lands source) (attributeValue c) (attributeValueAt source c.offset) := by
  have spaced := h.skipBlank.on
  rw [attributeValue, attributeValueAt, skipBlankAt_offset h, pure_bind, textFrom_offset spaced,
    pure_bind]
  refine .ite (fun sees => ?_) fun _ => .pure ⟨rfl, spaced⟩
  have valued := (spaced.skip 1).on.skipBlank.on
  rw [← offset_skip_sees sees rfl, skipBlankAt_offset (spaced.skip 1).on, pure_bind]
  refine .bind (copies_attributePieces valued) ?_
  rintro ⟨ps, d, hd⟩ _ ⟨rfl, on_stop⟩
  exact .pure ⟨rfl, on_stop⟩

theorem copies_attributes (used : List String) {c : Cursor} (h : c.On source) :
    Copies (fun x y => y = ((x.1, x.2.1), x.2.2.1.offset) ∧ x.2.2.1.On source)
      (attributes used c) (attributesAt source used c.offset) := by
  have start := h.skipBlank.on
  rw [attributes, attributesAt, skipBlankAt_offset h, pure_bind, textFrom_offset start, pure_bind]
  refine .dite (fun _ => .throw _) fun hne => .ite (fun marks => ?_) fun _ =>
    .ite (fun sees => ?_) fun _ => ?_
  · rw [← offset_skip_two marks rfl rfl]
    exact .pure ⟨rfl, (start.skip 2).on⟩
  · rw [← offset_skip_sees sees rfl]
    exact .pure ⟨rfl, (start.skip 1).on⟩
  · have place := offset_skipWhile c.skipBlank isAttributeNamePart
    have named := start.skip (c.skipBlank.rest.takeWhile isAttributeNamePart).length
    refine .dite (fun _ => .throw _) fun hn => .ite (fun _ => .throw _) fun _ =>
      .ite (fun _ => ?_) fun _ => ?_
    · rw [← place]
      exact .throw _
    · rw [← place]
      refine .bind (copies_attributeValue named.on) ?_
      rintro ⟨value, e, he⟩ _ ⟨rfl, on_stop⟩
      have read : c.skipBlank.rest.length ≤ c.rest.length := Cursor.length_skipWhile_le _ _
      have shorter : e.rest.length < c.rest.length :=
        Nat.lt_of_le_of_lt he (Nat.lt_of_lt_of_le
          (Cursor.length_skip_lt hne (Nat.pos_of_ne_zero hn)) read)
      dsimp only
      rw [onward_eq (further h on_stop shorter), pure_bind, spanAt_offset start]
      refine .bind (copies_attributes _ on_stop) ?_
      rintro ⟨more, closed, f, hf⟩ _ ⟨rfl, on_last⟩
      exact .pure ⟨rfl, on_last⟩
termination_by c.rest.length

theorem copies_openingTag {hne : c.rest ≠ []} (h : c.On source) (marks : c.sees '<' = true) :
    Copies (Lands source) (openingTag c hne) (openingTagAt source c.offset) := by
  rw [openingTag, openingTagAt, ← offset_skip_sees marks rfl, runAt_skip _ 1 h, pure_bind]
  refine .bind (copies_attributes [] (h.skip _).on) ?_
  rintro ⟨as, closed, d, hd⟩ _ ⟨rfl, on_stop⟩
  exact .pure ⟨rfl, on_stop⟩

end ByOffset

end PromptTemplate
