import PromptTemplate.Proofs.Run
import PromptTemplate.Proofs.Template.Codes
import PromptTemplate.Proofs.Template.Tags

/-!
# Constructs without an end

A comment, a tag in braces, a quoted value or a tag that the text ends inside of is refused
because the text has ended. The other errors of these readers have other codes.
-/

namespace PromptTemplate

open Text Text.Cursor

namespace Template

/-! ## Constructs -/

inductive BlockKind where
  | conditional
  | loop
deriving DecidableEq

def BlockKind.name : BlockKind → String
  | .conditional => "if"
  | .loop => "each"

/-- What a mark begins and another mark has to end. -/
inductive Construct where
  | config
  | comment (closing : List Char)
  | braces
  | quote (mark : Char)
  /-- The value of an attribute after its equals sign. -/
  | value
  | tag
  | element (name : String)
  | block (kind : BlockKind)
deriving DecidableEq

namespace Construct

/-- What has to come before the end of the text. -/
def wanted : Construct → String
  | .config => "closing '---' of the config block"
  | .comment closing => s!"'{String.ofList closing}'"
  | .braces => "'\x7d\x7d'"
  | .quote mark => s!"closing {mark}"
  | .value => "attribute value"
  | .tag => "'>'"
  | .element name => s!"</{name}>"
  | .block kind => blockClosing kind.name

/-- The error for a construct that begins at a cursor and does not end. A block is not given a
place, and a tag only the end of the text. -/
def unfinished (c : Cursor) (k : Construct) : Error :=
  match k with
  | .block _ => Error.unplaced (.endOfInput k.wanted)
  | .tag => (Cause.endOfInput k.wanted).within c.finish c.finish
  | _ => (Cause.endOfInput k.wanted).within c.offset c.finish

/-- Where that error is found to be in the text. -/
def place (source : List Char) (c : Cursor) : Construct → Span
  | .block _ => Span.none
  | .tag => Span.between (Position.first.advance source) (Position.first.advance source)
  | _ => Span.between c.position (Position.first.advance source)

variable {source : List Char} {c : Cursor}

theorem finish_of_nil (h : c.rest = []) : c.finish = c.offset := by
  rw [finish, h]
  rfl

theorem finish_of_on (h : c.On source) : c.finish = (Position.first.advance source).offset := by
  obtain ⟨front, rfl, hposition⟩ := h
  rw [finish, hposition, Position.advance_append, Position.offset_advance _ c.rest]

theorem locate_unfinished (h : c.On source) (k : Construct) :
    (k.unfinished c).locate source = ⟨.endOfInput k.wanted, k.place source c⟩ := by
  have last : (Position.first.advance source).In source := ⟨source, [], by simp, rfl⟩
  have finish := finish_of_on h
  have le : c.offset ≤ c.finish := Nat.le_add_right _ _
  have at_end (cause : Cause) : (cause.within c.finish c.finish).locate source =
      ⟨cause, Span.between (Position.first.advance source) (Position.first.advance source)⟩ := by
    simp only [Cause.within, Error.within, Error.locate, Error.unplaced, finish, last.ofOffset,
      Nat.max_self]
    rfl
  have from_here (cause : Cause) : (cause.within c.offset c.finish).locate source =
      ⟨cause, Span.between c.position (Position.first.advance source)⟩ := by
    have start : Position.ofOffset source c.offset = c.position := h.position.ofOffset
    simp only [Cause.within, Error.within, Error.locate, Error.unplaced, start,
      Nat.max_eq_left le]
    rw [finish]
    rfl
  have nowhere (cause : Cause) : (Error.unplaced cause).locate source = ⟨cause, Span.none⟩ := by
    have start : Position.ofOffset source 0 = Position.first :=
      Position.In.ofOffset ⟨[], source, rfl, rfl⟩
    rw [Error.locate, show (Error.unplaced cause).span.start = 0 from rfl, start]
    rfl
  cases k with
  | block kind => exact nowhere _
  | tag => exact at_end _
  | config | comment | braces | quote | value | element => exact from_here _

theorem code_unfinished (k : Construct) (c : Cursor) :
    (k.unfinished c).code = .unexpectedEof := by
  cases k <;> rfl

/-- Nothing is left where the value of an attribute should be. -/
theorem unfinished_value (h : c.rest = []) :
    value.unfinished c = (Cause.endOfInput "attribute value").within c.offset c.offset := by
  change (Cause.endOfInput "attribute value").within c.offset c.finish = _
  rw [finish_of_nil h]

/-- Nothing is left where a tag should end. -/
theorem unfinished_tag {d : Cursor} (h : d.rest = []) (same : c.finish = d.finish) :
    tag.unfinished c = (Cause.endOfInput "'>'").within d.offset d.offset := by
  change (Cause.endOfInput "'>'").within c.finish c.finish = _
  rw [same, finish_of_nil h]

end Construct

variable {start c : Cursor} {e : Error}

/-- A step that fails only because of what is not well formed. -/
theorem bind_eof_iff {α β : Type} {r : Except Error α} {f : α → Except Error β}
    (he : e.code = .unexpectedEof) (hf : ∀ a, FailsWith Error.Malformed (f a)) :
    (r >>= f) = .error e ↔ r = .error e := by
  refine bind_eq_error_iff.trans (or_iff_left ?_)
  rintro ⟨a, -, hfa⟩
  have other : e.code = .parseError := hf a e hfa
  rw [he] at other
  cases other

/-! ## Tags in braces -/

/-- The tokens from a cursor on come to the end of the text. -/
def RunsOut (c : Cursor) : Prop :=
  ((Token.ofTag c.position c.rest).1.map (·.kind)).getLast? = some .inputEnd

theorem exists_terminator (mode : Token.Mode) (depth : Nat) (p : Position) (cs : List Char) :
    ∃ t, (Token.scanAll mode depth p cs).1.getLast? = some t ∧ t.kind.isTerminator = true := by
  fun_induction Token.scanAll mode depth p cs with
  | case1 => exact ⟨_, rfl, rfl⟩
  | case2 depth p cs start c more h scanned stop token last => exact ⟨_, rfl, last⟩
  | case3 depth p cs start c more h scanned stop token _ tokens after heq ih =>
    rw [heq] at ih
    obtain ⟨t, found, last⟩ := ih
    refine ⟨t, ?_, last⟩
    rw [List.getLast?_cons, found]
    rfl

theorem tagTokens_eof_iff (he : e.code = .unexpectedEof) :
    tagTokens start c = .error e ↔ RunsOut c ∧ e = Construct.braces.unfinished start := by
  obtain ⟨⟨kind, s⟩, found, last⟩ := exists_terminator .tag 0 c.position c.rest
  have out : RunsOut c ↔ kind = .inputEnd := by
    rw [RunsOut, Token.ofTag, List.getLast?_map, found]
    exact Option.some_inj
  rw [← Token.ofTag] at found
  rw [tagTokens, out]
  simp only [found]
  cases kind with
  | inputEnd =>
    constructor
    · rintro h
      cases h
      exact ⟨rfl, rfl⟩
    · rintro ⟨-, rfl⟩
      rfl
  | tagEnd => simp
  | invalid fault =>
    refine iff_of_false ?_ (by simp)
    rintro h
    cases h
    cases he
  | keyword | mark | string | number | identifier => cases last

theorem tagEnd_eof_iff (he : e.code = .unexpectedEof) :
    tagEnd start c = .error e ↔ RunsOut c ∧ e = Construct.braces.unfinished start := by
  rw [tagEnd, bind_eof_iff he, tagTokens_eof_iff he]
  rintro ⟨ts, d⟩
  dsimp only
  split
  · exact .parseError rfl
  · exact .ok _

theorem mustache_eof_iff {h : c.rest ≠ []} (he : e.code = .unexpectedEof) :
    mustache c h = .error e ↔ RunsOut (c.skip 2) ∧ e = Construct.braces.unfinished c := by
  rw [mustache, bind_eof_iff he, tagTokens_eof_iff he]
  rintro ⟨ts, d, hd⟩
  exact .map (Expr.malformed_ofTokens ts) _

/-- Where the tokens of a tag in braces begin, if its sign and its name are those of a tag. -/
def braceTokens? (c : Cursor) : Option Cursor :=
  let name := word ((braceSign c).rest.drop 1)
  if (braceSign c).sees '#' then
    if name = "if".toList ∨ name = "each".toList then some (braceNamed c) else none
  else if (braceSign c).sees ':' then
    if name ≠ "else".toList then none
    else if word (braceNamed c).skipBlank.rest = "if".toList then some (braceMore c)
    else some (braceNamed c)
  else if (braceSign c).sees '/' then some (braceNamed c)
  else some (c.skip 2)

theorem braceTag_eof_iff {h : c.rest ≠ []} (he : e.code = .unexpectedEof) :
    braceTag c h = .error e ↔
      (∃ t, braceTokens? c = some t ∧ RunsOut t) ∧ e = Construct.braces.unfinished c := by
  have refused {α : Type} {cause : Cause} {s : Span} (hcause : cause.code = .parseError) :
      (.error (cause.on s) : Except Error α) ≠ .error e := by
    rintro h
    cases h
    rw [show (cause.on s).code = .parseError from hcause] at he
    cases he
  have at_tokens {t : Cursor} {P : Prop} :
      RunsOut t ∧ P ↔ (∃ t', some t = some t' ∧ RunsOut t') ∧ P := by
    simp
  rw [braceTag, braceTokens?]
  dsimp only
  split
  · split
    · rename_i name
      rw [if_pos (.inl name), bind_eof_iff he, tagTokens_eof_iff he]
      · exact at_tokens
      · rintro ⟨ts, d, hd⟩
        exact .map (Expr.malformed_ofTokens ts) _
    · split
      · rename_i name
        rw [if_pos (.inr name), bind_eof_iff he, tagTokens_eof_iff he]
        · exact at_tokens
        · rintro ⟨ts, d, hd⟩
          exact .map (EachHeader.malformed_ofTokens ts _) _
      · rename_i first second
        rw [if_neg (not_or.mpr ⟨first, second⟩)]
        exact iff_of_false (refused rfl) (by simp)
  · split
    · split
      · exact iff_of_false (refused rfl) (by simp)
      · split
        · rw [bind_eof_iff he, tagTokens_eof_iff he]
          · exact at_tokens
          · rintro ⟨ts, d, hd⟩
            exact .map (Expr.malformed_ofTokens ts) _
        · rw [map_eq_error_iff, tagEnd_eof_iff he]
          exact at_tokens
    · split
      · rw [map_eq_error_iff, tagEnd_eof_iff he]
        exact at_tokens
      · rw [map_eq_error_iff, mustache_eof_iff he]
        exact at_tokens

/-! ## Comments -/

theorem before?_eq_none_iff {mark cs : List Char} (hmark : mark ≠ []) :
    before? mark cs = none ↔ ¬ mark <:+: cs := by
  induction cs with
  | nil => simp [before?, hmark]
  | cons x cs ih =>
    rw [before?, List.infix_cons_iff, ← List.isPrefixOf_iff_prefix]
    split <;> simp_all

theorem comment_eof_iff {opening closing : List Char} {h : c.rest ≠ []} {ho : 0 < opening.length}
    (hclosing : closing ≠ []) :
    comment opening closing c h ho = .error e ↔ (¬ closing <:+: c.rest.drop opening.length) ∧
      e = (Construct.comment closing).unfinished c := by
  rw [← before?_eq_none_iff hclosing, comment]
  split
  · rename_i none
    rw [none]
    constructor
    · rintro h
      cases h
      exact ⟨rfl, rfl⟩
    · rintro ⟨-, rfl⟩
      rfl
  · rename_i data found
    simp [found]

/-! ## Config blocks -/

/-- A config block begins at a cursor and no later line closes it. -/
def OpenConfig (c : Cursor) : Prop :=
  isFence c.rest = true ∧
    configBody? (c.rest.drop ((c.rest.takeWhile (· ≠ '\n')).length + 1)) = none

theorem configBlock_eof_iff (he : e.code = .unexpectedEof) :
    configBlock c = .error e ↔
      OpenConfig c.skipBlank ∧ e = Construct.config.unfinished c.skipBlank := by
  rw [configBlock, OpenConfig]
  dsimp only
  split
  · rename_i plain
    refine iff_of_false (by simp) ?_
    rintro ⟨⟨fence, -⟩, -⟩
    rw [fence] at plain
    cases plain
  · rename_i fence
    have fence : isFence c.skipBlank.rest = true := by simpa using fence
    split
    · rename_i none
      rw [rest_skip] at none
      constructor
      · rintro h
        cases h
        exact ⟨⟨fence, none⟩, rfl⟩
      · rintro ⟨-, rfl⟩
        rfl
    · rename_i body n found
      rw [rest_skip] at found
      refine iff_of_false ?_ ?_
      · split
        · rintro h
          cases h
          cases he
        · simp
      · rintro ⟨⟨-, none⟩, -⟩
        rw [found] at none
        cases none

/-! ## Opening tags -/

/-- The text ends inside a quoted value that begins at the first cursor and has been read up to
the second. -/
inductive InQuote (start : Cursor) (mark : Char) : Cursor → Construct → Cursor → Prop where
  | quote {c : Cursor} (ended : (quotedEnd mark c).rest = []) :
      InQuote start mark c (.quote mark) start
  | braces {c : Cursor} (more : (quotedEnd mark c).rest ≠ [])
      (goes_on : (quotedEnd mark c).sees mark = false)
      (out : RunsOut ((quotedEnd mark c).skip 2)) :
      InQuote start mark c .braces (quotedEnd mark c)
  | later {c f : Cursor} {k : Construct} {x : Expr} {more : (quotedEnd mark c).rest ≠ []}
      {next : (quotedEnd mark c).Shorter} (goes_on : (quotedEnd mark c).sees mark = false)
      (read : mustache (quotedEnd mark c) more = .ok (x, next))
      (later : InQuote start mark next.1 k f) : InQuote start mark c k f

theorem inQuote_of_quotedPieces {mark : Char} {c : Cursor} (he : e.code = .unexpectedEof)
    (h : quotedPieces start mark c = .error e) :
    ∃ k f, InQuote start mark c k f ∧ e = k.unfinished f := by
  rw [quotedPieces_eq] at h
  split at h
  · rename_i ended
    cases h
    exact ⟨_, _, .quote ended, rfl⟩
  · rename_i more
    split at h
    · cases h
    · rename_i goes_on
      have goes_on : (quotedEnd mark c).sees mark = false := by simpa using goes_on
      rcases bind_eq_error_iff.mp h with h | ⟨⟨x, next, hnext⟩, read, h⟩
      · obtain ⟨out, rfl⟩ := (mustache_eof_iff he).mp h
        exact ⟨_, _, .braces more goes_on out, rfl⟩
      · have shorter : next.rest.length < c.rest.length :=
          Nat.lt_of_lt_of_le hnext (length_skip_le _ _)
        obtain ⟨k, f, inside, rfl⟩ := inQuote_of_quotedPieces he (map_eq_error_iff.mp h)
        exact ⟨k, f, .later goes_on read inside, rfl⟩
termination_by c.rest.length

theorem quotedPieces_of_inQuote {mark : Char} {k : Construct} {f : Cursor}
    (h : InQuote start mark c k f) : quotedPieces start mark c = .error (k.unfinished f) := by
  have code := k.code_unfinished f
  induction h with
  | quote ended =>
    rw [quotedPieces_eq, dif_pos ended]
    rfl
  | braces more goes_on out =>
    have fails := (mustache_eof_iff (h := more) code).mpr ⟨out, rfl⟩
    rw [quotedPieces_eq, dif_neg more, if_neg (by simp [goes_on]), fails]
    rfl
  | @later c f k x more next goes_on read _ ih =>
    rw [quotedPieces_eq, dif_neg more, if_neg (by simp [goes_on]), read]
    exact map_eq_error_iff.mpr (ih code)

theorem InQuote.on {source : List Char} {mark : Char} {k : Construct} {f : Cursor}
    (h : InQuote start mark c k f) (hstart : start.On source) (hc : c.On source) :
    f.On source := by
  induction h with
  | quote => exact hstart
  | braces => exact (hc.skip _).on
  | later _ read _ ih => exact ih (holds_of_mustache (hc.skip _).on read).reaches.on

/-- The text ends inside the value of an attribute that begins at a cursor. -/
inductive InValue (c : Cursor) : Construct → Cursor → Prop where
  | value (ended : c.rest = []) : InValue c .value c
  | braces (front : ['\x7b', '\x7b'] <+: c.rest) (out : RunsOut (c.skip 2)) : InValue c .braces c
  | quoted {mark : Char} {k : Construct} {f : Cursor} (hmark : mark = '"' ∨ mark = '\'')
      (front : c.sees mark = true) (inside : InQuote c mark (c.skip 1) k f) : InValue c k f

theorem InValue.on {source : List Char} {k : Construct} {f : Cursor} (h : InValue c k f)
    (hc : c.On source) : f.On source := by
  cases h with
  | value | braces => exact hc
  | quoted _ _ inside => exact inside.on hc (hc.skip 1).on

theorem headD_of_sees {x y : Char} (h : c.sees x = true) : c.rest.headD y = x := by
  rw [sees, beq_iff_eq] at h
  rw [List.headD_eq_head?_getD, h]
  rfl

theorem inValue_of_attributePieces (he : e.code = .unexpectedEof)
    (h : attributePieces c = .error e) : ∃ k f, InValue c k f ∧ e = k.unfinished f := by
  rw [attributePieces] at h
  split at h
  · rename_i ended
    cases h
    exact ⟨_, _, .value ended, (Construct.unfinished_value ended).symm⟩
  · split at h
    · rename_i front
      obtain ⟨out, rfl⟩ := (mustache_eof_iff he).mp (map_eq_error_iff.mp h)
      exact ⟨_, _, .braces (List.isPrefixOf_iff_prefix.mp front) out, rfl⟩
    · split at h
      · rename_i front
        obtain ⟨mark, hmark, front⟩ :
            ∃ mark, (mark = '"' ∨ mark = '\'') ∧ c.sees mark = true := by
          rcases (Bool.or_eq_true _ _).mp front with front | front
          · exact ⟨_, .inl rfl, front⟩
          · exact ⟨_, .inr rfl, front⟩
        rw [headD_of_sees front] at h
        obtain ⟨k, f, inside, rfl⟩ := inQuote_of_quotedPieces he (map_eq_error_iff.mp h)
        exact ⟨k, f, .quoted hmark front inside, rfl⟩
      · dsimp only at h
        split at h
        · cases h
          cases he
        · cases h

theorem attributePieces_of_inValue {k : Construct} {f : Cursor} (h : InValue c k f) :
    attributePieces c = .error (k.unfinished f) := by
  rw [attributePieces]
  cases h with
  | value ended => rw [dif_pos ended, Construct.unfinished_value ended]
  | braces front out =>
    have some : c.rest ≠ [] := fun none => by simp [none] at front
    rw [dif_neg some, if_pos (List.isPrefixOf_iff_prefix.mpr front), map_eq_error_iff,
      mustache_eof_iff (Construct.code_unfinished .braces c)]
    exact ⟨out, rfl⟩
  | @quoted mark k f hmark front inside =>
    have quoted : (c.sees '"' || c.sees '\'') = true := by
      rcases hmark with rfl | rfl <;> simp [front]
    have other : ¬ ['\x7b', '\x7b'].isPrefixOf c.rest = true := by
      intro braces
      obtain ⟨more, hmore⟩ := List.isPrefixOf_iff_prefix.mp braces
      simp [sees, ← hmore] at quoted
    rw [dif_neg (rest_ne_nil_of_sees front), if_neg other, if_pos quoted, map_eq_error_iff,
      headD_of_sees front]
    exact quotedPieces_of_inQuote inside

/-- Where the value of an attribute is that has one, after its name. -/
def valueAt? (c : Cursor) : Option Cursor :=
  if c.skipBlank.sees '=' then some (c.skipBlank.skip 1).skipBlank else none

theorem on_of_valueAt? {source : List Char} {d : Cursor} (h : valueAt? c = some d)
    (hc : c.On source) : d.On source := by
  rw [valueAt?] at h
  split at h
  · cases h
    exact (hc.skipBlank.skip 1).skipBlank.on
  · cases h

theorem attributeValue_eof_iff (he : e.code = .unexpectedEof) :
    attributeValue c = .error e ↔
      ∃ d k f, valueAt? c = some d ∧ InValue d k f ∧ e = k.unfinished f := by
  rw [attributeValue, valueAt?]
  dsimp only
  split
  · rw [map_eq_error_iff]
    constructor
    · intro h
      obtain ⟨k, f, inside, rfl⟩ := inValue_of_attributePieces he h
      exact ⟨_, k, f, rfl, inside, rfl⟩
    · rintro ⟨d, k, f, ⟨⟩, inside, rfl⟩
      exact attributePieces_of_inValue inside
  · simp

/-- The name of the attribute at a cursor. -/
abbrev attributeName (c : Cursor) : List Char := c.rest.takeWhile isAttributeNamePart

/-- An attribute begins at a cursor, and it is not one of those before it. -/
structure NewAttribute (used : List String) (c : Cursor) : Prop where
  letter : ((attributeName c).head?.any fun x => x.isAlpha || x == '_') = true
  fresh : used.contains (String.ofList (attributeName c)) = false

theorem NewAttribute.exists_cons {used : List String} (h : NewAttribute used c) :
    ∃ x more, c.rest = x :: more ∧ isAttributeNamePart x = true ∧ attributeName c ≠ [] := by
  have letter := h.letter
  rw [attributeName] at *
  cases hrest : c.rest with
  | nil => simp [hrest] at letter
  | cons x more =>
    rw [hrest, List.takeWhile_cons] at letter
    split at letter
    · rename_i part
      exact ⟨x, more, rfl, part, by simp [part]⟩
    · cases letter

/-- A new attribute, and then the attributes after it. -/
theorem attributes_new {used : List String} (h : NewAttribute used c.skipBlank) :
    attributes used c = .error e ↔
      attributeValue (c.skipBlank.skip (attributeName c.skipBlank).length) = .error e ∨
      ∃ v d, attributeValue (c.skipBlank.skip (attributeName c.skipBlank).length) = .ok (v, d) ∧
        attributes (String.ofList (attributeName c.skipBlank) :: used) d.1 = .error e := by
  obtain ⟨x, more, hrest, part, some⟩ := h.exists_cons
  have notSelfClosed : ¬ ['/', '>'].isPrefixOf c.skipBlank.rest = true := by
    rw [hrest]
    intro closed
    obtain ⟨_, hclosed⟩ := List.isPrefixOf_iff_prefix.mp closed
    cases hclosed
    cases part
  have notEnded : ¬ c.skipBlank.sees '>' = true := by
    rw [sees, hrest, beq_iff_eq]
    rintro ended
    cases ended
    cases part
  have named : (attributeName c.skipBlank).length ≠ 0 := by simpa using some
  have fresh := h.fresh
  have letter := h.letter
  rw [attributes, dif_neg (by simp [hrest]), if_neg notSelfClosed, if_neg notEnded]
  dsimp only
  rw [dif_neg named, if_neg (by simp [letter]), if_neg (Bool.eq_false_iff.mp fresh),
    bind_eq_error_iff]
  refine or_congr_right ?_
  constructor
  · rintro ⟨⟨v, d⟩, read, later⟩
    exact ⟨v, d, read, map_eq_error_iff.mp later⟩
  · rintro ⟨v, d, read, later⟩
    exact ⟨(v, d), read, map_eq_error_iff.mpr later⟩

/-- The text ends inside a tag that begins at the first cursor and whose attributes have been
read up to the second. -/
inductive InTag (start : Cursor) : List String → Cursor → Construct → Cursor → Prop where
  | tag {used : List String} {c : Cursor} (ended : c.skipBlank.rest = []) :
      InTag start used c .tag start
  | value {used : List String} {c d f : Cursor} {k : Construct}
      (new : NewAttribute used c.skipBlank)
      (valued : valueAt? (c.skipBlank.skip (attributeName c.skipBlank).length) = some d)
      (inside : InValue d k f) : InTag start used c k f
  | later {used : List String} {c f : Cursor} {k : Construct} {v : AttributeValue}
      {d : (c.skipBlank.skip (attributeName c.skipBlank).length).NoLonger}
      (new : NewAttribute used c.skipBlank)
      (read : attributeValue (c.skipBlank.skip (attributeName c.skipBlank).length) = .ok (v, d))
      (later : InTag start (String.ofList (attributeName c.skipBlank) :: used) d.1 k f) :
      InTag start used c k f

theorem InTag.on {source : List Char} {used : List String} {k : Construct} {f : Cursor}
    (h : InTag start used c k f) (hstart : start.On source) (hc : c.On source) :
    f.On source := by
  induction h with
  | tag => exact hstart
  | value _ valued inside => exact inside.on (on_of_valueAt? valued (hc.skipBlank.skip _).on)
  | later _ read _ ih => exact ih (holds_of_attributeValue (hc.skipBlank.skip _).on read).reaches.on

theorem length_attributes_lt {d : (c.skipBlank.skip (attributeName c.skipBlank).length).NoLonger}
    {used : List String} (h : NewAttribute used c.skipBlank) : d.1.rest.length < c.rest.length := by
  obtain ⟨x, more, hrest, -, some⟩ := h.exists_cons
  have name := length_skip_lt (c := c.skipBlank) (by simp [hrest]) (List.length_pos_iff.mpr some)
  exact Nat.lt_of_le_of_lt d.2 (Nat.lt_of_lt_of_le name (length_skipWhile_le _ _))

/-- Where no new attribute begins, it is the end of the tag that is missing. -/
theorem ended_of_attributes {used : List String} (he : e.code = .unexpectedEof)
    (new : ¬ NewAttribute used c.skipBlank) (h : attributes used c = .error e) :
    c.skipBlank.rest = [] ∧
      e = (Cause.endOfInput "'>'").within c.skipBlank.offset c.skipBlank.offset := by
  rw [attributes] at h
  split at h
  · rename_i ended
    cases h
    exact ⟨ended, rfl⟩
  · split at h
    · cases h
    · split at h
      · cases h
      · dsimp only at h
        split at h
        · cases h
          cases he
        · split at h
          · cases h
            cases he
          · rename_i letter
            split at h
            · cases h
              cases he
            · rename_i fresh
              refine absurd ⟨?_, Bool.eq_false_iff.mpr fresh⟩ new
              simpa using letter

section

variable {source : List Char} {used : List String} (hstart : start.On source)

include hstart

theorem inTag_of_attributes {c : Cursor} {used : List String} (hc : c.On source)
    (he : e.code = .unexpectedEof) (h : attributes used c = .error e) :
    ∃ k f, InTag start used c k f ∧ e = k.unfinished f := by
  by_cases new : NewAttribute used c.skipBlank
  · rcases (attributes_new new).mp h with h | ⟨v, d, read, h⟩
    · obtain ⟨d, k, f, valued, inside, rfl⟩ := (attributeValue_eof_iff he).mp h
      exact ⟨k, f, .value new valued inside, rfl⟩
    · have shorter := length_attributes_lt (d := d) new
      have hd := (holds_of_attributeValue (hc.skipBlank.skip _).on read).reaches.on
      obtain ⟨k, f, inside, rfl⟩ := inTag_of_attributes hd he h
      exact ⟨k, f, .later new read inside, rfl⟩
  · obtain ⟨ended, rfl⟩ := ended_of_attributes he new h
    have finish := Construct.finish_of_on hc.skipBlank.on
    rw [← Construct.finish_of_on hstart] at finish
    exact ⟨_, _, .tag ended, (Construct.unfinished_tag ended finish.symm).symm⟩
termination_by c.rest.length

theorem attributes_of_inTag {k : Construct} {f : Cursor} (hc : c.On source)
    (h : InTag start used c k f) : attributes used c = .error (k.unfinished f) := by
  have code := k.code_unfinished f
  induction h with
  | @tag used c ended =>
    have finish := Construct.finish_of_on hc.skipBlank.on
    rw [← Construct.finish_of_on hstart] at finish
    rw [attributes, dif_pos ended, Construct.unfinished_tag ended finish.symm]
  | value new valued inside =>
    exact (attributes_new new).mpr (.inl ((attributeValue_eof_iff code).mpr
      ⟨_, _, _, valued, inside, rfl⟩))
  | later new read _ ih =>
    have hd := (holds_of_attributeValue (hc.skipBlank.skip _).on read).reaches.on
    exact (attributes_new new).mpr (.inr ⟨_, _, read, ih hd code⟩)

end

/-- Where the attributes of the tag at a cursor begin. -/
abbrev tagNamed (c : Cursor) : Cursor :=
  c.skip (1 + ((c.rest.drop 1).takeWhile isTagNamePart).length)

theorem openingTag_eof_iff {source : List Char} {h : c.rest ≠ []} (hc : c.On source)
    (he : e.code = .unexpectedEof) :
    openingTag c h = .error e ↔ ∃ k f, InTag c [] (tagNamed c) k f ∧ e = k.unfinished f := by
  have named := (hc.skip (1 + ((c.rest.drop 1).takeWhile isTagNamePart).length)).on
  rw [openingTag]
  dsimp only
  rw [map_eq_error_iff]
  constructor
  · exact inTag_of_attributes hc named he
  · rintro ⟨k, f, inside, rfl⟩
    exact attributes_of_inTag hc named inside

end Template

end PromptTemplate
