import PromptTemplate.Proofs.Expr.Balance
import PromptTemplate.Proofs.Template.Lexemes
import PromptTemplate.Proofs.Token.Tiling

/-!
# Expressions alone and in braces

A text that is an expression is the same expression in braces, where it stands further on, and
the template of these braces has nothing else in it.
-/

namespace PromptTemplate

open Text Expr.Parser

/-! ## Tokens -/

namespace Token

/-- A sign after the opening braces of a tag does not begin an expression. -/
theorem beginsExpr_scan {mode : Mode} {depth : Nat} {c : Char} {more : List Char}
    (hc : c = '#' ∨ c = ':' ∨ c = '/') : (scan mode depth c more).1.beginsExpr = false := by
  have sign (m : Mark) (h : m.chars.head? = some c) : (Kind.mark m).beginsExpr = false := by
    rcases hc with rfl | rfl | rfl <;> cases m <;> first | rfl | cases h
  have read (m : Mark) (h : markAt (c :: more) = some m) : m.chars.head? = some c := by
    obtain ⟨rest, hrest⟩ := chars_markAt h
    cases hm : m.chars with
    | nil => exact absurd hm m.chars_ne_nil
    | cons x xs =>
      rw [hm] at hrest
      exact congrArg some (List.cons.inj hrest).1
  have plain : c ≠ '}' ∧ c.isDigit = false ∧ c ≠ '.' ∧ c ≠ '"' ∧ c ≠ '\'' ∧
      isIdentifierStart c = false ∧ c ≠ '=' ∧ c ≠ '`' := by
    rcases hc with rfl | rfl | rfl <;> decide +kernel
  obtain ⟨brace, digit, point, double, single, letter, arrow, tick⟩ := plain
  simp only [scan, brace, digit, point, double, single, letter, arrow, tick, false_and, or_self,
    Bool.false_eq_true, if_false]
  cases hm : markAt (c :: more) with
  | none => rfl
  | some m => exact sign m (read m hm)

/-- Where the level is known there are no terminators. -/
theorem not_isTerminator_of_level {level m : Nat} {ts : List Token}
    (h : levelAfter? level ts = some m) : ∀ t ∈ ts, t.kind.isTerminator = false := by
  induction ts generalizing level with
  | nil => exact List.forall_mem_nil _
  | cons t ts ih =>
    obtain ⟨ht, -, later⟩ := levelAfter?_cons h
    exact List.forall_mem_cons.mpr ⟨ht, ih later⟩

/-- A kind that is no terminator ends no expression. -/
theorem isEnd_eq_false {k : Kind} (h : k.isTerminator = false) : k.isEnd = false := by
  cases hk : k.isEnd with
  | false => rfl
  | true =>
    rw [isTerminator_of_isEnd hk] at h
    cases h

end Token

/-- The tokens of an expression before the last one, which ends the text. -/
structure Expr.Whole (ts body : List Token) (e : Expr) : Prop where
  ended : ∃ last, ts = body ++ [last] ∧ last.kind.isEnd = true
  before : ts.takeWhile (!·.kind.isEnd) = body
  derives : Derives body e []

namespace Expr

open Token

variable {s : String} {e : Expr}

theorem exists_whole (h : ofText s = .ok e) : ∃ body, Whole (Token.ofText s.toList) body e := by
  have derives := derives_of_ofTokens h
  have level : levelAfter? 0 ((Token.ofText s.toList).takeWhile (!·.kind.isEnd)) = some 0 :=
    level_of_derives derives 0
  have tiles := tiling_scanAll .alone 0 Position.first s.toList (Cursor.on_start s.toList)
  obtain ⟨front, last, hts, ends, -, goes_on⟩ := tiles.terminated
  have hts : Token.ofText s.toList = front ++ [last] := hts
  have hfront : ∀ t ∈ front, (!t.kind.isEnd) = true := by
    intro t ht
    rw [isEnd_eq_false (goes_on t ht)]
    rfl
  rw [hts, List.takeWhile_append_of_pos hfront] at derives level
  cases hlast : last.kind.isEnd with
  | true =>
    have none : [last].takeWhile (!·.kind.isEnd) = [] := by simp [hlast]
    rw [none, List.append_nil] at derives
    refine ⟨front, ⟨last, hts, hlast⟩, ?_, derives⟩
    rw [hts, List.takeWhile_append_of_pos hfront, none, List.append_nil]
  | false =>
    -- An invalid token is no part of an expression.
    have one : [last].takeWhile (!·.kind.isEnd) = [last] := by simp [hlast]
    rw [one] at level
    have valid := not_isTerminator_of_level level last (by simp)
    rw [valid] at ends
    cases ends

theorem Whole.level {ts body : List Token} (h : Whole ts body e) :
    levelAfter? 0 body = some 0 := level_of_derives h.derives 0

/-- The text of an expression has a first character, and it is none of the signs of block tags. -/
theorem Whole.first {cs : List Char} {body : List Token} {p : Position}
    (h : Whole (scanAll .alone 0 p cs).1 body e) :
    ∃ c more, cs.dropWhile isBlank = c :: more ∧ c ≠ '#' ∧ c ≠ ':' ∧ c ≠ '/' := by
  obtain ⟨t, after, rfl, begins⟩ := begins_of_derives h.derives
  obtain ⟨last, hts, -⟩ := h.ended
  cases hcs : cs.dropWhile isBlank with
  | nil =>
    rw [scanAll_blank (List.dropWhile_eq_nil_iff.mp hcs)] at hts
    simp at hts
  | cons c more =>
    obtain ⟨blanks, rfl, hblanks, hc⟩ := exists_blanks hcs
    have kind : t.kind = (scan .alone 0 c more).1 := by
      rw [scanAll_token hblanks hc] at hts
      dsimp only at hts
      split at hts
      · simp at hts
      · exact (congrArg Token.kind (List.cons.inj hts).1).symm
    refine ⟨c, more, rfl, ?_⟩
    rw [kind] at begins
    refine ⟨?_, ?_, ?_⟩ <;> rintro rfl
    · rw [beginsExpr_scan (.inl rfl)] at begins
      cases begins
    · rw [beginsExpr_scan (.inr (.inl rfl))] at begins
      cases begins
    · rw [beginsExpr_scan (.inr (.inr rfl))] at begins
      cases begins

end Expr

/-! ## The template -/

namespace Template

open Text.Cursor

/-- A text in braces. -/
def braced (cs : List Char) : List Char := '\x7b' :: '\x7b' :: (cs ++ ['\x7d', '\x7d'])

variable {s : String} {e : Expr}

/-- The tokens inside the braces are those of the text alone, further on. -/
theorem ofTag_braced (h : Expr.ofText s = .ok e) :
    let c := (Cursor.start (braced s.toList)).skip 2
    ∃ ts, Token.ofTag c.position c.rest = (ts, Position.first.advance (braced s.toList), []) ∧
      (ts.map (·.kind)).getLast? = some .tagEnd ∧
      Expr.ofTokens ts = .ok (e.mapSpans (Span.shift 2)) := by
  obtain ⟨body, whole⟩ := Expr.exists_whole h
  obtain ⟨last, hts, ends⟩ := whole.ended
  obtain ⟨t, reads⟩ := Token.scanAll_tag 2 (Nat.le_refl 1) hts whole.level ends []
  let tokens := body.map (Token.mapSpan (Span.shift 2)) ++ [⟨.tagEnd, t⟩]
  have inside : ∀ u ∈ body.map (Token.mapSpan (Span.shift 2)), (!u.kind.isEnd) = true := by
    intro u hu
    obtain ⟨v, hv, rfl⟩ := List.mem_map.mp hu
    have goes_on := Token.not_isTerminator_of_level whole.level v hv
    rw [Token.mapSpan, Token.isEnd_eq_false goes_on]
    rfl
  have before : tokens.takeWhile (!·.kind.isEnd) =
      ((Token.ofText s.toList).takeWhile (!·.kind.isEnd)).map (Token.mapSpan (Span.shift 2)) := by
    rw [List.takeWhile_append_of_pos inside, whole.before]
    exact List.append_nil _
  refine ⟨tokens, reads, ?_, Expr.ofTokens_mapSpan (Span.shifting 2) before h⟩
  rw [List.map_append, List.getLast?_append]
  rfl

/-- The tag is read to its end, as an expression. -/
theorem readsBrace_braced (h : Expr.ofText s = .ok e) :
    ReadsBrace (Cursor.start (braced s.toList)) (.output (e.mapSpans (Span.shift 2)))
      ⟨Position.first.advance (braced s.toList), []⟩ := by
  obtain ⟨body, whole⟩ := Expr.exists_whole h
  obtain ⟨x, more, first, hash, colon, slash⟩ := whole.first
  obtain ⟨blanks, hblanks, blank, hx⟩ := Token.exists_blanks first
  have sign : (braceSign (Cursor.start (braced s.toList))).rest.head? = some x := by
    have rest : (braceSign (Cursor.start (braced s.toList))).rest =
        (s.toList ++ ['\x7d', '\x7d']).dropWhile isBlank := Cursor.rest_skipWhile _ isBlank
    rw [rest, hblanks, List.append_assoc, List.dropWhile_append_of_pos blank]
    simp [hx]
  have other {y : Char} (hy : x ≠ y) :
      (braceSign (Cursor.start (braced s.toList))).sees y = false := by
    rw [Cursor.sees, sign]
    simp [hy]
  obtain ⟨ts, tokens, last, read⟩ := ofTag_braced h
  have nonempty : (Cursor.start (braced s.toList)).rest ≠ [] := List.cons_ne_nil _ _
  have shorter : ([] : List Char).length < (Cursor.start (braced s.toList)).rest.length :=
    Nat.zero_lt_succ _
  have scanned := tagTokens_of_tagEnd rfl (by rw [tokens]; exact last)
    (Cursor.start (braced s.toList))
  have inside : mustache (Cursor.start (braced s.toList)) nonempty =
      .ok (e.mapSpans (Span.shift 2),
        ⟨⟨Position.first.advance (braced s.toList), []⟩, shorter⟩) := by
    simp only [tokens] at scanned
    rw [mustache, scanned]
    simp only [bind, Except.bind, read]
    rfl
  exact .output (other hash) (other colon) (other slash) inside

/-- The tag is all that there is in the text. -/
theorem nodes_braced (h : Expr.ofText s = .ok e) :
    let c := Cursor.start (braced s.toList)
    let d : Cursor := ⟨Position.first.advance (braced s.toList), []⟩
    nodes Nesting.none c = .ok ([.mustache (e.mapSpans (Span.shift 2)) (c.span d)], none) := by
  intro c d
  have markup : literal c.rest = ([], 0) := literal_markup rfl
  have stays : c.skip (literal c.rest).2 = c := by
    rw [markup]
    rfl
  have brace (c' : Cursor) (same : c' = c) (nonempty : c'.rest ≠ []) :
      ∃ hd, item Nesting.none c' nonempty =
        .ok (.inl (.mustache (e.mapSpans (Span.shift 2)) (c.span d)), ⟨d, hd⟩) := by
    subst same
    have comment : ['/', '*'].isPrefixOf c.rest = false := rfl
    have remark : ['<', '!', '-', '-'].isPrefixOf c.rest = false := rfl
    have braces : ['\x7b', '\x7b'].isPrefixOf c.rest = true := rfl
    obtain ⟨hd, tag⟩ := braceTag_of_readsBrace (readsBrace_braced h) nonempty
    refine ⟨hd, ?_⟩
    rw [item, if_neg (by simp [comment]), if_neg (by simp [remark]), if_pos braces, tag]
    rfl
  have ends : nodes Nesting.none d = .ok ([], none) := by
    rw [nodes]
    simp [literal, Cursor.skip, d]
  have nonempty : (c.skip (literal c.rest).2).rest ≠ [] := by
    rw [stays]
    exact List.cons_ne_nil _ _
  obtain ⟨hd, read⟩ := brace _ stays nonempty
  rw [nodes]
  simp only [nonempty, read, bind, Except.bind, ends]
  simp [markup]
  rfl

/-- A text that begins with braces has no config block. -/
theorem configBlock_braced (cs : List Char) :
    configBlock (Cursor.start (braced cs)) = .ok (none, Cursor.start (braced cs)) := by
  have fence : isFence (Cursor.start (braced cs)).skipBlank.rest = false := rfl
  rw [configBlock]
  simp only [fence, Bool.not_false, if_true]

end Template

open Template

/-- An expression in braces is a template of one tag, which has the expression two characters
further on in its first line. -/
theorem Fragment.ofText_braces {s : String} {e : Expr} (h : Expr.ofText s = .ok e) :
    let source := "\x7b\x7b" ++ s ++ "\x7d\x7d"
    let whole : Span := ⟨0, byteLength source.toList, 1, 1⟩
    Fragment.ofText source = .ok ⟨[.mustache (e.mapSpans (Span.shift 2)) whole], whole⟩ := by
  intro source whole
  have text : source.toList = braced s.toList := by
    simp [source, braced]
  have place : Span.between Position.first (Position.first.advance (braced s.toList)) = whole := by
    rw [Position.advance_first, ← text]
    rfl
  have all : (Cursor.start (braced s.toList)).skip (braced s.toList).length =
      ⟨Position.first.advance (braced s.toList), []⟩ := by
    simp [Cursor.skip, Cursor.start]
  rw [Fragment.ofText, text, Template.read, configBlock_braced]
  simp only [bind, Except.bind, nodes_braced h, all, Cursor.span]
  simp [Cursor.start, place, pure, Except.pure]

/-- The object literal on the second line has a brace in a string, and its own closing brace is
directly before those of the tag. -/
theorem Fragment.ofText_braces_object :
    ∃ s e, s = "1 +\n\x7ba: '\x7d'\x7d" ∧ Expr.ofText s = .ok e ∧ e.span = ⟨0, 12, 1, 1⟩ ∧
      Fragment.ofText ("\x7b\x7b" ++ s ++ "\x7d\x7d") =
        .ok ⟨[.mustache (e.mapSpans (Span.shift 2)) ⟨0, 16, 1, 1⟩], ⟨0, 16, 1, 1⟩⟩ := by
  have span : (Expr.ofText "1 +\n\x7ba: '\x7d'\x7d").toOption.map Expr.span =
      some ⟨0, 12, 1, 1⟩ := by decide +kernel
  cases h : Expr.ofText "1 +\n\x7ba: '\x7d'\x7d" with
  | error err =>
    rw [h] at span
    cases span
  | ok e =>
    rw [h] at span
    exact ⟨_, e, rfl, h, Option.some.inj span, Fragment.ofText_braces h⟩

end PromptTemplate
