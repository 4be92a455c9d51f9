import PromptTemplate.Proofs.Expr.Kinds
import PromptTemplate.Proofs.Template.Outline
import PromptTemplate.Proofs.Text.Taking
import PromptTemplate.Proofs.Token.Shielding
import PromptTemplate.Template.Markup

/-!
# Marks are local

A comment, a tag in braces and an opening or a closing tag are the same wherever they stand
and whatever follows them, up to their places.
-/

namespace PromptTemplate.Template

open Text Text.Cursor Expr.Parser

/-! ## Tags in braces -/

section

variable {start c d : Cursor}

/-- A tag has been read if its last token is its closing braces. -/
theorem tagTokens_of_tagEnd {ks : List Token.Kind}
    (hks : (Token.ofTag c.position c.rest).1.map (·.kind) = ks) (hlast : ks.getLast? = some .tagEnd)
    (start : Cursor) :
    tagTokens start c = .ok ((Token.ofTag c.position c.rest).1,
      ⟨⟨(Token.ofTag c.position c.rest).2.1, (Token.ofTag c.position c.rest).2.2⟩,
        Token.length_ofTag_le c.position c.rest⟩) := by
  rw [← hks, List.getLast?_map] at hlast
  obtain ⟨⟨_, s⟩, last, rfl⟩ := Option.map_eq_some_iff.mp hlast
  rw [tagTokens]
  simp only [last]

theorem getLast?_of_tagTokens {r : List Token × c.NoLonger} (hread : tagTokens start c = .ok r) :
    (((Token.ofTag c.position c.rest).1).map (·.kind)).getLast? = some .tagEnd := by
  rw [tagTokens] at hread
  rw [List.getLast?_map]
  split at hread
  · rename_i hlast
    rw [hlast]
    rfl
  · cases hread
  · cases hread

theorem local_tagTokens {ts : List Token} {h : d.rest.length ≤ c.rest.length}
    (hread : tagTokens start c = .ok (ts, ⟨d, h⟩)) :
    Local c d fun c' d' => c'.skipBlank.rest.head? = c.skipBlank.rest.head? ∧
      ∀ start', ∃ ts' h', tagTokens start' c' = .ok (ts', ⟨d', h'⟩) ∧ SameKinds ts ts' := by
  have last := getLast?_of_tagTokens hread
  rw [tagTokens_of_tagEnd rfl last] at hread
  cases hread
  obtain ⟨inner, hrest, hposition, reads⟩ := Token.exists_scanAll last
  refine ⟨inner ++ ['}', '}'], by simp, ⟨?_, hposition⟩, fun c' more hc' => ?_⟩
  · rw [List.append_assoc]
    exact hrest
  · have rest : c'.rest = inner ++ '}' :: '}' :: more := by
      rw [hc', List.append_assoc]
      rfl
    obtain ⟨kinds, after⟩ := reads c'.position more
    rw [← rest] at kinds after
    refine ⟨⟨(Token.ofTag c'.position c'.rest).2.1, (Token.ofTag c'.position c'.rest).2.2⟩,
      congrArg Prod.snd after, ?_, fun start' => ?_⟩
    · have first (rest : List Char) : ((inner ++ '}' :: '}' :: rest).dropWhile isBlank).head? =
          (inner.dropWhile isBlank ++ ['}']).head? := by
        rw [Token.dropWhile_stop (by decide)]
        cases inner.dropWhile isBlank <;> rfl
      rw [skipBlank, skipBlank, rest_skipWhile, rest_skipWhile, rest, hrest, first, first]
    · exact ⟨_, _, tagTokens_of_tagEnd kinds last start', kinds⟩

theorem head?_of_short {r : c.NoLonger} {ts : List Token} (hread : tagTokens start c = .ok (ts, r))
    (short : ts.length < 2) : c.skipBlank.rest.head? = some '}' := by
  have last := getLast?_of_tagTokens hread
  rw [tagTokens_of_tagEnd rfl last] at hread
  cases hread
  rw [skipBlank, rest_skipWhile]
  apply Token.head?_of_kinds (p := c.position)
  rw [Token.ofTag] at short last
  rcases hts : (Token.scanAll .tag 0 c.position c.rest).1 with _ | ⟨t, _ | ⟨u, ts⟩⟩
  · simp [hts] at last
  · simpa [hts] using last
  · simp only [hts, List.length_cons] at short
    omega

theorem local_tagEnd {h : d.rest.length ≤ c.rest.length} (hread : tagEnd start c = .ok ⟨d, h⟩) :
    Local c d fun c' d' => c'.skipBlank.rest.head? = some '}' ∧
      ∀ start', ∃ h', tagEnd start' c' = .ok ⟨d', h'⟩ := by
  rw [tagEnd] at hread
  cases htokens : tagTokens start c with
  | error e =>
    rw [htokens] at hread
    cases hread
  | ok r =>
    obtain ⟨ts, e, he⟩ := r
    rw [htokens] at hread
    have short : ts.length < 2 ∧ e = d := by
      rcases ts with _ | ⟨t, _ | ⟨u, ts⟩⟩ <;> cases hread <;> exact ⟨by simp, rfl⟩
    obtain ⟨short, rfl⟩ := short
    refine (local_tagTokens htokens).imp ?_
    rintro c' d' ⟨first, reads⟩
    refine ⟨first.trans (head?_of_short htokens short), fun start' => ?_⟩
    obtain ⟨ts', h', htokens', same⟩ := reads start'
    have short' : ts'.length < 2 := by
      rw [← List.length_map (f := (·.kind)), same, List.length_map]
      exact short
    refine ⟨h', ?_⟩
    rw [tagEnd, htokens']
    rcases ts' with _ | ⟨t, _ | ⟨u, ts'⟩⟩
    · rfl
    · rfl
    · simp only [List.length_cons] at short'
      omega

theorem local_mustache {e : Expr} {hc : c.rest ≠ []} {h : d.rest.length < c.rest.length}
    (hread : mustache c hc = .ok (e, ⟨d, h⟩)) :
    Local c d fun c' d' => c'.rest.take 2 = c.rest.take 2 ∧
      (c'.skip 2).skipBlank.rest.head? = (c.skip 2).skipBlank.rest.head? ∧
      ∀ hc', ∃ e' h', mustache c' hc' = .ok (e', ⟨d', h'⟩) ∧ e'.bare = e.bare := by
  rw [mustache] at hread
  cases htokens : tagTokens c (c.skip 2) with
  | error fault =>
    rw [htokens] at hread
    cases hread
  | ok r =>
    obtain ⟨ts, d, hd⟩ := r
    cases hexpr : Expr.ofTokens ts with
    | error fault =>
      simp [htokens, hexpr, bind, Except.bind] at hread
    | ok e =>
      simp only [htokens, hexpr, bind, Except.bind, pure, Except.pure] at hread
      cases hread
      refine (local_tagTokens htokens).skip.imp fun c' d' reads => ?_
      obtain ⟨front, first, reads⟩ := reads
      refine ⟨front, first, fun hc' => ?_⟩
      obtain ⟨ts', h', htokens', same⟩ := reads c'
      obtain ⟨e', hexpr', he'⟩ := Expr.agrees_ofTokens same e hexpr
      refine ⟨e', Nat.lt_of_le_of_lt h' (Cursor.length_skip_lt hc' (by omega)), ?_, he'⟩
      rw [mustache]
      simp only [htokens', hexpr', bind, Except.bind, pure, Except.pure]

/-! ## Comments and closing tags -/

/-- What stands before a mark stands there whatever follows the mark. -/
theorem before?_append {mark cs data : List Char} (h : before? mark cs = some data) :
    ∃ rest, cs = data ++ mark ++ rest ∧
      ∀ more, before? mark (data ++ mark ++ more) = some data := by
  induction cs generalizing data with
  | nil =>
    rw [before?] at h
    split at h
    · rename_i empty
      cases h
      obtain rfl : mark = [] := List.isEmpty_iff.mp empty
      refine ⟨[], rfl, fun more => ?_⟩
      cases more <;> rfl
    · cases h
  | cons c cs ih =>
    rw [before?] at h
    split at h
    · rename_i front
      cases h
      obtain ⟨rest, hrest⟩ := List.isPrefixOf_iff_prefix.mp front
      refine ⟨rest, hrest.symm, fun more => ?_⟩
      cases hmore : [] ++ mark ++ more with
      | nil =>
        have empty : mark = [] := (List.append_eq_nil_iff.mp hmore).1
        rw [empty]
        rfl
      | cons d ds =>
        rw [before?, if_pos]
        rw [← hmore]
        exact List.isPrefixOf_iff_prefix.mpr (List.prefix_append mark more)
    · rename_i other
      obtain ⟨later, hlater, rfl⟩ := Option.map_eq_some_iff.mp h
      obtain ⟨rest, rfl, again⟩ := ih hlater
      refine ⟨rest, rfl, fun more => ?_⟩
      rw [List.cons_append, List.cons_append, before?, if_neg, again]
      · rfl
      · intro front
        apply other
        have long : mark.length ≤ (c :: (later ++ mark)).length := by
          simp only [List.length_cons, List.length_append]
          omega
        have inside : mark <+: c :: (later ++ mark) :=
          List.prefix_of_prefix_length_le (List.isPrefixOf_iff_prefix.mp front)
            (List.prefix_append (c :: (later ++ mark)) more) long
        exact List.isPrefixOf_iff_prefix.mpr (inside.trans (List.prefix_append _ rest))

theorem comment_of_before? {opening closing data : List Char} (ho : 0 < opening.length)
    (hdata : before? closing (c.skip opening.length).rest = some data) (hc : c.rest ≠ []) :
    ∃ codes s h, comment opening closing c hc ho = .ok (.comment (String.ofList data) codes s,
      ⟨(c.skip opening.length).skip (data.length + closing.length), h⟩) := by
  have shorter := Cursor.length_skip_lt (n := opening.length + (data.length + closing.length)) hc
    (by omega)
  rw [Cursor.skip_add] at shorter
  refine ⟨ignoredCodes data, c.span ((c.skip opening.length).skip (data.length + closing.length)),
    shorter, ?_⟩
  rw [Cursor.rest_skip] at hdata
  rw [comment]
  simp only [hdata, Nat.add_assoc, Cursor.skip_add]

theorem local_comment {opening closing : List Char} {a : Node} {hc : c.rest ≠ []}
    {ho : 0 < opening.length} (hclosing : 0 < closing.length)
    {h : d.rest.length < c.rest.length}
    (hread : comment opening closing c hc ho = .ok (a, ⟨d, h⟩)) :
    Local c d fun c' d' => c'.rest.take opening.length = c.rest.take opening.length ∧
      ∀ hc', ∃ data codes s h', comment opening closing c' hc' ho =
        .ok (.comment data codes s, ⟨d', h'⟩) := by
  cases hdata : before? closing (c.skip opening.length).rest with
  | none =>
    rw [Cursor.rest_skip] at hdata
    rw [comment] at hread
    simp [hdata] at hread
  | some data =>
    obtain ⟨codes, s, _, found⟩ := comment_of_before? ho hdata hc
    rw [found] at hread
    cases hread
    obtain ⟨rest, hrest, again⟩ := before?_append hdata
    have length : (data ++ closing).length = data.length + closing.length := List.length_append
    have enough : data.length + closing.length ≤ (c.skip opening.length).rest.length := by
      rw [hrest, List.length_append, length]
      omega
    refine (Local.taken _ (by omega) enough).skip.imp ?_
    rintro c' d' ⟨front, same, rfl⟩
    refine ⟨front, fun hc' => ?_⟩
    rw [hrest, List.take_left' length] at same
    have found' : before? closing (c'.skip opening.length).rest = some data := by
      rw [← List.take_append_drop (data.length + closing.length) (c'.skip opening.length).rest,
        same, again]
    obtain ⟨codes', s', h', found'⟩ := comment_of_before? ho found' hc'
    exact ⟨_, codes', s', h', found'⟩

/-- Where the name of a closing tag and the blanks after it end. -/
def closingEnd (c : Cursor) : Cursor := ((c.skip 2).skipWhile isTagNamePart).skipBlank

theorem length_closingEnd_lt (hc : c.rest ≠ []) :
    ((closingEnd c).skip 1).rest.length < c.rest.length := by
  have opened : (c.skip 2).rest.length < c.rest.length := Cursor.length_skip_lt hc (by omega)
  have named := (c.skip 2).length_skipWhile_le isTagNamePart
  have spaced := ((c.skip 2).skipWhile isTagNamePart).length_skipWhile_le isBlank
  have closed := (closingEnd c).length_skip_le 1
  rw [closingEnd] at *
  rw [skipBlank] at *
  omega

theorem closingTag_eq (hc : c.rest ≠ []) :
    let letters := (c.skip 2).rest.takeWhile isTagNamePart
    closingTag c hc =
      if (closingEnd c).sees '>' then
        .ok (String.ofList letters, ⟨(closingEnd c).skip 1, length_closingEnd_lt hc⟩)
      else .error ((Cause.malformedClosingTag (String.ofList letters)).on
        (c.span ((c.skip 2).skipWhile isTagNamePart))) := by
  have named : (c.skip 2).skipWhile isTagNamePart =
      c.skip (2 + ((c.rest.drop 2).takeWhile isTagNamePart).length) := (c.skip_add _ _).symm
  rw [closingTag]
  simp only [closingEnd, named]
  split <;> rfl

theorem local_closingTag {name : String} {hc : c.rest ≠ []} {h : d.rest.length < c.rest.length}
    (hread : closingTag c hc = .ok (name, ⟨d, h⟩)) :
    Local c d fun c' d' => c'.rest.take 2 = c.rest.take 2 ∧
      (c'.rest.drop 2).takeWhile isTagNamePart = (c.rest.drop 2).takeWhile isTagNamePart ∧
      ∀ hc', ∃ h', closingTag c' hc' = .ok (name, ⟨d', h'⟩) := by
  rw [closingTag_eq] at hread
  split at hread
  · rename_i closed
    cases hread
    refine (Local.skipWhile (Local.skipBlank (Local.sees closed))).skip.imp ?_
    rintro c' d' ⟨front, hname, closed', rfl⟩
    refine ⟨front, hname, fun hc' => ⟨length_closingEnd_lt hc', ?_⟩⟩
    have again := closingTag_eq hc'
    rw [hname] at again
    exact again.trans (if_pos closed')
  · cases hread

/-! ## What stands in braces -/

/-- The same tag without the places that it was read from. -/
def BraceTag.bare : BraceTag → BraceTag
  | .output e => .output e.bare
  | .ifOpening e => .ifOpening e.bare
  | .eachOpening header => .eachOpening header.bare
  | .otherwise e => .otherwise (e.map Expr.bare)
  | .closing name => .closing name

/-- Where the sign of a tag in braces stands, if there is one. -/
abbrev braceSign (c : Cursor) : Cursor := (c.skip 2).skipBlank

/-- Where the name after the sign of a tag in braces ends. -/
abbrev braceNamed (c : Cursor) : Cursor :=
  (braceSign c).skip (1 + (word ((braceSign c).rest.drop 1)).length)

/-- Where the second word of another branch with a condition ends. -/
abbrev braceMore (c : Cursor) : Cursor :=
  (braceNamed c).skipBlank.skip (word (braceNamed c).skipBlank.rest).length

theorem braceNamed_eq (c : Cursor) :
    braceNamed c = ((braceSign c).skip 1).skipWhile isWordPart :=
  (braceSign c).skip_add _ _

/-- What is read after the name of a tag in braces is read after its opening braces, its sign
and its name. -/
theorem local_braceNamed {reads : Cursor → Cursor → Prop} (h : Local (braceNamed c) d reads) :
    Local c d fun c' d' => c'.rest.take 2 = c.rest.take 2 ∧
      (∀ x, (braceSign c').sees x = (braceSign c).sees x) ∧
      word ((braceSign c').rest.drop 1) = word ((braceSign c).rest.drop 1) ∧
      reads (braceNamed c') d' := by
  rw [braceNamed_eq] at h
  refine (Local.skipBlank (Local.head (Local.skip (Local.skipWhile h)))).skip.imp ?_
  rintro c' d' ⟨front, first, -, name, hreads⟩
  rw [← braceNamed_eq] at hreads
  refine ⟨front, fun x => ?_, name, hreads⟩
  rw [Cursor.sees, Cursor.sees]
  exact congrArg (· == some x) first

/-- How a tag in braces is read that is none of an expression alone. -/
inductive ReadsBrace (c : Cursor) : BraceTag → Cursor → Prop
  | output {e d hc h} (hash : (braceSign c).sees '#' = false)
      (colon : (braceSign c).sees ':' = false) (slash : (braceSign c).sees '/' = false)
      (read : mustache c hc = .ok (e, ⟨d, h⟩)) : ReadsBrace c (.output e) d
  | ifOpening {ts e d h} (hash : (braceSign c).sees '#' = true)
      (name : word ((braceSign c).rest.drop 1) = "if".toList)
      (tokens : tagTokens c (braceNamed c) = .ok (ts, ⟨d, h⟩))
      (read : Expr.ofTokens ts = .ok e) : ReadsBrace c (.ifOpening e) d
  | eachOpening {ts header d h} (hash : (braceSign c).sees '#' = true)
      (name : word ((braceSign c).rest.drop 1) = "each".toList)
      (tokens : tagTokens c (braceNamed c) = .ok (ts, ⟨d, h⟩))
      (read : EachHeader.ofTokens ts (c.span d) = .ok header) :
      ReadsBrace c (.eachOpening header) d
  | elseIf {ts e d h} (colon : (braceSign c).sees ':' = true)
      (name : word ((braceSign c).rest.drop 1) = "else".toList)
      (more : word (braceNamed c).skipBlank.rest = "if".toList)
      (tokens : tagTokens c (braceMore c) = .ok (ts, ⟨d, h⟩))
      (read : Expr.ofTokens ts = .ok e) : ReadsBrace c (.otherwise (some e)) d
  | otherwise {d h} (colon : (braceSign c).sees ':' = true)
      (name : word ((braceSign c).rest.drop 1) = "else".toList)
      (more : word (braceNamed c).skipBlank.rest ≠ "if".toList)
      (tokens : tagEnd c (braceNamed c) = .ok ⟨d, h⟩) : ReadsBrace c (.otherwise none) d
  | closing {d h} (slash : (braceSign c).sees '/' = true)
      (tokens : tagEnd c (braceNamed c) = .ok ⟨d, h⟩) :
      ReadsBrace c (.closing (String.ofList (word ((braceSign c).rest.drop 1)))) d

theorem readsBrace_of_braceTag {t : BraceTag} {hc : c.rest ≠ []}
    {h : d.rest.length < c.rest.length} (hread : braceTag c hc = .ok (t, ⟨d, h⟩)) :
    ReadsBrace c t d := by
  rw [braceTag] at hread
  split at hread
  · rename_i hash
    split at hread
    · rename_i hname
      obtain ⟨⟨ts, d, hd⟩, htokens, hread⟩ := ok_of_bind hread
      obtain ⟨e, hexpr, hread⟩ := ok_of_bind hread
      cases hread
      exact .ifOpening hash hname htokens hexpr
    · split at hread
      · rename_i hname
        obtain ⟨⟨ts, d, hd⟩, htokens, hread⟩ := ok_of_bind hread
        obtain ⟨header, hheader, hread⟩ := ok_of_bind hread
        cases hread
        exact .eachOpening hash hname htokens hheader
      · cases hread
  · rename_i hash
    split at hread
    · rename_i colon
      split at hread
      · cases hread
      · rename_i hname
        dsimp only at hread
        split at hread
        · rename_i hmore
          obtain ⟨⟨ts, d, hd⟩, htokens, hread⟩ := ok_of_bind hread
          obtain ⟨e, hexpr, hread⟩ := ok_of_bind hread
          cases hread
          exact .elseIf colon (Decidable.of_not_not hname) hmore htokens hexpr
        · rename_i hmore
          obtain ⟨⟨d, hd⟩, htokens, hread⟩ := ok_of_bind hread
          cases hread
          exact .otherwise colon (Decidable.of_not_not hname) hmore htokens
    · rename_i colon
      split at hread
      · rename_i slash
        obtain ⟨⟨d, hd⟩, htokens, hread⟩ := ok_of_bind hread
        cases hread
        exact .closing slash htokens
      · rename_i slash
        obtain ⟨⟨e, d, hd⟩, htokens, hread⟩ := ok_of_bind hread
        cases hread
        exact .output (Bool.eq_false_iff.mpr hash) (Bool.eq_false_iff.mpr colon)
          (Bool.eq_false_iff.mpr slash) htokens

theorem rest_ne_nil_of_sees {x : Char} (h : c.sees x = true) : c.rest ≠ [] := by
  rintro none
  simp [Cursor.sees, none] at h

theorem sees_other {x y : Char} (h : c.sees x = true) (hxy : x ≠ y) : c.sees y = false := by
  rw [Cursor.sees, beq_iff_eq] at h
  rw [Cursor.sees, h]
  simpa using hxy

theorem length_braceNamed_lt (hc : c.rest ≠ []) :
    (braceNamed c).rest.length < c.rest.length := by
  have opened : (c.skip 2).rest.length < c.rest.length := Cursor.length_skip_lt hc (by omega)
  have spaced : (braceSign c).rest.length ≤ (c.skip 2).rest.length :=
    (c.skip 2).length_skipWhile_le isBlank
  exact Nat.lt_of_le_of_lt (Nat.le_trans ((braceSign c).length_skip_le _) spaced) opened

theorem braceTag_of_readsBrace {t : BraceTag} (h : ReadsBrace c t d) (hc : c.rest ≠ []) :
    ∃ hd, braceTag c hc = .ok (t, ⟨d, hd⟩) := by
  have shorter := length_braceNamed_lt hc
  cases h with
  | output hash colon slash read =>
    rename_i hd
    refine ⟨hd, ?_⟩
    rw [braceTag]
    simp only [hash, colon, slash, read]
    rfl
  | ifOpening hash name tokens read =>
    rename_i hd
    refine ⟨Nat.lt_of_le_of_lt hd shorter, ?_⟩
    rw [braceTag]
    simp only [hash, name, if_true]
    rw [tokens]
    simp only [bind, Except.bind, read]
    rfl
  | eachOpening hash name tokens read =>
    rename_i hd
    have other : "each".toList ≠ "if".toList := by decide
    refine ⟨Nat.lt_of_le_of_lt hd shorter, ?_⟩
    rw [braceTag]
    simp only [hash, name, other, if_true, if_false]
    rw [tokens]
    simp only [bind, Except.bind, read]
    rfl
  | elseIf colon name more tokens read =>
    rename_i hd
    have hash := sees_other colon (show ':' ≠ '#' by decide)
    have shorter : (braceMore c).rest.length < c.rest.length :=
      Nat.lt_of_le_of_lt (Nat.le_trans (length_skip_le _ _) (length_skipWhile_le _ _)) shorter
    refine ⟨Nat.lt_of_le_of_lt hd shorter, ?_⟩
    rw [braceTag, if_neg (by rw [hash]; decide), if_pos colon, if_neg (not_not_intro name)]
    dsimp only
    rw [if_pos more, tokens]
    simp only [bind, Except.bind, read]
    rfl
  | otherwise colon name more tokens =>
    rename_i hd
    have hash := sees_other colon (show ':' ≠ '#' by decide)
    refine ⟨Nat.lt_of_le_of_lt hd shorter, ?_⟩
    rw [braceTag, if_neg (by rw [hash]; decide), if_pos colon, if_neg (not_not_intro name)]
    dsimp only
    rw [if_neg more, tokens]
    rfl
  | closing slash tokens =>
    rename_i hd
    have hash := sees_other slash (show '/' ≠ '#' by decide)
    have colon := sees_other slash (show '/' ≠ ':' by decide)
    refine ⟨Nat.lt_of_le_of_lt hd shorter, ?_⟩
    rw [braceTag]
    simp only [hash, colon, slash, if_true, Bool.false_eq_true, if_false]
    rw [tokens]
    rfl

theorem local_readsBrace {t : BraceTag} (h : ReadsBrace c t d) :
    Local c d fun c' d' => c'.rest.take 2 = c.rest.take 2 ∧
      (c'.rest ≠ [] → ∃ t', ReadsBrace c' t' d' ∧ t'.bare = t.bare) := by
  cases h with
  | output hash colon slash read =>
    refine (local_mustache read).imp ?_
    rintro c' d' ⟨front, first, reads⟩
    have same (x : Char) : (braceSign c').sees x = (braceSign c).sees x :=
      congrArg (· == some x) first
    refine ⟨front, fun hc' => ?_⟩
    obtain ⟨e', h', hread', he'⟩ := reads hc'
    rw [← same] at hash colon slash
    exact ⟨_, .output hash colon slash hread', congrArg BraceTag.output he'⟩
  | ifOpening hash name tokens read =>
    refine (local_braceNamed (local_tagTokens tokens)).imp ?_
    rintro c' d' ⟨front, same, name', -, reads⟩
    obtain ⟨ts', h', tokens', kinds⟩ := reads c'
    obtain ⟨e', read', he'⟩ := Expr.agrees_ofTokens kinds _ read
    rw [← same] at hash
    rw [← name'] at name
    exact ⟨front, fun _ => ⟨_, .ifOpening hash name tokens' read',
      congrArg BraceTag.ifOpening he'⟩⟩
  | eachOpening hash name tokens read =>
    refine (local_braceNamed (local_tagTokens tokens)).imp ?_
    rintro c' d' ⟨front, same, name', -, reads⟩
    obtain ⟨ts', h', tokens', kinds⟩ := reads c'
    obtain ⟨header', read', hheader'⟩ :=
      EachHeader.agrees_ofTokens _ (c'.span d') kinds _ read
    rw [← same] at hash
    rw [← name'] at name
    exact ⟨front, fun _ => ⟨_, .eachOpening hash name tokens' read',
      congrArg BraceTag.eachOpening hheader'⟩⟩
  | elseIf colon name more tokens read =>
    have spaced : Local (braceNamed c).skipBlank d _ := Local.skipWhile (local_tagTokens tokens)
    refine (local_braceNamed (Local.skipBlank spaced)).imp ?_
    rintro c' d' ⟨front, same, name', more', -, reads⟩
    obtain ⟨ts', h', tokens', kinds⟩ := reads c'
    obtain ⟨e', read', he'⟩ := Expr.agrees_ofTokens kinds _ read
    rw [← same] at colon
    rw [← name'] at name
    exact ⟨front, fun _ => ⟨_, .elseIf colon name (more'.trans more) tokens' read',
      congrArg (BraceTag.otherwise ∘ some) he'⟩⟩
  | otherwise colon name more tokens =>
    refine (local_braceNamed (local_tagEnd tokens)).imp ?_
    rintro c' d' ⟨front, same, name', closed, reads⟩
    obtain ⟨h', tokens'⟩ := reads c'
    rw [← same] at colon
    rw [← name'] at name
    have more' : word (braceNamed c').skipBlank.rest ≠ "if".toList := by
      obtain ⟨rest, hrest⟩ := List.head?_eq_some_iff.mp closed
      have none : word ('}' :: rest) = [] := List.takeWhile_cons_of_neg (by decide)
      rw [hrest, none]
      decide
    exact ⟨front, fun _ => ⟨_, .otherwise colon name more' tokens', rfl⟩⟩
  | closing slash tokens =>
    refine (local_braceNamed (local_tagEnd tokens)).imp ?_
    rintro c' d' ⟨front, same, name', -, reads⟩
    obtain ⟨h', tokens'⟩ := reads c'
    rw [← same] at slash
    refine ⟨front, fun _ => ⟨_, .closing slash tokens', ?_⟩⟩
    rw [name']

theorem local_braceTag {t : BraceTag} {hc : c.rest ≠ []} {h : d.rest.length < c.rest.length}
    (hread : braceTag c hc = .ok (t, ⟨d, h⟩)) :
    Local c d fun c' d' => c'.rest.take 2 = c.rest.take 2 ∧
      ∀ hc', ∃ t' h', braceTag c' hc' = .ok (t', ⟨d', h'⟩) ∧ t'.bare = t.bare := by
  refine (local_readsBrace (readsBrace_of_braceTag hread)).imp ?_
  rintro c' d' ⟨front, reads⟩
  refine ⟨front, fun hc' => ?_⟩
  obtain ⟨t', ht', same⟩ := reads hc'
  obtain ⟨h', hread'⟩ := braceTag_of_readsBrace ht' hc'
  exact ⟨t', h', hread', same⟩

/-! ## Attributes -/

theorem head?_of_take {n : Nat} {cs cs' : List Char} (h : cs'.take (n + 1) = cs.take (n + 1)) :
    cs'.head? = cs.head? := by
  simpa [List.head?_take] using congrArg List.head? h

theorem isPrefixOf_pair (x y : Char) (cs : List Char) :
    [x, y].isPrefixOf cs = true ↔ cs.take 2 = [x, y] := by
  rw [List.isPrefixOf_iff_prefix, List.prefix_iff_eq_take, eq_comm]
  rfl

theorem local_pair {x y : Char} {c : Cursor} (h : [x, y].isPrefixOf c.rest = true) :
    Local c (c.skip 2) fun c' d' => [x, y].isPrefixOf c'.rest = true ∧ d' = c'.skip 2 := by
  rw [isPrefixOf_pair] at h
  have enough : 2 ≤ c.rest.length := by
    have := congrArg List.length h
    simp only [List.length_take, List.length_cons, List.length_nil] at this
    omega
  refine (Local.taken c (by decide) enough).imp ?_
  rintro c' d' ⟨front, hd'⟩
  rw [isPrefixOf_pair, front, h]
  exact ⟨rfl, hd'⟩

/-- Whether the text of a quoted value stops. -/
def quotedStops (quote : Char) (cs : List Char) : Bool :=
  cs.head? == some quote || ['\x7b', '\x7b'].isPrefixOf cs

/-- The text of a quoted value up to its quote or a tag in braces. -/
def quotedText (quote : Char) : List Char → List Char := quotedPieces.run (quotedStops quote)

theorem quotedText_cons (quote x : Char) (cs : List Char) :
    quotedText quote (x :: cs) =
      if quotedStops quote (x :: cs) then [] else x :: quotedText quote cs := rfl

theorem quotedStops_drop {quote : Char} {cs : List Char}
    (h : cs.drop (quotedText quote cs).length ≠ []) :
    quotedStops quote (cs.drop (quotedText quote cs).length) = true := by
  induction cs with
  | nil => exact absurd rfl h
  | cons x cs ih =>
    rw [quotedText_cons] at h ⊢
    split
    · assumption
    · rename_i goes_on
      rw [if_neg goes_on] at h
      exact ih h

theorem take_quotedText (quote : Char) (cs : List Char) :
    cs.take (quotedText quote cs).length = quotedText quote cs := by
  induction cs with
  | nil => rfl
  | cons x cs ih =>
    rw [quotedText_cons]
    split
    · rfl
    · rw [List.length_cons, List.take_succ_cons, ih]

/-- The text stops where it did if what it stopped at begins in the same way. -/
theorem quotedText_append {quote : Char} {data after after' : List Char}
    (h : quotedText quote (data ++ after) = data) (first : after'.head? = after.head?)
    (stops : quotedStops quote after' = true) : quotedText quote (data ++ after') = data := by
  induction data with
  | nil =>
    cases after' with
    | nil => rfl
    | cons x after' =>
      rw [List.nil_append, quotedText_cons, if_pos stops]
  | cons x data ih =>
    rw [List.cons_append, quotedText_cons] at h ⊢
    split at h
    · cases h
    · rename_i goes_on
      have next : (data ++ after').head? = (data ++ after).head? := by
        cases data with
        | nil => exact first
        | cons y data => rfl
      have same : quotedStops quote (x :: (data ++ after')) =
          quotedStops quote (x :: (data ++ after)) := by
        cases hcs : data ++ after <;> cases hcs' : data ++ after' <;> simp_all [quotedStops, List.isPrefixOf]
      rw [same, if_neg goes_on, ih (List.cons.inj h).2]

theorem local_quotedText {quote : Char} {reads : Cursor → Cursor → Prop}
    (h : Local (c.skip (quotedText quote c.rest).length) d reads)
    (stops : ∀ c' d', reads c' d' → quotedStops quote c'.rest = true) :
    Local c d fun c' d' => quotedText quote c'.rest = quotedText quote c.rest ∧
      reads (c'.skip (quotedText quote c'.rest).length) d' := by
  refine (Local.skip h.head).imp ?_
  rintro c' d' ⟨front, first, hreads⟩
  have text : quotedText quote c'.rest = quotedText quote c.rest := by
    have whole := List.take_append_drop (quotedText quote c.rest).length c.rest
    rw [take_quotedText] at front whole
    rw [← List.take_append_drop (quotedText quote c.rest).length c'.rest, front]
    refine quotedText_append ?_ first (stops _ _ hreads)
    rw [rest_skip, whole]
  refine ⟨text, ?_⟩
  rw [text]
  exact hreads

/-- Where the text of a quoted value ends. -/
abbrev quotedEnd (quote : Char) (c : Cursor) : Cursor := c.skip (quotedText quote c.rest).length

/-- The text of a quoted value, if there is any. -/
def quotedFront (quote : Char) (c : Cursor) : List Piece :=
  if (quotedText quote c.rest).isEmpty then []
  else [.text (String.ofList (quotedText quote c.rest)) (c.span (quotedEnd quote c))]

theorem bare_quotedFront {quote : Char} {c c' : Cursor}
    (h : quotedText quote c'.rest = quotedText quote c.rest) :
    (quotedFront quote c').map Piece.bare = (quotedFront quote c).map Piece.bare := by
  rw [quotedFront, quotedFront, h]
  split <;> rfl

theorem quotedPieces_eq (start : Cursor) (quote : Char) (c : Cursor) :
    quotedPieces start quote c =
      if h : (quotedEnd quote c).rest = [] then
        .error ((Cause.endOfInput s!"closing {quote}").within start.offset start.finish)
      else if (quotedEnd quote c).sees quote then
        .ok (quotedFront quote c, ⟨(quotedEnd quote c).skip 1,
          Nat.le_trans (length_skip_le _ _) (length_skip_le _ _)⟩)
      else do
        let ⟨e, next, hn⟩ ← mustache (quotedEnd quote c) h
        let ⟨more, last, hl⟩ ← quotedPieces start quote next
        return (quotedFront quote c ++ Piece.mustache e ((quotedEnd quote c).span next) :: more,
          ⟨last, Nat.le_trans hl (Nat.le_trans (Nat.le_of_lt hn) (length_skip_le _ _))⟩) := by
  rw [quotedPieces]
  rfl

theorem local_quotedPieces {start : Cursor} {quote : Char} {ps : List Piece} {c d : Cursor}
    {h : d.rest.length ≤ c.rest.length}
    (hread : quotedPieces start quote c = .ok (ps, ⟨d, h⟩)) :
    Local c d fun c' d' => ∀ start', ∃ ps' h', quotedPieces start' quote c' =
      .ok (ps', ⟨d', h'⟩) ∧ ps'.map Piece.bare = ps.map Piece.bare := by
  rw [quotedPieces_eq] at hread
  split at hread
  · cases hread
  · rename_i goes_on
    split at hread
    · rename_i closed
      cases hread
      refine (local_quotedText (Local.sees closed) ?_).imp ?_
      · rintro c' d' ⟨closed', -⟩
        rw [quotedStops, ← Cursor.sees, closed', Bool.true_or]
      · rintro c' d' ⟨text, closed', rfl⟩ start'
        have some : (quotedEnd quote c').rest ≠ [] := rest_ne_nil_of_sees closed'
        have again := quotedPieces_eq start' quote c'
        rw [dif_neg some, if_pos closed'] at again
        exact ⟨_, _, again, bare_quotedFront text⟩
    · rename_i opened
      obtain ⟨⟨e, next, hnext⟩, hmustache, hread⟩ := ok_of_bind hread
      obtain ⟨⟨more, last, hlast⟩, hmore, hread⟩ := ok_of_bind hread
      cases hread
      have shorter : next.rest.length < c.rest.length :=
        Nat.lt_of_lt_of_le hnext (length_skip_le _ _)
      have braces : (quotedEnd quote c).rest.take 2 = ['\x7b', '\x7b'] :=
        (isPrefixOf_pair _ _ _).mp ((Bool.or_eq_true _ _).mp (quotedStops_drop goes_on) |>.resolve_left
          opened)
      have later := (local_mustache hmustache).trans (local_quotedPieces hmore)
      refine (local_quotedText later ?_).imp ?_
      · rintro c' d' ⟨next', ⟨front, -⟩, -⟩
        rw [quotedStops, (isPrefixOf_pair _ _ _).mpr (front.trans braces), Bool.or_true]
      · rintro c' d' ⟨text, next', ⟨front, -, reads⟩, reads'⟩ start'
        have first := head?_of_take front
        rw [braces] at front
        have some : (quotedEnd quote c').rest ≠ [] := by
          intro none
          rw [none] at front
          cases front
        have opened' : ¬ (quotedEnd quote c').sees quote = true := by
          rw [Cursor.sees, first]
          exact opened
        obtain ⟨e', hnext', hmustache', he'⟩ := reads some
        obtain ⟨more', hmore', hread', hbare⟩ := reads' start'
        have again := quotedPieces_eq start' quote c'
        rw [dif_neg some, if_neg opened', hmustache'] at again
        simp only [bind, Except.bind, hread', pure, Except.pure] at again
        refine ⟨_, _, again, ?_⟩
        rw [List.map_append, List.map_append, bare_quotedFront text, List.map_cons, List.map_cons,
          hbare, Piece.bare, Piece.bare, he']
termination_by c.rest.length

theorem head?_of_takeWhile {fits : Char → Bool} {cs front : List Char} {x : Char}
    (h : cs.takeWhile fits = x :: front) : cs.head? = some x := by
  cases cs with
  | nil => cases h
  | cons y cs =>
    rw [List.takeWhile_cons] at h
    split at h
    · cases h
      rfl
    · cases h

/-- Whether a tag in braces begins depends on a word and what follows it. -/
theorem isPrefixOf_braces_append {data after after' : List Char} (hdata : data ≠ [])
    (first : after'.head? = after.head?) :
    ['\x7b', '\x7b'].isPrefixOf (data ++ after') = ['\x7b', '\x7b'].isPrefixOf (data ++ after) := by
  rcases data with _ | ⟨x, _ | ⟨y, data⟩⟩
  · exact absurd rfl hdata
  · cases after <;> cases after' <;> simp_all [List.isPrefixOf]
  · simp [List.isPrefixOf]

variable {e : Cursor} {reads : Cursor → Cursor → Prop}

/-- A value of an attribute, where something is read after it. -/
theorem local_attributePieces {ps : List Piece} {h : d.rest.length ≤ c.rest.length}
    (hread : attributePieces c = .ok (ps, ⟨d, h⟩)) (later : Local d e reads) :
    Local c e fun c' e' => ∃ ps' d' h', attributePieces c' = .ok (ps', ⟨d', h'⟩) ∧
      ps'.map Piece.bare = ps.map Piece.bare ∧ reads d' e' := by
  rw [attributePieces] at hread
  split at hread
  · cases hread
  · rename_i some
    split at hread
    · rename_i braces
      obtain ⟨⟨x, d, hd⟩, hmustache, hread⟩ := ok_of_bind hread
      cases hread
      refine ((local_mustache hmustache).trans later).imp ?_
      rintro c' e' ⟨d', ⟨front, -, again⟩, hreads⟩
      rw [isPrefixOf_pair] at braces
      rw [braces] at front
      have some' : c'.rest ≠ [] := by
        intro none
        rw [none] at front
        cases front
      obtain ⟨x', hd', hmustache', hx'⟩ := again some'
      refine ⟨[.mustache x' (c'.span d')], d', Nat.le_of_lt hd', ?_, ?_, hreads⟩
      · rw [attributePieces, dif_neg some', if_pos ((isPrefixOf_pair _ _ _).mpr front), hmustache']
        rfl
      · simp only [List.map_cons, List.map_nil, Piece.bare, hx']
    · rename_i plain
      split at hread
      · rename_i quoted
        obtain ⟨⟨ps, d, hd⟩, hpieces, hread⟩ := ok_of_bind hread
        cases hread
        refine ((local_quotedPieces hpieces).trans later).skip.imp ?_
        rintro c' e' ⟨front, d', again, hreads⟩
        have first := head?_of_take front
        have quoted' : (c'.sees '"' || c'.sees '\'') = true := by
          rw [Cursor.sees, Cursor.sees, first]
          exact quoted
        have some' : c'.rest ≠ [] := by
          rintro none
          simp [Cursor.sees, none] at quoted'
        have plain' : ¬ ['\x7b', '\x7b'].isPrefixOf c'.rest = true := by
          intro braces
          obtain ⟨rest, hrest⟩ := List.isPrefixOf_iff_prefix.mp braces
          simp [Cursor.sees, ← hrest] at quoted'
        have quote : c'.rest.headD '"' = c.rest.headD '"' := by
          rw [List.headD_eq_head?_getD, first, List.headD_eq_head?_getD]
        obtain ⟨ps', hd', hpieces', hps'⟩ := again c'
        refine ⟨ps', d', Nat.le_trans hd' (length_skip_le _ _), ?_, hps', hreads⟩
        rw [attributePieces, dif_neg some', if_neg plain', if_pos quoted', quote, hpieces']
        rfl
      · rename_i unquoted
        dsimp only at hread
        split at hread
        · cases hread
        · rename_i word
          cases hread
          refine (Local.skipWhile later.head).imp ?_
          rintro c' e' ⟨data, first, hreads⟩
          have nonempty : c.rest.takeWhile (!endsValue ·) ≠ [] := by
            simpa [List.isEmpty_iff] using word
          have text := List.takeWhile_append_dropWhile (p := (!endsValue ·)) (l := c.rest)
          have text' := List.takeWhile_append_dropWhile (p := (!endsValue ·)) (l := c'.rest)
          rw [data] at text'
          rw [rest_skipWhile] at first
          change _ = (c.skipWhile (!endsValue ·)).rest.head? at first
          rw [rest_skipWhile] at first
          have some' : c'.rest ≠ [] := by
            rw [← text']
            exact List.append_ne_nil_of_left_ne_nil nonempty _
          have plain' : ¬ ['\x7b', '\x7b'].isPrefixOf c'.rest = true := by
            rw [← text', isPrefixOf_braces_append nonempty first, text]
            exact plain
          have same : c'.rest.head? = c.rest.head? := by
            obtain ⟨x, more, hx⟩ := List.exists_cons_of_ne_nil nonempty
            rw [← text, ← text', hx]
            rfl
          have unquoted' : ¬ (c'.sees '"' || c'.sees '\'') = true := by
            rw [Cursor.sees, Cursor.sees, same]
            exact unquoted
          have word' : ¬ (c'.rest.takeWhile (!endsValue ·)).isEmpty = true := by
            rw [data]
            exact word
          have again : attributePieces c' = .ok ([.text (String.ofList
              (c'.rest.takeWhile (!endsValue ·))) (c'.span (c'.skipWhile (!endsValue ·)))],
                ⟨c'.skipWhile (!endsValue ·), length_skipWhile_le _ _⟩) := by
            rw [attributePieces, dif_neg some', if_neg plain', if_neg unquoted']
            exact if_neg word'
          refine ⟨_, _, _, again, ?_, hreads⟩
          rw [data]
          rfl

/-- The value of an attribute if there is one, where something is read after it. -/
theorem local_attributeValue {value : AttributeValue} {h : d.rest.length ≤ c.rest.length}
    (hread : attributeValue c = .ok (value, ⟨d, h⟩)) (later : Local d e reads) :
    Local c e fun c' e' => ∃ value' d' h', attributeValue c' = .ok (value', ⟨d', h'⟩) ∧
      value'.bare = value.bare ∧ reads d' e' := by
  rw [attributeValue] at hread
  dsimp only at hread
  split at hread
  · rename_i valued
    obtain ⟨⟨ps, d, hd⟩, hpieces, hread⟩ := ok_of_bind hread
    cases hread
    have pieces := Local.skipBlank (local_attributePieces hpieces later)
    refine (Local.skipBlank (Local.skip pieces)).imp ?_
    rintro c' e' ⟨front, ps', d', hd', hpieces', hps', hreads⟩
    have valued' : c'.skipBlank.sees '=' = true := by
      rw [Cursor.sees, head?_of_take front]
      exact valued
    have shorter : d'.rest.length ≤ c'.rest.length :=
      Nat.le_trans hd' (Nat.le_trans (length_skipWhile_le _ _)
        (Nat.le_trans (length_skip_le _ _) (length_skipWhile_le _ _)))
    refine ⟨.pieces ps', d', shorter, ?_, congrArg AttributeValue.pieces hps', hreads⟩
    rw [attributeValue]
    dsimp only
    rw [if_pos valued', hpieces']
    rfl
  · rename_i flag
    cases hread
    refine (Local.skipBlank (Local.head later)).imp ?_
    rintro c' e' ⟨first, hreads⟩
    have flag' : ¬ c'.skipBlank.sees '=' = true := by
      rw [Cursor.sees, first]
      exact flag
    refine ⟨.flag, c'.skipBlank, length_skipWhile_le _ _, ?_, rfl, hreads⟩
    rw [attributeValue]
    exact if_neg flag'

/-- The same tag without the places that it was read from. -/
def Opening.bare (o : Opening) : Opening := { o with attributes := o.attributes.map Attribute.bare }

theorem local_attributes {used : List String} {as : List Attribute} {closed : Bool} {c d : Cursor}
    {h : d.rest.length ≤ c.rest.length}
    (hread : attributes used c = .ok (as, closed, ⟨d, h⟩)) :
    Local c d fun c' d' => ∃ as' h', attributes used c' = .ok (as', closed, ⟨d', h'⟩) ∧
      as'.map Attribute.bare = as.map Attribute.bare := by
  rw [attributes] at hread
  split at hread
  · cases hread
  · rename_i some
    split at hread
    · rename_i selfClosed
      cases hread
      refine (Local.skipBlank (local_pair selfClosed)).imp ?_
      rintro c' d' ⟨selfClosed', rfl⟩
      have some' : c'.skipBlank.rest ≠ [] := by
        rintro none
        rw [none] at selfClosed'
        cases selfClosed'
      refine ⟨[], Nat.le_trans (length_skip_le _ _) (length_skipWhile_le _ _), ?_, rfl⟩
      rw [attributes, dif_neg some']
      exact if_pos selfClosed'
    · rename_i notSelfClosed
      split at hread
      · rename_i ends
        cases hread
        refine (Local.skipBlank (Local.sees ends)).imp ?_
        rintro c' d' ⟨ends', rfl⟩
        have notSelfClosed' : ¬ ['/', '>'].isPrefixOf c'.skipBlank.rest = true := by
          intro selfClosed
          obtain ⟨rest, hrest⟩ := List.isPrefixOf_iff_prefix.mp selfClosed
          rw [Cursor.sees, ← hrest] at ends'
          cases ends'
        refine ⟨[], Nat.le_trans (length_skip_le _ _) (length_skipWhile_le _ _), ?_, rfl⟩
        rw [attributes, dif_neg (rest_ne_nil_of_sees ends'), if_neg notSelfClosed']
        exact if_pos ends'
      · rename_i goes_on
        dsimp only at hread
        split at hread
        · cases hread
        · rename_i hname
          split at hread
          · cases hread
          · rename_i hfirst
            split at hread
            · cases hread
            · rename_i fresh
              obtain ⟨⟨value, e, he⟩, hvalue, hread⟩ := ok_of_bind hread
              obtain ⟨⟨more, closed, f, hf⟩, hmore, hread⟩ := ok_of_bind hread
              cases hread
              have nonempty : c.skipBlank.rest.takeWhile isAttributeNamePart ≠ [] :=
                List.length_pos_iff.mp (Nat.pos_of_ne_zero hname)
              have shorter : e.rest.length < c.rest.length := by
                have read := Cursor.length_skip_lt some (Nat.pos_of_ne_zero hname)
                have blanks : c.skipBlank.rest.length ≤ c.rest.length := length_skipWhile_le _ _
                omega
              have later : Local (c.skipBlank.skipWhile isAttributeNamePart) _ _ :=
                local_attributeValue hvalue (local_attributes hmore)
              refine (Local.skipBlank (Local.skipWhile later)).imp ?_
              rintro c' f' ⟨letters, value', e', he', hvalue', hbare, more', hf', hmore', hmores⟩
              obtain ⟨x, name, hx⟩ := List.exists_cons_of_ne_nil nonempty
              have first := head?_of_takeWhile (letters.trans hx)
              have part : isAttributeNamePart x = true :=
                List.all_eq_true.mp List.all_takeWhile x (by rw [hx]; exact List.mem_cons_self)
              rw [← letters] at hname hfirst fresh hmore'
              have some' : c'.skipBlank.rest ≠ [] := by
                intro none
                rw [none] at first
                cases first
              have notSelfClosed' : ¬ ['/', '>'].isPrefixOf c'.skipBlank.rest = true := by
                intro selfClosed
                obtain ⟨rest, hrest⟩ := List.isPrefixOf_iff_prefix.mp selfClosed
                rw [← hrest] at first
                cases first
                cases part
              have goes_on' : ¬ c'.skipBlank.sees '>' = true := by
                intro ends
                rw [Cursor.sees, first, beq_iff_eq] at ends
                cases ends
                cases part
              have again : attributeValue (c'.skipBlank.skip
                  (c'.skipBlank.rest.takeWhile isAttributeNamePart).length) =
                    .ok (value', ⟨e', he'⟩) := hvalue'
              refine ⟨⟨String.ofList (c'.skipBlank.rest.takeWhile isAttributeNamePart), value',
                c'.skipBlank.span e'⟩ :: more', Nat.le_trans hf' (Nat.le_trans he'
                (Nat.le_trans (length_skipWhile_le _ _) (length_skipWhile_le _ _))), ?_, ?_⟩
              · rw [attributes, dif_neg some', if_neg notSelfClosed', if_neg goes_on']
                dsimp only
                rw [dif_neg hname, if_neg hfirst, if_neg fresh, again]
                simp only [bind, Except.bind, hmore']
                rfl
              · rw [List.map_cons, List.map_cons, hmores, letters]
                simp only [Attribute.bare, hbare]
termination_by c.rest.length

theorem local_openingTag {o : Opening} {hc : c.rest ≠ []} {h : d.rest.length < c.rest.length}
    (hread : openingTag c hc = .ok (o, ⟨d, h⟩)) :
    Local c d fun c' d' => c'.rest.take 1 = c.rest.take 1 ∧
      (c'.rest.drop 1).takeWhile isTagNamePart = (c.rest.drop 1).takeWhile isTagNamePart ∧
      ∀ hc', ∃ o' h', openingTag c' hc' = .ok (o', ⟨d', h'⟩) ∧ o'.bare = o.bare := by
  rw [openingTag] at hread
  dsimp only at hread
  obtain ⟨⟨as, closed, d, hd⟩, hattributes, hread⟩ := ok_of_bind hread
  cases hread
  have later := local_attributes hattributes
  rw [Cursor.skip_add] at later
  change Local ((c.skip 1).skipWhile isTagNamePart) d _ at later
  refine (Local.skipWhile later).skip.imp ?_
  rintro c' d' ⟨front, letters, as', h', hread', has'⟩
  rw [rest_skip, rest_skip] at letters
  obtain ⟨h', again⟩ : ∃ h', attributes []
      (c'.skip (1 + ((c'.rest.drop 1).takeWhile isTagNamePart).length)) =
        .ok (as', closed, ⟨d', h'⟩) := by
    rw [Cursor.skip_add]
    exact ⟨h', hread'⟩
  refine ⟨front, letters, fun hc' => ?_⟩
  refine ⟨⟨String.ofList ((c'.rest.drop 1).takeWhile isTagNamePart), as', closed⟩,
    Nat.lt_of_le_of_lt h' (Cursor.length_skip_lt hc' (by omega)), ?_, ?_⟩
  · rw [openingTag]
    dsimp only
    rw [again]
    rfl
  · simp only [Opening.bare, letters, has']

end

end PromptTemplate.Template
