import PromptTemplate.Proofs.Expr.Spans
import PromptTemplate.Proofs.Template.Expressions

/-!
# The spans in tags

A tag in braces has its expression between its cursors, and an opening tag has its attributes
there, in the order in which they are written. An attribute has the parts of its value in its
own span.
-/

namespace PromptTemplate

open Template Text

def Piece.spans : Piece → SpanTree
  | .text _ s => .node s []
  | .mustache e s => .node s [e.spans]

def AttributeValue.spans : AttributeValue → List SpanTree
  | .flag => []
  | .pieces ps => ps.map Piece.spans

def Attribute.spans (x : Attribute) : SpanTree := .node x.span x.value.spans

/-! ## Between two cursors -/

/-- From one cursor to another trees of spans are laid out, with the expressions among them. -/
structure Holds (source : List Char) (c d : Cursor) (ts : List SpanTree) (es : List Expr) :
    Prop where
  reaches : c.Reaches source d
  laid : LaidOut source c.offset d.offset ts es

namespace Holds

variable {source : List Char} {c d e : Cursor} {ts us : List SpanTree} {es fs : List Expr}

theorem nil (h : c.Reaches source d) : Holds source c d [] [] := ⟨h, .nil h.le⟩

theorem after (h : c.Reaches source d) (k : Holds source d e ts es) : Holds source c e ts es :=
  ⟨h.trans k.reaches, k.laid.mono h.le (Nat.le_refl _)⟩

theorem before (h : Holds source c d ts es) (k : d.Reaches source e) : Holds source c e ts es :=
  ⟨h.reaches.trans k, h.laid.mono (Nat.le_refl _) k.le⟩

theorem append (h : Holds source c d ts es) (k : Holds source d e us fs) :
    Holds source c e (ts ++ us) (es ++ fs) :=
  ⟨h.reaches.trans k.reaches, h.laid.append k.laid⟩

theorem node (hc : c.On source) (h : Holds source c d ts es) :
    Holds source c d [.node (c.span d) ts] es :=
  ⟨h.reaches, h.laid.node hc h.reaches⟩

theorem leaf (hc : c.On source) (h : c.Reaches source d) :
    Holds source c d [.node (c.span d) []] [] :=
  (nil h).node hc

end Holds

namespace Template

variable {source : List Char}

/-! ## Tags in braces -/

section

variable {start c d : Cursor}

theorem reaches_of_local {reads : Cursor → Cursor → Prop} (hc : c.On source)
    (h : Cursor.Local c d reads) : c.Reaches source d := by
  obtain ⟨_, -, takes, -⟩ := h
  exact hc.takes takes

theorem tokens_of_tagTokens {ts : List Token} {h : d.rest.length ≤ c.rest.length}
    (hc : c.On source) (hread : tagTokens start c = .ok (ts, ⟨d, h⟩)) :
    Tokens source c.offset d.offset ts ∧ c.Reaches source d := by
  have reaches := reaches_of_local hc (local_tagTokens hread)
  rw [tagTokens_of_tagEnd rfl (getLast?_of_tagTokens hread)] at hread
  cases hread
  exact ⟨Token.tokens_scanAll .tag 0 c.position c.rest hc, reaches⟩

theorem holds_of_tagTokens {ts : List Token} {e : Expr} {h : d.rest.length ≤ c.rest.length}
    (hc : c.On source) (hread : tagTokens start c = .ok (ts, ⟨d, h⟩))
    (hexpr : Expr.ofTokens ts = .ok e) : Holds source c d [e.spans] [e] := by
  obtain ⟨tokens, reaches⟩ := tokens_of_tagTokens hc hread
  exact ⟨reaches, Expr.laidOut_of_ofTokens tokens hexpr⟩

theorem holds_of_mustache {e : Expr} {hne : c.rest ≠ []} {h : d.rest.length < c.rest.length}
    (hc : c.On source) (hread : mustache c hne = .ok (e, ⟨d, h⟩)) :
    Holds source c d [e.spans] [e] := by
  rw [mustache] at hread
  obtain ⟨⟨ts, d, hd⟩, htokens, hread⟩ := ok_of_bind hread
  obtain ⟨e, hexpr, hread⟩ := ok_of_bind hread
  cases hread
  have opened := hc.skip 2
  exact .after opened (holds_of_tagTokens opened.on htokens hexpr)

/-- Where the header of a block is cut there stand its expression and its names. -/
theorem eq_append_of_cut? {depth : Nat} {ts front back : List Token} {word : Token}
    (h : EachHeader.cut? depth ts = some (front, word, back)) : ts = front ++ word :: back := by
  induction ts generalizing depth front with
  | nil => cases h
  | cons t ts ih =>
    rw [EachHeader.cut?] at h
    split at h
    · rename_i cut
      cases h
      rw [List.cons_append, ← ih cut]
    · split at h
      · cases h
        rfl
      · cases h

theorem takeWhile_append_end (ts : List Token) (s : Span) :
    (ts ++ [Token.mk .inputEnd s]).takeWhile (!·.kind.isEnd) = ts.takeWhile (!·.kind.isEnd) := by
  induction ts with
  | nil => rfl
  | cons t ts ih => rw [List.cons_append, List.takeWhile_cons, List.takeWhile_cons, ih]

theorem laidOut_of_header {low high : Nat} {ts : List Token} {s : Span} {header : EachHeader}
    (h : Tokens source low high ts) (hread : EachHeader.ofTokens ts s = .ok header) :
    LaidOut source low high [header.expression.spans] [header.expression] := by
  rw [EachHeader.ofTokens] at hread
  split at hread
  · cases hread
  · rename_i front word back cut
    obtain ⟨⟨context, index⟩, -, hread⟩ := ok_of_bind hread
    obtain ⟨e, hexpr, hread⟩ := ok_of_bind hread
    cases hread
    have before : (front.takeWhile (!·.kind.isEnd)).Sublist ts := by
      rw [eq_append_of_cut? cut]
      exact (List.takeWhile_sublist _).trans (List.sublist_append_left _ _)
    have derives := Expr.derives_of_ofTokens hexpr
    rw [takeWhile_append_end] at derives
    exact (Expr.precedes_of_derives derives (h.sublist before)).laidOut

/-- The expression that stands in a tag in braces, if there is one. -/
def BraceTag.expressions : BraceTag → List Expr
  | .output e | .ifOpening e => [e]
  | .eachOpening header => [header.expression]
  | .otherwise e => e.toList
  | .closing _ => []

theorem holds_of_braceTag {t : BraceTag} {hne : c.rest ≠ []} {h : d.rest.length < c.rest.length}
    (hc : c.On source) (hread : braceTag c hne = .ok (t, ⟨d, h⟩)) :
    Holds source c d (t.expressions.map Expr.spans) t.expressions := by
  have named := ((hc.skip 2).skipBlank).skip (1 + (word ((braceSign c).rest.drop 1)).length)
  have more := named.skipBlank.skip (word (braceNamed c).skipBlank.rest).length
  cases readsBrace_of_braceTag hread with
  | output _ _ _ read => exact holds_of_mustache hc read
  | ifOpening _ _ tokens read => exact .after named (holds_of_tagTokens named.on tokens read)
  | eachOpening _ _ tokens read =>
    obtain ⟨tokens, reaches⟩ := tokens_of_tagTokens named.on tokens
    exact .after named ⟨reaches, laidOut_of_header tokens read⟩
  | elseIf _ _ _ tokens read => exact .after more (holds_of_tagTokens more.on tokens read)
  | otherwise _ _ _ tokens =>
    exact .nil (named.trans (reaches_of_local named.on (local_tagEnd tokens)))
  | closing _ tokens =>
    exact .nil (named.trans (reaches_of_local named.on (local_tagEnd tokens)))

end

/-! ## Attributes -/

/-- In the value of an attribute. -/
abbrev HoldsPieces (source : List Char) (c d : Cursor) (ps : List Piece) : Prop :=
  Holds source c d (ps.map Piece.spans) (ps.filterMap Piece.expression?)

/-- In an opening tag. -/
abbrev HoldsAttributes (source : List Char) (c d : Cursor) (as : List Attribute) : Prop :=
  Holds source c d (as.map Attribute.spans) (Attribute.expressions as)

section

variable {c d e : Cursor}

theorem HoldsPieces.append {ps qs : List Piece} (h : HoldsPieces source c d ps)
    (k : HoldsPieces source d e qs) : HoldsPieces source c e (ps ++ qs) := by
  rw [HoldsPieces, List.map_append, List.filterMap_append]
  exact Holds.append h k

theorem holds_quotedFront (quote : Char) (hc : c.On source) :
    HoldsPieces source c (quotedEnd quote c) (quotedFront quote c) := by
  have text := hc.skip (quotedText quote c.rest).length
  rw [quotedFront]
  split
  · exact .nil text
  · exact .leaf hc text

theorem holds_pieceMustache {e : Expr} {hne : c.rest ≠ []} {h : d.rest.length < c.rest.length}
    (hc : c.On source) (hread : mustache c hne = .ok (e, ⟨d, h⟩)) :
    HoldsPieces source c d [.mustache e (c.span d)] :=
  (holds_of_mustache hc hread).node hc

theorem holds_of_quotedPieces {start : Cursor} {quote : Char} {ps : List Piece} {c d : Cursor}
    {h : d.rest.length ≤ c.rest.length} (hc : c.On source)
    (hread : quotedPieces start quote c = .ok (ps, ⟨d, h⟩)) : HoldsPieces source c d ps := by
  have front := holds_quotedFront quote hc
  rw [quotedPieces_eq] at hread
  split at hread
  · cases hread
  · split at hread
    · cases hread
      exact Holds.before front (front.reaches.on.skip 1)
    · obtain ⟨⟨e, next, hnext⟩, hmustache, hread⟩ := ok_of_bind hread
      obtain ⟨⟨more, last, hlast⟩, hmore, hread⟩ := ok_of_bind hread
      cases hread
      have shorter : next.rest.length < c.rest.length :=
        Nat.lt_of_lt_of_le hnext (Cursor.length_skip_le _ _)
      have tag := holds_pieceMustache front.reaches.on hmustache
      exact front.append (tag.append (holds_of_quotedPieces tag.reaches.on hmore))
termination_by c.rest.length

theorem holds_of_attributePieces {ps : List Piece} {h : d.rest.length ≤ c.rest.length}
    (hc : c.On source) (hread : attributePieces c = .ok (ps, ⟨d, h⟩)) :
    HoldsPieces source c d ps := by
  rw [attributePieces] at hread
  split at hread
  · cases hread
  · split at hread
    · obtain ⟨⟨e, d, hd⟩, hmustache, hread⟩ := ok_of_bind hread
      cases hread
      exact holds_pieceMustache hc hmustache
    · split at hread
      · obtain ⟨⟨ps, d, hd⟩, hpieces, hread⟩ := ok_of_bind hread
        cases hread
        have quote := hc.skip 1
        exact Holds.after quote (holds_of_quotedPieces quote.on hpieces)
      · dsimp only at hread
        split at hread
        · cases hread
        · cases hread
          exact .leaf hc (hc.skip _)

theorem holds_of_attributeValue {value : AttributeValue} {h : d.rest.length ≤ c.rest.length}
    (hc : c.On source) (hread : attributeValue c = .ok (value, ⟨d, h⟩)) :
    Holds source c d value.spans value.expressions := by
  rw [attributeValue] at hread
  dsimp only at hread
  split at hread
  · obtain ⟨⟨ps, d, hd⟩, hpieces, hread⟩ := ok_of_bind hread
    cases hread
    have mark := (hc.skipBlank.skip 1).skipBlank
    exact .after mark (holds_of_attributePieces mark.on hpieces)
  · cases hread
    exact .nil hc.skipBlank

theorem holds_of_attributes {used : List String} {as : List Attribute} {closed : Bool}
    {c d : Cursor} {h : d.rest.length ≤ c.rest.length} (hc : c.On source)
    (hread : attributes used c = .ok (as, closed, ⟨d, h⟩)) : HoldsAttributes source c d as := by
  have spaced := hc.skipBlank
  rw [attributes] at hread
  split at hread
  · cases hread
  · rename_i some
    split at hread
    · cases hread
      exact .nil (spaced.skip 2)
    · split at hread
      · cases hread
        exact .nil (spaced.skip 1)
      · dsimp only at hread
        split at hread
        · cases hread
        · rename_i hname
          split at hread
          · cases hread
          · split at hread
            · cases hread
            · obtain ⟨⟨value, e, he⟩, hvalue, hread⟩ := ok_of_bind hread
              obtain ⟨⟨more, closed, f, hf⟩, hmore, hread⟩ := ok_of_bind hread
              cases hread
              have shorter : e.rest.length < c.rest.length := by
                have read := Cursor.length_skip_lt some (Nat.pos_of_ne_zero hname)
                have blanks : c.skipBlank.rest.length ≤ c.rest.length :=
                  Cursor.length_skipWhile_le _ _
                omega
              have named := spaced.on.skip (c.skipBlank.rest.takeWhile isAttributeNamePart).length
              have first : Holds source c.skipBlank e value.spans value.expressions :=
                .after named (holds_of_attributeValue named.on hvalue)
              have rest := holds_of_attributes first.reaches.on hmore
              exact .after spaced ((first.node spaced.on).append rest)
termination_by c.rest.length

theorem holds_of_openingTag {o : Opening} {hne : c.rest ≠ []} {h : d.rest.length < c.rest.length}
    (hc : c.On source) (hread : openingTag c hne = .ok (o, ⟨d, h⟩)) :
    HoldsAttributes source c d o.attributes := by
  rw [openingTag] at hread
  dsimp only at hread
  obtain ⟨⟨as, closed, d, hd⟩, hattributes, hread⟩ := ok_of_bind hread
  cases hread
  have named := hc.skip (1 + ((c.rest.drop 1).takeWhile isTagNamePart).length)
  exact .after named (holds_of_attributes named.on hattributes)

end

end Template

end PromptTemplate
