import PromptTemplate.Proofs.Expr.Grammar
import PromptTemplate.Proofs.Expr.Subexpressions
import PromptTemplate.Proofs.Token.Spans

/-!
# The spans of expressions

Tokens that stand one after the other in a text are read as expressions whose spans are those
of pieces of the text, too. An expression has its parts inside of it, in the order in which
they are written, and parentheses around it belong to it.
-/

namespace PromptTemplate

mutual

/-- The span of an expression with those of its parts. The name of a property has none. -/
def Expr.spans : Expr → SpanTree
  | .literal _ s | .identifier _ s => .node s []
  | .array items s => .node s (Expr.spansAll items)
  | .object properties s => .node s (Expr.spansProperties properties)
  | .member base key _ s => .node s (base.spans :: key.spans)
  | .call callee arguments _ s => .node s (callee.spans :: Expr.spansAll arguments)
  | .unary _ argument s => .node s [argument.spans]
  | .binary _ left right s => .node s [left.spans, right.spans]
  | .logical _ left right s => .node s [left.spans, right.spans]
  | .conditional test consequent alternate s =>
    .node s [test.spans, consequent.spans, alternate.spans]
  | .assign _ target value s => .node s [target.spans, value.spans]
  | .update _ _ argument s => .node s [argument.spans]

def Expr.spansAll : List Expr → List SpanTree
  | [] => []
  | e :: rest => e.spans :: Expr.spansAll rest

def Key.spans : Key → List SpanTree
  | .named _ => []
  | .computed e => [e.spans]

def Expr.spansProperties : List Property → List SpanTree
  | [] => []
  | .mk key value :: rest => key.spans ++ value.spans :: Expr.spansProperties rest

end

/-- Not a number literal that no text can name. -/
def Expr.Nameable : Expr → Prop
  | .literal (.number x) _ => x.isNaN = false
  | _ => True

/-! ## Trees one after the other -/

namespace SpanTree

/-- Trees of spans of a text from one offset to another, one after the other. -/
structure AllWithin (source : List Char) (low high : Nat) (ts : List SpanTree) : Prop where
  ordered : Span.Ordered low high (ts.map span)
  faithful : ∀ t ∈ ts, t.Faithful source

variable {source : List Char} {low high : Nat} {t : SpanTree} {ts us : List SpanTree}

theorem Faithful.locates (h : t.Faithful source) : t.span.Locates source := by
  cases h with
  | node located => exact located

theorem Faithful.of_within {s : Span} (located : s.Locates source)
    (within : AllWithin source s.start s.stop ts) : (SpanTree.node s ts).Faithful source :=
  .node located within.ordered within.faithful

/-- A wider span around the same parts. -/
theorem Faithful.widen (h : t.Faithful source) {s : Span} (located : s.Locates source)
    (hlow : s.start ≤ t.span.start) (hhigh : t.span.stop ≤ s.stop) :
    (SpanTree.node s t.inside).Faithful source := by
  cases h with
  | node _ ordered inside => exact .node located ((ordered.mono_low hlow).mono_high hhigh) inside

namespace AllWithin

theorem nil (h : low ≤ high) : AllWithin source low high [] := ⟨h, List.forall_mem_nil _⟩

theorem cons (hlow : low ≤ t.span.start) (h : t.Faithful source)
    (k : AllWithin source t.span.stop high ts) : AllWithin source low high (t :: ts) :=
  ⟨⟨hlow, h.locates.le, k.ordered⟩, List.forall_mem_cons.mpr ⟨h, k.faithful⟩⟩

theorem append {middle : Nat} (h : AllWithin source low middle ts)
    (k : AllWithin source middle high us) : AllWithin source low high (ts ++ us) where
  ordered := by
    rw [List.map_append]
    exact h.ordered.append k.ordered
  faithful := List.forall_mem_append.mpr ⟨h.faithful, k.faithful⟩

theorem mono {less more : Nat} (h : AllWithin source low high ts) (hless : less ≤ low)
    (hmore : high ≤ more) : AllWithin source less more ts :=
  ⟨(h.ordered.mono_low hless).mono_high hmore, h.faithful⟩

/-- Some of the trees. -/
theorem sublist (h : AllWithin source low high ts) (hsub : us.Sublist ts) :
    AllWithin source low high us :=
  ⟨h.ordered.sublist (hsub.map _), fun t ht => h.faithful t (hsub.subset ht)⟩

theorem le (h : AllWithin source low high ts) : low ≤ high := h.ordered.le

end AllWithin

end SpanTree

/-! ## Literals and parts -/

theorem Literal.kind_of_number {k : Token.Kind} {x : Float} (h : ofKind? k = some (.number x)) :
    k = .number x := by
  cases k with
  | number y => cases h; rfl
  | keyword w => cases w <;> cases h
  | _ => cases h

namespace Expr

theorem span_spans (e : Expr) : e.spans.span = e.span := by
  cases e <;> rfl

theorem spans_withSpan (e : Expr) (s : Span) :
    (e.withSpan s).spans = .node s e.spans.inside := by
  cases e <;> rfl

/-- All expressions of a list are nameable. -/
def AllNameable (es : List Expr) : Prop := ∀ x ∈ es, x.Nameable

theorem allNameable_cons {e : Expr} {es : List Expr} (h : e.Nameable) (k : AllNameable es) :
    AllNameable (e :: es) := List.forall_mem_cons.mpr ⟨h, k⟩

theorem allNameable_append {es fs : List Expr} (h : AllNameable es) (k : AllNameable fs) :
    AllNameable (es ++ fs) := List.forall_mem_append.mpr ⟨h, k⟩

theorem allNameable_withSpan {e : Expr} {s : Span} (h : AllNameable e.subexpressions) :
    AllNameable (e.withSpan s).subexpressions := by
  obtain ⟨he, hinside⟩ := List.forall_mem_cons.mp h
  cases e with
  | literal v _ => cases v <;> exact allNameable_cons he hinside
  | _ => exact allNameable_cons trivial hinside

/-- An expression of a text that begins not before an offset, and tokens after it. -/
structure Precedes (source : List Char) (low high : Nat) (e : Expr) (rest : List Token) :
    Prop where
  low : low ≤ e.span.start
  piece : e.span.Piece source
  spans : e.spans.Faithful source
  literals : AllNameable e.subexpressions
  rest : Tokens source e.span.stop high rest

section

variable {source : List Char} {low high : Nat} {e : Expr} {rest : List Token}

/-- Trees after that of the expression. -/
theorem Precedes.heads {stop : Nat} {ts : List SpanTree} (h : Precedes source low high e rest)
    (k : SpanTree.AllWithin source e.span.stop stop ts) :
    SpanTree.AllWithin source e.span.start stop (e.spans :: ts) := by
  have same := e.span_spans
  refine .cons ?_ h.spans ?_
  · exact Nat.le_of_eq (congrArg Span.start same.symm)
  · rw [same]
    exact k

theorem Precedes.within {stop : Nat} {ts : List SpanTree} (h : Precedes source low high e rest)
    (k : SpanTree.AllWithin source e.span.stop stop ts) :
    SpanTree.AllWithin source low stop (e.spans :: ts) :=
  (h.heads k).mono h.low (Nat.le_refl _)

theorem Precedes.token {t : Token} (h : Tokens source low high (t :: rest))
    (hspans : e.spans = .node t.span []) (literals : AllNameable e.subexpressions) :
    Precedes source low high e rest := by
  have hspan : e.span = t.span := by rw [← e.span_spans, hspans, SpanTree.span]
  have piece := h.head_sound.piece
  refine ⟨?_, ?_, ?_, literals, ?_⟩
  · rw [hspan]
    exact h.head_low
  · rw [hspan]
    exact piece
  · rw [hspans]
    exact .of_within piece.locates (.nil piece.le)
  · rw [hspan]
    exact h.after

/-- An expression from one piece to another. -/
theorem Precedes.cover {a b : Span} {ts : List SpanTree}
    (hspans : e.spans = .node (Span.cover a b) ts) (hlow : low ≤ a.start)
    (ha : a.Piece source) (hb : b.Piece source) (hab : a.stop ≤ b.start)
    (within : SpanTree.AllWithin source a.start b.stop ts)
    (literals : AllNameable e.subexpressions) (after : Tokens source b.stop high rest) :
    Precedes source low high e rest := by
  have hspan : e.span = Span.cover a b := by rw [← e.span_spans, hspans, SpanTree.span]
  obtain ⟨piece, start, stop⟩ := ha.cover hb hab
  refine ⟨?_, ?_, ?_, literals, ?_⟩
  · rw [hspan, start]
    exact hlow
  · rw [hspan]
    exact piece
  · rw [hspans]
    refine .of_within piece.locates ?_
    rw [start, stop]
    exact within
  · rw [hspan, stop]
    exact after

/-- Items or properties of a text that begin not before an offset, the token that ends them,
and tokens after it. -/
structure Ended (source : List Char) (low high : Nat) (ts : List SpanTree) (es : List Expr)
    (closing : Token) (rest : List Token) : Prop where
  within : SpanTree.AllWithin source low closing.span.start ts
  literals : AllNameable es
  piece : closing.span.Piece source
  rest : Tokens source closing.span.stop high rest

/-- What stands between two tokens belongs to what has its span from the one to the other. -/
theorem Ended.enclosed {a : Span} {ts : List SpanTree} {es : List Expr} {closing : Token}
    (h : Ended source a.stop high ts es closing rest)
    (hspans : e.spans = .node (Span.cover a closing.span) ts) (hlow : low ≤ a.start)
    (ha : a.Piece source) (literals : AllNameable e.subexpressions) :
    Precedes source low high e rest :=
  .cover hspans hlow ha h.piece h.within.le (h.within.mono ha.le h.piece.le) literals h.rest

/-- Items after the first one. -/
theorem Ended.cons {ts : List SpanTree} {es : List Expr} {closing : Token} {between : List Token}
    (h : Precedes source low high e between)
    (k : Ended source e.span.stop high ts es closing rest) :
    Ended source low high (e.spans :: ts) (e.subexpressions ++ es) closing rest where
  within := h.within k.within
  literals := allNameable_append h.literals k.literals
  piece := k.piece
  rest := k.rest

/-- What stands before an item. -/
theorem Ended.prepend {middle : Nat} {us ts : List SpanTree} {fs es : List Expr} {closing : Token}
    (h : SpanTree.AllWithin source low middle us) (hfs : AllNameable fs)
    (k : Ended source middle high ts es closing rest) :
    Ended source low high (us ++ ts) (fs ++ es) closing rest where
  within := h.append k.within
  literals := allNameable_append hfs k.literals
  piece := k.piece
  rest := k.rest

theorem Ended.nil {closing : Token} (h : Tokens source low high (closing :: rest)) :
    Ended source low high [] [] closing rest :=
  ⟨.nil h.head_low, List.forall_mem_nil _, h.head_sound.piece, h.after⟩

end

/-! ## What is read -/

variable {source : List Char}

/-- Parentheses widen the span of what is inside them. -/
theorem Precedes.parentheses {low high : Nat} {e : Expr} {opening closing : Token}
    {ts rest : List Token} (h : Tokens source low high (opening :: ts))
    (inside : Precedes source opening.span.stop high e (closing :: rest)) :
    Precedes source low high (e.withSpan (Span.cover opening.span closing.span)) rest := by
  have opened := h.head_sound.piece
  have closed := inside.rest.head_sound.piece
  have apart : opening.span.stop ≤ closing.span.start :=
    Nat.le_trans inside.low (Nat.le_trans inside.piece.le inside.rest.head_low)
  obtain ⟨piece, start, stop⟩ := opened.cover closed apart
  have same := e.span_spans
  refine ⟨?_, ?_, ?_, allNameable_withSpan inside.literals, ?_⟩
  · rw [span_withSpan, start]
    exact h.head_low
  · rw [span_withSpan]
    exact piece
  · rw [spans_withSpan]
    refine inside.spans.widen piece.locates ?_ ?_
    · rw [start, same]
      exact Nat.le_trans opened.le inside.low
    · rw [stop, same]
      exact Nat.le_trans inside.rest.head_low closed.le
  · rw [span_withSpan, stop]
    exact inside.rest.after

/-- The key of a property stands before its value. -/
def PropertyPrecedes (source : List Char) (low high : Nat) (rest : List Token) : Property → Prop
  | .mk key value => ∃ middle, SpanTree.AllWithin source low middle key.spans ∧
      AllNameable key.inside ∧ Precedes source middle high value rest

/-- Properties after the first one. -/
theorem PropertyPrecedes.ends {low high : Nat} {p : Property} {ps : List Property}
    {between rest : List Token} {closing : Token}
    (h : PropertyPrecedes source low high between p)
    (k : ∀ {middle}, Tokens source middle high between →
      Ended source middle high (spansProperties ps) (insideProperties ps) closing rest) :
    Ended source low high (spansProperties (p :: ps)) (insideProperties (p :: ps)) closing
      rest := by
  cases p with
  | mk key value =>
    obtain ⟨middle, hkey, literals, hvalue⟩ := h
    rw [spansProperties, insideProperties, List.append_assoc]
    exact .prepend hkey literals (.cons hvalue (k hvalue.rest))

mutual

theorem precedes_of_derives {low high : Nat} {ts rest : List Token} {e : Expr} :
    Derives ts e rest → Tokens source low high ts → Precedes source low high e rest
  | @Derives.literal t value hvalue rest, h => by
    refine .token h rfl (allNameable_cons ?_ (List.forall_mem_nil _))
    cases value with
    | number x => exact h.head_sound.named x (Literal.kind_of_number hvalue)
    | _ => trivial
  | .identifier name s rest, h =>
    .token h rfl (allNameable_cons trivial (List.forall_mem_nil _))
  | .parentheses he opening _ _, h => .parentheses h (precedes_of_derives he h.after)
  | .array hes opening _ _, h => by
    have inside := ended_of_derivesItems hes h.after
    exact inside.enclosed rfl h.head_low h.head_sound.piece
      (allNameable_cons trivial inside.literals)
  | .object hps opening _ _, h => by
    have inside := ended_of_derivesProperties hps h.after
    exact inside.enclosed rfl h.head_low h.head_sound.piece
      (allNameable_cons trivial inside.literals)
  | .member hbase name optional _ _, h => by
    have first := precedes_of_derives hbase h
    have last := first.rest.tail
    have piece := last.head_sound.piece
    have literals := allNameable_append first.literals (List.forall_mem_nil _)
    exact .cover rfl first.low first.piece piece last.head_low
      (first.heads (.nil (Nat.le_trans last.head_low piece.le)))
      (allNameable_cons trivial literals) last.after
  | .computed hbase he optional _ _, h => by
    have first := precedes_of_derives hbase h
    have key := precedes_of_derives he first.rest.drop
    have piece := key.rest.head_sound.piece
    have apart := Nat.le_trans key.low (Nat.le_trans key.piece.le key.rest.head_low)
    have literals := allNameable_append first.literals key.literals
    exact .cover rfl first.low first.piece piece apart
      (first.heads (key.within (.nil (Nat.le_trans key.rest.head_low piece.le))))
      (allNameable_cons trivial literals) key.rest.after
  | .call hcallee hes optional _ _, h => by
    have first := precedes_of_derives hcallee h
    have arguments := ended_of_derivesItems hes first.rest.drop
    have literals := allNameable_append first.literals arguments.literals
    exact .cover rfl first.low first.piece arguments.piece arguments.within.le
      (first.heads (arguments.within.mono (Nat.le_refl _) arguments.piece.le))
      (allNameable_cons trivial literals) arguments.rest
  | .unary hargument mark op _, h => by
    have argument := precedes_of_derives hargument h.after
    have piece := h.head_sound.piece
    have within := (argument.within (.nil (Nat.le_refl _))).mono piece.le (Nat.le_refl _)
    exact .cover rfl h.head_low piece argument.piece argument.low within
      (allNameable_cons trivial argument.literals) argument.rest
  | .before hargument _ mark op _, h => by
    have argument := precedes_of_derives hargument h.after
    have piece := h.head_sound.piece
    have within := (argument.within (.nil (Nat.le_refl _))).mono piece.le (Nat.le_refl _)
    exact .cover rfl h.head_low piece argument.piece argument.low within
      (allNameable_cons trivial argument.literals) argument.rest
  | .after hargument _ op _, h => by
    have argument := precedes_of_derives hargument h
    have last := argument.rest
    have piece := last.head_sound.piece
    exact .cover rfl argument.low argument.piece piece last.head_low
      (argument.heads (.nil (Nat.le_trans last.head_low piece.le)))
      (allNameable_cons trivial argument.literals) last.after
  | .operator hl hr op _, h => by
    have left := precedes_of_derives hl h
    have right := precedes_of_derives hr left.rest.tail
    have within := left.heads (right.within (.nil (Nat.le_refl _)))
    have literals := allNameable_append left.literals right.literals
    cases op with
    | binary op =>
      exact .cover rfl left.low left.piece right.piece right.low within
        (allNameable_cons trivial literals) right.rest
    | logical op =>
      exact .cover rfl left.low left.piece right.piece right.low within
        (allNameable_cons trivial literals) right.rest
  | .conditional ht hc ha _ _, h => by
    have test := precedes_of_derives ht h
    have consequent := precedes_of_derives hc test.rest.tail
    have alternate := precedes_of_derives ha consequent.rest.tail
    have apart := Nat.le_trans consequent.low (Nat.le_trans consequent.piece.le alternate.low)
    have within := consequent.within (alternate.within (.nil (Nat.le_refl _)))
    have literals := allNameable_append (allNameable_append test.literals consequent.literals)
      alternate.literals
    exact .cover rfl test.low test.piece alternate.piece apart (test.heads within)
      (allNameable_cons trivial literals) alternate.rest
  | .assign ht _ hv op _, h => by
    have target := precedes_of_derives ht h
    have value := precedes_of_derives hv target.rest.tail
    have literals := allNameable_append target.literals value.literals
    exact .cover rfl target.low target.piece value.piece value.low
      (target.heads (value.within (.nil (Nat.le_refl _)))) (allNameable_cons trivial literals)
      value.rest

theorem ended_of_derivesItems {low high : Nat} {ts rest : List Token} {es : List Expr}
    {closing : Token} : DerivesItems ts es closing rest → Tokens source low high ts →
      Ended source low high (spansAll es) (insideAll es) closing rest
  | .nil closing rest, h => .nil h
  | .last he, h => by
    have first := precedes_of_derives he h
    exact .cons first (.nil first.rest)
  | .cons he hes _, h => by
    have first := precedes_of_derives he h
    exact .cons first (ended_of_derivesItems hes first.rest.tail)

theorem within_of_derivesKey {low high : Nat} {ts rest : List Token} {key : Key} :
    DerivesKey ts key rest → Tokens source low high ts →
      ∃ middle, SpanTree.AllWithin source low middle key.spans ∧ AllNameable key.inside ∧
        Tokens source middle high rest
  | .named _ rest, h => ⟨low, .nil (Nat.le_refl _), List.forall_mem_nil _, h.tail⟩
  | .computed he opening _ _, h => by
    have inside := precedes_of_derives he h.tail
    exact ⟨_, inside.within (.nil (Nat.le_refl _)), inside.literals, inside.rest.tail⟩

theorem precedes_of_derivesProperty {low high : Nat} {ts rest : List Token} {p : Property} :
    DerivesProperty ts p rest → Tokens source low high ts →
      PropertyPrecedes source low high rest p
  | .short name s rest, h => by
    refine ⟨low, .nil (Nat.le_refl _), List.forall_mem_nil _, .token h rfl ?_⟩
    exact allNameable_cons trivial (List.forall_mem_nil _)
  | .full hkey hvalue _, h => by
    obtain ⟨middle, within, literals, after⟩ := within_of_derivesKey hkey h
    exact ⟨middle, within, literals, precedes_of_derives hvalue after.tail⟩

theorem ended_of_derivesProperties {low high : Nat} {ts rest : List Token} {ps : List Property}
    {closing : Token} : DerivesProperties ts ps closing rest → Tokens source low high ts →
      Ended source low high (spansProperties ps) (insideProperties ps) closing rest
  | .nil closing rest, h => .nil h
  | .last hp, h => (precedes_of_derivesProperty hp h).ends fun after => .nil after
  | .cons hp hps _, h =>
    (precedes_of_derivesProperty hp h).ends fun after => ended_of_derivesProperties hps after.tail

end

end Expr

/-! ## Laid out in a text -/

/-- Trees of spans of a text from one offset to another, one after the other, with the
expressions among them. -/
structure LaidOut (source : List Char) (low high : Nat) (ts : List SpanTree) (es : List Expr) :
    Prop where
  within : SpanTree.AllWithin source low high ts
  literals : ∀ e ∈ es, Expr.AllNameable e.subexpressions

namespace LaidOut

variable {source : List Char} {low middle high : Nat} {ts us : List SpanTree} {es fs : List Expr}

theorem nil (h : low ≤ high) : LaidOut source low high [] [] := ⟨.nil h, List.forall_mem_nil _⟩

theorem append (h : LaidOut source low middle ts es) (k : LaidOut source middle high us fs) :
    LaidOut source low high (ts ++ us) (es ++ fs) :=
  ⟨h.within.append k.within, List.forall_mem_append.mpr ⟨h.literals, k.literals⟩⟩

theorem mono {less more : Nat} (h : LaidOut source low high ts es) (hless : less ≤ low)
    (hmore : high ≤ more) : LaidOut source less more ts es :=
  ⟨h.within.mono hless hmore, h.literals⟩

theorem le (h : LaidOut source low high ts es) : low ≤ high := h.within.le

/-- What is laid out inside a piece belongs to the piece. -/
theorem node {c d : Text.Cursor} (hc : c.On source) (hd : c.Reaches source d)
    (h : LaidOut source c.offset d.offset ts es) :
    LaidOut source c.offset d.offset [.node (c.span d) ts] es := by
  have piece := Span.piece_span hc hd
  refine ⟨.cons (Nat.le_refl _) (.of_within piece.locates h.within) ?_, h.literals⟩
  exact .nil (Nat.le_refl _)

end LaidOut

namespace Expr

variable {source : List Char} {low high : Nat} {ts rest : List Token} {e : Expr}

theorem Precedes.laidOut (h : Precedes source low high e rest) :
    LaidOut source low high [e.spans] [e] where
  within := h.within (.nil h.rest.ordered.le)
  literals := List.forall_mem_singleton.mpr h.literals

/-- An expression is laid out where its tokens stand. -/
theorem laidOut_of_ofTokens (h : Tokens source low high ts) (hread : ofTokens ts = .ok e) :
    LaidOut source low high [e.spans] [e] := by
  have before := h.sublist (List.takeWhile_sublist (!·.kind.isEnd))
  exact (precedes_of_derives (derives_of_ofTokens hread) before).laidOut

end Expr

end PromptTemplate
