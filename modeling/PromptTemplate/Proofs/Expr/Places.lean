import PromptTemplate.Expr.EachHeader
import PromptTemplate.Proofs.Expr.Reading

/-!
# Expressions and the places of their tokens

Where the tokens of an expression stand decides nothing but the spans of the expression. If the
spans of two lists of tokens become the same by two maps, then what is read from one list and
from the other becomes the same by these maps, too. The second list may go on with a closing
parenthesis, which no reader takes that was not given an opening one.
-/

namespace PromptTemplate

theorem ok_of_bind {ε α β : Type} {r : Except ε α} {f : α → Except ε β} {b : β}
    (h : r >>= f = .ok b) : ∃ a, r = .ok a ∧ f a = .ok b := by
  cases r with
  | error e => cases h
  | ok a => exact ⟨a, rfl, h⟩

/-- Where the first of two results is a value, the other is one that is related to it. -/
def Agrees {ε ε' α β : Type} (R : α → β → Prop) (r : Except ε α) (r' : Except ε' β) : Prop :=
  ∀ a, r = .ok a → ∃ b, r' = .ok b ∧ R a b

namespace Agrees

variable {ε ε' α β γ δ : Type} {R : α → β → Prop} {S : γ → δ → Prop}

theorem ok {a : α} {b : β} (h : R a b) :
    Agrees R (.ok a : Except ε α) (.ok b : Except ε' β) := by
  intro a' ha
  cases ha
  exact ⟨b, rfl, h⟩

theorem error (e : ε) (r' : Except ε' β) : Agrees R (.error e : Except ε α) r' := by
  intro a ha
  cases ha

theorem bind {r : Except ε α} {r' : Except ε' β} {f : α → Except ε γ} {f' : β → Except ε' δ}
    (hr : Agrees R r r') (hf : ∀ a b, R a b → Agrees S (f a) (f' b)) :
    Agrees S (r >>= f) (r' >>= f') := by
  cases r with
  | error e => exact error e _
  | ok a =>
    obtain ⟨b, rfl, hb⟩ := hr a rfl
    exact hf a b hb

end Agrees

/-! ## Mapping spans -/

def Token.mapSpan (f : Span → Span) (t : Token) : Token := ⟨t.kind, f t.span⟩

namespace Expr

mutual

/-- The same expression with other spans. -/
def mapSpans (f : Span → Span) : Expr → Expr
  | .literal value s => .literal value (f s)
  | .identifier name s => .identifier name (f s)
  | .array items s => .array (mapSpansAll f items) (f s)
  | .object properties s => .object (mapSpansProperties f properties) (f s)
  | .member base key optional s =>
    .member (mapSpans f base) (mapSpansKey f key) optional (f s)
  | .call callee arguments optional s =>
    .call (mapSpans f callee) (mapSpansAll f arguments) optional (f s)
  | .unary op argument s => .unary op (mapSpans f argument) (f s)
  | .binary op left right s => .binary op (mapSpans f left) (mapSpans f right) (f s)
  | .logical op left right s => .logical op (mapSpans f left) (mapSpans f right) (f s)
  | .conditional test consequent alternate s =>
    .conditional (mapSpans f test) (mapSpans f consequent) (mapSpans f alternate) (f s)
  | .assign op target value s => .assign op (mapSpans f target) (mapSpans f value) (f s)
  | .update op before argument s => .update op before (mapSpans f argument) (f s)

def mapSpansAll (f : Span → Span) : List Expr → List Expr
  | [] => []
  | e :: rest => mapSpans f e :: mapSpansAll f rest

def mapSpansKey (f : Span → Span) : Key → Key
  | .named name => .named name
  | .computed e => .computed (mapSpans f e)

def mapSpansProperties (f : Span → Span) : List Property → List Property
  | [] => []
  | .mk key value :: rest =>
    .mk (mapSpansKey f key) (mapSpans f value) :: mapSpansProperties f rest

end

mutual

theorem mapSpans_id : ∀ e : Expr, mapSpans (fun s => s) e = e
  | .literal .. | .identifier .. => rfl
  | .array es s => by rw [mapSpans, mapSpansAll_id es]
  | .object ps s => by rw [mapSpans, mapSpansProperties_id ps]
  | .member base key optional s => by rw [mapSpans, mapSpans_id base, mapSpansKey_id key]
  | .call callee arguments optional s => by
    rw [mapSpans, mapSpans_id callee, mapSpansAll_id arguments]
  | .unary op argument s => by rw [mapSpans, mapSpans_id argument]
  | .binary op left right s => by rw [mapSpans, mapSpans_id left, mapSpans_id right]
  | .logical op left right s => by rw [mapSpans, mapSpans_id left, mapSpans_id right]
  | .conditional test consequent alternate s => by
    rw [mapSpans, mapSpans_id test, mapSpans_id consequent, mapSpans_id alternate]
  | .assign op target value s => by rw [mapSpans, mapSpans_id target, mapSpans_id value]
  | .update op before argument s => by rw [mapSpans, mapSpans_id argument]

theorem mapSpansAll_id : ∀ es : List Expr, mapSpansAll (fun s => s) es = es
  | [] => rfl
  | e :: es => by rw [mapSpansAll, mapSpans_id e, mapSpansAll_id es]

theorem mapSpansKey_id : ∀ k : Key, mapSpansKey (fun s => s) k = k
  | .named _ => rfl
  | .computed e => by rw [mapSpansKey, mapSpans_id e]

theorem mapSpansProperties_id : ∀ ps : List Property, mapSpansProperties (fun s => s) ps = ps
  | [] => rfl
  | .mk key value :: ps => by
    rw [mapSpansProperties, mapSpansKey_id key, mapSpans_id value, mapSpansProperties_id ps]

end

variable {f g : Span → Span}

@[simp] theorem span_mapSpans (e : Expr) : (mapSpans f e).span = f e.span := by
  cases e <;> simp [mapSpans, span]

theorem mapSpans_withSpan (e : Expr) (s : Span) :
    mapSpans f (e.withSpan s) = (mapSpans f e).withSpan (f s) := by
  cases e <;> simp [mapSpans, withSpan]

theorem hasOptionalLink_mapSpans : ∀ e : Expr,
    (mapSpans f e).hasOptionalLink = e.hasOptionalLink
  | .member base key optional _ => by
    simp [mapSpans, hasOptionalLink, hasOptionalLink_mapSpans base]
  | .call callee arguments optional _ => by
    simp [mapSpans, hasOptionalLink, hasOptionalLink_mapSpans callee]
  | .literal .. | .identifier .. | .array .. | .object .. | .unary .. | .binary .. => by
    simp [mapSpans, hasOptionalLink]
  | .logical .. | .conditional .. | .assign .. | .update .. => by
    simp [mapSpans, hasOptionalLink]

theorem isTarget_mapSpans (e : Expr) : (mapSpans f e).isTarget = e.isTarget := by
  cases e <;> simp [mapSpans, isTarget, hasOptionalLink_mapSpans]

section

variable {e e' : Expr} (h : mapSpans g e' = mapSpans f e)

include h

theorem isTarget_alike : e'.isTarget = e.isTarget := by
  rw [← isTarget_mapSpans (f := g) e', h, isTarget_mapSpans]

theorem span_alike : g e'.span = f e.span := by
  have same := congrArg span h
  rwa [span_mapSpans, span_mapSpans] at same

end

end Expr

/-- A map of spans that takes the span that covers two spans to that which covers what they are
taken to. -/
structure Span.Moving where
  map : Span → Span
  covers : ∀ a b, map (cover a b) = cover (map a) (map b)

instance : CoeFun Span.Moving fun _ => Span → Span := ⟨Span.Moving.map⟩

namespace Expr.Parser

/-- Tokens of the same kinds in the same order, with spans that two maps take to the same. -/
def Alike (f g : Span → Span) (ts us : List Token) : Prop :=
  us.map (Token.mapSpan g) = ts.map (Token.mapSpan f)

section

variable {f g : Span → Span} {ts us : List Token} {t u : Token}

/-- Tokens that are alike as far as the first list goes. The second one ends there, too, or
goes on with a closing parenthesis. -/
structure Ahead (f g : Span → Span) (tail ts us : List Token) : Prop where
  closed : ∀ t ∈ tail.head?, t.kind = .mark .rightParen
  front : ∃ front, us = front ++ tail ∧ Alike f g ts front

variable {tail : List Token}

theorem Alike.ahead (h : Alike f g ts us) : Ahead f g [] ts us :=
  ⟨(fun _ h => nomatch h), us, (List.append_nil us).symm, h⟩

theorem Ahead.exists_nil (h : Ahead f g tail [] us) : us = tail := by
  obtain ⟨front, rfl, same⟩ := h.front
  rw [List.map_eq_nil_iff.mp same]
  rfl

theorem Ahead.exists_cons (h : Ahead f g tail (t :: ts) us) :
    ∃ u rest, us = u :: rest ∧ u.kind = t.kind ∧ g u.span = f t.span ∧ Ahead f g tail ts rest := by
  obtain ⟨front, rfl, same⟩ := h.front
  obtain ⟨u, rest, rfl, hu, hrest⟩ := List.map_eq_cons_iff.mp same
  obtain ⟨hk, hs⟩ := Token.mk.inj hu
  exact ⟨u, rest ++ tail, rfl, hk, hs, h.closed, rest, rfl, hrest⟩

theorem startsWith_cons_ahead (m : Mark) (h : Ahead f g tail (t :: ts) us) :
    startsWith m us = startsWith m (t :: ts) := by
  obtain ⟨u, rest, rfl, hu, -, -⟩ := h.exists_cons
  rw [startsWith_cons, startsWith_cons, hu]

theorem startsWith_ahead (m : Mark) (other : m ≠ .rightParen) (h : Ahead f g tail ts us) :
    startsWith m us = startsWith m ts := by
  cases ts with
  | nil =>
    rw [h.exists_nil]
    cases tail with
    | nil => rfl
    | cons t tail =>
      rw [startsWith_cons, h.closed t rfl]
      exact beq_false_of_ne fun same => other (Token.Kind.mark.inj same).symm
  | cons t ts => exact startsWith_cons_ahead m h

theorem take?_ahead {α : Type} (meaning : Token.Kind → Option α)
    (other : meaning (.mark .rightParen) = none) (stop stop' : Token)
    (h : Ahead f g tail ts us) :
    (take? meaning ts = none ∧ take? meaning us = none) ∨
      ∃ a rest rest', Ahead f g tail rest.1 rest'.1 ∧
        g (current stop' us).span = f (current stop ts).span ∧
        take? meaning ts = some (a, rest) ∧ take? meaning us = some (a, rest') := by
  cases ts with
  | nil =>
    rw [h.exists_nil]
    exact .inl ⟨rfl, take?_eq_none fun t ht => by rw [h.closed t ht, other]⟩
  | cons t ts =>
    obtain ⟨u, rest, rfl, hu, hs, hrest⟩ := h.exists_cons
    cases ht : meaning t.kind with
    | none => exact .inl ⟨by simp [take?, ht], by simp [take?, hu, ht]⟩
    | some a =>
      have htaken : meaning u.kind = some a := by rw [hu, ht]
      exact .inr ⟨a, ⟨ts, Nat.lt_add_one _⟩, ⟨rest, Nat.lt_add_one _⟩, hrest, hs, take?_cons ht,
        take?_cons htaken⟩

/-- What two readers have read and left. -/
structure Same (f g : Span → Span) (tail : List Token) {α β : Type} (view : (Span → Span) → α → β)
    {P Q : List Token → Prop} (a : α × { ts : List Token // P ts })
    (b : α × { ts : List Token // Q ts }) : Prop where
  value : view g b.1 = view f a.1
  rest : Ahead f g tail a.2.1 b.2.1

/-- What two readers up to a closing token have read and left, and where that token stood. -/
structure SameClosed (f g : Span → Span) (tail : List Token) {α β : Type}
    (view : (Span → Span) → α → β) {P Q : List Token → Prop}
    (a : α × Span × { ts : List Token // P ts }) (b : α × Span × { ts : List Token // Q ts }) :
    Prop where
  value : view g b.1 = view f a.1
  stopped : g b.2.1 = f a.2.1
  rest : Ahead f g tail a.2.2.1 b.2.2.1

variable (stop stop' : Token)

theorem agrees_expect (m : Mark) (h : Ahead f g tail ts us) :
    Agrees (Same f g tail fun h s => h s) (expect stop m ts) (expect stop' m us) := by
  cases ts with
  | nil => exact .error _ _
  | cons t ts =>
    obtain ⟨u, rest, rfl, hu, hs, hrest⟩ := h.exists_cons
    rw [expect, expect, hu]
    split
    · exact .ok ⟨hs, hrest⟩
    · exact .error _ _

theorem agrees_propertyName (h : Ahead f g tail ts us) :
    Agrees (SameClosed f g tail fun _ name => name) (propertyName stop ts)
      (propertyName stop' us) := by
  cases ts with
  | nil => exact .error _ _
  | cons t ts =>
    obtain ⟨u, rest, rfl, hu, hs, hrest⟩ := h.exists_cons
    rw [propertyName, propertyName, hu]
    split
    · exact .ok ⟨rfl, hs, hrest⟩
    · exact .error _ _

end

/-! ## Readers

The induction is on the number of tokens that are left. A reader comes back to whole expressions
only after a token of its own, so each is told with what is read from fewer tokens as given, and
the readers that repeat go through their tokens on their own. -/

section

variable {f g : Span.Moving}

theorem mapSpansProperties_cons {p p' : Property} {ps ps' : List Property}
    (h : mapSpansProperties g [p'] = mapSpansProperties f [p])
    (hs : mapSpansProperties g ps' = mapSpansProperties f ps) :
    mapSpansProperties g (p' :: ps') = mapSpansProperties f (p :: ps) := by
  obtain ⟨key, value⟩ := p
  obtain ⟨key', value'⟩ := p'
  simp only [mapSpansProperties, List.cons.injEq] at h ⊢
  exact ⟨h.1, hs⟩

theorem cover_alike {a a' b b' : Span} (ha : g a' = f a) (hb : g b' = f b) :
    g (Span.cover a' b') = f (Span.cover a b) := by
  rw [f.covers, g.covers, ha, hb]

theorem mapSpans_apply (op : Operator) {left left' right right' : Expr}
    (hleft : mapSpans g left' = mapSpans f left) (hright : mapSpans g right' = mapSpans f right) :
    mapSpans g (op.apply left' right') = mapSpans f (op.apply left right) := by
  have span := cover_alike (span_alike hleft) (span_alike hright)
  cases op <;> simp only [Operator.apply, mapSpans, hleft, hright, span]

variable {stop stop' : Token} {tail : List Token} {n : Nat}

/-- Where fewer than `n` tokens are left, whole expressions are read alike. -/
def Below (f g : Span.Moving) (tail : List Token) (stop stop' : Token) (n : Nat) : Prop :=
  ∀ ⦃ts us : List Token⦄, ts.length < n → Ahead f g tail ts us →
    Agrees (Same f g tail mapSpans) (assignment stop ts) (assignment stop' us)

section

variable (below : Below f g tail stop stop' n)

include below

theorem agrees_items (closing : Mark) {ts us : List Token} (fits : ts.length < n)
    (h : Ahead f g tail ts us) :
    Agrees (SameClosed f g tail mapSpansAll) (items stop closing ts) (items stop' closing us) := by
  cases ts with
  | nil =>
    -- What is left is shorter, and nothing is shorter than no tokens.
    rintro ⟨_, _, rest, hrest⟩
    exact absurd hrest (Nat.not_lt_zero _)
  | cons t ts =>
    rw [items, items, startsWith_cons_ahead closing h]
    split
    · refine .bind (agrees_expect stop stop' closing h) ?_
      rintro ⟨_, more⟩ ⟨_, more'⟩ ⟨hs, hsame⟩
      exact .ok ⟨rfl, hs, hsame⟩
    · refine .bind (below fits h) ?_
      rintro ⟨e, rest, hrest⟩ ⟨e', rest', hrest'⟩ ⟨he, hsame⟩
      dsimp only at he hsame ⊢
      cases rest with
      | nil => exact .error _ _
      | cons u rest =>
        rw [startsWith_cons_ahead closing hsame]
        split
        · refine .bind (agrees_expect stop stop' closing hsame) ?_
          rintro ⟨_, more, hmore⟩ ⟨_, more', hmore'⟩ ⟨hs, hsame⟩
          refine .ok ⟨?_, hs, hsame⟩
          simp only [mapSpansAll, he]
        · refine .bind (agrees_expect stop stop' .comma hsame) ?_
          rintro ⟨_, more, hmore⟩ ⟨_, more', hmore'⟩ ⟨-, hsame⟩
          have shorter : more.length < n := by omega
          refine .bind (agrees_items closing shorter hsame) ?_
          rintro ⟨es, _, after, hafter⟩ ⟨es', _, after', hafter'⟩ ⟨hes, hs, hsame⟩
          dsimp only at hes
          refine .ok ⟨?_, hs, hsame⟩
          simp only [mapSpansAll, he, hes]
termination_by ts.length

theorem agrees_propertyKey {ts us : List Token} (fits : ts.length ≤ n) (h : Ahead f g tail ts us) :
    Agrees (Same f g tail mapSpansKey) (propertyKey stop ts) (propertyKey stop' us) := by
  rw [propertyKey, propertyKey]
  rcases take?_ahead keyOf? rfl stop stop' h with ⟨hnone, hnone'⟩ |
      ⟨name, more, more', hmore, -, ht, ht'⟩
  · simp only [hnone, hnone', startsWith_ahead .leftBracket (by decide) h]
    split
    · refine .bind (agrees_expect stop stop' .leftBracket h) ?_
      rintro ⟨_, more, hmore⟩ ⟨_, more', hmore'⟩ ⟨-, hsame⟩
      have shorter : more.length < n := by omega
      refine .bind (below shorter hsame) ?_
      rintro ⟨key, rest, hrest⟩ ⟨key', rest', hrest'⟩ ⟨hkey, hsame⟩
      refine .bind (agrees_expect stop stop' .rightBracket hsame) ?_
      rintro ⟨_, after, hafter⟩ ⟨_, after', hafter'⟩ ⟨hs, hsame⟩
      exact .ok ⟨congrArg Key.computed hkey, hsame⟩
    · exact .error _ _
  · simp only [ht, ht']
    exact .ok ⟨rfl, hmore⟩

theorem agrees_property {ts us : List Token} (fits : ts.length ≤ n) (h : Ahead f g tail ts us) :
    Agrees (Same f g tail fun h p => mapSpansProperties h [p]) (property stop ts)
      (property stop' us) := by
  rw [property, property]
  refine .bind (agrees_propertyKey below fits h) ?_
  rintro ⟨key, rest, hrest⟩ ⟨key', rest', hrest'⟩ ⟨hkey, hsame⟩
  dsimp only at hkey hsame ⊢
  rw [startsWith_ahead .colon (by decide) hsame]
  have value : Agrees (Same f g tail fun h p => mapSpansProperties h [p])
      (expect stop .colon rest >>= fun colon =>
        assignment stop colon.2.1 >>= fun value =>
          pure (.mk key value.1,
            ⟨value.2.1, Nat.lt_trans value.2.2 (Nat.lt_trans colon.2.2 hrest)⟩) :
        Except Error (Property × Shorter ts))
      (expect stop' .colon rest' >>= fun colon =>
        assignment stop' colon.2.1 >>= fun value =>
          pure (.mk key' value.1,
            ⟨value.2.1, Nat.lt_trans value.2.2 (Nat.lt_trans colon.2.2 hrest')⟩) :
        Except Error (Property × Shorter us)) := by
    refine .bind (agrees_expect stop stop' .colon hsame) ?_
    rintro ⟨_, more, hmore⟩ ⟨_, more', hmore'⟩ ⟨-, hsame⟩
    have shorter : more.length < n := by omega
    refine .bind (below shorter hsame) ?_
    rintro ⟨value, after, hafter⟩ ⟨value', after', hafter'⟩ ⟨hvalue, hsame⟩
    dsimp only at hvalue
    refine .ok ⟨?_, hsame⟩
    simp only [mapSpansProperties, hkey, hvalue]
  cases key with
  | computed e =>
    cases key' with
    | named name => cases hkey
    | computed e' => exact value
  | named name =>
    cases key' with
    | computed e => cases hkey
    | named name' =>
      obtain rfl : name' = name := by simpa [mapSpansKey] using hkey
      rcases take?_ahead identifierOf? rfl stop stop' h with ⟨hnone, hnone'⟩ |
          ⟨a, more, more', hmore, hstart, ht, ht'⟩
      · rw [hnone, hnone']
        cases startsWith .colon rest <;> exact value
      · rw [ht, ht']
        cases startsWith .colon rest with
        | true => exact value
        | false =>
          refine .ok ⟨?_, hsame⟩
          simp only [mapSpansProperties, mapSpansKey, mapSpans, hstart]

theorem agrees_properties {ts us : List Token} (fits : ts.length ≤ n) (h : Ahead f g tail ts us) :
    Agrees (SameClosed f g tail mapSpansProperties) (properties stop ts) (properties stop' us) := by
  rw [properties, properties, startsWith_ahead .rightBrace (by decide) h]
  split
  · refine .bind (agrees_expect stop stop' .rightBrace h) ?_
    rintro ⟨_, more⟩ ⟨_, more'⟩ ⟨hs, hsame⟩
    exact .ok ⟨rfl, hs, hsame⟩
  · refine .bind (agrees_property below fits h) ?_
    rintro ⟨p, rest, hrest⟩ ⟨p', rest', hrest'⟩ ⟨hp, hsame⟩
    dsimp only at hp hsame ⊢
    rw [startsWith_ahead .rightBrace (by decide) hsame]
    split
    · refine .bind (agrees_expect stop stop' .rightBrace hsame) ?_
      rintro ⟨_, more, hmore⟩ ⟨_, more', hmore'⟩ ⟨hs, hsame⟩
      exact .ok ⟨hp, hs, hsame⟩
    · refine .bind (agrees_expect stop stop' .comma hsame) ?_
      rintro ⟨_, more, hmore⟩ ⟨_, more', hmore'⟩ ⟨-, hsame⟩
      have shorter : more.length ≤ n := by omega
      refine .bind (agrees_properties shorter hsame) ?_
      rintro ⟨ps, _, after, hafter⟩ ⟨ps', _, after', hafter'⟩ ⟨hps, hs, hsame⟩
      exact .ok ⟨mapSpansProperties_cons hp hps, hs, hsame⟩
termination_by ts.length

theorem agrees_computedMember {base base' : Expr} (hbase : mapSpans g base' = mapSpans f base)
    (optional : Bool) {ts us : List Token} (fits : ts.length ≤ n) (h : Ahead f g tail ts us) :
    Agrees (Same f g tail mapSpans) (computedMember stop base optional ts)
      (computedMember stop' base' optional us) := by
  rw [computedMember, computedMember]
  refine .bind (agrees_expect stop stop' .leftBracket h) ?_
  rintro ⟨_, more, hmore⟩ ⟨_, more', hmore'⟩ ⟨-, hsame⟩
  refine .bind (below (by omega) hsame) ?_
  rintro ⟨key, rest, hrest⟩ ⟨key', rest', hrest'⟩ ⟨hkey, hsame⟩
  refine .bind (agrees_expect stop stop' .rightBracket hsame) ?_
  rintro ⟨_, after, hafter⟩ ⟨_, after', hafter'⟩ ⟨hs, hsame⟩
  dsimp only at hkey hs
  have span := cover_alike (span_alike hbase) hs
  refine .ok ⟨?_, hsame⟩
  simp only [mapSpans, mapSpansKey, hbase, hkey, span]

theorem agrees_call {callee callee' : Expr} (hcallee : mapSpans g callee' = mapSpans f callee)
    (optional : Bool) {ts us : List Token} (fits : ts.length ≤ n) (h : Ahead f g tail ts us) :
    Agrees (Same f g tail mapSpans) (call stop callee optional ts)
      (call stop' callee' optional us) := by
  rw [call, call]
  refine .bind (agrees_expect stop stop' .leftParen h) ?_
  rintro ⟨_, more, hmore⟩ ⟨_, more', hmore'⟩ ⟨-, hsame⟩
  refine .bind (agrees_items below .rightParen (by omega) hsame) ?_
  rintro ⟨es, _, rest, hrest⟩ ⟨es', _, rest', hrest'⟩ ⟨hes, hs, hsame⟩
  dsimp only at hes hs
  have span := cover_alike (span_alike hcallee) hs
  refine .ok ⟨?_, hsame⟩
  simp only [mapSpans, hcallee, hes, span]

theorem agrees_optionalLink {base base' : Expr} (hbase : mapSpans g base' = mapSpans f base)
    {ts us : List Token} (fits : ts.length ≤ n) (h : Ahead f g tail ts us) :
    Agrees (Same f g tail mapSpans) (optionalLink stop base ts) (optionalLink stop' base' us) := by
  rw [optionalLink, optionalLink, startsWith_ahead .leftBracket (by decide) h,
    startsWith_ahead .leftParen (by decide) h]
  split
  · exact agrees_computedMember below hbase true fits h
  · split
    · exact agrees_call below hbase true fits h
    · refine .bind (agrees_propertyName stop stop' h) ?_
      rintro ⟨name, stopped, rest⟩ ⟨name', stopped', rest'⟩ ⟨hname, hs, hsame⟩
      cases hname
      have span := cover_alike (span_alike hbase) hs
      refine .ok ⟨?_, hsame⟩
      simp only [mapSpans, mapSpansKey, hbase, span]

theorem agrees_links {base base' : Expr} (hbase : mapSpans g base' = mapSpans f base)
    {ts us : List Token}
    (fits : ts.length ≤ n) (h : Ahead f g tail ts us) :
    Agrees (Same f g tail mapSpans) (links stop base ts) (links stop' base' us) := by
  cases ts with
  | nil =>
    have alone : Reads (links stop base []) base [] := reads_links_end fun t ht => nomatch ht
    have closed : Reads (links stop' base' us) base' us := by
      refine reads_links_end fun t ht => ?_
      rw [h.exists_nil] at ht
      simp [h.closed t ht]
    obtain ⟨_, hlinks⟩ := alone
    obtain ⟨_, hlinks'⟩ := closed
    rw [hlinks, hlinks']
    exact .ok ⟨hbase, h⟩
  | cons t ts =>
    obtain ⟨⟨k, s'⟩, us, rfl, hu, -, hsame⟩ := h.exists_cons
    obtain ⟨k', s⟩ := t
    obtain rfl : k = k' := hu
    have next {e e' : Expr} {vs vs' : List Token} (shorter : vs.length < ts.length + 1)
        (he : mapSpans g e' = mapSpans f e) (hv : Ahead f g tail vs vs') :
        Agrees (Same f g tail mapSpans) (links stop e vs) (links stop' e' vs') :=
      agrees_links he (Nat.le_trans (Nat.le_of_lt shorter) fits) hv
    by_cases dot : k = .mark .dot
    · subst dot
      rw [links, links]
      refine .bind (agrees_propertyName stop stop' hsame) ?_
      rintro ⟨name, _, rest, hrest⟩ ⟨name', _, rest', hrest'⟩ ⟨hname, hs, hsame⟩
      cases hname
      have span := cover_alike (span_alike hbase) hs
      refine .bind (next (by omega) (by simp only [mapSpans, mapSpansKey, hbase, span]) hsame) ?_
      rintro ⟨e, after, hafter⟩ ⟨e', after', hafter'⟩ ⟨he, hsame⟩
      exact .ok ⟨he, hsame⟩
    by_cases question : k = .mark .questionDot
    · subst question
      rw [links, links]
      refine .bind (agrees_optionalLink below hbase (Nat.le_of_lt fits) hsame) ?_
      rintro ⟨e, rest, hrest⟩ ⟨e', rest', hrest'⟩ ⟨he, hsame⟩
      refine .bind (next (by omega) he hsame) ?_
      rintro ⟨f, after, hafter⟩ ⟨f', after', hafter'⟩ ⟨hf, hsame⟩
      exact .ok ⟨hf, hsame⟩
    by_cases bracket : k = .mark .leftBracket
    · subst bracket
      rw [links, links]
      refine .bind (agrees_computedMember below hbase false fits h) ?_
      rintro ⟨e, rest, hrest⟩ ⟨e', rest', hrest'⟩ ⟨he, hsame⟩
      refine .bind (next hrest he hsame) ?_
      rintro ⟨f, after, hafter⟩ ⟨f', after', hafter'⟩ ⟨hf, hsame⟩
      exact .ok ⟨hf, hsame⟩
    by_cases paren : k = .mark .leftParen
    · subst paren
      rw [links, links]
      refine .bind (agrees_call below hbase false fits h) ?_
      rintro ⟨e, rest, hrest⟩ ⟨e', rest', hrest'⟩ ⟨he, hsame⟩
      refine .bind (next hrest he hsame) ?_
      rintro ⟨f, after, hafter⟩ ⟨f', after', hafter'⟩ ⟨hf, hsame⟩
      exact .ok ⟨hf, hsame⟩
    · have ends (stop : Token) (e : Expr) (x : Span) (vs : List Token) :
          Reads (links stop e (⟨k, x⟩ :: vs)) e (⟨k, x⟩ :: vs) := by
        refine reads_links_end ?_
        intro t ht
        cases Option.some.inj ht
        exact ⟨dot, question, bracket, paren⟩
      obtain ⟨_, hlinks⟩ := ends stop base s ts
      obtain ⟨_, hlinks'⟩ := ends stop' base' s' us
      rw [hlinks, hlinks']
      exact .ok ⟨hbase, h⟩
termination_by ts.length

theorem agrees_primary {ts us : List Token} (fits : ts.length ≤ n) (h : Ahead f g tail ts us) :
    Agrees (Same f g tail mapSpans) (primary stop ts) (primary stop' us) := by
  cases ts with
  | nil =>
    rw [primary]
    exact .error _ _
  | cons t ts =>
    obtain ⟨⟨k, s'⟩, us, rfl, hu, hstart, hsame⟩ := h.exists_cons
    obtain ⟨k', s⟩ := t
    obtain rfl : k = k' := hu
    unfold primary
    split
    · refine .ok ⟨?_, hsame⟩
      simp only [mapSpans, hstart]
    · split
      · refine .ok ⟨?_, hsame⟩
        simp only [mapSpans, hstart]
      · refine .bind (below fits hsame) ?_
        rintro ⟨e, rest, hrest⟩ ⟨e', rest', hrest'⟩ ⟨he, hsame⟩
        refine .bind (agrees_expect stop stop' .rightParen hsame) ?_
        rintro ⟨_, after, hafter⟩ ⟨_, after', hafter'⟩ ⟨hs, hsame⟩
        have span := cover_alike hstart hs
        dsimp only at he
        refine .ok ⟨?_, hsame⟩
        simp only [mapSpans_withSpan, he, span]
      · refine .bind (agrees_items below .rightBracket fits hsame) ?_
        rintro ⟨es, _, rest, hrest⟩ ⟨es', _, rest', hrest'⟩ ⟨hes, hs, hsame⟩
        dsimp only at hes hs
        have span := cover_alike hstart hs
        refine .ok ⟨?_, hsame⟩
        simp only [mapSpans, hes, span]
      · refine .bind (agrees_properties below (Nat.le_of_lt fits) hsame) ?_
        rintro ⟨ps, _, rest, hrest⟩ ⟨ps', _, rest', hrest'⟩ ⟨hps, hs, hsame⟩
        dsimp only at hps hs
        have span := cover_alike hstart hs
        refine .ok ⟨?_, hsame⟩
        simp only [mapSpans, hps, span]
      · exact .error _ _
      · exact .error _ _
      · exact .error _ _
      · exact .error _ _

theorem agrees_chain {ts us : List Token} (fits : ts.length ≤ n) (h : Ahead f g tail ts us) :
    Agrees (Same f g tail mapSpans) (chain stop ts) (chain stop' us) := by
  rw [chain, chain]
  refine .bind (agrees_primary below fits h) ?_
  rintro ⟨base, rest, hrest⟩ ⟨base', rest', hrest'⟩ ⟨hbase, hsame⟩
  refine .bind (agrees_links below hbase (by omega) hsame) ?_
  rintro ⟨e, after, hafter⟩ ⟨e', after', hafter'⟩ ⟨he, hsame⟩
  exact .ok ⟨he, hsame⟩

theorem agrees_postfixed {ts us : List Token} (fits : ts.length ≤ n) (h : Ahead f g tail ts us) :
    Agrees (Same f g tail mapSpans) (postfixed stop ts) (postfixed stop' us) := by
  rw [postfixed, postfixed]
  refine .bind (agrees_chain below fits h) ?_
  rintro ⟨e, rest, hrest⟩ ⟨e', rest', hrest'⟩ ⟨he, hsame⟩
  dsimp only at he hsame ⊢
  rcases take?_ahead UpdateOp.ofKind? rfl stop stop' hsame with ⟨hnone, hnone'⟩ |
      ⟨op, more, more', hmore, hstart, ht, ht'⟩
  · simp only [hnone, hnone']
    exact .ok ⟨he, hsame⟩
  · simp only [ht, ht', isTarget_alike he]
    split
    · have span := cover_alike (span_alike he) hstart
      refine .ok ⟨?_, hmore⟩
      simp only [mapSpans, he, span]
    · exact .error _ _

theorem agrees_unary {ts us : List Token} (fits : ts.length ≤ n) (h : Ahead f g tail ts us) :
    Agrees (Same f g tail mapSpans) (unary stop ts) (unary stop' us) := by
  rw [unary, unary]
  dsimp only
  rcases take?_ahead UnaryOp.ofKind? rfl stop stop' h with ⟨hnone, hnone'⟩ |
      ⟨op, more, more', hmore, hstart, ht, ht'⟩
  · simp only [hnone, hnone']
    rcases take?_ahead UpdateOp.ofKind? rfl stop stop' h with ⟨hnone, hnone'⟩ |
        ⟨op, more, more', hmore, hstart, ht, ht'⟩
    · simp only [hnone, hnone']
      exact agrees_postfixed below fits h
    · simp only [ht, ht']
      refine .bind (agrees_unary (by omega) hmore) ?_
      rintro ⟨argument, rest, hrest⟩ ⟨argument', rest', hrest'⟩ ⟨hargument, hsame⟩
      dsimp only at hargument ⊢
      rw [isTarget_alike hargument]
      split
      · have span := cover_alike hstart (span_alike hargument)
        refine .ok ⟨?_, hsame⟩
        simp only [mapSpans, hargument, span]
      · exact .error _ _
  · simp only [ht, ht']
    refine .bind (agrees_unary (by omega) hmore) ?_
    rintro ⟨argument, rest, hrest⟩ ⟨argument', rest', hrest'⟩ ⟨hargument, hsame⟩
    dsimp only at hargument
    have span := cover_alike hstart (span_alike hargument)
    refine .ok ⟨?_, hsame⟩
    simp only [mapSpans, hargument, span]
termination_by ts.length

end

mutual

theorem agrees_binary (below : Below f g tail stop stop' n) (level : Nat) {ts us : List Token}
    (fits : ts.length ≤ n) (h : Ahead f g tail ts us) :
    Agrees (Same f g tail mapSpans) (binary stop level ts) (binary stop' level us) := by
  rw [binary, binary]
  refine .bind (agrees_unary below fits h) ?_
  rintro ⟨left, rest, hrest⟩ ⟨left', rest', hrest'⟩ ⟨hleft, hsame⟩
  refine .bind (agrees_operators below level hleft (by omega) hsame) ?_
  rintro ⟨e, after, hafter⟩ ⟨e', after', hafter'⟩ ⟨he, hsame⟩
  exact .ok ⟨he, hsame⟩
termination_by ts.length

theorem agrees_operators (below : Below f g tail stop stop' n) (level : Nat) {left left' : Expr}
    (hleft : mapSpans g left' = mapSpans f left)
    {ts us : List Token} (fits : ts.length ≤ n) (h : Ahead f g tail ts us) :
    Agrees (Same f g tail mapSpans) (operators stop level left ts)
      (operators stop' level left' us) := by
  rw [operators, operators]
  rcases take?_ahead Operator.ofKind? rfl stop stop' h with ⟨hnone, hnone'⟩ |
      ⟨op, more, more', hmore, hstart, ht, ht'⟩
  · simp only [hnone, hnone']
    exact .ok ⟨hleft, h⟩
  · simp only [ht, ht']
    split
    · exact .ok ⟨hleft, h⟩
    · refine .bind (agrees_binary below op.rightLevel (by omega) hmore) ?_
      rintro ⟨right, rest, hrest⟩ ⟨right', rest', hrest'⟩ ⟨hright, hsame⟩
      have shorter : rest.length ≤ n := by omega
      refine .bind (agrees_operators below level (mapSpans_apply op hleft hright) shorter hsame) ?_
      rintro ⟨e, after, hafter⟩ ⟨e', after', hafter'⟩ ⟨he, hsame⟩
      exact .ok ⟨he, hsame⟩
termination_by ts.length

end

theorem agrees_conditional (below : Below f g tail stop stop' n) {ts us : List Token}
    (fits : ts.length ≤ n) (h : Ahead f g tail ts us) :
    Agrees (Same f g tail mapSpans) (conditional stop ts) (conditional stop' us) := by
  rw [conditional, conditional]
  refine .bind (agrees_binary below 0 fits h) ?_
  rintro ⟨test, rest, hrest⟩ ⟨test', rest', hrest'⟩ ⟨htest, hsame⟩
  dsimp only at htest hsame ⊢
  rw [startsWith_ahead .question (by decide) hsame]
  split
  · refine .bind (agrees_expect stop stop' .question hsame) ?_
    rintro ⟨_, more, hmore⟩ ⟨_, more', hmore'⟩ ⟨-, hsame⟩
    have shorter : more.length < n := by omega
    refine .bind (below shorter hsame) ?_
    rintro ⟨consequent, next, hnext⟩ ⟨consequent', next', hnext'⟩ ⟨hconsequent, hsame⟩
    refine .bind (agrees_expect stop stop' .colon hsame) ?_
    rintro ⟨_, last, hlast⟩ ⟨_, last', hlast'⟩ ⟨-, hsame⟩
    have shorter : last.length < n := Nat.lt_of_lt_of_le
      (Nat.lt_trans hlast (Nat.lt_trans hnext (Nat.lt_trans hmore hrest))) fits
    refine .bind (below shorter hsame) ?_
    rintro ⟨alternate, after, hafter⟩ ⟨alternate', after', hafter'⟩ ⟨halternate, hsame⟩
    dsimp only at hconsequent halternate
    have span := cover_alike (span_alike htest) (span_alike halternate)
    refine .ok ⟨?_, hsame⟩
    simp only [mapSpans, htest, hconsequent, halternate, span]
  · exact .ok ⟨htest, hsame⟩

theorem agrees_assignment (stop stop' : Token) {ts us : List Token}
    (h : Ahead f g tail ts us) :
    Agrees (Same f g tail mapSpans) (assignment stop ts) (assignment stop' us) := by
  have below : Below f g tail stop stop' ts.length :=
    fun _ _ _ ahead => agrees_assignment stop stop' ahead
  rw [assignment_eq, assignment_eq]
  refine .bind (agrees_conditional below (Nat.le_refl _) h) ?_
  rintro ⟨target, rest, hrest⟩ ⟨target', rest', hrest'⟩ ⟨htarget, hsame⟩
  dsimp only at htarget hsame ⊢
  rcases take?_ahead assignOf? rfl stop stop' hsame with ⟨hnone, hnone'⟩ |
      ⟨op, more, more', hmore, hstart, ht, ht'⟩
  · simp only [hnone, hnone']
    exact .ok ⟨htarget, hsame⟩
  · simp only [ht, ht', isTarget_alike htarget]
    split
    · refine .bind (below (by omega) hmore) ?_
      rintro ⟨value, after, hafter⟩ ⟨value', after', hafter'⟩ ⟨hvalue, hsame'⟩
      dsimp only at hvalue
      have span := cover_alike (span_alike htarget) (span_alike hvalue)
      refine .ok ⟨?_, hsame'⟩
      simp only [mapSpans, htarget, hvalue, span]
    · exact .error _ _
termination_by ts.length

end

end Expr.Parser

open Expr.Parser

/-- Tokens before the end that are alike are read alike, whatever the end token is. -/
theorem Expr.alike_ofTokens {f g : Span.Moving} {ts us : List Token}
    (h : Alike f g (ts.takeWhile (!·.kind.isEnd)) (us.takeWhile (!·.kind.isEnd))) :
    Agrees (fun e e' => mapSpans g e' = mapSpans f e) (ofTokens ts) (ofTokens us) := by
  rw [ofTokens, ofTokens]
  dsimp only
  cases hts : ts.takeWhile (!·.kind.isEnd) with
  | nil => exact .error _ _
  | cons t more =>
    rw [hts] at h
    obtain ⟨u, more', hus, -, -, -⟩ := h.ahead.exists_cons
    rw [hus] at h ⊢
    refine .bind (agrees_assignment _ _ h.ahead) ?_
    rintro ⟨e, rest, hrest⟩ ⟨e', rest', hrest'⟩ ⟨he, hsame⟩
    dsimp only at he hsame ⊢
    cases rest with
    | nil =>
      rw [hsame.exists_nil]
      exact .ok he
    | cons t rest => exact .error _ _

/-- Tokens that only have other spans are read as the expression with these spans. -/
theorem Expr.ofTokens_mapSpan (f : Span.Moving) {ts us : List Token} {e : Expr}
    (h : us.takeWhile (!·.kind.isEnd) = (ts.takeWhile (!·.kind.isEnd)).map (Token.mapSpan f))
    (read : ofTokens ts = .ok e) : ofTokens us = .ok (mapSpans f e) := by
  let still : Span.Moving := ⟨fun s => s, fun _ _ => rfl⟩
  have alike : Alike f still (ts.takeWhile (!·.kind.isEnd)) (us.takeWhile (!·.kind.isEnd)) :=
    (List.map_id _).trans h
  obtain ⟨e', hread, he⟩ := alike_ofTokens alike e read
  rw [hread, ← he]
  exact congrArg Except.ok (mapSpans_id e').symm

end PromptTemplate
