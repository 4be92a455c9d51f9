import PromptTemplate.Proofs.Expr.Printing

/-!
# Rules of reading expressions

Each rule says of one reader how it comes to an expression from what other readers come to.
-/

namespace PromptTemplate.Expr.Parser

variable {α : Type} {stop : Token}

/-- A reader has come to something and leaves the rest of its input. -/
def Reads {P : List Token → Prop}
    (r : Except Error (α × { rest : List Token // P rest })) (a : α) (rest : List Token) : Prop :=
  ∃ h : P rest, r = .ok (a, ⟨rest, h⟩)

/-- A reader of something in brackets has come to it and to the place of its last bracket. -/
def Closes {P : List Token → Prop}
    (r : Except Error (α × Span × { rest : List Token // P rest })) (a : α) (rest : List Token) :
    Prop :=
  ∃ s, ∃ h : P rest, r = .ok (a, s, ⟨rest, h⟩)

theorem reads_expect (stop : Token) (rest : List Token) {m : Mark} {t : Token}
    (h : t.kind = .mark m) :
    Reads (expect stop m (t :: rest)) t.span rest := by
  refine ⟨by simp, ?_⟩
  simp [expect, h]

theorem take?_cons {meaning : Token.Kind → Option α} {t : Token} {rest : List Token} {a : α}
    (h : meaning t.kind = some a) :
    take? meaning (t :: rest) = some (a, ⟨rest, Nat.lt_add_one _⟩) := by
  simp [take?, h]

theorem take?_eq_none {meaning : Token.Kind → Option α} {ts : List Token}
    (h : ∀ t ∈ ts.head?, meaning t.kind = none) : take? meaning ts = none := by
  cases ts with
  | nil => rfl
  | cons t rest =>
    rw [take?, h t rfl]
    rfl

theorem startsWith_cons (m : Mark) (t : Token) (rest : List Token) :
    startsWith m (t :: rest) = (t.kind == .mark m) := rfl

/-- The operator of an assignment that a token is. -/
def assignOf? : Token.Kind → Option AssignOp
  | .mark m => AssignOp.ofMark? m
  | _ => none

variable {ts more rest : List Token} {t : Token} {e f g : Expr} {level : Nat}

theorem assignment_eq (ts : List Token) :
    assignment stop ts = (do
      let ⟨target, rest, hrest⟩ ← conditional stop ts
      match take? assignOf? rest with
      | none => return (target, ⟨rest, hrest⟩)
      | some ⟨op, more, hmore⟩ =>
        if target.isTarget then
          let ⟨value, after, hafter⟩ ← assignment stop more
          return (.assign op target value (Span.cover target.span value.span),
            ⟨after, Nat.lt_trans hafter (Nat.lt_trans hmore hrest)⟩)
        else .error (Cause.invalidTarget.on target.span)) := by
  rw [assignment]
  rfl

theorem reads_assignment (h : Reads (conditional stop ts) e rest)
    (hend : ∀ t ∈ rest.head?, assignOf? t.kind = none) :
    Reads (assignment stop ts) e rest := by
  obtain ⟨hlt, h⟩ := h
  refine ⟨hlt, ?_⟩
  rw [assignment_eq, h]
  simp [bind, Except.bind, pure, Except.pure, take?_eq_none hend]

theorem reads_assign {op : AssignOp} (ht : t.kind = .mark op.mark)
    (h : Reads (conditional stop ts) e (t :: more)) (htarget : e.isTarget = true)
    (hvalue : Reads (assignment stop more) f rest) :
    Reads (assignment stop ts) (.assign op e f (Span.cover e.span f.span)) rest := by
  obtain ⟨hlt, h⟩ := h
  obtain ⟨hlt', hvalue⟩ := hvalue
  have taken : take? assignOf? (t :: more) = some (op, ⟨more, by simp⟩) :=
    take?_cons (by rw [ht]; cases op <;> rfl)
  refine ⟨by simp at hlt; omega, ?_⟩
  rw [assignment_eq, h]
  simp [bind, Except.bind, pure, Except.pure, taken, htarget, hvalue]

theorem reads_conditional (h : Reads (binary stop 0 ts) e rest)
    (hend : startsWith .question rest = false) : Reads (conditional stop ts) e rest := by
  obtain ⟨hlt, h⟩ := h
  refine ⟨hlt, ?_⟩
  rw [conditional, h]
  simp [bind, Except.bind, pure, Except.pure, hend]

theorem reads_choice {q c : Token} {middle : List Token} (hq : q.kind = .mark .question)
    (hc : c.kind = .mark .colon) (h : Reads (binary stop 0 ts) e (q :: more))
    (hconsequent : Reads (assignment stop more) f (c :: middle))
    (halternate : Reads (assignment stop middle) g rest) :
    Reads (conditional stop ts) (.conditional e f g (Span.cover e.span g.span)) rest := by
  obtain ⟨hlt, h⟩ := h
  obtain ⟨hlt', hconsequent⟩ := hconsequent
  obtain ⟨hlt'', halternate⟩ := halternate
  obtain ⟨_, hq'⟩ := reads_expect stop more hq
  obtain ⟨_, hc'⟩ := reads_expect stop middle hc
  refine ⟨by simp at *; omega, ?_⟩
  rw [conditional, h]
  simp [bind, Except.bind, pure, Except.pure, startsWith_cons, hq, hq', hc', hconsequent,
    halternate]

theorem reads_binary (h : Reads (unary stop ts) e more)
    (hmore : Reads (operators stop level e more) f rest) :
    Reads (binary stop level ts) f rest := by
  obtain ⟨hlt, h⟩ := h
  obtain ⟨hle, hmore⟩ := hmore
  refine ⟨by omega, ?_⟩
  rw [binary, h]
  simp [bind, Except.bind, pure, Except.pure, hmore]

theorem reads_operators_end
    (hend : ∀ t ∈ rest.head?, ∀ op, Operator.ofKind? t.kind = some op → op.precedence < level) :
    Reads (operators stop level e rest) e rest := by
  refine ⟨Nat.le_refl _, ?_⟩
  rw [operators]
  cases rest with
  | nil => rfl
  | cons t rest =>
    cases h : Operator.ofKind? t.kind with
    | none => simp [take?, h]
    | some op =>
      have looser : op.precedence < level := hend t rfl op h
      simp [take?, h, looser]

theorem reads_operators {op : Operator} (ht : t.kind = op.kind) (hop : level ≤ op.precedence)
    (h : Reads (binary stop op.rightLevel ts) f more)
    (hmore : Reads (operators stop level (op.apply e f) more) g rest) :
    Reads (operators stop level e (t :: ts)) g rest := by
  obtain ⟨hlt, h⟩ := h
  obtain ⟨hle, hmore⟩ := hmore
  have taken : take? Operator.ofKind? (t :: ts) = some (op, ⟨ts, by simp⟩) :=
    take?_cons (by rw [ht]; rcases op with op | op <;> cases op <;> rfl)
  refine ⟨by simp; omega, ?_⟩
  rw [operators, taken]
  simp [bind, Except.bind, pure, Except.pure, Nat.not_lt.mpr hop, h, hmore]

theorem reads_unary {op : UnaryOp} (ht : t.kind = op.kind) (h : Reads (unary stop ts) e rest) :
    Reads (unary stop (t :: ts)) (.unary op e (Span.cover t.span e.span)) rest := by
  obtain ⟨hlt, h⟩ := h
  have taken : take? UnaryOp.ofKind? (t :: ts) = some (op, ⟨ts, by simp⟩) :=
    take?_cons (by rw [ht]; cases op <;> rfl)
  refine ⟨by simp; omega, ?_⟩
  rw [unary]
  simp [taken, bind, Except.bind, pure, Except.pure, h, current]

theorem reads_update {op : UpdateOp} (ht : t.kind = op.kind) (h : Reads (unary stop ts) e rest)
    (htarget : e.isTarget = true) :
    Reads (unary stop (t :: ts)) (.update op true e (Span.cover t.span e.span)) rest := by
  obtain ⟨hlt, h⟩ := h
  have not_unary : take? UnaryOp.ofKind? (t :: ts) = none :=
    take?_eq_none fun u hu => by
      cases hu
      rw [ht]
      cases op <;> rfl
  have taken : take? UpdateOp.ofKind? (t :: ts) = some (op, ⟨ts, by simp⟩) :=
    take?_cons (by rw [ht]; cases op <;> rfl)
  refine ⟨by simp; omega, ?_⟩
  rw [unary]
  simp [not_unary, taken, bind, Except.bind, pure, Except.pure, h, current, htarget]

theorem reads_operand (h : Reads (postfixed stop ts) e rest)
    (hstart : ∀ t ∈ ts.head?, UnaryOp.ofKind? t.kind = none ∧ UpdateOp.ofKind? t.kind = none) :
    Reads (unary stop ts) e rest := by
  obtain ⟨hlt, h⟩ := h
  refine ⟨hlt, ?_⟩
  rw [unary]
  simp [take?_eq_none fun t ht => (hstart t ht).1, take?_eq_none fun t ht => (hstart t ht).2, h]

theorem reads_postfixed (h : Reads (chain stop ts) e rest)
    (hend : ∀ t ∈ rest.head?, UpdateOp.ofKind? t.kind = none) :
    Reads (postfixed stop ts) e rest := by
  obtain ⟨hlt, h⟩ := h
  refine ⟨hlt, ?_⟩
  rw [postfixed, h]
  simp [bind, Except.bind, pure, Except.pure, take?_eq_none hend]

theorem reads_updated {op : UpdateOp} (ht : t.kind = op.kind)
    (h : Reads (chain stop ts) e (t :: rest)) (htarget : e.isTarget = true) :
    Reads (postfixed stop ts) (.update op false e (Span.cover e.span t.span)) rest := by
  obtain ⟨hlt, h⟩ := h
  have taken : take? UpdateOp.ofKind? (t :: rest) = some (op, ⟨rest, by simp⟩) :=
    take?_cons (by rw [ht]; cases op <;> rfl)
  refine ⟨by simp at hlt; omega, ?_⟩
  rw [postfixed, h]
  simp [bind, Except.bind, pure, Except.pure, taken, htarget, current]

theorem reads_chain (h : Reads (primary stop ts) e more)
    (hmore : Reads (links stop e more) f rest) :
    Reads (chain stop ts) f rest := by
  obtain ⟨hlt, h⟩ := h
  obtain ⟨hle, hmore⟩ := hmore
  refine ⟨by omega, ?_⟩
  rw [chain, h]
  simp [bind, Except.bind, pure, Except.pure, hmore]

/-! ## Members and calls -/

theorem reads_links_end
    (hend : ∀ t ∈ rest.head?, t.kind ≠ .mark .dot ∧ t.kind ≠ .mark .questionDot ∧
      t.kind ≠ .mark .leftBracket ∧ t.kind ≠ .mark .leftParen) :
    Reads (links stop e rest) e rest := by
  refine ⟨Nat.le_refl _, ?_⟩
  unfold links
  split
  · exact absurd rfl (hend _ rfl).1
  · exact absurd rfl (hend _ rfl).2.1
  · exact absurd rfl (hend _ rfl).2.2.1
  · exact absurd rfl (hend _ rfl).2.2.2
  · rfl

theorem nameOf?_ofName (name : String) : nameOf? (Token.Kind.ofName name) = some name := by
  rw [Token.Kind.ofName]
  split
  · rename_i k hk
    have found := List.find?_some hk
    have same : k.chars = name.toList := by simpa using found
    simp [nameOf?, Keyword.symbol, same]
  · rfl

theorem reads_named {u : Token} {name : String} (ht : t.kind = .mark .dot)
    (hu : u.kind = .ofName name)
    (h : Reads (links stop (.member e (.named name) false (Span.cover e.span u.span)) ts) f rest) :
    Reads (links stop e (t :: u :: ts)) f rest := by
  obtain ⟨hle, h⟩ := h
  obtain ⟨kind, s⟩ := t
  cases ht
  refine ⟨by simp; omega, ?_⟩
  rw [links]
  simp [propertyName, hu, nameOf?_ofName, bind, Except.bind, pure, Except.pure, h]

theorem reads_computed (e : Expr) (optional : Bool) {t u : Token}
    (ht : t.kind = .mark .leftBracket) (hu : u.kind = .mark .rightBracket)
    (h : Reads (assignment stop ts) f (u :: more)) :
    Reads (computedMember stop e optional (t :: ts))
      (.member e (.computed f) optional (Span.cover e.span u.span)) more := by
  obtain ⟨hlt, h⟩ := h
  obtain ⟨_, ht'⟩ := reads_expect stop ts ht
  obtain ⟨_, hu'⟩ := reads_expect stop more hu
  refine ⟨by simp at *; omega, ?_⟩
  rw [computedMember]
  simp [bind, Except.bind, pure, Except.pure, ht', hu', h]

theorem reads_bracket {u : Token} (ht : t.kind = .mark .leftBracket)
    (hu : u.kind = .mark .rightBracket) (hkey : Reads (assignment stop ts) f (u :: more))
    (h : Reads (links stop (.member e (.computed f) false (Span.cover e.span u.span)) more) g
      rest) :
    Reads (links stop e (t :: ts)) g rest := by
  obtain ⟨hlt, hkey⟩ := reads_computed e false ht hu hkey
  obtain ⟨hle, h⟩ := h
  obtain ⟨kind, s⟩ := t
  cases ht
  refine ⟨Nat.le_trans hle (Nat.le_of_lt hlt), ?_⟩
  rw [links]
  simp [bind, Except.bind, pure, Except.pure, hkey, h]

theorem reads_call (e : Expr) (optional : Bool) {es : List Expr}
    (ht : t.kind = .mark .leftParen) (h : Closes (items stop .rightParen ts) es more) :
    ∃ s, Reads (call stop e optional (t :: ts)) (.call e es optional s) more := by
  obtain ⟨s, hlt, h⟩ := h
  obtain ⟨_, ht'⟩ := reads_expect stop ts ht
  refine ⟨Span.cover e.span s, by simp; omega, ?_⟩
  rw [call]
  simp [bind, Except.bind, pure, Except.pure, ht', h]

theorem reads_calling (ht : t.kind = .mark .leftParen)
    (hcall : Reads (call stop e false (t :: ts)) f more) (h : Reads (links stop f more) g rest) :
    Reads (links stop e (t :: ts)) g rest := by
  obtain ⟨hlt, hcall⟩ := hcall
  obtain ⟨hle, h⟩ := h
  obtain ⟨kind, s⟩ := t
  cases ht
  refine ⟨Nat.le_trans hle (Nat.le_of_lt hlt), ?_⟩
  rw [links]
  simp [bind, Except.bind, pure, Except.pure, hcall, h]

theorem reads_optionalNamed {name : String} (ht : t.kind = .ofName name) :
    Reads (optionalLink stop e (t :: ts))
      (.member e (.named name) true (Span.cover e.span t.span)) ts := by
  have not_mark : ∀ m, startsWith m (t :: ts) = false := by
    intro m
    rw [Token.Kind.ofName] at ht
    split at ht <;> simp [startsWith_cons, ht]
  refine ⟨by simp, ?_⟩
  rw [optionalLink]
  simp [not_mark, propertyName, ht, nameOf?_ofName, bind, Except.bind, pure, Except.pure]

theorem reads_optional (ht : t.kind = .mark .questionDot)
    (h : Reads (optionalLink stop e ts) f more) (hmore : Reads (links stop f more) g rest) :
    Reads (links stop e (t :: ts)) g rest := by
  obtain ⟨hlt, h⟩ := h
  obtain ⟨hle, hmore⟩ := hmore
  obtain ⟨kind, s⟩ := t
  cases ht
  refine ⟨by simp; omega, ?_⟩
  rw [links]
  simp [bind, Except.bind, pure, Except.pure, h, hmore]

theorem optionalLink_bracket (ht : t.kind = .mark .leftBracket) :
    optionalLink stop e (t :: ts) = computedMember stop e true (t :: ts) := by
  rw [optionalLink]
  simp [startsWith_cons, ht]

theorem optionalLink_paren (ht : t.kind = .mark .leftParen) :
    optionalLink stop e (t :: ts) = call stop e true (t :: ts) := by
  rw [optionalLink]
  simp [startsWith_cons, ht]

/-! ## Primary expressions -/

theorem reads_literal {v : Literal} (ht : t.kind = v.kind) :
    Reads (primary stop (t :: rest)) (.literal v t.span) rest := by
  have found : Literal.ofKind? t.kind = some v := by
    rw [ht]
    rcases v with _ | _ | (_ | _) | _ | _ <;> rfl
  refine ⟨by simp, ?_⟩
  unfold primary
  simp [found]

theorem reads_identifier {name : String} (ht : t.kind = .identifier name) :
    Reads (primary stop (t :: rest)) (.identifier name t.span) rest := by
  obtain ⟨kind, s⟩ := t
  cases ht
  refine ⟨by simp, ?_⟩
  rw [primary]
  simp [Literal.ofKind?]

theorem reads_paren {u : Token} (ht : t.kind = .mark .leftParen) (hu : u.kind = .mark .rightParen)
    (h : Reads (assignment stop ts) e (u :: rest)) :
    Reads (primary stop (t :: ts)) (e.withSpan (Span.cover t.span u.span)) rest := by
  obtain ⟨hlt, h⟩ := h
  obtain ⟨_, hu'⟩ := reads_expect stop rest hu
  obtain ⟨kind, s⟩ := t
  cases ht
  refine ⟨by simp at *; omega, ?_⟩
  rw [primary]
  simp [Literal.ofKind?, bind, Except.bind, pure, Except.pure, h, hu']

theorem reads_array {es : List Expr} (ht : t.kind = .mark .leftBracket)
    (h : Closes (items stop .rightBracket ts) es rest) :
    ∃ s, Reads (primary stop (t :: ts)) (.array es s) rest := by
  obtain ⟨s, hlt, h⟩ := h
  obtain ⟨kind, s'⟩ := t
  cases ht
  refine ⟨Span.cover s' s, by simp; omega, ?_⟩
  rw [primary]
  simp [Literal.ofKind?, bind, Except.bind, pure, Except.pure, h]

theorem reads_object {ps : List Property} (ht : t.kind = .mark .leftBrace)
    (h : Closes (properties stop ts) ps rest) :
    ∃ s, Reads (primary stop (t :: ts)) (.object ps s) rest := by
  obtain ⟨s, hlt, h⟩ := h
  obtain ⟨kind, s'⟩ := t
  cases ht
  refine ⟨Span.cover s' s, by simp; omega, ?_⟩
  rw [primary]
  simp [Literal.ofKind?, bind, Except.bind, pure, Except.pure, h]

/-! ## Lists -/

theorem closes_items_nil {closing : Mark} (ht : t.kind = .mark closing) :
    Closes (items stop closing (t :: rest)) [] rest := by
  obtain ⟨hlt, h⟩ := reads_expect stop rest ht
  refine ⟨t.span, hlt, ?_⟩
  rw [items]
  simp [startsWith_cons, ht, bind, Except.bind, pure, Except.pure, h]

theorem closes_items_last {closing : Mark} (hstart : startsWith closing ts = false)
    (h : Reads (assignment stop ts) e (t :: rest)) (ht : t.kind = .mark closing) :
    Closes (items stop closing ts) [e] rest := by
  obtain ⟨hlt, h⟩ := h
  obtain ⟨_, ht'⟩ := reads_expect stop rest ht
  refine ⟨t.span, by simp at *; omega, ?_⟩
  rw [items]
  simp [hstart, bind, Except.bind, pure, Except.pure, h, ht', startsWith_cons, ht]

theorem closes_items {closing : Mark} {es : List Expr} (hstart : startsWith closing ts = false)
    (hclosing : closing ≠ .comma) (h : Reads (assignment stop ts) e (t :: more))
    (ht : t.kind = .mark .comma) (hmore : Closes (items stop closing more) es rest) :
    Closes (items stop closing ts) (e :: es) rest := by
  obtain ⟨hlt, h⟩ := h
  obtain ⟨s, hlt', hmore⟩ := hmore
  obtain ⟨_, ht'⟩ := reads_expect stop more ht
  refine ⟨s, by simp at *; omega, ?_⟩
  rw [items]
  simp [hstart, bind, Except.bind, pure, Except.pure, h, ht', startsWith_cons, ht,
    hclosing.symm, hmore]

theorem reads_keyNamed {name : String} (ht : t.kind = .string name) :
    Reads (propertyKey stop (t :: rest)) (.named name) rest := by
  refine ⟨by simp, ?_⟩
  rw [propertyKey, take?_cons (a := name) (by rw [ht]; rfl)]

theorem reads_keyComputed {u : Token} (ht : t.kind = .mark .leftBracket)
    (hu : u.kind = .mark .rightBracket) (h : Reads (assignment stop ts) e (u :: rest)) :
    Reads (propertyKey stop (t :: ts)) (.computed e) rest := by
  obtain ⟨hlt, h⟩ := h
  obtain ⟨_, ht'⟩ := reads_expect stop ts ht
  obtain ⟨_, hu'⟩ := reads_expect stop rest hu
  have not_named : take? keyOf? (t :: ts) = none := take?_eq_none fun u hu => by
    cases hu
    rw [ht]
    rfl
  refine ⟨by simp at *; omega, ?_⟩
  rw [propertyKey, not_named]
  simp [startsWith_cons, ht, bind, Except.bind, pure, Except.pure, ht', hu', h]

theorem reads_property {k : Key} (h : Reads (propertyKey stop ts) k (t :: more))
    (ht : t.kind = .mark .colon) (hvalue : Reads (assignment stop more) e rest) :
    Reads (property stop ts) (.mk k e) rest := by
  obtain ⟨hlt, h⟩ := h
  obtain ⟨hlt', hvalue⟩ := hvalue
  obtain ⟨_, ht'⟩ := reads_expect stop more ht
  refine ⟨by simp at *; omega, ?_⟩
  rw [property, h]
  simp [startsWith_cons, ht, bind, Except.bind, pure, Except.pure, ht', hvalue]

theorem closes_properties_nil (ht : t.kind = .mark .rightBrace) :
    Closes (properties stop (t :: rest)) [] rest := by
  obtain ⟨hlt, h⟩ := reads_expect stop rest ht
  refine ⟨t.span, hlt, ?_⟩
  rw [properties]
  simp [startsWith_cons, ht, bind, Except.bind, pure, Except.pure, h]

theorem closes_properties_last {p : Property} (hstart : startsWith .rightBrace ts = false)
    (h : Reads (property stop ts) p (t :: rest)) (ht : t.kind = .mark .rightBrace) :
    Closes (properties stop ts) [p] rest := by
  obtain ⟨hlt, h⟩ := h
  obtain ⟨_, ht'⟩ := reads_expect stop rest ht
  refine ⟨t.span, by simp at *; omega, ?_⟩
  rw [properties]
  simp [hstart, bind, Except.bind, pure, Except.pure, h, ht', startsWith_cons, ht]

theorem closes_properties {p : Property} {ps : List Property}
    (hstart : startsWith .rightBrace ts = false) (h : Reads (property stop ts) p (t :: more))
    (ht : t.kind = .mark .comma) (hmore : Closes (properties stop more) ps rest) :
    Closes (properties stop ts) (p :: ps) rest := by
  obtain ⟨hlt, h⟩ := h
  obtain ⟨s, hlt', hmore⟩ := hmore
  obtain ⟨_, ht'⟩ := reads_expect stop more ht
  refine ⟨s, by simp at *; omega, ?_⟩
  rw [properties]
  simp [hstart, bind, Except.bind, pure, Except.pure, h, ht', startsWith_cons, ht, hmore]

end PromptTemplate.Expr.Parser
