import PromptTemplate.Proofs.Expr.Reading
import PromptTemplate.Proofs.Expr.Targets

/-!
# Expressions are read back as they are written

The tokens of an expression are read as this expression, whatever follows that does not go
on with it. The induction is on the expression; at an operator it says that the operators
after an operand are read as if the operand had been read alone, so that chains to the left
are read in the order in which they are written.
-/

namespace PromptTemplate

namespace Operator

theorem level_eq (op : Operator) : op.level = op.precedence + 1 := by
  rcases op with op | op <;> cases op <;> rfl

theorem rightPlace_eq (op : Operator) : op.rightPlace = op.rightLevel + 1 := by
  rcases op with op | op <;> cases op <;> rfl

/-- Powers associate to the right, all other operators to the left. -/
theorem places (op : Operator) :
    (2 ≤ op.level ∧ op.level ≤ 11 ∧ op.leftPlace = op.level ∧ op.rightPlace = op.level + 1) ∨
      (op.level = 12 ∧ op.leftPlace = 13 ∧ op.rightPlace = 12) := by
  rcases op with op | op <;> cases op <;> decide

theorem ofKind?_kind (op : Operator) : ofKind? op.kind = some op := by
  rcases op with op | op <;> cases op <;> rfl

end Operator

/-- The level at which a token goes on with an expression before it. -/
def Token.Kind.continues? (k : Token.Kind) : Option Nat :=
  match k, Operator.ofKind? k, UpdateOp.ofKind? k, Expr.Parser.assignOf? k with
  | .mark .question, _, _, _ => some 1
  | .mark .dot, _, _, _ | .mark .questionDot, _, _, _ => some 15
  | .mark .leftBracket, _, _, _ | .mark .leftParen, _, _, _ => some 15
  | _, some op, _, _ => some op.level
  | _, none, some _, _ => some 14
  | _, none, none, some _ => some 0
  | _, none, none, none => none

namespace Expr.Parser

/-- No token follows that goes on with an expression of some level or a tighter one. -/
def Follow (place : Nat) (rest : List Token) : Prop :=
  ∀ t ∈ rest.head?, ∀ level, t.kind.continues? = some level → level < place

variable {stop t : Token} {place level : Nat} {ts rest left : List Token} {e e' out : Expr}

theorem Follow.nil : Follow place [] := by
  intro t ht
  cases ht

theorem Follow.cons (h : ∀ level, t.kind.continues? = some level → level < place) :
    Follow place (t :: rest) := by
  intro u hu
  cases hu
  exact h

theorem Follow.mono {place' : Nat} (h : Follow place rest) (hle : place ≤ place') :
    Follow place' rest := by
  intro t ht level hlevel
  exact Nat.lt_of_lt_of_le (h t ht level hlevel) hle

theorem continues?_operator {k : Token.Kind} {op : Operator} (h : Operator.ofKind? k = some op) :
    k.continues? = some op.level := by
  rcases k with k | m | _ | _ | _ | _ | _ | _
  · cases k <;> simp_all [Operator.ofKind?, Token.Kind.continues?]
  · cases m <;> simp_all [Operator.ofKind?, Token.Kind.continues?]
  all_goals simp [Operator.ofKind?] at h

theorem continues?_update {k : Token.Kind} {op : UpdateOp} (h : UpdateOp.ofKind? k = some op) :
    k.continues? = some 14 := by
  rcases k with k | m | _ | _ | _ | _ | _ | _
  · simp [UpdateOp.ofKind?] at h
  · cases m <;> simp [UpdateOp.ofKind?] at h <;> rfl
  all_goals simp [UpdateOp.ofKind?] at h

theorem continues?_assign {k : Token.Kind} {op : AssignOp} (h : assignOf? k = some op) :
    k.continues? = some 0 := by
  rcases k with k | m | _ | _ | _ | _ | _ | _
  · simp [assignOf?] at h
  · cases m <;> simp [assignOf?, AssignOp.ofMark?] at h <;> rfl
  all_goals simp [assignOf?] at h

/-! ### What ends an expression -/

theorem Follow.no_assign (h : Follow 0 rest) : ∀ t ∈ rest.head?, assignOf? t.kind = none := by
  intro t ht
  cases hop : assignOf? t.kind with
  | none => rfl
  | some op => exact absurd (h t ht 0 (continues?_assign hop)) (Nat.not_lt_zero _)

theorem Follow.no_question (h : Follow 1 rest) : startsWith .question rest = false := by
  cases rest with
  | nil => rfl
  | cons t rest =>
    rw [startsWith_cons, beq_eq_false_iff_ne]
    intro ht
    have continued : t.kind.continues? = some 1 := by rw [ht]; rfl
    exact absurd (h t rfl 1 continued) (Nat.lt_irrefl 1)

/-- What follows a place for operands of one level has only operators of looser levels. -/
theorem Follow.looser (h : Follow place rest) (hplace : place ≤ 2 ∨ place ≤ level + 1) :
    ∀ t ∈ rest.head?, ∀ op, Operator.ofKind? t.kind = some op → op.precedence < level := by
  intro t ht op hop
  have hlevel := h t ht op.level (continues?_operator hop)
  have := op.places
  have := op.level_eq
  omega

theorem Follow.no_update (h : Follow 13 rest) :
    ∀ t ∈ rest.head?, UpdateOp.ofKind? t.kind = none := by
  intro t ht
  cases hop : UpdateOp.ofKind? t.kind with
  | none => rfl
  | some op =>
    have := h t ht 14 (continues?_update hop)
    omega

theorem Follow.no_link (h : Follow 15 rest) : ∀ t ∈ rest.head?, t.kind ≠ .mark .dot ∧
    t.kind ≠ .mark .questionDot ∧ t.kind ≠ .mark .leftBracket ∧ t.kind ≠ .mark .leftParen := by
  intro t ht
  have differs : ∀ m : Mark, (Token.Kind.mark m).continues? = some 15 → t.kind ≠ .mark m := by
    intro m hm heq
    exact absurd (h t ht 15 (heq ▸ hm)) (Nat.lt_irrefl 15)
  exact ⟨differs _ rfl, differs _ rfl, differs _ rfl, differs _ rfl⟩

/-! ### How an expression is read -/

/-- The place that the last operand of an operation of some level has; what follows an
expression of this level goes on with it only if it goes on with this operand. -/
def edge (level : Nat) : Nat := if level = 12 then 12 else min (level + 1) 13

/-- Some tokens are read as an expression of some level by every reader for this level and
for looser ones. -/
structure ReadsAs (stop : Token) (level : Nat) (ts rest : List Token) (e : Expr) : Prop where
  chain : 15 ≤ level → ∀ out left, Reads (links stop e rest) out left →
    Reads (Parser.chain stop (ts ++ rest)) out left
  unary : 13 ≤ level → Follow 13 rest → Reads (Parser.unary stop (ts ++ rest)) e rest
  operation : 2 ≤ level → Follow (edge level) rest → ∀ p < level, ∀ out left,
    Reads (operators stop p e rest) out left → Reads (binary stop p (ts ++ rest)) out left
  assignment : Follow 0 rest → Reads (Parser.assignment stop (ts ++ rest)) e rest

theorem reads_conditional_of_binary (hf : Follow 1 rest)
    (h : ∀ out left, Reads (operators stop 0 e rest) out left → Reads (binary stop 0 ts) out left) :
    Reads (conditional stop ts) e rest := by
  have ended : Reads (operators stop 0 e rest) e rest :=
    reads_operators_end (hf.looser (Or.inl (by omega)))
  exact reads_conditional (h e rest ended) hf.no_question

theorem reads_assignment_of_binary (hf : Follow 0 rest)
    (h : ∀ out left, Reads (operators stop 0 e rest) out left → Reads (binary stop 0 ts) out left) :
    Reads (assignment stop ts) e rest :=
  reads_assignment (reads_conditional_of_binary (hf.mono (Nat.zero_le 1)) h) hf.no_assign

namespace ReadsAs

theorem of_assignment (hlevel : level < 2)
    (h : Follow 0 rest → Reads (Parser.assignment stop (ts ++ rest)) e rest) :
    ReadsAs stop level ts rest e where
  chain := by omega
  unary := by omega
  operation := by omega
  assignment := h

theorem of_operation (two : 2 ≤ level) (hlevel : level < 13)
    (h : Follow (edge level) rest → ∀ p < level, ∀ out left,
      Reads (operators stop p e rest) out left → Reads (binary stop p (ts ++ rest)) out left) :
    ReadsAs stop level ts rest e where
  chain := by omega
  unary := by omega
  operation _ := h
  assignment hf :=
    reads_assignment_of_binary hf (h (hf.mono (Nat.zero_le _)) 0 (by omega))

theorem of_unary (thirteen : 13 ≤ level) (hlevel : level < 15)
    (h : Follow 13 rest → Reads (Parser.unary stop (ts ++ rest)) e rest) :
    ReadsAs stop level ts rest e where
  chain := by omega
  unary _ := h
  operation _ hf p _ out left hmore := by
    have tight : edge level = 13 := by
      unfold edge
      split <;> omega
    exact reads_binary (h (tight ▸ hf)) hmore
  assignment hf := reads_assignment_of_binary hf fun out left hmore =>
    reads_binary (h (hf.mono (Nat.zero_le 13))) hmore

/-- A chain of members and calls ends where no link follows, and is an operand then. -/
theorem unary_of_chain (hstart : ∀ t ∈ (ts ++ rest).head?,
      UnaryOp.ofKind? t.kind = none ∧ UpdateOp.ofKind? t.kind = none)
    (h : ∀ out left, Reads (links stop e rest) out left →
      Reads (Parser.chain stop (ts ++ rest)) out left) (hf : Follow 13 rest) :
    Reads (Parser.unary stop (ts ++ rest)) e rest := by
  have ended : Reads (links stop e rest) e rest :=
    reads_links_end (hf.mono (by omega)).no_link
  exact reads_operand (reads_postfixed (h e rest ended) hf.no_update) hstart

theorem of_chain (fifteen : 15 ≤ level)
    (hstart : ∀ t ∈ (ts ++ rest).head?,
      UnaryOp.ofKind? t.kind = none ∧ UpdateOp.ofKind? t.kind = none)
    (h : ∀ out left, Reads (links stop e rest) out left →
      Reads (Parser.chain stop (ts ++ rest)) out left) :
    ReadsAs stop level ts rest e where
  chain _ := h
  unary _ := unary_of_chain hstart h
  operation _ hf p _ out left hmore := by
    have tight : edge level = 13 := by
      unfold edge
      split <;> omega
    exact reads_binary (unary_of_chain hstart h (tight ▸ hf)) hmore
  assignment hf := reads_assignment_of_binary hf fun out left hmore =>
    reads_binary (unary_of_chain hstart h (hf.mono (Nat.zero_le 13))) hmore

theorem conditional (h : ReadsAs stop level ts rest e) (two : 2 ≤ level) (hf : Follow 1 rest) :
    Reads (Parser.conditional stop (ts ++ rest)) e rest := by
  have hedge : Follow (edge level) rest := hf.mono (by unfold edge; split <;> omega)
  exact reads_conditional_of_binary hf (h.operation two hedge 0 (by omega))

end ReadsAs

/-! ### What expressions begin with -/

/-- A token is neither a closing bracket nor, in front of a tight expression, an operator. -/
def Begins (level : Nat) (k : Token.Kind) : Prop :=
  k ≠ .mark .rightParen ∧ k ≠ .mark .rightBracket ∧ k ≠ .mark .rightBrace ∧
    (14 ≤ level → UnaryOp.ofKind? k = none ∧ UpdateOp.ofKind? k = none)

/-- Some tokens begin as those of an expression of some level do. -/
def BeginsAs (level : Nat) (ks : List Token.Kind) : Prop :=
  ∃ k more, ks = k :: more ∧ Begins level k

theorem BeginsAs.append {ks : List Token.Kind} (h : BeginsAs level ks) (more : List Token.Kind) :
    BeginsAs level (ks ++ more) := by
  obtain ⟨k, ks, rfl, hk⟩ := h
  exact ⟨k, ks ++ more, rfl, hk⟩

theorem BeginsAs.enclosed {ks : List Token.Kind} (h : BeginsAs level ks) (place : Nat) :
    BeginsAs place (enclosed place level ks) := by
  unfold Expr.enclosed
  split
  · exact ⟨_, _, rfl, by decide, by decide, by decide, fun _ => ⟨rfl, rfl⟩⟩
  · obtain ⟨k, ks, rfl, hparen, hbracket, hbrace, hk⟩ := h
    exact ⟨k, ks, rfl, hparen, hbracket, hbrace, fun hplace => hk (by omega)⟩

theorem BeginsAs.loosen {ks : List Token.Kind} {level' : Nat} (h : BeginsAs level ks)
    (hle : level' ≤ level) : BeginsAs level' ks := by
  obtain ⟨k, ks, rfl, hparen, hbracket, hbrace, hk⟩ := h
  exact ⟨k, ks, rfl, hparen, hbracket, hbrace, fun hlevel => hk (by omega)⟩

/-- What stands before a link, an operator or a question mark begins the whole. -/
theorem beginsAs_left {ks : List Token.Kind} (h : BeginsAs level ks) (more : List Token.Kind)
    {place level' : Nat} (hle : level' ≤ place) :
    BeginsAs level' (Expr.enclosed place level ks ++ more) :=
  ((h.enclosed place).append more).loosen hle

theorem beginsAs_prefix {k : Token.Kind} (h : k ∉ [.mark .rightParen, .mark .rightBracket,
      .mark .rightBrace]) (hlevel : level < 14) (more : List Token.Kind) :
    BeginsAs level (k :: more) := by
  simp only [List.mem_cons, List.not_mem_nil, or_false, not_or] at h
  exact ⟨k, more, rfl, h.1, h.2.1, h.2.2, by omega⟩

theorem leftPlace_ge (op : Operator) : op.level ≤ op.leftPlace := by
  have := op.places
  omega

theorem beginsAs_tokens : ∀ e : Expr, BeginsAs e.level e.tokens
  | .literal value _ => by
    rw [Expr.tokens]
    rcases value with _ | _ | (_ | _) | _ | _ <;>
    · exact ⟨_, _, rfl, by simp [Literal.kind], by simp [Literal.kind], by simp [Literal.kind],
        fun _ => ⟨rfl, rfl⟩⟩
  | .identifier name _ => by
    rw [Expr.tokens]
    exact ⟨_, _, rfl, by simp, by simp, by simp, fun _ => ⟨rfl, rfl⟩⟩
  | .array .. | .object .. => by
    rw [Expr.tokens]
    exact ⟨_, _, rfl, by simp, by simp, by simp, fun _ => ⟨rfl, rfl⟩⟩
  | .member base key optional _ => by
    rw [Expr.tokens]
    exact beginsAs_left (beginsAs_tokens base) _ (Nat.le_refl 15)
  | .call callee arguments optional _ => by
    rw [Expr.tokens]
    exact beginsAs_left (beginsAs_tokens callee) _ (Nat.le_refl 15)
  | .unary op argument _ => by
    rw [Expr.tokens]
    exact beginsAs_prefix (by cases op <;> simp [UnaryOp.kind]) (Nat.le_refl 14) _
  | .update op true argument _ => by
    rw [Expr.tokens]
    exact beginsAs_prefix (by cases op <;> simp [UpdateOp.kind]) (Nat.le_refl 14) _
  | .update op false argument _ => by
    rw [Expr.tokens]
    exact beginsAs_left (beginsAs_tokens argument) _ (Nat.le_succ 14)
  | .binary op left right _ => by
    rw [Expr.tokens]
    exact beginsAs_left (beginsAs_tokens left) _ (leftPlace_ge _)
  | .logical op left right _ => by
    rw [Expr.tokens]
    exact beginsAs_left (beginsAs_tokens left) _ (leftPlace_ge _)
  | .conditional test consequent alternate _ => by
    rw [Expr.tokens]
    exact beginsAs_left (beginsAs_tokens test) _ (Nat.le_succ 1)
  | .assign op target value _ => by
    rw [Expr.tokens]
    exact beginsAs_left (beginsAs_tokens target) _ (Nat.zero_le 15)

/-- Tokens that begin as an expression does have its first token as their first. -/
theorem BeginsAs.head {ks : List Token.Kind} (h : BeginsAs level ks) (rest : List Token)
    (hts : ts.map (·.kind) = ks) : ∀ t ∈ (ts ++ rest).head?, Begins level t.kind := by
  obtain ⟨k, more, rfl, hk⟩ := h
  obtain ⟨u, us, rfl, rfl, -⟩ := List.map_eq_cons_iff.mp hts
  intro t ht
  cases ht
  exact hk

/-! ### One form of expressions after the other -/

/-- The tokens of an expression are read as it, up to places, whatever follows. -/
def ReadBack (stop : Token) (e : Expr) : Prop :=
  ∀ ts rest, ts.map (·.kind) = e.tokens → ∃ e', e'.bare = e.bare ∧ ReadsAs stop e.level ts rest e'

theorem ReadsAs.of_primary (hstart : ∀ t ∈ (ts ++ rest).head?,
      UnaryOp.ofKind? t.kind = none ∧ UpdateOp.ofKind? t.kind = none) (hlevel : 15 ≤ level)
    (h : Reads (primary stop (ts ++ rest)) e rest) : ReadsAs stop level ts rest e :=
  .of_chain hlevel hstart fun _ _ hmore => reads_chain h hmore

theorem bare_withSpan (e : Expr) (s : Span) : (e.withSpan s).bare = e.bare := by
  cases e <;> rfl

theorem hasOptionalLink_bare : ∀ e : Expr, e.bare.hasOptionalLink = e.hasOptionalLink
  | .member base key optional _ => by
    simp [Expr.bare, Expr.hasOptionalLink, hasOptionalLink_bare base]
  | .call callee arguments optional _ => by
    simp [Expr.bare, Expr.hasOptionalLink, hasOptionalLink_bare callee]
  | .literal .. | .identifier .. | .array .. | .object .. | .unary .. | .binary .. => by
    simp [Expr.bare, Expr.hasOptionalLink]
  | .logical .. | .conditional .. | .assign .. | .update .. => by
    simp [Expr.bare, Expr.hasOptionalLink]

theorem isTarget_bare (e : Expr) : e.bare.isTarget = e.isTarget := by
  cases e <;> simp [Expr.bare, Expr.isTarget, hasOptionalLink_bare]

theorem isTarget_congr (h : e'.bare = e.bare) : e'.isTarget = e.isTarget := by
  rw [← isTarget_bare e', h, isTarget_bare]

/-- Tokens with one kind in the middle. -/
theorem exists_split {ks more : List Token.Kind} {k : Token.Kind}
    (h : ts.map (·.kind) = ks ++ k :: more) :
    ∃ us u vs, ts = us ++ u :: vs ∧ us.map (·.kind) = ks ∧ u.kind = k ∧
      vs.map (·.kind) = more := by
  obtain ⟨us, ws, rfl, hus, hws⟩ := List.map_eq_append_iff.mp h
  obtain ⟨u, vs, rfl, hu, hvs⟩ := List.map_eq_cons_iff.mp hws
  exact ⟨us, u, vs, rfl, hus, hu, hvs⟩

/-- Tokens between two brackets. -/
theorem exists_between {ks : List Token.Kind} {k l : Token.Kind}
    (h : ts.map (·.kind) = k :: (ks ++ [l])) :
    ∃ u us v, ts = u :: (us ++ [v]) ∧ u.kind = k ∧ us.map (·.kind) = ks ∧ v.kind = l := by
  obtain ⟨u, vs, rfl, hu, hvs⟩ := List.map_eq_cons_iff.mp h
  obtain ⟨us, v, ws, rfl, hus, hv, hws⟩ := exists_split hvs
  obtain rfl := List.map_eq_nil_iff.mp hws
  exact ⟨u, us, v, rfl, hu, hus, hv⟩

theorem Follow.of_closing {k : Token.Kind} (ht : t.kind = k) (hk : k.continues? = none) :
    Follow place (t :: rest) :=
  .cons fun level hlevel => by
    rw [ht, hk] at hlevel
    cases hlevel

/-- An expression is read where it stands, with parentheses or without them. -/
theorem ReadBack.at_place (h : ReadBack stop e) {place : Nat} (hplace : place ≤ 16)
    (hts : ts.map (·.kind) = enclosed place e.level e.tokens) (rest : List Token) :
    ∃ e' level, e'.bare = e.bare ∧ place ≤ level ∧ ReadsAs stop level ts rest e' := by
  unfold enclosed at hts
  split at hts
  · obtain ⟨t, us, u, rfl, ht, hus, hu⟩ := exists_between hts
    obtain ⟨e', he', hread⟩ := h us (u :: rest) hus
    have whole := reads_paren ht hu (hread.assignment (.of_closing hu rfl))
    refine ⟨e'.withSpan (Span.cover t.span u.span), 16, (bare_withSpan e' _).trans he', hplace, ?_⟩
    refine .of_primary ?_ (by omega) ?_
    · rintro _ ⟨⟩
      rw [ht]
      exact ⟨rfl, rfl⟩
    · rw [List.cons_append, List.append_assoc, List.singleton_append]
      exact whole
  · obtain ⟨e', he', hread⟩ := h ts rest hts
    exact ⟨e', e.level, he', by omega, hread⟩

theorem readBack_operation (op : Operator) {l r : Expr} (hl : ReadBack stop l)
    (hr : ReadBack stop r)
    (hts : ts.map (·.kind) = enclosed op.leftPlace l.level l.tokens ++ op.kind ::
      enclosed op.rightPlace r.level r.tokens) (rest : List Token) :
    ∃ l' r', l'.bare = l.bare ∧ r'.bare = r.bare ∧
      ReadsAs stop op.level ts rest (op.apply l' r') := by
  have places := op.places
  obtain ⟨us, u, vs, rfl, hus, hu, hvs⟩ := exists_split hts
  obtain ⟨l', m, hl', hm, hleft⟩ := hl.at_place (by omega) hus (u :: (vs ++ rest))
  obtain ⟨r', n, hr', hn, hright⟩ := hr.at_place (by omega) hvs rest
  refine ⟨l', r', hl', hr', .of_operation (by omega) (by omega) ?_⟩
  intro hf p hp out left hmore
  -- The operator goes on with the left operand only where its last operand would not take it.
  have after_left : Follow (edge m) (u :: (vs ++ rest)) := by
    refine .cons fun level hlevel => ?_
    rw [hu, continues?_operator op.ofKind?_kind] at hlevel
    cases hlevel
    unfold edge
    split <;> omega
  have after_right : Follow (edge n) rest := hf.mono (by unfold edge; split <;> split <;> omega)
  have right_place := op.rightPlace_eq
  have read_right : Reads (binary stop op.rightLevel (vs ++ rest)) r' rest := by
    refine hright.operation (by omega) after_right _ (by omega) _ _ (reads_operators_end ?_)
    exact hf.looser (Or.inr (by unfold edge; split <;> omega))
  have := op.level_eq
  have read_operator : Reads (operators stop p l' (u :: (vs ++ rest))) out left :=
    reads_operators hu (by omega) read_right hmore
  rw [List.append_assoc, List.cons_append]
  exact hleft.operation (by omega) after_left p (by omega) _ _ read_operator

theorem ReadBack.assignment (h : ReadBack stop e) (rest : List Token)
    (hts : ts.map (·.kind) = e.tokens) (hf : Follow 0 rest) :
    ∃ e', e'.bare = e.bare ∧ Reads (Parser.assignment stop (ts ++ rest)) e' rest := by
  obtain ⟨e', he', hread⟩ := h ts rest hts
  exact ⟨e', he', hread.assignment hf⟩

theorem readBack_unary {op : UnaryOp} {a : Expr} {s : Span} (h : ReadBack stop a) :
    ReadBack stop (.unary op a s) := by
  intro ts rest hts
  rw [Expr.tokens] at hts
  obtain ⟨t, us, rfl, ht, hus⟩ := List.map_eq_cons_iff.mp hts
  obtain ⟨a', level, ha', hlevel, hread⟩ := h.at_place (by omega) hus rest
  refine ⟨.unary op a' (Span.cover t.span a'.span), by simp [Expr.bare, ha'], ?_⟩
  exact .of_unary (Nat.le_refl 13) (show 13 < 15 by omega) fun hf =>
    reads_unary ht (hread.unary hlevel hf)

theorem readBack_update {op : UpdateOp} {before : Bool} {a : Expr} {s : Span}
    (h : ReadBack stop a) (htarget : a.isTarget = true) :
    ReadBack stop (.update op before a s) := by
  intro ts rest hts
  cases before with
  | true =>
    rw [Expr.tokens] at hts
    obtain ⟨t, us, rfl, ht, hus⟩ := List.map_eq_cons_iff.mp hts
    obtain ⟨a', level, ha', hlevel, hread⟩ := h.at_place (by omega) hus rest
    refine ⟨.update op true a' (Span.cover t.span a'.span), by simp [Expr.bare, ha'], ?_⟩
    exact .of_unary (Nat.le_refl 13) (show 13 < 15 by omega) fun hf =>
      reads_update ht (hread.unary hlevel hf) ((isTarget_congr ha').trans htarget)
  | false =>
    have begins := beginsAs_tokens (.update op false a s)
    rw [Expr.tokens] at hts begins
    obtain ⟨us, t, vs, rfl, hus, ht, hvs⟩ := exists_split hts
    obtain rfl := List.map_eq_nil_iff.mp hvs
    obtain ⟨a', level, ha', hlevel, hread⟩ := h.at_place (by omega) hus (t :: rest)
    refine ⟨.update op false a' (Span.cover a'.span t.span), by simp [Expr.bare, ha'], ?_⟩
    refine .of_unary (Nat.le_succ 13) (show 14 < 15 by omega) fun _ => ?_
    have no_link : Follow 15 (t :: rest) := .cons fun level hlevel => by
      rw [ht] at hlevel
      cases op <;> cases hlevel <;> decide
    have operand := hread.chain hlevel a' (t :: rest) (reads_links_end no_link.no_link)
    have whole := reads_updated ht operand ((isTarget_congr ha').trans htarget)
    have hstart := begins.head rest hts
    rw [List.append_assoc, List.singleton_append] at hstart ⊢
    exact reads_operand whole fun t ht => (hstart t ht).2.2.2 (Nat.le_refl 14)

theorem readBack_binary {op : BinaryOp} {l r : Expr} {s : Span} (hl : ReadBack stop l)
    (hr : ReadBack stop r) : ReadBack stop (.binary op l r s) := by
  intro ts rest hts
  rw [Expr.tokens] at hts
  obtain ⟨l', r', hl', hr', hread⟩ := readBack_operation (.binary op) hl hr hts rest
  exact ⟨_, by simp [Operator.apply, Expr.bare, hl', hr'], hread⟩

theorem readBack_logical {op : LogicalOp} {l r : Expr} {s : Span} (hl : ReadBack stop l)
    (hr : ReadBack stop r) : ReadBack stop (.logical op l r s) := by
  intro ts rest hts
  rw [Expr.tokens] at hts
  obtain ⟨l', r', hl', hr', hread⟩ := readBack_operation (.logical op) hl hr hts rest
  exact ⟨_, by simp [Operator.apply, Expr.bare, hl', hr'], hread⟩

theorem readBack_conditional {a b c : Expr} {s : Span} (ha : ReadBack stop a)
    (hb : ReadBack stop b) (hc : ReadBack stop c) : ReadBack stop (.conditional a b c s) := by
  intro ts rest hts
  rw [Expr.tokens] at hts
  obtain ⟨us, t, ws, rfl, hus, ht, hws⟩ := exists_split hts
  obtain ⟨vs, u, ws, rfl, hvs, hu, hws⟩ := exists_split hws
  obtain ⟨a', level, ha', hlevel, hread⟩ :=
    ha.at_place (by omega) hus (t :: (vs ++ u :: (ws ++ rest)))
  obtain ⟨b', hb', hconsequent⟩ := hb.assignment (u :: (ws ++ rest)) hvs (.of_closing hu rfl)
  obtain ⟨c', hc', halternate⟩ := hc ws rest hws
  refine ⟨.conditional a' b' c' (Span.cover a'.span c'.span),
    by simp [Expr.bare, ha', hb', hc'], .of_assignment (show 1 < 2 by omega) fun hf => ?_⟩
  have no_operator : Follow 2 (t :: (vs ++ u :: (ws ++ rest))) := .cons fun level hlevel => by
    rw [ht] at hlevel
    cases hlevel
    omega
  have ended : Reads (operators stop 0 a' (t :: (vs ++ u :: (ws ++ rest)))) a'
      (t :: (vs ++ u :: (ws ++ rest))) :=
    reads_operators_end (no_operator.looser (Or.inl (Nat.le_refl 2)))
  have test := hread.operation hlevel (no_operator.mono (by unfold edge; split <;> omega)) 0
    (by omega) _ _ ended
  have whole := reads_choice ht hu test hconsequent (halternate.assignment hf)
  rw [List.append_assoc, List.cons_append, List.append_assoc, List.cons_append]
  exact reads_assignment whole hf.no_assign

theorem readBack_assign {op : AssignOp} {a b : Expr} {s : Span} (ha : ReadBack stop a)
    (htarget : a.isTarget = true) (hb : ReadBack stop b) : ReadBack stop (.assign op a b s) := by
  intro ts rest hts
  rw [Expr.tokens] at hts
  obtain ⟨us, t, vs, rfl, hus, ht, hvs⟩ := exists_split hts
  obtain ⟨a', level, ha', hlevel, hread⟩ := ha.at_place (by omega) hus (t :: (vs ++ rest))
  obtain ⟨b', hb', hvalue⟩ := hb vs rest hvs
  refine ⟨.assign op a' b' (Span.cover a'.span b'.span), by simp [Expr.bare, ha', hb'],
    .of_assignment (show 0 < 2 by omega) fun hf => ?_⟩
  have no_question : Follow 1 (t :: (vs ++ rest)) := .cons fun level hlevel => by
    rw [ht] at hlevel
    cases op <;> cases hlevel <;> decide
  have target := hread.conditional (by omega) no_question
  have whole := reads_assign ht target ((isTarget_congr ha').trans htarget) (hvalue.assignment hf)
  rw [List.append_assoc, List.cons_append]
  exact whole

/-! ### Literals, names and brackets -/

/-- An expression that one token begins and a reader of primary expressions reads. -/
theorem ReadsAs.of_first {us : List Token} (hstart : UnaryOp.ofKind? t.kind = none ∧
      UpdateOp.ofKind? t.kind = none) (hlevel : 15 ≤ level)
    (h : Reads (primary stop (t :: (us ++ rest))) e rest) :
    ReadsAs stop level (t :: us) rest e := by
  refine .of_primary ?_ hlevel h
  rintro _ ⟨⟩
  exact hstart

theorem readBack_literal {v : Literal} {s : Span} : ReadBack stop (.literal v s) := by
  intro ts rest hts
  rw [Expr.tokens] at hts
  obtain ⟨t, rfl, ht⟩ := List.map_eq_singleton_iff.mp hts
  refine ⟨.literal v t.span, rfl, .of_first ?_ (Nat.le_succ 15) (reads_literal ht)⟩
  rw [ht]
  rcases v with _ | _ | (_ | _) | _ | _ <;> exact ⟨rfl, rfl⟩

theorem readBack_identifier {name : String} {s : Span} :
    ReadBack stop (.identifier name s) := by
  intro ts rest hts
  rw [Expr.tokens] at hts
  obtain ⟨t, rfl, ht⟩ := List.map_eq_singleton_iff.mp hts
  refine ⟨.identifier name t.span, rfl, .of_first ?_ (Nat.le_succ 15) (reads_identifier ht)⟩
  rw [ht]
  exact ⟨rfl, rfl⟩

/-- Some expressions with commas between them are read in brackets. -/
def ReadBackAll (stop : Token) (es : List Expr) : Prop :=
  ∀ closing ∈ [Mark.rightParen, Mark.rightBracket], ∀ ts u rest,
    ts.map (·.kind) = itemTokens es → u.kind = .mark closing →
      ∃ es', bareAll es' = bareAll es ∧ Closes (items stop closing (ts ++ u :: rest)) es' rest

theorem startsWith_closing {closing : Mark}
    (hclosing : closing ∈ [Mark.rightParen, Mark.rightBracket])
    {ks : List Token.Kind} (h : BeginsAs level ks) (hts : ts.map (·.kind) = ks) :
    startsWith closing (ts ++ rest) = false := by
  have hhead := h.head rest hts
  cases hus : ts ++ rest with
  | nil => rfl
  | cons t us =>
    rw [hus] at hhead
    obtain ⟨hparen, hbracket, -⟩ := hhead t rfl
    rw [startsWith_cons, beq_eq_false_iff_ne]
    rcases List.mem_pair.mp hclosing with rfl | rfl
    · exact hparen
    · exact hbracket

theorem readBackAll_nil : ReadBackAll stop [] := by
  intro closing _ ts u rest hts hu
  rw [itemTokens] at hts
  obtain rfl := List.map_eq_nil_iff.mp hts
  exact ⟨[], rfl, closes_items_nil hu⟩

theorem readBackAll_cons {es : List Expr} (h : ReadBack stop e) (hes : ReadBackAll stop es) :
    ReadBackAll stop (e :: es) := by
  intro closing hclosing ts u rest hts hu
  have ends_here : (Token.Kind.mark closing).continues? = none := by
    rcases List.mem_pair.mp hclosing with rfl | rfl <;> rfl
  have begins := beginsAs_tokens e
  cases es with
  | nil =>
    rw [itemTokens] at hts
    obtain ⟨e', he', hread⟩ := h.assignment (u :: rest) hts (.of_closing hu ends_here)
    refine ⟨[e'], by simp [bareAll, he'], ?_⟩
    exact closes_items_last (startsWith_closing hclosing begins hts) hread hu
  | cons f more =>
    rw [itemTokens] at hts
    obtain ⟨us, t, vs, rfl, hus, ht, hvs⟩ := exists_split hts
    obtain ⟨es', hes', hmore⟩ := hes closing hclosing vs u rest hvs hu
    rw [List.append_assoc, List.cons_append]
    obtain ⟨e', he', hread⟩ := h.assignment (t :: (vs ++ u :: rest)) hus
      (.of_closing ht rfl)
    refine ⟨e' :: es', by rw [bareAll, bareAll, he', hes'], ?_⟩
    refine closes_items (startsWith_closing hclosing begins hus) ?_ hread ht hmore
    rintro rfl
    revert hclosing
    decide

theorem readBack_array {es : List Expr} {s : Span} (h : ReadBackAll stop es) :
    ReadBack stop (.array es s) := by
  intro ts rest hts
  rw [Expr.tokens] at hts
  obtain ⟨t, us, u, rfl, ht, hus, hu⟩ := exists_between hts
  obtain ⟨es', hes', hread⟩ := h .rightBracket (by decide) us u rest hus hu
  obtain ⟨s', whole⟩ := reads_array ht hread
  refine ⟨.array es' s', by rw [Expr.bare, Expr.bare, hes'], .of_first ?_ (Nat.le_succ 15) ?_⟩
  · rw [ht]
    exact ⟨rfl, rfl⟩
  · rw [List.append_assoc, List.singleton_append]
    exact whole

/-! ### Properties -/

/-- The key of a property is read before a colon. -/
def ReadBackKey (stop : Token) (k : Key) : Prop :=
  ∀ ts rest, ts.map (·.kind) = keyTokens k →
    ∃ k', bareKey k' = bareKey k ∧ startsWith .rightBrace (ts ++ rest) = false ∧
      Reads (propertyKey stop (ts ++ rest)) k' rest

theorem readBackKey_named {name : String} : ReadBackKey stop (.named name) := by
  intro ts rest hts
  rw [keyTokens] at hts
  obtain ⟨t, rfl, ht⟩ := List.map_eq_singleton_iff.mp hts
  refine ⟨.named name, rfl, ?_, reads_keyNamed ht⟩
  rw [List.singleton_append, startsWith_cons, ht]
  rfl

theorem readBackKey_computed (h : ReadBack stop e) : ReadBackKey stop (.computed e) := by
  intro ts rest hts
  rw [keyTokens] at hts
  obtain ⟨t, us, u, rfl, ht, hus, hu⟩ := exists_between hts
  rw [List.cons_append, List.append_assoc, List.singleton_append]
  obtain ⟨e', he', hread⟩ := h.assignment (u :: rest) hus (.of_closing hu rfl)
  refine ⟨.computed e', by rw [bareKey, bareKey, he'], ?_, reads_keyComputed ht hu hread⟩
  rw [startsWith_cons, ht]
  rfl

/-- Properties with commas between them are read in braces. -/
def ReadBackProperties (stop : Token) (ps : List Property) : Prop :=
  ∀ ts u rest, ts.map (·.kind) = propertyTokens ps → u.kind = .mark .rightBrace →
    ∃ ps', bareProperties ps' = bareProperties ps ∧
      Closes (properties stop (ts ++ u :: rest)) ps' rest

theorem readBackProperties_nil : ReadBackProperties stop [] := by
  intro ts u rest hts hu
  rw [propertyTokens] at hts
  obtain rfl := List.map_eq_nil_iff.mp hts
  exact ⟨[], rfl, closes_properties_nil hu⟩

theorem readBackProperties_cons {k : Key} {ps : List Property} (hk : ReadBackKey stop k)
    (h : ReadBack stop e) (hps : ReadBackProperties stop ps) :
    ReadBackProperties stop (.mk k e :: ps) := by
  intro ts u rest hts hu
  cases ps with
  | nil =>
    rw [propertyTokens] at hts
    obtain ⟨us, t, vs, rfl, hus, ht, hvs⟩ := exists_split hts
    rw [List.append_assoc, List.cons_append]
    obtain ⟨k', hk', hstart, hkey⟩ := hk us (t :: (vs ++ u :: rest)) hus
    obtain ⟨e', he', hvalue⟩ := h.assignment (u :: rest) hvs (.of_closing hu rfl)
    refine ⟨[.mk k' e'], by simp [bareProperties, hk', he'], ?_⟩
    exact closes_properties_last hstart (reads_property hkey ht hvalue) hu
  | cons p more =>
    rw [propertyTokens] at hts
    obtain ⟨us, t, vs, rfl, hus, ht, hvs⟩ := exists_split hts
    obtain ⟨vs, c, ws, rfl, hvs, hc, hws⟩ := exists_split hvs
    obtain ⟨ps', hps', hmore⟩ := hps ws u rest hws hu
    rw [List.append_assoc, List.cons_append, List.append_assoc, List.cons_append]
    obtain ⟨k', hk', hstart, hkey⟩ := hk us (t :: (vs ++ c :: (ws ++ u :: rest))) hus
    obtain ⟨e', he', hvalue⟩ := h.assignment (c :: (ws ++ u :: rest)) hvs
      (.of_closing hc rfl)
    refine ⟨.mk k' e' :: ps', by rw [bareProperties, bareProperties, hk', he', hps'], ?_⟩
    exact closes_properties hstart (reads_property hkey ht hvalue) hc hmore

theorem readBack_object {ps : List Property} {s : Span} (h : ReadBackProperties stop ps) :
    ReadBack stop (.object ps s) := by
  intro ts rest hts
  rw [Expr.tokens] at hts
  obtain ⟨t, us, u, rfl, ht, hus, hu⟩ := exists_between hts
  obtain ⟨ps', hps', hread⟩ := h us u rest hus hu
  obtain ⟨s', whole⟩ := reads_object ht hread
  refine ⟨.object ps' s', by rw [Expr.bare, Expr.bare, hps'], .of_first ?_ (Nat.le_succ 15) ?_⟩
  · rw [ht]
    exact ⟨rfl, rfl⟩
  · rw [List.append_assoc, List.singleton_append]
    exact whole

/-! ### Members and calls -/

/-- The link of a member is read as the links after it with the member as their base. -/
def ReadBackLink (stop : Token) (k : Key) : Prop :=
  ∀ optional base ts rest, ts.map (·.kind) = linkTokens optional k →
    ∃ k' s, bareKey k' = bareKey k ∧ ∀ out left,
      Reads (links stop (.member base k' optional s) rest) out left →
        Reads (links stop base (ts ++ rest)) out left

theorem readBackLink_named {name : String} : ReadBackLink stop (.named name) := by
  intro optional base ts rest hts
  rw [linkTokens] at hts
  obtain ⟨t, us, rfl, ht, hus⟩ := List.map_eq_cons_iff.mp hts
  obtain ⟨u, rfl, hu⟩ := List.map_eq_singleton_iff.mp hus
  refine ⟨.named name, Span.cover base.span u.span, rfl, fun out left hmore => ?_⟩
  cases optional with
  | false => exact reads_named ht hu hmore
  | true => exact reads_optional ht (reads_optionalNamed hu) hmore

theorem readBackLink_computed (h : ReadBack stop e) : ReadBackLink stop (.computed e) := by
  intro optional base ts rest hts
  rw [linkTokens] at hts
  cases optional with
  | false =>
    obtain ⟨t, us, u, rfl, ht, hus, hu⟩ := exists_between hts
    obtain ⟨e', he', hread⟩ := h.assignment (u :: rest) hus (.of_closing hu rfl)
    refine ⟨.computed e', Span.cover base.span u.span, by rw [bareKey, bareKey, he'],
      fun out left hmore => ?_⟩
    rw [List.cons_append, List.append_assoc, List.singleton_append]
    exact reads_bracket ht hu hread hmore
  | true =>
    obtain ⟨q, vs, rfl, hq, hvs⟩ := List.map_eq_cons_iff.mp hts
    obtain ⟨t, us, u, rfl, ht, hus, hu⟩ := exists_between hvs
    obtain ⟨e', he', hread⟩ := h.assignment (u :: rest) hus (.of_closing hu rfl)
    refine ⟨.computed e', Span.cover base.span u.span, by rw [bareKey, bareKey, he'],
      fun out left hmore => ?_⟩
    rw [List.cons_append, List.cons_append, List.append_assoc, List.singleton_append]
    refine reads_optional hq ?_ hmore
    rw [optionalLink_bracket ht]
    exact reads_computed base true ht hu hread

/-- What begins a chain begins the chain with one more link. -/
theorem readBack_chain {base : Expr} (hlevel : e.level = 15) (hbase : ReadBack stop base)
    {us vs : List Token} (hus : us.map (·.kind) = enclosed 15 base.level base.tokens)
    (hlink : ∀ base', base'.bare = base.bare → ∃ e', e'.bare = e.bare ∧ ∀ out left,
      Reads (links stop e' rest) out left → Reads (links stop base' (vs ++ rest)) out left) :
    ∃ e', e'.bare = e.bare ∧ ReadsAs stop e.level (us ++ vs) rest e' := by
  obtain ⟨base', level, hbase', hplace, hread⟩ := hbase.at_place (by omega) hus (vs ++ rest)
  obtain ⟨e', he', hnext⟩ := hlink base' hbase'
  refine ⟨e', he', .of_chain (Nat.le_of_eq hlevel.symm) ?_ fun out left hmore => ?_⟩
  · have begins := ((beginsAs_tokens base).enclosed 15).head (vs ++ rest) hus
    rw [List.append_assoc]
    exact fun t ht => (begins t ht).2.2.2 (by omega)
  · rw [List.append_assoc]
    exact hread.chain hplace out left (hnext out left hmore)

theorem readBack_member {base : Expr} {k : Key} {optional : Bool} {s : Span}
    (hbase : ReadBack stop base) (hk : ReadBackLink stop k) :
    ReadBack stop (.member base k optional s) := by
  intro ts rest hts
  rw [Expr.tokens] at hts
  obtain ⟨us, vs, rfl, hus, hvs⟩ := List.map_eq_append_iff.mp hts
  refine readBack_chain rfl hbase hus fun base' hbase' => ?_
  obtain ⟨k', s', hk', hlink⟩ := hk optional base' vs rest hvs
  exact ⟨.member base' k' optional s', by rw [Expr.bare, Expr.bare, hbase', hk'], hlink⟩

theorem readBack_call {callee : Expr} {es : List Expr} {optional : Bool} {s : Span}
    (hcallee : ReadBack stop callee) (hes : ReadBackAll stop es) :
    ReadBack stop (.call callee es optional s) := by
  intro ts rest hts
  rw [Expr.tokens] at hts
  obtain ⟨us, vs, rfl, hus, hvs⟩ := List.map_eq_append_iff.mp hts
  refine readBack_chain rfl hcallee hus fun callee' hcallee' => ?_
  cases optional with
  | false =>
    obtain ⟨t, ws, u, rfl, ht, hws, hu⟩ := exists_between hvs
    obtain ⟨es', hes', hread⟩ := hes .rightParen (by decide) ws u rest hws hu
    obtain ⟨s', hcall⟩ := reads_call callee' false ht hread
    refine ⟨.call callee' es' false s', by rw [Expr.bare, Expr.bare, hcallee', hes'],
      fun out left hmore => ?_⟩
    rw [List.cons_append, List.append_assoc, List.singleton_append]
    exact reads_calling ht hcall hmore
  | true =>
    obtain ⟨q, vs, rfl, hq, hvs⟩ := List.map_eq_cons_iff.mp hvs
    obtain ⟨t, ws, u, rfl, ht, hws, hu⟩ := exists_between hvs
    obtain ⟨es', hes', hread⟩ := hes .rightParen (by decide) ws u rest hws hu
    obtain ⟨s', hcall⟩ := reads_call callee' true ht hread
    refine ⟨.call callee' es' true s', by rw [Expr.bare, Expr.bare, hcallee', hes'],
      fun out left hmore => ?_⟩
    rw [List.cons_append, List.cons_append, List.append_assoc, List.singleton_append]
    refine reads_optional hq ?_ hmore
    rw [optionalLink_paren ht]
    exact hcall

end Expr.Parser

end PromptTemplate
