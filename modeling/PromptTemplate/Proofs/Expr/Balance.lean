import PromptTemplate.Proofs.Expr.Grammar
import PromptTemplate.Proofs.Token.Braces

/-!
# Brackets in expressions

The tokens of an expression close all the brackets that they open and no others, so whatever
only counts brackets is the same after an expression as before it. And an expression begins with
none of the marks that begin a block tag.
-/

namespace PromptTemplate

open Expr Expr.Parser

namespace Token

/-- The marks of a pair of brackets. -/
inductive Brackets : Mark → Mark → Prop where
  | parentheses : Brackets .leftParen .rightParen
  | square : Brackets .leftBracket .rightBracket
  | braces : Brackets .leftBrace .rightBrace

/-- A token that is no bracket and does not end a list. -/
def Kind.isInner : Kind → Bool
  | .mark .leftParen | .mark .rightParen | .mark .leftBracket => false
  | .mark .rightBracket | .mark .leftBrace | .mark .rightBrace => false
  | .tagEnd | .inputEnd | .invalid _ => false
  | _ => true

/-- What runs along tokens and counts brackets only: it passes over inner tokens, and over a
pair of brackets if it passes over what is between them. -/
structure Counts {σ τ : Type} (run : σ → List Token → τ) : Prop where
  inner : ∀ {s t ts}, t.kind.isInner = true → run s (t :: ts) = run s ts
  closed : ∀ {l r opening closing ts rest}, Brackets l r → opening.kind = .mark l →
    closing.kind = .mark r → (∀ s, run s ts = run s (closing :: rest)) →
      ∀ s, run s (opening :: ts) = run s rest

/-- Braces are counted by the level. -/
theorem counts_levelAfter? : Counts levelAfter? where
  inner := by
    intro level t ts h
    obtain ⟨k, s⟩ := t
    rw [levelAfter?]
    cases k with
    | mark m => cases m <;> first | rfl | cases h
    | keyword | string | number | identifier => rfl
    | tagEnd | inputEnd | invalid => cases h
  closed := by
    intro l r opening closing ts rest pair hopening hclosing h level
    have opens : levelAfter? level (opening :: ts) =
        levelAfter? (depthAfter level (.mark l)) ts := by
      rw [levelAfter?, hopening]
      cases pair <;> rfl
    have closes : levelAfter? (depthAfter level (.mark l)) (closing :: rest) =
        levelAfter? level rest := by
      rw [levelAfter?, hclosing]
      cases pair <;> rfl
    rw [opens, h, closes]

/-! ## Kinds of tokens -/

/-- What has a meaning that brackets and terminators do not have is an inner token. -/
theorem isInner_of_meaning {α : Type} {meaning : Kind → Option α} {k : Kind} {a : α}
    (brackets : ∀ {l r}, Brackets l r → meaning (.mark l) = none ∧ meaning (.mark r) = none)
    (tag : meaning .tagEnd = none) (input : meaning .inputEnd = none)
    (invalid : ∀ fault, meaning (.invalid fault) = none) (h : meaning k = some a) :
    k.isInner = true := by
  have other {l : Kind} (none : meaning l = none) : k ≠ l := by
    rintro rfl
    rw [none] at h
    cases h
  cases k with
  | mark m =>
    cases m with
    | leftParen => exact absurd rfl (other (brackets .parentheses).1)
    | rightParen => exact absurd rfl (other (brackets .parentheses).2)
    | leftBracket => exact absurd rfl (other (brackets .square).1)
    | rightBracket => exact absurd rfl (other (brackets .square).2)
    | leftBrace => exact absurd rfl (other (brackets .braces).1)
    | rightBrace => exact absurd rfl (other (brackets .braces).2)
    | _ => rfl
  | keyword | string | number | identifier => rfl
  | tagEnd => exact absurd rfl (other tag)
  | inputEnd => exact absurd rfl (other input)
  | invalid fault => exact absurd rfl (other (invalid fault))

section

variable {k : Kind}

theorem isInner_of_literal {v : Literal} (h : Literal.ofKind? k = some v) : k.isInner = true :=
  isInner_of_meaning (fun pair => by cases pair <;> exact ⟨rfl, rfl⟩) rfl rfl (fun _ => rfl) h

theorem isInner_of_name {name : String} (h : nameOf? k = some name) : k.isInner = true :=
  isInner_of_meaning (fun pair => by cases pair <;> exact ⟨rfl, rfl⟩) rfl rfl (fun _ => rfl) h

theorem isInner_of_key {name : String} (h : keyOf? k = some name) : k.isInner = true :=
  isInner_of_meaning (fun pair => by cases pair <;> exact ⟨rfl, rfl⟩) rfl rfl (fun _ => rfl) h

theorem isInner_of_unary {op : UnaryOp} (h : UnaryOp.ofKind? k = some op) : k.isInner = true :=
  isInner_of_meaning (fun pair => by cases pair <;> exact ⟨rfl, rfl⟩) rfl rfl (fun _ => rfl) h

theorem isInner_of_update {op : UpdateOp} (h : UpdateOp.ofKind? k = some op) :
    k.isInner = true :=
  isInner_of_meaning (fun pair => by cases pair <;> exact ⟨rfl, rfl⟩) rfl rfl (fun _ => rfl) h

theorem isInner_of_operator {op : Operator} (h : Operator.ofKind? k = some op) :
    k.isInner = true :=
  isInner_of_meaning (fun pair => by cases pair <;> exact ⟨rfl, rfl⟩) rfl rfl (fun _ => rfl) h

theorem isInner_of_assign {op : AssignOp}
    (h : ∃ m, k = .mark m ∧ AssignOp.ofMark? m = some op) : k.isInner = true := by
  obtain ⟨m, rfl, hm⟩ := h
  cases m <;> first | rfl | cases hm

end

/-- Whether an expression may begin with a token. -/
def Kind.beginsExpr (k : Kind) : Bool :=
  (Literal.ofKind? k).isSome || (identifierOf? k).isSome || (UnaryOp.ofKind? k).isSome ||
    (UpdateOp.ofKind? k).isSome || k == .mark .leftParen || k == .mark .leftBracket ||
    k == .mark .leftBrace

/-! ## What is read -/

section

variable {σ τ : Type} {run : σ → List Token → τ} (counts : Counts run)

include counts

theorem Counts.mark {s : σ} {m : Mark} {t : Token} {ts : List Token} (h : t.kind = .mark m)
    (inner : (Kind.mark m).isInner = true) : run s (t :: ts) = run s ts :=
  counts.inner (h ▸ inner)

/-- What is in the brackets of a link. -/
theorem Counts.linked {optional : Bool} {l r : Mark} {marks ts rest : List Token} {closing : Token}
    (pair : Brackets l r) (hmarks : marks.map (·.kind) = linkMarks optional l)
    (hclosing : closing.kind = .mark r) (h : ∀ s, run s ts = run s (closing :: rest)) (s : σ) :
    run s (marks ++ ts) = run s rest := by
  cases optional with
  | false =>
    obtain ⟨opening, rfl, hopening⟩ := List.map_eq_singleton_iff.mp hmarks
    exact counts.closed pair hopening hclosing h s
  | true =>
    obtain ⟨question, more, rfl, hquestion, hmore⟩ := List.map_eq_cons_iff.mp hmarks
    obtain ⟨opening, rfl, hopening⟩ := List.map_eq_singleton_iff.mp hmore
    calc run s (question :: opening :: ts)
      _ = run s (opening :: ts) := counts.mark hquestion rfl
      _ = run s rest := counts.closed pair hopening hclosing h s

mutual

/-- The induction is on the derivation: every bracket that opens in it closes in it. -/
theorem run_derives {ts rest : List Token} {e : Expr} :
    Derives ts e rest → ∀ s, run s ts = run s rest
  | .literal h rest, s => counts.inner (isInner_of_literal h)
  | .identifier name place rest, s => counts.inner rfl
  | .parentheses h opening hopening hclosing, s =>
    counts.closed .parentheses hopening hclosing (run_derives h) s
  | .array h opening hopening hclosing, s =>
    counts.closed .square hopening hclosing (run_derivesItems h) s
  | .object h opening hopening hclosing, s =>
    counts.closed .braces hopening hclosing (run_derivesProperties h) s
  | .member h name optional hdot hnamed, s => by
    have inner : (Kind.mark (memberMark optional)).isInner = true := by cases optional <;> rfl
    rw [run_derives h, counts.mark hdot inner, counts.inner (isInner_of_name hnamed)]
  | .computed h he optional hmarks hclosing, s => by
    rw [run_derives h, counts.linked .square hmarks hclosing (run_derives he)]
  | .call h hes optional hmarks hclosing, s => by
    rw [run_derives h, counts.linked .parentheses hmarks hclosing (run_derivesItems hes)]
  | .unary h mark op hop, s => by
    rw [counts.inner (isInner_of_unary hop), run_derives h]
  | .before h fits mark op hop, s => by
    rw [counts.inner (isInner_of_update hop), run_derives h]
  | .after h fits op hop, s => by
    rw [run_derives h, counts.inner (isInner_of_update hop)]
  | .operator hl hr op hop, s => by
    rw [run_derives hl, counts.inner (isInner_of_operator hop), run_derives hr]
  | .conditional ht hc ha hmark hcolon, s => by
    rw [run_derives ht, counts.mark hmark rfl, run_derives hc, counts.mark hcolon rfl,
      run_derives ha]
  | .assign ht fits hv op hop, s => by
    rw [run_derives ht, counts.inner (isInner_of_assign hop), run_derives hv]

/-- The items and their end. -/
theorem run_derivesItems {ts rest : List Token} {es : List Expr} {closing : Token} :
    DerivesItems ts es closing rest → ∀ s, run s ts = run s (closing :: rest)
  | .nil closing rest, s => rfl
  | .last h, s => run_derives h s
  | .cons h hes hcomma, s => by
    rw [run_derives h, counts.mark hcomma rfl, run_derivesItems hes]

theorem run_derivesKey {ts rest : List Token} {key : Key} :
    DerivesKey ts key rest → ∀ s, run s ts = run s rest
  | .named h rest, s => counts.inner (isInner_of_key h)
  | .computed h opening hopening hclosing, s =>
    counts.closed .square hopening hclosing (run_derives h) s

theorem run_derivesProperty {ts rest : List Token} {p : Property} :
    DerivesProperty ts p rest → ∀ s, run s ts = run s rest
  | .short name place rest, s => counts.inner rfl
  | .full hkey hvalue hcolon, s => by
    rw [run_derivesKey hkey, counts.mark hcolon rfl, run_derives hvalue]

theorem run_derivesProperties {ts rest : List Token} {ps : List Property}
    {closing : Token} :
    DerivesProperties ts ps closing rest → ∀ s, run s ts = run s (closing :: rest)
  | .nil closing rest, s => rfl
  | .last h, s => run_derivesProperty h s
  | .cons h hps hcomma, s => by
    rw [run_derivesProperty h, counts.mark hcomma rfl, run_derivesProperties hps]

end

end

end Token

namespace Expr

open Token

theorem level_of_derives {ts rest : List Token} {e : Expr} (h : Derives ts e rest) (level : Nat) :
    levelAfter? level ts = levelAfter? level rest :=
  run_derives counts_levelAfter? h level

/-- The first token of an expression is that of its first operand or of an operator before it. -/
theorem begins_of_derives {ts rest : List Token} {e : Expr} :
    Derives ts e rest → ∃ t more, ts = t :: more ∧ t.kind.beginsExpr = true
  | @Derives.literal t _ h rest => ⟨t, rest, rfl, by simp [Kind.beginsExpr, h]⟩
  | .identifier name s rest => ⟨_, rest, rfl, rfl⟩
  | .parentheses _ opening hopening _ => ⟨opening, _, rfl, by rw [hopening]; rfl⟩
  | .array _ opening hopening _ => ⟨opening, _, rfl, by rw [hopening]; rfl⟩
  | .object _ opening hopening _ => ⟨opening, _, rfl, by rw [hopening]; rfl⟩
  | .member h _ _ _ _ => begins_of_derives h
  | .computed h _ _ _ _ => begins_of_derives h
  | .call h _ _ _ _ => begins_of_derives h
  | .unary _ mark op hop => ⟨mark, _, rfl, by simp [Kind.beginsExpr, hop]⟩
  | .before _ _ mark op hop => ⟨mark, _, rfl, by simp [Kind.beginsExpr, hop]⟩
  | .after h _ _ _ => begins_of_derives h
  | .operator hl _ _ _ => begins_of_derives hl
  | .conditional ht _ _ _ _ => begins_of_derives ht
  | .assign ht _ _ _ _ => begins_of_derives ht

end Expr

end PromptTemplate
