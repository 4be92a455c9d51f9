import PromptTemplate.Proofs.Expr.RoundTrip
import PromptTemplate.Proofs.Expr.Targets
import Mathlib.Data.List.TakeWhile

/-!
# Printing and reading are inverse

The tokens of an expression that writes only to what can be assigned to are read as this
expression, and every expression that is read writes only to such targets.
-/

namespace PromptTemplate

namespace Expr

open PromptTemplate.Expr.Parser

/-! ## Every expression is read back -/

section

variable (stop : Token)

mutual

theorem readBack : ∀ e : Expr, e.WellTargeted → ReadBack stop e
  | .literal .., _ => readBack_literal
  | .identifier .., _ => readBack_identifier
  | .array items _, h => readBack_array (readBackAll items (wellTargeted_array.mp h))
  | .object properties _, h =>
    readBack_object (readBackProperties properties (wellTargeted_object.mp h))
  | .member base key _ _, h => by
    obtain ⟨hbase, hkey⟩ := wellTargeted_member.mp h
    exact readBack_member (readBack base hbase) (readBackKey key hkey).2
  | .call callee arguments _ _, h => by
    obtain ⟨hcallee, harguments⟩ := wellTargeted_call.mp h
    exact readBack_call (readBack callee hcallee) (readBackAll arguments harguments)
  | .unary _ argument _, h => readBack_unary (readBack argument (wellTargeted_unary.mp h))
  | .binary _ left right _, h => by
    obtain ⟨hleft, hright⟩ := wellTargeted_binary.mp h
    exact readBack_binary (readBack left hleft) (readBack right hright)
  | .logical _ left right _, h => by
    obtain ⟨hleft, hright⟩ := wellTargeted_logical.mp h
    exact readBack_logical (readBack left hleft) (readBack right hright)
  | .conditional test consequent alternate _, h => by
    obtain ⟨htest, hconsequent, halternate⟩ := wellTargeted_conditional.mp h
    exact readBack_conditional (readBack test htest) (readBack consequent hconsequent)
      (readBack alternate halternate)
  | .assign _ target value _, h => by
    obtain ⟨fits, htarget, hvalue⟩ := wellTargeted_assign.mp h
    exact readBack_assign (readBack target htarget) fits (readBack value hvalue)
  | .update _ _ argument _, h => by
    obtain ⟨fits, hargument⟩ := wellTargeted_update.mp h
    exact readBack_update (readBack argument hargument) fits

theorem readBackAll : ∀ es : List Expr, AllTargeted (insideAll es) → ReadBackAll stop es
  | [], _ => readBackAll_nil
  | e :: rest, h => by
    obtain ⟨he, hrest⟩ := allTargeted_append.mp h
    exact readBackAll_cons (readBack e he) (readBackAll rest hrest)

theorem readBackKey : ∀ k : Key, AllTargeted k.inside → ReadBackKey stop k ∧ ReadBackLink stop k
  | .named _, _ => ⟨readBackKey_named, readBackLink_named⟩
  | .computed e, h => by
    have he := readBack e h
    exact ⟨readBackKey_computed he, readBackLink_computed he⟩

theorem readBackProperties : ∀ ps : List Property, AllTargeted (insideProperties ps) →
    ReadBackProperties stop ps
  | [], _ => readBackProperties_nil
  | .mk key value :: rest, h => by
    obtain ⟨hkey, hvalue, hrest⟩ := allTargeted_insideProperties.mp h
    exact readBackProperties_cons (readBackKey key hkey).1 (readBack value hvalue)
      (readBackProperties rest hrest)

end

end

/-! ## No token ends a printed expression -/

/-- None of some tokens is the end of an expression. -/
def EndFree (ks : List Token.Kind) : Prop := ∀ k ∈ ks, k.isEnd = false

section

variable {k : Token.Kind} {ks more : List Token.Kind}

@[simp] theorem endFree_nil : EndFree [] := List.forall_mem_nil _

@[simp] theorem endFree_cons : EndFree (k :: ks) ↔ k.isEnd = false ∧ EndFree ks :=
  List.forall_mem_cons

@[simp] theorem endFree_append : EndFree (ks ++ more) ↔ EndFree ks ∧ EndFree more :=
  List.forall_mem_append

@[simp] theorem isEnd_mark (m : Mark) : (Token.Kind.mark m).isEnd = false := rfl

@[simp] theorem isEnd_identifier (name : String) : (Token.Kind.identifier name).isEnd = false := rfl

@[simp] theorem isEnd_string (s : String) : (Token.Kind.string s).isEnd = false := rfl

@[simp] theorem isEnd_ofName (name : String) : (Token.Kind.ofName name).isEnd = false := by
  unfold Token.Kind.ofName
  split <;> rfl

@[simp] theorem isEnd_literal (v : Literal) : v.kind.isEnd = false := by
  rcases v with _ | _ | (_ | _) | _ | _ <;> rfl

@[simp] theorem isEnd_unaryOp (op : UnaryOp) : op.kind.isEnd = false := by
  cases op <;> rfl

@[simp] theorem isEnd_updateOp (op : UpdateOp) : op.kind.isEnd = false := by
  cases op <;> rfl

@[simp] theorem isEnd_operator (op : Operator) : op.kind.isEnd = false := by
  rcases op with op | op <;> cases op <;> rfl

theorem EndFree.enclosed (h : EndFree ks) (place level : Nat) :
    EndFree (Expr.enclosed place level ks) := by
  unfold Expr.enclosed
  split
  · simp [h]
  · exact h

end

mutual

theorem endFree_tokens : ∀ e : Expr, EndFree e.tokens
  | .literal .. | .identifier .. => by simp [tokens]
  | .array items _ => by simp [tokens, endFree_items items]
  | .object properties _ => by simp [tokens, endFree_properties properties]
  | .member base key optional _ => by
    simp [tokens, (endFree_tokens base).enclosed, endFree_link optional key]
  | .call callee arguments optional _ => by
    cases optional <;> simp [tokens, (endFree_tokens callee).enclosed, endFree_items arguments]
  | .unary _ argument _ => by simp [tokens, (endFree_tokens argument).enclosed]
  | .update _ before argument _ => by
    cases before <;> simp [tokens, (endFree_tokens argument).enclosed]
  | .binary _ left right _ | .logical _ left right _ => by
    simp [tokens, (endFree_tokens left).enclosed, (endFree_tokens right).enclosed]
  | .conditional test consequent alternate _ => by
    simp [tokens, (endFree_tokens test).enclosed, endFree_tokens consequent,
      endFree_tokens alternate]
  | .assign _ target value _ => by
    simp [tokens, (endFree_tokens target).enclosed, endFree_tokens value]

theorem endFree_items : ∀ es : List Expr, EndFree (itemTokens es)
  | [] => by simp [itemTokens]
  | [e] => by simp [itemTokens, endFree_tokens e]
  | e :: f :: rest => by simp [itemTokens, endFree_tokens e, endFree_items (f :: rest)]

theorem endFree_link (optional : Bool) : ∀ k : Key, EndFree (linkTokens optional k)
  | .named _ => by simp [linkTokens]
  | .computed e => by cases optional <;> simp [linkTokens, endFree_tokens e]

theorem endFree_key : ∀ k : Key, EndFree (keyTokens k)
  | .named _ => by simp [keyTokens]
  | .computed e => by simp [keyTokens, endFree_tokens e]

theorem endFree_properties : ∀ ps : List Property, EndFree (propertyTokens ps)
  | [] => by simp [propertyTokens]
  | [.mk key value] => by simp [propertyTokens, endFree_key key, endFree_tokens value]
  | .mk key value :: p :: rest => by
    simp [propertyTokens, endFree_key key, endFree_tokens value, endFree_properties (p :: rest)]

end

/-! ## Whole token lists -/

theorem takeWhile_of_endFree {ts : List Token} (h : EndFree (ts.map (·.kind))) :
    ts.takeWhile (!·.kind.isEnd) = ts := by
  refine List.takeWhile_eq_self_iff.mpr fun t ht => ?_
  have open_token := h t.kind (List.mem_map_of_mem ht)
  rw [open_token]
  rfl

theorem takeWhile_ended {ts : List Token} {last : Token} (h : EndFree (ts.map (·.kind)))
    (ends : last.kind.isEnd = true) : (ts ++ [last]).takeWhile (!·.kind.isEnd) = ts := by
  have goes_on : ∀ t ∈ ts, (!t.kind.isEnd) = true := by
    intro t ht
    rw [h t.kind (List.mem_map_of_mem ht)]
    rfl
  rw [List.takeWhile_append_of_pos goes_on]
  simp [ends]

/-- The tokens of an expression are read as this expression, wherever they stand. -/
theorem exists_ofTokens {e : Expr} (h : e.WellTargeted) {ts : List Token}
    (hts : ts.map (·.kind) = e.tokens) : ∃ e', ofTokens ts = .ok e' ∧ e'.bare = e.bare := by
  have body : ts.takeWhile (!·.kind.isEnd) = ts := takeWhile_of_endFree (hts ▸ endFree_tokens e)
  obtain ⟨e', he', hread⟩ := (readBack (stopOf ts) e h).assignment [] hts .nil
  rw [List.append_nil] at hread
  obtain ⟨hlt, hread⟩ := hread
  have begun : ts ≠ [] := List.ne_nil_of_length_pos hlt
  refine ⟨e', ?_, he'⟩
  rw [ofTokens, body]
  simp [begun, bind, Except.bind, pure, Except.pure, hread]

/-- Printing and reading are inverse: an expression with proper targets is read back, and every
expression that is read has proper targets. -/
theorem ofTokens_tokens :
    (∀ e : Expr, e.WellTargeted → ∀ ts : List Token, ts.map (·.kind) = e.tokens →
      ∃ e', ofTokens ts = .ok e' ∧ e'.bare = e.bare) ∧
    ∀ (ts : List Token) (e : Expr), ofTokens ts = .ok e →
      e.WellTargeted ∧ ∀ us : List Token, us.map (·.kind) = e.tokens →
        ∃ e', ofTokens us = .ok e' ∧ e'.bare = e.bare := by
  constructor
  · intro e h ts hts
    exact exists_ofTokens h hts
  · intro ts e h
    have targeted := wellTargeted_of_ofTokens h
    constructor
    · exact targeted
    · intro us hus
      exact exists_ofTokens targeted hus

end Expr

end PromptTemplate
