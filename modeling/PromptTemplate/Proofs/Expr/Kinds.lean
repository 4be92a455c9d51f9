import PromptTemplate.Expr.EachHeader
import PromptTemplate.Proofs.Expr.Places

/-!
# Expressions depend on kinds

The places of tokens do not matter for what is read from them: tokens of the same kinds are
the same expression up to its places.
-/

namespace PromptTemplate

namespace Expr.Parser

/-- Tokens of the same kinds in the same order. -/
def SameKinds (ts us : List Token) : Prop := us.map (·.kind) = ts.map (·.kind)

section

variable {ts us : List Token} {t u : Token}

theorem SameKinds.nil : SameKinds [] [] := rfl

theorem SameKinds.cons (h : u.kind = t.kind) (hs : SameKinds ts us) :
    SameKinds (t :: ts) (u :: us) := by
  rw [SameKinds, List.map_cons, List.map_cons, h, hs]

theorem SameKinds.exists_nil (h : SameKinds [] us) : us = [] := List.map_eq_nil_iff.mp h

theorem SameKinds.exists_cons (h : SameKinds (t :: ts) us) :
    ∃ u more, us = u :: more ∧ u.kind = t.kind ∧ SameKinds ts more := by
  obtain ⟨u, more, rfl, hu, hmore⟩ := List.map_eq_cons_iff.mp h
  exact ⟨u, more, rfl, hu, hmore⟩

theorem SameKinds.append {ts' us' : List Token} (h : SameKinds ts us) (h' : SameKinds ts' us') :
    SameKinds (ts ++ ts') (us ++ us') := by
  rw [SameKinds, List.map_append, List.map_append, h, h']

end

/-- The map that forgets where tokens stand. -/
def nowhere : Span.Moving := ⟨fun _ => Span.none, fun _ _ => rfl⟩

theorem SameKinds.alike {ts us : List Token} (h : SameKinds ts us) :
    Alike nowhere nowhere ts us := by
  have forget (vs : List Token) :
      vs.map (Token.mapSpan nowhere) = (vs.map (·.kind)).map fun k => ⟨k, Span.none⟩ := by
    rw [List.map_map]
    rfl
  rw [Alike, forget, forget, h]

theorem takeWhile_congr {ts us : List Token} (h : SameKinds ts us) :
    SameKinds (ts.takeWhile (!·.kind.isEnd)) (us.takeWhile (!·.kind.isEnd)) := by
  induction ts generalizing us with
  | nil => 
    rw [h.exists_nil]
    exact .nil
  | cons t ts ih =>
    obtain ⟨u, more, rfl, hu, hmore⟩ := h.exists_cons
    rw [List.takeWhile_cons, List.takeWhile_cons, hu]
    split
    · exact .cons hu (ih hmore)
    · exact .nil

theorem filter_congr {ts us : List Token} (h : SameKinds ts us) :
    SameKinds (ts.filter (!·.kind.isEnd)) (us.filter (!·.kind.isEnd)) := by
  induction ts generalizing us with
  | nil =>
    rw [h.exists_nil]
    exact .nil
  | cons t ts ih =>
    obtain ⟨u, more, rfl, hu, hmore⟩ := h.exists_cons
    rw [List.filter_cons, List.filter_cons, hu]
    split
    · exact .cons hu (ih hmore)
    · exact ih hmore

end Expr.Parser

open Expr.Parser

/-! ## Without places -/

namespace Expr

mutual

theorem bare_eq_mapSpans : ∀ e : Expr, e.bare = mapSpans nowhere e
  | .literal .. | .identifier .. => rfl
  | .array es s => by
    rw [bare, mapSpans, bareAll_eq_mapSpans es]
    rfl
  | .object ps s => by
    rw [bare, mapSpans, bareProperties_eq_mapSpans ps]
    rfl
  | .member base key optional s => by
    rw [bare, mapSpans, bare_eq_mapSpans base, bareKey_eq_mapSpans key]
    rfl
  | .call callee arguments optional s => by
    rw [bare, mapSpans, bare_eq_mapSpans callee, bareAll_eq_mapSpans arguments]
    rfl
  | .unary op argument s => by
    rw [bare, mapSpans, bare_eq_mapSpans argument]
    rfl
  | .binary op left right s => by
    rw [bare, mapSpans, bare_eq_mapSpans left, bare_eq_mapSpans right]
    rfl
  | .logical op left right s => by
    rw [bare, mapSpans, bare_eq_mapSpans left, bare_eq_mapSpans right]
    rfl
  | .conditional test consequent alternate s => by
    rw [bare, mapSpans, bare_eq_mapSpans test, bare_eq_mapSpans consequent,
      bare_eq_mapSpans alternate]
    rfl
  | .assign op target value s => by
    rw [bare, mapSpans, bare_eq_mapSpans target, bare_eq_mapSpans value]
    rfl
  | .update op before argument s => by
    rw [bare, mapSpans, bare_eq_mapSpans argument]
    rfl

theorem bareAll_eq_mapSpans : ∀ es : List Expr, bareAll es = mapSpansAll nowhere es
  | [] => rfl
  | e :: es => by rw [bareAll, mapSpansAll, bare_eq_mapSpans e, bareAll_eq_mapSpans es]

theorem bareKey_eq_mapSpans : ∀ k : Key, bareKey k = mapSpansKey nowhere k
  | .named _ => rfl
  | .computed e => congrArg Key.computed (bare_eq_mapSpans e)

theorem bareProperties_eq_mapSpans : ∀ ps : List Property,
    bareProperties ps = mapSpansProperties nowhere ps
  | [] => rfl
  | .mk key value :: ps => by
    rw [bareProperties, mapSpansProperties, bareKey_eq_mapSpans key, bare_eq_mapSpans value,
      bareProperties_eq_mapSpans ps]

end

/-- The places of tokens do not matter for what is read from them. -/
theorem agrees_ofTokens {ts us : List Token} (h : SameKinds ts us) :
    Agrees (fun e e' => e'.bare = e.bare) (ofTokens ts) (ofTokens us) := by
  have alike := alike_ofTokens (takeWhile_congr h).alike
  simp only [← bare_eq_mapSpans] at alike
  exact alike

end Expr

namespace EachHeader

/-- The same header without the places that it was read from. -/
def bare (header : EachHeader) : EachHeader := { header with expression := header.expression.bare }

theorem cut?_congr (depth : Nat) {ts us : List Token} (h : SameKinds ts us) :
    (cut? depth ts = none ∧ cut? depth us = none) ∨
      ∃ front word back front' word' back', SameKinds front front' ∧ SameKinds back back' ∧
        cut? depth ts = some (front, word, back) ∧ cut? depth us = some (front', word', back') := by
  induction ts generalizing depth us with
  | nil =>
    rw [h.exists_nil]
    exact .inl ⟨rfl, rfl⟩
  | cons t ts ih =>
    obtain ⟨u, more, rfl, hu, hmore⟩ := h.exists_cons
    rw [cut?, cut?, hu]
    rcases ih (depthAfter depth t.kind) hmore with ⟨hts, hus⟩ |
      ⟨front, word, back, front', word', back', hfront, hback, hts, hus⟩
    · rw [hts, hus]
      dsimp only
      split
      · exact .inr ⟨[], t, ts, [], u, more, .nil, hmore, rfl, rfl⟩
      · exact .inl ⟨rfl, rfl⟩
    · rw [hts, hus]
      exact .inr ⟨_, _, _, _, _, _, hfront.cons hu, hback, rfl, rfl⟩

theorem agrees_bindings (header header' : Span) {ts us : List Token} (h : SameKinds ts us) :
    Agrees Eq (bindings header ts) (bindings header' us) := by
  unfold bindings
  split
  · exact .error _ _
  · obtain ⟨⟨_, _⟩, more, rfl, hu, hmore⟩ := h.exists_cons
    cases hu
    rw [hmore.exists_nil]
    exact .ok rfl
  · exact .error _ _
  · obtain ⟨⟨_, _⟩, more, rfl, hu, hmore⟩ := h.exists_cons
    obtain ⟨⟨_, _⟩, most, rfl, hv, hmost⟩ := hmore.exists_cons
    obtain ⟨⟨_, _⟩, rest, rfl, hw, hrest⟩ := hmost.exists_cons
    cases hu
    cases hv
    cases hw
    rw [hrest.exists_nil]
    exact .ok rfl
  · exact .error _ _
  · exact .error _ _
  · exact .error _ _
  · exact .error _ _

/-- The places of tokens do not matter for the header that is read from them. -/
theorem agrees_ofTokens (header header' : Span) {ts us : List Token} (h : SameKinds ts us) :
    Agrees (fun a b => b.bare = a.bare) (ofTokens ts header) (ofTokens us header') := by
  rw [ofTokens, ofTokens]
  rcases cut?_congr 0 h with ⟨hts, -⟩ |
    ⟨front, word, back, front', word', back', hfront, hback, hts, hus⟩
  · rw [hts]
    exact .error _ _
  · rw [hts, hus]
    refine .bind (agrees_bindings header header' (filter_congr hback)) ?_
    rintro ⟨context, index⟩ _ rfl
    refine .bind (Expr.agrees_ofTokens (hfront.append (.cons rfl .nil))) ?_
    intro e e' he
    refine .ok ?_
    rw [bare, bare, he]

end EachHeader

end PromptTemplate
