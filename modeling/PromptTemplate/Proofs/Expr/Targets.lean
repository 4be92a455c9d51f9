import PromptTemplate.Proofs.Expr.Grammar
import PromptTemplate.Proofs.Expr.Printing

/-!
# Targets

Every expression that is read writes only to what can be assigned to: the grammar has no other
assignments.
-/

namespace PromptTemplate

namespace Expr

/-! ## Parts of expressions -/

section

variable {s : Span} {a b c : Expr} {es : List Expr} {ps : List Property} {k : Key}

/-- All expressions of a list write, if they write themselves, to what can be assigned to. -/
def AllTargeted (es : List Expr) : Prop := ∀ x ∈ es, x.FitsTarget

theorem allTargeted_nil : AllTargeted [] := List.forall_mem_nil _

theorem allTargeted_append {more : List Expr} :
    AllTargeted (a :: a.inside ++ more) ↔ a.WellTargeted ∧ AllTargeted more :=
  List.forall_mem_append

/-- An expression that does not write itself. -/
theorem wellTargeted_of_parts (e : Expr) (h : e.FitsTarget) :
    e.WellTargeted ↔ AllTargeted e.inside :=
  List.forall_mem_cons.trans (and_iff_right h)

theorem wellTargeted_literal {v : Literal} : WellTargeted (.literal v s) :=
  (wellTargeted_of_parts (.literal v s) trivial).mpr allTargeted_nil

theorem wellTargeted_identifier {name : String} : WellTargeted (.identifier name s) :=
  (wellTargeted_of_parts (.identifier name s) trivial).mpr allTargeted_nil

theorem wellTargeted_array : WellTargeted (.array es s) ↔ AllTargeted (insideAll es) :=
  wellTargeted_of_parts (.array es s) trivial

theorem wellTargeted_object : WellTargeted (.object ps s) ↔ AllTargeted (insideProperties ps) :=
  wellTargeted_of_parts (.object ps s) trivial

theorem wellTargeted_member {optional : Bool} :
    WellTargeted (.member a k optional s) ↔ a.WellTargeted ∧ AllTargeted k.inside :=
  (wellTargeted_of_parts (.member a k optional s) trivial).trans allTargeted_append

theorem wellTargeted_call {optional : Bool} :
    WellTargeted (.call a es optional s) ↔ a.WellTargeted ∧ AllTargeted (insideAll es) :=
  (wellTargeted_of_parts (.call a es optional s) trivial).trans allTargeted_append

theorem wellTargeted_unary {op : UnaryOp} : WellTargeted (.unary op a s) ↔ a.WellTargeted :=
  wellTargeted_of_parts (.unary op a s) trivial

theorem wellTargeted_binary {op : BinaryOp} :
    WellTargeted (.binary op a b s) ↔ a.WellTargeted ∧ b.WellTargeted :=
  (wellTargeted_of_parts (.binary op a b s) trivial).trans allTargeted_append

theorem wellTargeted_logical {op : LogicalOp} :
    WellTargeted (.logical op a b s) ↔ a.WellTargeted ∧ b.WellTargeted :=
  (wellTargeted_of_parts (.logical op a b s) trivial).trans allTargeted_append

theorem wellTargeted_conditional :
    WellTargeted (.conditional a b c s) ↔ a.WellTargeted ∧ b.WellTargeted ∧ c.WellTargeted := by
  rw [wellTargeted_of_parts (.conditional a b c s) trivial, inside, List.append_assoc,
    allTargeted_append, allTargeted_append]
  exact Iff.rfl

theorem wellTargeted_assign {op : AssignOp} :
    WellTargeted (.assign op a b s) ↔ a.isTarget = true ∧ a.WellTargeted ∧ b.WellTargeted :=
  List.forall_mem_cons.trans (and_congr_right' allTargeted_append)

theorem wellTargeted_update {op : UpdateOp} {before : Bool} :
    WellTargeted (.update op before a s) ↔ a.isTarget = true ∧ a.WellTargeted :=
  List.forall_mem_cons

theorem wellTargeted_apply {op : Operator} (ha : a.WellTargeted) (hb : b.WellTargeted) :
    (op.apply a b).WellTargeted := by
  cases op with
  | binary op => exact wellTargeted_binary.mpr ⟨ha, hb⟩
  | logical op => exact wellTargeted_logical.mpr ⟨ha, hb⟩

theorem wellTargeted_withSpan (h : a.WellTargeted) : (a.withSpan s).WellTargeted := by
  refine List.forall_mem_cons.mpr ?_
  have := List.forall_mem_cons.mp h
  cases a <;> exact this

theorem allTargeted_insideProperties {value : Expr} :
    AllTargeted (insideProperties (.mk k value :: ps)) ↔
      AllTargeted k.inside ∧ value.WellTargeted ∧ AllTargeted (insideProperties ps) := by
  rw [insideProperties, List.append_assoc]
  exact List.forall_mem_append.trans (and_congr_right' allTargeted_append)

end

/-! ## What is read

The induction is on the derivation: an assignment is derived only for what fits. -/

mutual

theorem wellTargeted_of_derives {ts rest : List Token} {e : Expr} :
    Derives ts e rest → e.WellTargeted
  | .literal _ _ => wellTargeted_literal
  | .identifier _ _ _ => wellTargeted_identifier
  | .parentheses h _ _ _ => wellTargeted_withSpan (wellTargeted_of_derives h)
  | .array h _ _ _ => wellTargeted_array.mpr (allTargeted_of_derivesItems h)
  | .object h _ _ _ => wellTargeted_object.mpr (allTargeted_of_derivesProperties h)
  | .member h _ _ _ _ => wellTargeted_member.mpr ⟨wellTargeted_of_derives h, allTargeted_nil⟩
  | .computed h he _ _ _ =>
    wellTargeted_member.mpr ⟨wellTargeted_of_derives h, wellTargeted_of_derives he⟩
  | .call h hes _ _ _ =>
    wellTargeted_call.mpr ⟨wellTargeted_of_derives h, allTargeted_of_derivesItems hes⟩
  | .unary h _ _ _ => wellTargeted_unary.mpr (wellTargeted_of_derives h)
  | .before h fits _ _ _ => wellTargeted_update.mpr ⟨fits, wellTargeted_of_derives h⟩
  | .after h fits _ _ => wellTargeted_update.mpr ⟨fits, wellTargeted_of_derives h⟩
  | .operator hl hr _ _ =>
    wellTargeted_apply (wellTargeted_of_derives hl) (wellTargeted_of_derives hr)
  | .conditional ht hc ha _ _ => wellTargeted_conditional.mpr
    ⟨wellTargeted_of_derives ht, wellTargeted_of_derives hc, wellTargeted_of_derives ha⟩
  | .assign ht fits hv _ _ =>
    wellTargeted_assign.mpr ⟨fits, wellTargeted_of_derives ht, wellTargeted_of_derives hv⟩

theorem allTargeted_of_derivesItems {ts rest : List Token} {es : List Expr} {closing : Token} :
    DerivesItems ts es closing rest → AllTargeted (insideAll es)
  | .nil _ _ => allTargeted_nil
  | .last h => allTargeted_append.mpr ⟨wellTargeted_of_derives h, allTargeted_nil⟩
  | .cons h hes _ =>
    allTargeted_append.mpr ⟨wellTargeted_of_derives h, allTargeted_of_derivesItems hes⟩

theorem allTargeted_of_derivesKey {ts rest : List Token} {k : Key} :
    DerivesKey ts k rest → AllTargeted k.inside
  | .named _ _ => allTargeted_nil
  | .computed h _ _ _ => wellTargeted_of_derives h

theorem allTargeted_of_derivesProperty {ts rest : List Token} {p : Property} {ps : List Property} :
    DerivesProperty ts p rest → AllTargeted (insideProperties ps) →
      AllTargeted (insideProperties (p :: ps))
  | .short _ _ _, hps =>
    allTargeted_insideProperties.mpr ⟨allTargeted_nil, wellTargeted_identifier, hps⟩
  | .full hkey hvalue _, hps => allTargeted_insideProperties.mpr
    ⟨allTargeted_of_derivesKey hkey, wellTargeted_of_derives hvalue, hps⟩

theorem allTargeted_of_derivesProperties {ts rest : List Token} {ps : List Property}
    {closing : Token} : DerivesProperties ts ps closing rest → AllTargeted (insideProperties ps)
  | .nil _ _ => allTargeted_nil
  | .last h => allTargeted_of_derivesProperty h allTargeted_nil
  | .cons h hps _ => allTargeted_of_derivesProperty h (allTargeted_of_derivesProperties hps)

end

theorem wellTargeted_of_ofTokens {ts : List Token} {e : Expr} (h : ofTokens ts = .ok e) :
    e.WellTargeted :=
  wellTargeted_of_derives (derives_of_ofTokens h)

end Expr

end PromptTemplate
