import PromptTemplate.Expr.Json
import PromptTemplate.Proofs.Expr.Subexpressions
import PromptTemplate.Proofs.Json.Record

/-!
# Reading expressions back

An expression whose number literals are finite is read back from its JSON form.
-/

namespace PromptTemplate

theorem Span.ofJson?_toJson (s : Span) : Span.ofJson? s.toJson = some s := rfl

theorem UnaryOp.named?_name (op : UnaryOp) : named? all name (.string op.name) = some op := by
  cases op <;> rfl

theorem BinaryOp.named?_name (op : BinaryOp) : named? all name (.string op.name) = some op := by
  cases op <;> rfl

theorem LogicalOp.named?_name (op : LogicalOp) : named? all name (.string op.name) = some op := by
  cases op <;> rfl

theorem UpdateOp.named?_name (op : UpdateOp) : named? all name (.string op.name) = some op := by
  cases op <;> rfl

theorem AssignOp.named?_name (op : AssignOp) : named? all name (.string op.name) = some op := by
  cases op <;> rfl

/-- Not a number literal without a JSON form. -/
def Expr.Storable : Expr → Prop
  | .literal (.number x) _ => x.isFinite = true
  | _ => True

theorem Literal.ofJson?_toJson {value : Literal} {s : Span}
    (h : (Expr.literal value s).Storable) : Literal.ofJson? value.toJson = some value := by
  cases value with
  | number x =>
    simp only [toJson, Json.finite, show x.isFinite = true from h]
    rfl
  | _ => rfl

namespace Expr

open Json

/-- An expression is read from its kind and its span. -/
theorem within?_record (bound : Nat) (kind : Json) (s : Span) :
    within? (bound + 1) (record kind s) = kind? (within? bound) kind s := rfl

theorem depth_kind_lt {bound : Nat} {name : String} {data : Json} {s : Span}
    (h : (record (.variant name data) s).depth < bound + 1) : data.depth < bound := by
  have kind : (variant name data).depth < bound + 1 := by
    simp only [record, depth, depthMembers] at h
    omega
  exact depth_data_lt kind

mutual

/-- The induction is on the expression: what is inside it is nested less deep than it is. -/
theorem within?_toJson {bound : Nat} : ∀ e : Expr, e.toJson.depth < bound →
    (∀ x ∈ e.subexpressions, x.Storable) → within? bound e.toJson = some e := by
  intro e h storable
  obtain ⟨bound, rfl⟩ : ∃ n, bound = n + 1 := ⟨bound - 1, by omega⟩
  obtain ⟨first, inside⟩ := List.forall_mem_cons.mp storable
  cases e with
  | literal value s =>
    have read : Literal.ofJson? value.toJson = some value := Literal.ofJson?_toJson first
    rw [toJson, within?_record]
    simp [kind?, variant, variant?, read]
  | identifier name s => rfl
  | array items s =>
    rw [toJson] at h ⊢
    have read := mapM_toJsonItems items (depthItems_lt (depth_kind_lt h)) inside
    rw [within?_record]
    simp [kind?, variant, variant?, list?, array?, read]
  | object properties s =>
    rw [toJson] at h ⊢
    have read := mapM_toJsonProperties properties (depthItems_lt (depth_kind_lt h)) inside
    rw [within?_record]
    simp [kind?, variant, variant?, list?, array?, read]
  | member base key optional s =>
    rw [toJson] at h ⊢
    obtain ⟨hbase, hkey, -⟩ := allBelow_of_depth (depth_kind_lt h)
    obtain ⟨sbase, skey⟩ := List.forall_mem_append.mp inside
    have base := within?_toJson base hbase sbase
    have key := key?_keyToJson key hkey skey
    rw [within?_record]
    simp [kind?, variant, variant?, member?, Dictionary.get?, bool?, base, key]
  | call callee arguments optional s =>
    rw [toJson] at h ⊢
    obtain ⟨hcallee, harguments, -⟩ := allBelow_of_depth (depth_kind_lt h)
    obtain ⟨scallee, sarguments⟩ := List.forall_mem_append.mp inside
    have callee := within?_toJson callee hcallee scallee
    have arguments := mapM_toJsonItems arguments (depthItems_lt harguments) sarguments
    rw [within?_record]
    simp [kind?, variant, variant?, member?, Dictionary.get?, bool?, list?, array?, callee,
      arguments]
  | unary op argument s =>
    rw [toJson] at h ⊢
    obtain ⟨-, hargument, -⟩ := allBelow_of_depth (depth_kind_lt h)
    have argument := within?_toJson argument hargument inside
    rw [within?_record]
    simp [kind?, variant, variant?, member?, Dictionary.get?, UnaryOp.named?_name, argument]
  | binary op left right s =>
    rw [toJson] at h ⊢
    obtain ⟨-, hleft, hright, -⟩ := allBelow_of_depth (depth_kind_lt h)
    obtain ⟨sleft, sright⟩ := List.forall_mem_append.mp inside
    have left := within?_toJson left hleft sleft
    have right := within?_toJson right hright sright
    rw [within?_record]
    simp [kind?, variant, variant?, member?, Dictionary.get?, BinaryOp.named?_name, left, right]
  | logical op left right s =>
    rw [toJson] at h ⊢
    obtain ⟨-, hleft, hright, -⟩ := allBelow_of_depth (depth_kind_lt h)
    obtain ⟨sleft, sright⟩ := List.forall_mem_append.mp inside
    have left := within?_toJson left hleft sleft
    have right := within?_toJson right hright sright
    rw [within?_record]
    simp [kind?, variant, variant?, member?, Dictionary.get?, LogicalOp.named?_name, left, right]
  | conditional test consequent alternate s =>
    rw [toJson] at h ⊢
    obtain ⟨htest, hconsequent, halternate, -⟩ := allBelow_of_depth (depth_kind_lt h)
    obtain ⟨both, salternate⟩ := List.forall_mem_append.mp inside
    obtain ⟨stest, sconsequent⟩ := List.forall_mem_append.mp both
    have test := within?_toJson test htest stest
    have consequent := within?_toJson consequent hconsequent sconsequent
    have alternate := within?_toJson alternate halternate salternate
    rw [within?_record]
    simp [kind?, variant, variant?, member?, Dictionary.get?, test, consequent, alternate]
  | assign op target value s =>
    rw [toJson] at h ⊢
    obtain ⟨-, htarget, hvalue, -⟩ := allBelow_of_depth (depth_kind_lt h)
    obtain ⟨starget, svalue⟩ := List.forall_mem_append.mp inside
    have target := within?_toJson target htarget starget
    have value := within?_toJson value hvalue svalue
    rw [within?_record]
    simp [kind?, variant, variant?, member?, Dictionary.get?, AssignOp.named?_name, target, value]
  | update op before argument s =>
    rw [toJson] at h ⊢
    obtain ⟨-, -, hargument, -⟩ := allBelow_of_depth (depth_kind_lt h)
    have argument := within?_toJson argument hargument inside
    rw [within?_record]
    simp [kind?, variant, variant?, member?, Dictionary.get?, bool?, UpdateOp.named?_name, argument]

theorem mapM_toJsonItems {bound : Nat} : ∀ es : List Expr, depthItems (toJsonItems es) < bound →
    (∀ x ∈ insideAll es, x.Storable) → (toJsonItems es).mapM (within? bound) = some es
  | [], _, _ => rfl
  | e :: es, h, storable => by
    obtain ⟨first, later⟩ := Nat.max_lt.mp h
    obtain ⟨se, ses⟩ := List.forall_mem_append.mp storable
    rw [toJsonItems, List.mapM_cons, within?_toJson e first se, mapM_toJsonItems es later ses]
    rfl

theorem key?_keyToJson {bound : Nat} : ∀ key : Key, (keyToJson key).depth < bound →
    (∀ x ∈ key.inside, x.Storable) → key? (within? bound) (keyToJson key) = some key
  | .named _, _, _ => rfl
  | .computed e, h, storable => by
    rw [keyToJson] at h ⊢
    have read := within?_toJson e (depth_data_lt (Nat.lt_succ_of_lt h)) storable
    simp [key?, variant, variant?, read]

theorem property?_propertyToJson {bound : Nat} : ∀ p : Property,
    (propertyToJson p).depth < bound → (∀ x ∈ insideProperties [p], x.Storable) →
      property? (within? bound) (propertyToJson p) = some p
  | .mk key value, h, storable => by
    rw [propertyToJson] at h ⊢
    obtain ⟨hkey, hvalue, -⟩ := allBelow_of_depth h
    obtain ⟨both, -⟩ := List.forall_mem_append.mp storable
    obtain ⟨skey, svalue⟩ := List.forall_mem_append.mp both
    have key := key?_keyToJson key hkey skey
    have value := within?_toJson value hvalue svalue
    simp [property?, member?, Dictionary.get?, key, value]

theorem mapM_toJsonProperties {bound : Nat} : ∀ ps : List Property,
    depthItems (toJsonProperties ps) < bound → (∀ x ∈ insideProperties ps, x.Storable) →
      (toJsonProperties ps).mapM (property? (within? bound)) = some ps
  | [], _, _ => rfl
  | p :: ps, h, storable => by
    obtain ⟨first, later⟩ := Nat.max_lt.mp h
    have split : ∀ x ∈ insideProperties [p] ++ insideProperties ps, x.Storable := by
      cases p with
      | mk key value => rwa [insideProperties, insideProperties, List.append_nil]
    obtain ⟨sp, sps⟩ := List.forall_mem_append.mp split
    rw [toJsonProperties, List.mapM_cons, property?_propertyToJson p first sp,
      mapM_toJsonProperties ps later sps]
    rfl

end

/-- An expression whose number literals have a JSON form is read back. -/
theorem ofJson?_toJson {e : Expr} (storable : ∀ x ∈ e.subexpressions, x.Storable) :
    ofJson? e.toJson = some e :=
  within?_toJson e (Nat.lt_succ_self _) storable

end Expr

end PromptTemplate
