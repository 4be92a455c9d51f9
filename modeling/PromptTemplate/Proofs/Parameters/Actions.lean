import PromptTemplate.Proofs.Compilation.Actions
import PromptTemplate.Proofs.Parameters.Expressions

/-!
# Actions of compilations and the careful analysis

Of the attributes of a tag the careful analysis looks at those that are evaluated, in
their order. The other actions of compilations change no variable.
-/

namespace PromptTemplate.Compile

open Analysis

variable {given : List String} {a : Analysis}

theorem assures_evaluate (host : Host) (e : Expr) :
    Assures given a (a.carefulExpr e) (evaluate host e) := by
  intro c hc
  rw [ends_evaluate]
  exact Expr.assures_settled (Expr.assures_link host e) c.world hc

theorem assures_emit (s : String) : Assures given a a (emit s) := by
  refine .modify fun c => ?_
  cases c.draft <;> rfl

theorem assures_flush : Assures given a a flush := .modify fun _ => rfl

theorem assures_piecesText (host : Host) (ps : List Piece) :
    Assures given a (a.carefulPieces ps) (piecesText host ps) := by
  induction ps generalizing a with
  | nil => exact .pure _
  | cons p rest ih =>
    cases p with
    | text data s => exact .bind ih fun _ => .pure _
    | mustache e s =>
      refine .bind (assures_evaluate host e) (fun v => ?_) (used_carefulPieces _ rest)
      exact .bind ih fun _ => .pure _

theorem assures_attributeValue (host : Host) (x : Attribute) :
    Assures given a (a.carefulAttribute x) (attributeValue host x) := by
  rw [attributeValue]
  split
  · rename_i h
    simp only [carefulAttribute, h]
    exact .pure _
  · rename_i e s h
    simp only [carefulAttribute, h]
    exact assures_evaluate host e
  · rename_i ps _ h
    simp only [carefulAttribute, h]
    exact .bind (assures_piecesText host ps) fun _ => .pure _

theorem assures_valueNamed (host : Host) (as : List Attribute) (name : String) :
    Assures given a (a.carefulNamed as name) (valueNamed host as name) := by
  rw [valueNamed, carefulNamed]
  cases Attribute.find? as name with
  | some x => exact assures_attributeValue host x
  | none => exact .pure _

/-- The role of a message is looked for only if the tag does not name it. -/
theorem assures_roleOf (host : Host) (role : Option Role) (as : List Attribute) (s : Span) :
    Assures given a (a.carefulRole role as) (roleOf host role as s) := by
  simp only [roleOf, carefulRole]
  cases role with
  | some role => exact .pure _
  | none =>
    dsimp only
    refine .bind (assures_valueNamed host as "role") fun v => ?_
    split
    · exact .pure _
    · refine .throw ?_
      rintro e ⟨⟩ ⟨⟩

theorem assures_toolIdOf (host : Host) (as : List Attribute) :
    Assures given a (a.carefulNamed as "id") (toolIdOf host as) := by
  rw [toolIdOf, carefulNamed]
  cases Attribute.find? as "id" with
  | some x => exact .bind (assures_attributeValue host x) fun _ => .pure _
  | none => exact .pure _

theorem assures_openMessage (host : Host) (role : Option Role) (as : List Attribute) (s : Span) :
    Assures given a (a.carefulMessage role as) (openMessage host role as s) := by
  have usedRole := used_carefulRole a role as
  have usedId := used_carefulNamed (a.carefulRole role as) as "id"
  have opened : ∀ draft : Option Draft, Assures given a (a.carefulMessage role as)
      (if draft.isSome then throw (Cause.messageInMessage.on s)
      else do
        flush
        let role ← roleOf host role as s
        let id ← toolIdOf host as
        if role = .tool ∧ id.isNone then throw (Cause.toolWithoutId.on s)
        else modify fun c => { c with draft := some (Draft.empty role id) } : Compile Unit) := by
    intro draft
    refine .ite (.throw (by rintro e ⟨⟩ ⟨⟩)) ?_
    refine .bind assures_flush (fun _ => ?_) (List.Subset.trans usedRole usedId)
    refine .bind (assures_roleOf host role as s) (fun role => ?_) usedId
    refine .bind (assures_toolIdOf host as) fun id => ?_
    exact .ite (.throw (by rintro e ⟨⟩ ⟨⟩)) (.modify fun _ => rfl)
  intro c hc
  rw [openMessage]
  rw [ends_bind, ends_get]
  exact opened c.draft c hc

theorem assures_closeMessage : Assures given a a closeMessage := by
  refine .modify fun c => ?_
  cases c.draft <;> rfl

theorem assures_openContent (kind : ContentKind) (s : Span) :
    Assures given a a (openContent kind s) := by
  intro c hc
  rw [openContent]
  rw [ends_bind, ends_get]
  cases c.draft with
  | none => exact Assures.throw (a := a) (b := a) (by rintro e ⟨⟩ ⟨⟩) c hc
  | some draft =>
    have opened : Assures given a a
        (if draft.content.isSome then throw (Cause.contentInContent.on s)
        else if draft.role = .system ∧ kind = .image then throw (Cause.imageInSystem.on s)
        else modify fun c => { c with draft := some draft.openContent } : Compile Unit) := by
      refine .ite (.throw (by rintro e ⟨⟩ ⟨⟩)) (.ite (.throw (by rintro e ⟨⟩ ⟨⟩)) ?_)
      exact .modify fun _ => rfl
    exact opened c hc

theorem assures_closeContent (kind : ContentKind) : Assures given a a (closeContent kind) :=
  .modify fun _ => rfl

theorem assures_stepAttributes (host : Host) (name : Option String) (config : Config)
    (as : List Attribute) :
    Assures given a (a.carefulAttributes as) (stepAttributes host name config as) := by
  induction as generalizing a name config with
  | nil => exact .pure _
  | cons x rest ih =>
    refine .bind (assures_attributeValue host x) (fun v => ?_) (used_carefulAttributes _ rest)
    exact .ite (ih _ _) (ih _ _)

end PromptTemplate.Compile
