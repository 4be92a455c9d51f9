import PromptTemplate.Proofs.Run
import PromptTemplate.Compilation

/-!
# The nodes that a stopped walk leaves

A walk stops at a step that it comes to directly or inside if blocks, and leaves the place
of the response with the nodes after it. It does so for any nodes, also for those that are
not placed where they may stand.
-/

namespace PromptTemplate

/-- What a walk that stops at a step leaves of some nodes. -/
inductive Leaves : List Node → List Node → Prop where
  | step (as : List Attribute) (children : List Node) (name : Option String) (s : Span)
    (rest : List Node) : Leaves (.step as children s :: rest) (.response name s :: rest)
  | consequent {consequent left : List Node} (h : Leaves consequent left) (e : Expr)
    (alternate : Option (List Node)) (s : Span) (rest : List Node) :
    Leaves (.ifBlock e consequent alternate s :: rest) (.scoped left s :: rest)
  | alternate {alternate left : List Node} (h : Leaves alternate left) (e : Expr)
    (consequent : List Node) (s : Span) (rest : List Node) :
    Leaves (.ifBlock e consequent (some alternate) s :: rest) (.scoped left s :: rest)
  | inside {children left : List Node} (h : Leaves children left) (s : Span)
    (rest : List Node) : Leaves (.scoped children s :: rest) (.scoped left s :: rest)
  | later (a : Node) {rest left : List Node} (h : Leaves rest left) : Leaves (a :: rest) left

theorem Leaves.append {nodes left : List Node} (h : Leaves nodes left) (more : List Node) :
    Leaves (nodes ++ more) (left ++ more) := by
  induction h with
  | step as children name s rest => exact .step as children name s (rest ++ more)
  | consequent h e alternate s rest => exact .consequent h e alternate s (rest ++ more)
  | alternate h e consequent s rest => exact .alternate h e consequent s (rest ++ more)
  | inside h s rest => exact .inside h s (rest ++ more)
  | later a _ ih => exact .later a ih

/-- What holds of all nodes of a template, and of those that only what is left has, holds of
all nodes that are left. -/
theorem Leaves.forall_walk {P : Node → Prop} (hresponse : ∀ name s, P (.response name s))
    (hscoped : ∀ children s, P (.scoped children s)) {nodes left : List Node}
    (h : Leaves nodes left) (hp : ∀ x ∈ Node.walkAll nodes, P x) :
    ∀ x ∈ Node.walkAll left, P x := by
  induction h with
  | step as children name s rest =>
    obtain ⟨-, hrest⟩ := List.forall_mem_append.mp hp
    exact List.forall_mem_append.mpr ⟨List.forall_mem_singleton.mpr (hresponse name s), hrest⟩
  | consequent h e alternate s rest ih =>
    obtain ⟨hblock, hrest⟩ := List.forall_mem_append.mp hp
    obtain ⟨hconsequent, -⟩ := List.forall_mem_append.mp (List.forall_mem_cons.mp hblock).2
    refine List.forall_mem_append.mpr ⟨?_, hrest⟩
    exact List.forall_mem_cons.mpr ⟨hscoped _ s, ih hconsequent⟩
  | alternate h e consequent s rest ih =>
    obtain ⟨hblock, hrest⟩ := List.forall_mem_append.mp hp
    obtain ⟨-, halternate⟩ := List.forall_mem_append.mp (List.forall_mem_cons.mp hblock).2
    refine List.forall_mem_append.mpr ⟨?_, hrest⟩
    exact List.forall_mem_cons.mpr ⟨hscoped _ s, ih halternate⟩
  | inside h s rest ih =>
    obtain ⟨hblock, hrest⟩ := List.forall_mem_append.mp hp
    refine List.forall_mem_append.mpr ⟨?_, hrest⟩
    exact List.forall_mem_cons.mpr ⟨hscoped _ s, ih (List.forall_mem_cons.mp hblock).2⟩
  | later a _ ih => exact ih (List.forall_mem_append.mp hp).2

namespace Compile

/-- A walk that leaves something of some nodes wherever it stops. -/
def Leaving (nodes : List Node) (p : Compile Flow) : Prop :=
  ∀ c, Ends p c (fun flow _ => ∀ left, flow = .suspended left → Leaves nodes left)
    (fun _ _ => True)

namespace Leaving

variable {nodes : List Node}

theorem done : Leaving nodes (return .done) := by
  intro c left h
  cases h

theorem bind {α : Type} {p : Compile α} {f : α → Compile Flow}
    (h : ∀ a, Leaving nodes (f a)) : Leaving nodes (p >>= f) := by
  intro c
  rw [ends_bind]
  exact Ends.any.imp (fun a d _ => h a d) (fun _ _ _ => trivial)

theorem throw (e : Error) : Leaving nodes (throw e : Compile Flow) := fun _ => trivial

/-- A walk inside a block leaves what is left of the block. -/
theorem block {inside : List Node} {p : Compile Flow} (h : Leaving inside p) (s : Span)
    (hnodes : ∀ left, Leaves inside left → Leaves nodes [.scoped left s]) :
    Leaving nodes (p >>= leave s) := by
  intro c
  rw [ends_bind]
  refine (h c).imp (fun flow d hd => ?_) (fun _ _ h => h)
  cases flow with
  | done =>
    intro left h
    cases h
  | suspended left =>
    rintro _ ⟨⟩
    exact hnodes left (hd left rfl)

end Leaving

mutual

theorem leaving_walk (host : Host) : ∀ a : Node, Leaving [a] (walk host a)
  | .text .. => by
    rw [walk]
    exact .bind fun _ => .done
  | .config .. => by
    rw [walk]
    exact .bind fun _ => .done
  | .comment .. => by
    rw [walk]
    exact .done
  | .mustache e _ => by
    rw [walk]
    refine .bind fun v => ?_
    split
    · exact .bind fun _ => .done
    · exact .done
  | .ifBlock e consequent alternate s => by
    rw [walk]
    refine .bind fun v => ?_
    split
    · exact .bind fun _ => .block (leaving_walkAll host consequent) s
        fun _ h => .consequent h e alternate s []
    · cases alternate with
      | none =>
        rw [walkOption]
        exact .done
      | some nodes =>
        rw [walkOption]
        exact .bind fun _ => .block (leaving_walkAll host nodes) s
          fun _ h => .alternate h e consequent s []
  | .eachBlock e context index body alternate s => by
    rw [walk]
    refine .bind fun v => ?_
    dsimp only
    split
    · refine .bind fun flow => ?_
      split
      · exact .throw _
      · exact .done
    · exact .bind fun _ => .done
  | .message .. => by
    rw [walk]
    exact .bind fun _ => .bind fun _ => .bind fun _ => .done
  | .content .. => by
    rw [walk]
    exact .bind fun _ => .bind fun _ => .bind fun _ => .done
  | .reference .. => by
    rw [walk]
    exact .throw _
  | .step as children s => by
    rw [walk]
    refine .bind fun (name, config) => .bind fun flow => ?_
    split
    · exact .throw _
    · refine .bind fun _ => .bind fun _ => ?_
      rintro c _ ⟨⟩
      exact .step as children name s []
  | .scoped children s => by
    rw [walk]
    exact .block (leaving_walkAll host children) s fun _ h => .inside h s []
  | .response .. => by
    rw [walk]
    exact .bind fun _ => .done

theorem leaving_walkAll (host : Host) : ∀ nodes : List Node, Leaving nodes (walkAll host nodes)
  | [] => by
    rw [walkAll]
    exact .done
  | a :: rest => by
    intro c
    rw [walkAll, ends_bind]
    refine (leaving_walk host a c).imp (fun flow d hd => ?_) (fun _ _ h => h)
    cases flow with
    | done =>
      refine (leaving_walkAll host rest d).imp (fun _ _ h => ?_) (fun _ _ h => h)
      intro left hleft
      exact .later a (h left hleft)
    | suspended left =>
      rintro _ ⟨⟩
      exact (hd left rfl).append rest

end

theorem leaving_whole (host : Host) (f : Fragment) : Leaving f.children (whole host f) := by
  intro c
  rw [whole, ends_bind]
  refine (leaving_walkAll host f.children c).imp (fun flow d hd => ?_) (fun _ _ h => h)
  rw [ends_bind]
  exact Ends.any.imp (fun _ _ _ => hd) (fun _ _ _ => trivial)

end Compile

end PromptTemplate
