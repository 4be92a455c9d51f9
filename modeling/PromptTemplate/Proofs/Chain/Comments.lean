import PromptTemplate.Proofs.Chain.Seen
import PromptTemplate.Proofs.Template.Comments

/-!
# Comments in the text of a chain

A comment that is put after a blank of literal text makes no difference to a chain over the text,
if it leaves the ends of all branches of blocks as they are. Only the first and the last node of a
branch are trimmed, so a comment at its end keeps the blanks before it.
-/

namespace PromptTemplate

open Text Template

namespace Chain

/-- Chains over two texts start, and with the same parameters, responses and functions of the
host they answer alike: with the same conversations, and with the same faults up to the places of
errors. -/
def AnswersAlike (source source' : String) : Prop :=
  ∀ (host : Host) (parameters : List (String × Value)) (inputs : List (Option (List Part)))
    (calls : List Call), ∃ c c', start source parameters = .ok c ∧
      start source' parameters = .ok c' ∧
        ((c'.run host inputs).run calls).1.1.map withoutPlace =
            ((c.run host inputs).run calls).1.1.map withoutPlace ∧
          ((c'.run host inputs).run calls).2 = ((c.run host inputs).run calls).2

variable {source source' p q data : String} {f g : Fragment}

/-- Chains over texts of which the same is seen answer alike. -/
theorem answersAlike_of_seen (hf : Fragment.ofText source = .ok f)
    (hg : Fragment.ofText source' = .ok g)
    (same : Node.seenAll g.children = Node.seenAll f.children) : AnswersAlike source source' := by
  intro host parameters inputs calls
  have similar : Similar ⟨source, f, Scope.ofParameters parameters, [], [], .notStarted⟩
      ⟨source', g, Scope.ofParameters parameters, [], [], .notStarted⟩ :=
    ⟨same, rfl, rfl, rfl, rfl⟩
  refine ⟨_, _, ?_, ?_, similar.run host inputs calls⟩
  · rw [start, hf]
    rfl
  · rw [start, hg]
    rfl

/-- A comment after a blank of literal text is read, and it makes no difference to a chain over the
text if it leaves the ends of all branches as they are. -/
theorem answersAlike_comment (h : Fragment.ofText (p ++ q) = .ok f)
    (ends : EndsBlank p.toList q.toList) (closed : ¬ ['*', '/'] <:+: data.toList) :
    ∃ g, Fragment.ofText (p ++ "/*" ++ data ++ "*/" ++ q) = .ok g ∧
      (AllLeaveEnds (byteLength p.toList) q.toList g.children →
        AnswersAlike (p ++ q) (p ++ "/*" ++ data ++ "*/" ++ q)) := by
  obtain ⟨g, hg, same⟩ := Fragment.exists_ofText_comment h ends closed
  exact ⟨g, hg, fun leaves => answersAlike_of_seen h hg (same leaves)⟩

/-- A comment in the middle of a branch. -/
theorem answersAlike_comment_branch :
    ∃ f, Fragment.ofText ("\x7b\x7b#if true\x7d\x7da " ++ "b\x7b\x7b/if\x7d\x7d") = .ok f ∧
      f.EndsInText "\x7b\x7b#if true\x7d\x7da ".toList ∧ ¬ ['*', '/'] <:+: "c".toList ∧
      AnswersAlike ("\x7b\x7b#if true\x7d\x7da " ++ "b\x7b\x7b/if\x7d\x7d")
        ("\x7b\x7b#if true\x7d\x7da " ++ "/*" ++ "c" ++ "*/" ++ "b\x7b\x7b/if\x7d\x7d") := by
  generalize hp : "\x7b\x7b#if true\x7d\x7da " = p
  generalize hq : "b\x7b\x7b/if\x7d\x7d" = q
  have ends : ((Fragment.ofText (p ++ q)).toOption.any fun f => decide (f.EndsInText p.toList)) =
      true := by
    rw [← hp, ← hq]
    decide +kernel
  have leaves : ((Fragment.ofText (p ++ "/*" ++ "c" ++ "*/" ++ q)).toOption.any fun g =>
      decide (AllLeaveEnds (byteLength p.toList) q.toList g.children)) = true := by
    rw [← hp, ← hq]
    decide +kernel
  have closed : ¬ ['*', '/'] <:+: "c".toList := by decide
  cases h : Fragment.ofText (p ++ q) with
  | error e => simp [h, Except.toOption] at ends
  | ok f =>
    rw [h] at ends
    have ends : f.EndsInText p.toList := of_decide_eq_true ends
    obtain ⟨g, hg, alike⟩ := answersAlike_comment h (ends.endsBlank h) closed
    rw [hg] at leaves
    exact ⟨f, rfl, ends, closed, alike (of_decide_eq_true leaves)⟩

/-- The texts of the messages that a call gives. -/
def texts (r : Except ChainFault ChainStep) : Option (List String) :=
  r.toOption.map fun s => s.conversation.messages.map (·.content.plain)

/-- A comment at the end of a branch keeps the blank before it. -/
theorem not_answersAlike_comment_last :
    ∃ f, Fragment.ofText ("\x7b\x7b#if true\x7d\x7da " ++ "\x7b\x7b/if\x7d\x7db") = .ok f ∧
      f.EndsInText "\x7b\x7b#if true\x7d\x7da ".toList ∧ ¬ ['*', '/'] <:+: "c".toList ∧
      ¬ AnswersAlike ("\x7b\x7b#if true\x7d\x7da " ++ "\x7b\x7b/if\x7d\x7db")
        ("\x7b\x7b#if true\x7d\x7da " ++ "/*" ++ "c" ++ "*/" ++ "\x7b\x7b/if\x7d\x7db") := by
  generalize hp : "\x7b\x7b#if true\x7d\x7da " = p
  generalize hq : "\x7b\x7b/if\x7d\x7db" = q
  generalize hhost : (fun _ _ => .error "" : Host) = host
  have ends : ((Fragment.ofText (p ++ q)).toOption.any fun f => decide (f.EndsInText p.toList)) =
      true := by
    rw [← hp, ← hq]
    decide +kernel
  have differs : (match start (p ++ q) [], start (p ++ "/*" ++ "c" ++ "*/" ++ q) [] with
      | .ok c, .ok c' => decide
          (((c'.run host [none]).run []).1.1.map (texts ∘ withoutPlace) = [some ["a b"]] ∧
            ((c.run host [none]).run []).1.1.map (texts ∘ withoutPlace) = [some ["ab"]])
      | _, _ => false) = true := by
    rw [← hp, ← hq, ← hhost]
    decide +kernel
  cases h : Fragment.ofText (p ++ q) with
  | error e => simp [h, Except.toOption] at ends
  | ok f =>
    rw [h] at ends
    refine ⟨f, rfl, of_decide_eq_true ends, by decide, fun alike => ?_⟩
    obtain ⟨c, c', hc, hc', same, -⟩ := alike host [] [none] []
    rw [hc, hc'] at differs
    obtain ⟨said', said⟩ := of_decide_eq_true differs
    rw [← List.map_map, same, List.map_map, said] at said'
    exact absurd said' (by decide)

end Chain

end PromptTemplate
