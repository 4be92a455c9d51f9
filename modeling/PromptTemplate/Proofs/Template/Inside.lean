import PromptTemplate.Proofs.Template.Spans

/-!
# What stands inside of a node

The spans of a template form a tree. The nodes that a walk of the template comes to, their
expressions and the parts of these all have their place in it, each inside of what it is
written in.
-/

namespace PromptTemplate

namespace Span

variable {low high : Nat} {s : Span} {ss : List Span}

theorem Ordered.bounds (h : Ordered low high ss) (hs : s ∈ ss) :
    low ≤ s.start ∧ s.start ≤ s.stop ∧ s.stop ≤ high := by
  induction ss generalizing low with
  | nil => cases hs
  | cons r ss ih =>
    rcases List.mem_cons.mp hs with rfl | hs
    · exact ⟨h.1, h.2.1, h.2.2.le⟩
    · obtain ⟨after, rest⟩ := ih h.2.2 hs
      exact ⟨Nat.le_trans h.1 (Nat.le_trans h.2.1 after), rest⟩

end Span

namespace SpanTree

variable {source : List Char} {t u v : SpanTree} {ts us : List SpanTree}

/-- What stands inside of something, at any depth. -/
inductive Part : SpanTree → SpanTree → Prop where
  | refl (t : SpanTree) : Part t t
  | inside {t u v : SpanTree} (mem : u ∈ t.inside) (h : Part u v) : Part t v

theorem Part.trans (h : t.Part u) (k : u.Part v) : t.Part v := by
  induction h with
  | refl t => exact k
  | inside mem _ ih => exact .inside mem (ih k)

/-- What stands inside of something that stands in a list. -/
def PartOf (ts : List SpanTree) (u : SpanTree) : Prop := ∃ t ∈ ts, t.Part u

theorem PartOf.head (h : t.Part u) : PartOf (t :: ts) u := ⟨t, List.mem_cons_self, h⟩

theorem PartOf.tail (h : PartOf ts u) : PartOf (t :: ts) u := by
  obtain ⟨r, mem, part⟩ := h
  exact ⟨r, List.mem_cons_of_mem _ mem, part⟩

theorem PartOf.front (h : PartOf ts u) : PartOf (ts ++ us) u := by
  obtain ⟨r, mem, part⟩ := h
  exact ⟨r, List.mem_append_left _ mem, part⟩

theorem PartOf.back (h : PartOf us u) : PartOf (ts ++ us) u := by
  obtain ⟨r, mem, part⟩ := h
  exact ⟨r, List.mem_append_right _ mem, part⟩

theorem PartOf.part (h : PartOf t.inside u) : t.Part u := by
  obtain ⟨r, mem, part⟩ := h
  exact .inside mem part

/-- What stands inside of a piece of the text is a piece of the text, and does not go beyond
it. -/
theorem Faithful.part (h : t.Faithful source) (k : t.Part u) :
    u.Faithful source ∧ t.span.start ≤ u.span.start ∧ u.span.stop ≤ t.span.stop := by
  induction k with
  | refl t => exact ⟨h, Nat.le_refl _, Nat.le_refl _⟩
  | inside mem _ ih =>
    cases h with
    | node _ ordered inside =>
      obtain ⟨low, -, high⟩ := ordered.bounds (List.mem_map_of_mem mem)
      obtain ⟨faithful, start, stop⟩ := ih (inside _ mem)
      exact ⟨faithful, Nat.le_trans low start, Nat.le_trans stop high⟩

end SpanTree

open SpanTree

/-! ## Expressions -/

namespace Expr

variable {e x : Expr}

/-- An expression and what stands inside of it. -/
theorem part_of_inside (h : x ∈ e.inside → PartOf e.spans.inside x.spans)
    (hx : x ∈ e.subexpressions) : e.spans.Part x.spans := by
  rcases List.mem_cons.mp hx with rfl | hx
  · exact .refl _
  · exact (h hx).part

mutual

theorem partOf_inside : ∀ {e x : Expr}, x ∈ e.inside → PartOf e.spans.inside x.spans
  | .literal .., _, h => nomatch h
  | .identifier .., _, h => nomatch h
  | .array .., _, h => partOf_insideAll h
  | .object .., _, h => partOf_insideProperties h
  | .member base key _ _, x, h => by
    rcases List.mem_append.mp h with h | h
    · exact .head (part_of_inside (partOf_inside (e := base)) h)
    · exact .tail (partOf_insideKey h)
  | .call callee arguments _ _, x, h => by
    rcases List.mem_append.mp h with h | h
    · exact .head (part_of_inside (partOf_inside (e := callee)) h)
    · exact .tail (partOf_insideAll h)
  | .unary _ argument _, x, h => .head (part_of_inside (partOf_inside (e := argument)) h)
  | .binary _ left right _, x, h => by
    rcases List.mem_append.mp h with h | h
    · exact .head (part_of_inside (partOf_inside (e := left)) h)
    · exact .tail (.head (part_of_inside (partOf_inside (e := right)) h))
  | .logical _ left right _, x, h => by
    rcases List.mem_append.mp h with h | h
    · exact .head (part_of_inside (partOf_inside (e := left)) h)
    · exact .tail (.head (part_of_inside (partOf_inside (e := right)) h))
  | .conditional test consequent alternate _, x, h => by
    rcases List.mem_append.mp h with h | h
    · rcases List.mem_append.mp h with h | h
      · exact .head (part_of_inside (partOf_inside (e := test)) h)
      · exact .tail (.head (part_of_inside (partOf_inside (e := consequent)) h))
    · exact .tail (.tail (.head (part_of_inside (partOf_inside (e := alternate)) h)))
  | .assign _ target value _, x, h => by
    rcases List.mem_append.mp h with h | h
    · exact .head (part_of_inside (partOf_inside (e := target)) h)
    · exact .tail (.head (part_of_inside (partOf_inside (e := value)) h))
  | .update _ _ argument _, x, h => .head (part_of_inside (partOf_inside (e := argument)) h)

theorem partOf_insideAll : ∀ {es : List Expr} {x : Expr}, x ∈ insideAll es →
    PartOf (spansAll es) x.spans
  | [], _, h => nomatch h
  | e :: rest, x, h => by
    rcases List.mem_append.mp h with h | h
    · exact .head (part_of_inside (partOf_inside (e := e)) h)
    · exact .tail (partOf_insideAll h)

theorem partOf_insideKey : ∀ {key : Key} {x : Expr}, x ∈ key.inside → PartOf key.spans x.spans
  | .named _, _, h => nomatch h
  | .computed e, x, h => .head (part_of_inside (partOf_inside (e := e)) h)

theorem partOf_insideProperties : ∀ {ps : List Property} {x : Expr}, x ∈ insideProperties ps →
    PartOf (spansProperties ps) x.spans
  | [], _, h => nomatch h
  | .mk key value :: rest, x, h => by
    rcases List.mem_append.mp h with h | h
    · rcases List.mem_append.mp h with h | h
      · exact .front (partOf_insideKey h)
      · exact .back (.head (part_of_inside (partOf_inside (e := value)) h))
    · exact .back (.tail (partOf_insideProperties h))

end

/-- A subexpression stands inside of the expression. -/
theorem part_of_subexpressions (h : x ∈ e.subexpressions) : e.spans.Part x.spans :=
  part_of_inside partOf_inside h

end Expr

/-! ## Nodes -/

namespace Node

theorem partOf_attributes {as : List Attribute} {e : Expr}
    (h : e ∈ Attribute.expressions as) :
    PartOf (as.map Attribute.spans) e.spans := by
  obtain ⟨x, hx, he⟩ := List.mem_flatMap.mp h
  obtain ⟨name, value, s⟩ := x
  refine ⟨_, List.mem_map_of_mem hx, PartOf.part ?_⟩
  cases value with
  | flag => cases he
  | pieces ps =>
    obtain ⟨p, hp, hpe⟩ := List.mem_filterMap.mp he
    cases p with
    | text data s => cases hpe
    | mustache e s =>
      cases hpe
      exact ⟨_, List.mem_map_of_mem hp, .inside List.mem_cons_self (.refl _)⟩

/-- An expression of a node stands inside of it. -/
theorem part_of_expressions : ∀ {a : Node} {e : Expr}, e ∈ a.expressions → a.spans.Part e.spans
  | .text .., _, h | .config .., _, h | .comment .., _, h | .scoped .., _, h
  | .response .., _, h => nomatch h
  | .mustache .., _, h | .ifBlock .., _, h | .eachBlock .., _, h => by
    cases List.mem_singleton.mp h
    exact PartOf.part (.head (.refl _))
  | .message .., _, h | .content .., _, h | .step .., _, h =>
    PartOf.part (.front (partOf_attributes h))
  | .reference .., _, h => PartOf.part (partOf_attributes h)

mutual

/-- A node that a walk comes to stands inside of the node that is walked. -/
theorem part_of_walk : ∀ {a b : Node}, b ∈ a.walk → a.spans.Part b.spans
  | .text .., _, h | .config .., _, h | .comment .., _, h | .mustache .., _, h
  | .reference .., _, h | .response .., _, h => by
    cases List.mem_singleton.mp h
    exact .refl _
  | .message _ _ children _, _, h | .content _ _ children _, _, h | .step _ children _, _, h => by
    rcases List.mem_cons.mp h with rfl | h
    · exact .refl _
    · exact PartOf.part (.back (partOf_walkAll h))
  | .scoped children _, _, h => by
    rcases List.mem_cons.mp h with rfl | h
    · exact .refl _
    · exact PartOf.part (partOf_walkAll h)
  | .ifBlock _ nodes alternate _, _, h | .eachBlock _ _ _ nodes alternate _, _, h => by
    rcases List.mem_cons.mp h with rfl | h
    · exact .refl _
    · refine PartOf.part (.tail ?_)
      rcases List.mem_append.mp h with h | h
      · exact .front (partOf_walkAll h)
      · exact .back (partOf_walkOption h)

theorem partOf_walkAll : ∀ {nodes : List Node} {b : Node}, b ∈ walkAll nodes →
    PartOf (spansAll nodes) b.spans
  | [], _, h => nomatch h
  | a :: rest, _, h => by
    rcases List.mem_append.mp h with h | h
    · exact .head (part_of_walk h)
    · exact .tail (partOf_walkAll h)

theorem partOf_walkOption : ∀ {nodes : Option (List Node)} {b : Node}, b ∈ walkOption nodes →
    PartOf (spansOption nodes) b.spans
  | none, _, h => nomatch h
  | some _, _, h => partOf_walkAll h

end

end Node

namespace Fragment

variable {source : String} {f : Fragment}

/-- Every node of a template that has been read has its place in the text. -/
theorem faithful_of_walk (h : ofText source = .ok f) {a : Node} (ha : a ∈ f.walk) :
    a.spans.Faithful source.toList := by
  obtain ⟨-, d, filled, -⟩ := whole_of_ofText h
  obtain ⟨t, ht, part⟩ := Node.partOf_walkAll ha
  exact ((filled.holds.laid.within.faithful t ht).part part).1

end Fragment

end PromptTemplate
