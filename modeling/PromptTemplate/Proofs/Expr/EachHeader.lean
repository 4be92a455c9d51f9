import PromptTemplate.Expr.EachHeader
import PromptTemplate.Proofs.Expr.Balance
import PromptTemplate.Proofs.Expr.Inverse
import PromptTemplate.Proofs.Expr.Places

/-!
# Where the header of an each block is split

The reader splits a header at the last `as` outside all brackets before it knows whether the
brackets in front are closed. This is the right one: an expression closes its brackets, so the
word after it is outside, and no name that is bound after the word is `as`, so none comes later.
-/

namespace PromptTemplate

/-- Of a list only the tokens before its end are read. -/
theorem Expr.ofTokens_congr {ts us : List Token} {e : Expr}
    (same : us.takeWhile (!·.kind.isEnd) = ts.takeWhile (!·.kind.isEnd))
    (read : ofTokens ts = .ok e) : ofTokens us = .ok e := by
  let still : Span.Moving := ⟨fun s => s, fun _ _ => rfl⟩
  have unmoved := ofTokens_mapSpan still (same.trans (List.map_id _).symm) read
  rwa [mapSpans_id] at unmoved

namespace EachHeader

/-! ## Brackets -/

/-- How many brackets are open after some tokens. -/
def openAfter (depth : Nat) (ts : List Token) : Nat :=
  ts.foldl (fun depth t => depthAfter depth t.kind) depth

theorem counts_openAfter : Token.Counts openAfter where
  inner := by
    intro depth t ts h
    have same : depthAfter depth t.kind = depth := by
      cases hk : t.kind with
      | mark m =>
        rw [hk] at h
        cases m <;> first | rfl | cases h
      | keyword | string | number | identifier => rfl
      | tagEnd | inputEnd | invalid => rfl
    rw [openAfter, List.foldl_cons, same, openAfter]
  closed := by
    intro l r opening closing ts rest pair hopening hclosing h depth
    have opens : openAfter depth (opening :: ts) = openAfter (depth + 1) ts := by
      rw [openAfter, List.foldl_cons, hopening]
      cases pair <;> rfl
    have closes : openAfter (depth + 1) (closing :: rest) = openAfter depth rest := by
      rw [openAfter, List.foldl_cons, hclosing]
      cases pair <;> rfl
    rw [opens, h, closes]

/-- After an expression as many brackets are open as before it. -/
theorem openAfter_of_ofTokens {ts : List Token} {e : Expr} (h : Expr.ofTokens ts = .ok e)
    (inside : ∀ t ∈ ts, t.kind.isEnd = false) (depth : Nat) : openAfter depth ts = depth := by
  have whole : ts.takeWhile (!·.kind.isEnd) = ts :=
    List.takeWhile_eq_self_iff.mpr fun t ht => by rw [inside t ht]; rfl
  have derives := Expr.derives_of_ofTokens h
  rw [whole] at derives
  exact Token.run_derives counts_openAfter derives depth

/-! ## The cut -/

section

variable {depth : Nat} {ts front back : List Token} {word : Token}

theorem depthAfter_word (h : word.kind = .identifier "as") :
    depthAfter depth word.kind = depth := by
  rw [h]
  rfl

/-- The cut is at an `as` outside all brackets, after which there is no other one. -/
theorem split_of_cut? (h : cut? depth ts = some (front, word, back)) :
    ts = front ++ word :: back ∧ word.kind = .identifier "as" ∧ openAfter depth front = 0 ∧
      cut? 0 back = none := by
  induction ts generalizing depth front with
  | nil => cases h
  | cons t ts ih =>
    rw [cut?] at h
    cases later : cut? (depthAfter depth t.kind) ts with
    | some found =>
      obtain ⟨more, word', back'⟩ := found
      rw [later] at h
      cases h
      obtain ⟨rfl, named, outside, last⟩ := ih later
      exact ⟨rfl, named, outside, last⟩
    | none =>
      rw [later] at h
      dsimp only at h
      split at h
      · rename_i here
        obtain ⟨named, rfl⟩ := here
        cases h
        rw [depthAfter_word named] at later
        exact ⟨rfl, named, rfl, later⟩
      · cases h

theorem cut?_of_split (named : word.kind = .identifier "as") (outside : openAfter depth front = 0)
    (last : cut? 0 back = none) :
    cut? depth (front ++ word :: back) = some (front, word, back) := by
  induction front generalizing depth with
  | nil =>
    obtain rfl : depth = 0 := outside
    rw [List.nil_append, cut?, depthAfter_word named, last]
    exact if_pos ⟨named, rfl⟩
  | cons t front ih =>
    rw [List.cons_append, cut?, ih outside]

end

/-! ## The names -/

/-- The tokens of the names that a header binds: that of the element and perhaps, after a comma,
that of the index. -/
inductive Names : List Token → String → Option String → Prop where
  | element (context : String) (s : Span) : Names [⟨.identifier context, s⟩] context none
  | both (context index : String) (s comma t : Span) :
    Names [⟨.identifier context, s⟩, ⟨.mark .comma, comma⟩, ⟨.identifier index, t⟩] context
      (some index)

theorem bindings_eq_ok_iff {header : Span} {ts : List Token} {context : String}
    {index : Option String} :
    bindings header ts = .ok (context, index) ↔ Names ts context index := by
  constructor
  · intro h
    unfold bindings at h
    split at h <;> cases h
    · exact .element _ _
    · exact .both _ _ _ _ _
  · intro h
    cases h <;> rfl

/-- No other `as` comes later exactly if none of the names is `as`. -/
theorem cut?_names {names : List Token} {last : Token} {context : String} {index : Option String}
    (h : Names names context index) (ends : last.kind.isEnd = true) :
    cut? 0 (names ++ [last]) = none ↔ context ≠ "as" ∧ index ≠ some "as" := by
  have plain : last.kind ≠ .identifier "as" := by
    intro same
    rw [same] at ends
    cases ends
  cases h with
  | element context s => simp [cut?, depthAfter, plain]
  | both context index s comma t =>
    by_cases hindex : index = "as"
    · simp [cut?, depthAfter, plain, hindex]
    · by_cases hcontext : context = "as"
      · simp [cut?, depthAfter, plain, hindex, hcontext]
      · simp [cut?, depthAfter, plain, hindex, hcontext]

/-! ## The header -/

section

variable {body front back names : List Token} {last word : Token}

/-- What follows the word ends with the last token, since the word itself ends no header. -/
theorem exists_names (named : word.kind = .identifier "as") (ends : last.kind.isEnd = true)
    (h : body ++ [last] = front ++ word :: back) :
    ∃ names, back = names ++ [last] ∧ body = front ++ word :: names := by
  rcases List.eq_nil_or_concat back with rfl | ⟨names, l, rfl⟩
  · obtain ⟨-, same⟩ := List.append_inj' h rfl
    obtain rfl := List.singleton_inj.mp same
    rw [named] at ends
    cases ends
  · rw [List.concat_eq_append] at h ⊢
    rw [← List.cons_append, ← List.append_assoc] at h
    obtain ⟨same, hlast⟩ := List.append_inj' h rfl
    obtain rfl := List.singleton_inj.mp hlast
    exact ⟨names, rfl, same⟩

theorem filter_names (inside : ∀ t ∈ names, t.kind.isEnd = false) (ends : last.kind.isEnd = true) :
    (names ++ [last]).filter (!·.kind.isEnd) = names := by
  have kept : names.filter (!·.kind.isEnd) = names :=
    List.filter_eq_self.mpr fun t ht => by rw [inside t ht]; rfl
  rw [List.filter_append, kept]
  simp [ends]

/-- The end that is put after the expression does not matter for it. -/
theorem ofTokens_ended {e : Expr} {stop : Token} (inside : ∀ t ∈ front, t.kind.isEnd = false)
    (ends : stop.kind.isEnd = true) :
    Expr.ofTokens (front ++ [stop]) = .ok e ↔ Expr.ofTokens front = .ok e := by
  have endFree : Expr.EndFree (front.map (·.kind)) := by
    intro k hk
    obtain ⟨t, ht, rfl⟩ := List.mem_map.mp hk
    exact inside t ht
  have same := (Expr.takeWhile_ended endFree ends).trans (Expr.takeWhile_of_endFree endFree).symm
  exact ⟨Expr.ofTokens_congr same.symm, Expr.ofTokens_congr same⟩

/-- A header is read exactly if it is an expression, the word `as` and names other than `as`,
and it is read as these. -/
theorem ofTokens_ok_iff_names (inside : ∀ t ∈ body, t.kind.isEnd = false)
    (ends : last.kind.isEnd = true) (header : Span) (e : Expr) (context : String)
    (index : Option String) :
    ofTokens (body ++ [last]) header = .ok ⟨e, context, index⟩ ↔
      ∃ front word names, body = front ++ word :: names ∧ word.kind = .identifier "as" ∧
        Expr.ofTokens front = .ok e ∧ Names names context index ∧
          context ≠ "as" ∧ index ≠ some "as" := by
  constructor
  · intro h
    rw [ofTokens] at h
    cases cut : cut? 0 (body ++ [last]) with
    | none =>
      rw [cut] at h
      cases h
    | some found =>
      obtain ⟨front, word, back⟩ := found
      obtain ⟨same, named, -, later⟩ := split_of_cut? cut
      obtain ⟨names, rfl, rfl⟩ := exists_names named ends same
      obtain ⟨before, -, after⟩ : (∀ t ∈ front, t.kind.isEnd = false) ∧
          word.kind.isEnd = false ∧ ∀ t ∈ names, t.kind.isEnd = false := by
        simpa [or_imp, forall_and] using inside
      rw [cut] at h
      obtain ⟨⟨context', index'⟩, bound, h⟩ := ok_of_bind h
      obtain ⟨e', read, h⟩ := ok_of_bind h
      cases h
      rw [filter_names after ends] at bound
      have bound := bindings_eq_ok_iff.mp bound
      have read := (ofTokens_ended before rfl).mp read
      exact ⟨front, word, names, rfl, named, read, bound, (cut?_names bound ends).mp later⟩
  · rintro ⟨front, word, names, rfl, named, read, bound, others⟩
    obtain ⟨before, -, after⟩ : (∀ t ∈ front, t.kind.isEnd = false) ∧
        word.kind.isEnd = false ∧ ∀ t ∈ names, t.kind.isEnd = false := by
      simpa [or_imp, forall_and] using inside
    -- The brackets before the word are those of an expression, which closes them all.
    have outside := openAfter_of_ofTokens read before 0
    have cut := cut?_of_split named outside ((cut?_names bound ends).mpr others)
    have read : Expr.ofTokens (front ++ [⟨.inputEnd, word.span⟩]) = .ok e :=
      (ofTokens_ended before rfl).mpr read
    rw [List.append_assoc, List.cons_append, ofTokens, cut]
    simp [filter_names after ends, bindings_eq_ok_iff.mpr bound, read, bind, Except.bind, pure,
      Except.pure]

/-- The word as a variable, as a key in brackets and as a member. -/
theorem ofTokens_ok_iff_names_nested :
    let s (start stop : Nat) : Span := ⟨start, stop, 1, start + 1⟩
    let front : List Token := [⟨.identifier "as", s 0 2⟩, ⟨.mark .leftBracket, s 2 3⟩,
      ⟨.identifier "as", s 3 5⟩, ⟨.mark .rightBracket, s 5 6⟩, ⟨.mark .dot, s 6 7⟩,
      ⟨.identifier "as", s 7 9⟩]
    let names : List Token := [⟨.identifier "item", s 13 17⟩, ⟨.mark .comma, s 17 18⟩,
      ⟨.identifier "i", s 19 20⟩]
    let body := front ++ ⟨.identifier "as", s 10 12⟩ :: names
    Token.ofText "as[as].as as item, i".toList = body ++ [⟨.inputEnd, s 20 20⟩] ∧
      (∀ t ∈ body, t.kind.isEnd = false) ∧ ∃ e, Expr.ofTokens front = .ok e ∧
        ofTokens (body ++ [⟨.inputEnd, s 20 20⟩]) Span.none = .ok ⟨e, "item", some "i"⟩ := by
  intro s front names body
  have inside : ∀ t ∈ body, t.kind.isEnd = false := by decide
  refine ⟨by decide +kernel, inside, ?_⟩
  have read : ∃ e, Expr.ofTokens front = .ok e := ⟨_, by cbv⟩
  obtain ⟨e, read⟩ := read
  refine ⟨e, read, ?_⟩
  refine (ofTokens_ok_iff_names inside rfl Span.none e "item" (some "i")).mpr ?_
  exact ⟨front, _, names, rfl, rfl, read, .both _ _ _ _ _, by decide, by decide⟩

end

end EachHeader

end PromptTemplate
