import PromptTemplate.Proofs.Expr.Inverse
import PromptTemplate.Proofs.Expr.Kinds
import PromptTemplate.Proofs.Expr.Placeless
import PromptTemplate.Proofs.Template.Standalone
import PromptTemplate.Proofs.Token.Alone

/-!
# Members of expressions in parentheses

Parentheses leave nothing behind in an expression but a wider span. So a point and a name after
them read a member of the value inside, as they should, but if there is an optional chain inside
they go on with this chain: where it stops, or its value does not have the member, nothing fails.
-/

namespace PromptTemplate

open Expr.Parser

/-! ## Reading -/

namespace Expr

variable {s p : String} {e : Expr}

/-- An expression is what the loosest reader makes of all tokens before the end. -/
theorem ofTokens_eq_ok_iff {ts body : List Token} (h : ts.takeWhile (!·.kind.isEnd) = body) :
    ofTokens ts = .ok e ↔ Reads (assignment (stopOf ts) body) e [] := by
  rw [ofTokens, h]
  constructor
  · intro h
    dsimp only at h
    split at h
    · cases h
    · obtain ⟨⟨e', rest, shorter⟩, read, last⟩ := ok_of_bind h
      cases rest with
      | nil =>
        cases last
        exact ⟨shorter, read⟩
      | cons t rest => cases last
  · rintro ⟨shorter, read⟩
    have begun : body ≠ [] := List.ne_nil_of_length_pos shorter
    simp [begun, bind, Except.bind, pure, Except.pure, read]

/-- Between parentheses the tokens of an expression are read as this expression, wherever they
stand, and a name after them as a member of it. -/
theorem reads_member {stop : Token} {body inner : List Token}
    {opening closing dot named : Token} (h : Reads (assignment stop body) e [])
    (hinner : SameKinds body inner) (hopening : opening.kind = .mark .leftParen)
    (hclosing : closing.kind = .mark .rightParen) (hdot : dot.kind = .mark .dot)
    (hnamed : named.kind = .ofName p) (stop' : Token) :
    ∃ e', Reads (assignment stop' (opening :: (inner ++ [closing, dot, named]))) e' [] ∧
      e'.bare = .member e.bare (.named p) false Span.none := by
  obtain ⟨_, h⟩ := h
  have ahead :
      Ahead nowhere nowhere [closing, dot, named] body (inner ++ [closing, dot, named]) := by
    refine ⟨?_, inner, rfl, hinner.alike⟩
    intro t ht
    cases ht
    exact hclosing
  obtain ⟨⟨e', rest, shorter⟩, read, same, left⟩ := agrees_assignment stop stop' ahead _ h
  obtain rfl : rest = [closing, dot, named] := left.exists_nil
  have within : e'.bare = e.bare := by
    rw [bare_eq_mapSpans, bare_eq_mapSpans]
    exact same
  have primary := reads_paren hopening hclosing ⟨shorter, read⟩
  generalize hwide : e'.withSpan (Span.cover opening.span closing.span) = wide at primary
  let member := Expr.member wide (.named p) false (Span.cover wide.span named.span)
  have chain (out : Expr) (left : List Token) (more : Reads (links stop' member []) out left) :
      Reads (chain stop' (opening :: (inner ++ [closing, dot, named]) ++ [])) out left := by
    rw [List.append_nil]
    exact reads_chain primary (reads_named hdot hnamed more)
  have start : ∀ t ∈ (opening :: (inner ++ [closing, dot, named]) ++ []).head?,
      UnaryOp.ofKind? t.kind = none ∧ UpdateOp.ofKind? t.kind = none := by
    intro t ht
    cases ht
    rw [hopening]
    exact ⟨rfl, rfl⟩
  have read := (ReadsAs.of_chain (Nat.le_refl 15) start chain).assignment Follow.nil
  rw [List.append_nil] at read
  refine ⟨member, read, ?_⟩
  rw [bare, ← hwide, bare_withSpan, within]
  rfl

theorem Whole.endFree {ts body : List Token} (whole : Whole ts body e) :
    EndFree (body.map (·.kind)) := by
  intro k hk
  obtain ⟨t, ht, rfl⟩ := List.mem_map.mp hk
  exact Token.isEnd_eq_false (Token.not_isTerminator_of_level whole.level t ht)

/-- A name after an expression in parentheses makes a member of the expression. -/
theorem exists_ofText_member (h : ofText s = .ok e) (name : isName p = true) :
    ∃ e', ofText ("(" ++ s ++ ")." ++ p) = .ok e' ∧
      e'.bare = .member e.bare (.named p) false Span.none := by
  obtain ⟨body, whole⟩ := exists_whole h
  obtain ⟨last, hts, ends⟩ := whole.ended
  have alone : Token.kinds s.toList = body.map (·.kind) ++ [last.kind] := by
    rw [Token.kinds, hts, List.map_append]
    rfl
  have kinds := Token.kinds_member alone ends name
  obtain ⟨opening, more, text, hopening, hmore⟩ := List.map_eq_cons_iff.mp kinds
  obtain ⟨inner, closing, more, rfl, hinner, hclosing, hmore⟩ := exists_split hmore
  obtain ⟨dot, more, rfl, hdot, hmore⟩ := List.map_eq_cons_iff.mp hmore
  obtain ⟨named, more, rfl, hnamed, hmore⟩ := List.map_eq_cons_iff.mp hmore
  obtain ⟨ended, rfl, hended⟩ := List.map_eq_singleton_iff.mp hmore
  let front := opening :: (inner ++ [closing, dot, named])
  have split : Token.ofText ("(" ++ s ++ ")." ++ p).toList = front ++ [ended] := by
    rw [text]
    simp [front]
  have goes_on : EndFree (front.map (·.kind)) := by
    simp [front, hopening, hinner, whole.endFree, hclosing, hdot, hnamed]
  have before :
      (Token.ofText ("(" ++ s ++ ")." ++ p).toList).takeWhile (!·.kind.isEnd) = front := by
    rw [split]
    exact takeWhile_ended goes_on (by rw [hended]; rfl)
  have read := (ofTokens_eq_ok_iff whole.before).mp h
  obtain ⟨e', reads, bare⟩ := reads_member read hinner hopening hclosing hdot hnamed
    (stopOf (Token.ofText ("(" ++ s ++ ")." ++ p).toList))
  exact ⟨e', (ofTokens_eq_ok_iff before).mpr reads, bare⟩

end Expr

/-! ## Members -/

namespace Value

/-- The member of a value that a plain name leads to. -/
def member? (v : Value) (name : String) : Option Value :=
  match v with
  | .object members => Dictionary.get? members name
  | .array items => if name = "length" then some (ofNat items.length) else none
  | .string s => if name = "length" then some (ofNat s.length) else none
  | _ => none

theorem index?_name {p : String} (name : isName p = true) : index? p = none := by
  rw [isName, Bool.and_eq_true] at name
  cases hp : p.toList with
  | nil => simp [index?, hp]
  | cons c cs =>
    rw [hp] at name
    have letter : c.isDigit = false := isDigit_eq_false_of_start name.1
    simp [index?, hp, letter]

/-- What is not found fails only in a strict read, unless there is nothing to read from. -/
theorem property_name {p : String} (name : isName p = true) (strict : Bool) (v : Value) :
    v.property strict p =
      match v.member? p with
      | some x => .ok x
      | none =>
        if v.isNullish then .error (.propertyOfNothing p v.kindName)
        else if strict then .error (.missingProperty p)
        else .ok .undefined := by
  have noIndex := index?_name name
  cases v with
  | undefined | null | bool | number | function => simp [property, member?, isNullish]
  | object members =>
    cases found : Dictionary.get? members p <;> simp [property, member?, isNullish, found]
  | array items | string s =>
    by_cases length : p = "length"
    · simp [property, member?, length]
    · simp [property, member?, isNullish, length, noIndex]

end Value

namespace Expr

open Eval

variable {host : Host} {e : Expr} {p : String} {w t : World}

/-- Only a chain with an optional link stops early. -/
theorem isSome_link : ∀ e : Expr, e.hasOptionalLink = false →
    Returns (fun o => o.isSome = true) (link host e)
  | .literal .., _ => by
    rw [link]
    exact .pure rfl
  | .identifier .., _ | .array .., _ | .object .., _ => by
    rw [link]
    exact .last fun _ => .pure rfl
  | .member base key optional s, h => by
    rw [hasOptionalLink, Bool.or_eq_false_iff] at h
    obtain ⟨rfl, h⟩ := h
    rw [link]
    refine (isSome_link base h).bind ?_
    rintro (_ | target) some
    · cases some
    · exact .last fun _ => .last fun _ => .pure rfl
  | .call callee arguments optional s, h => by
    rw [hasOptionalLink, Bool.or_eq_false_iff] at h
    obtain ⟨rfl, h⟩ := h
    rw [link]
    refine (isSome_link callee h).bind ?_
    rintro (_ | target) some
    · cases some
    · cases target with
      | function f => exact .last fun _ => .last fun _ => .pure rfl
      | _ => exact .throw _
  | .unary op argument s, _ => by
    rw [link_unary]
    exact .last fun _ => .ite (.pure rfl) (.last fun _ => .pure rfl)
  | .binary .., _ => by
    rw [link]
    exact .last fun _ => .last fun _ => .last fun _ => .pure rfl
  | .logical .., _ => by
    rw [link]
    exact .last fun _ => .ite (.pure rfl) (.last fun _ => .pure rfl)
  | .conditional .., _ => by
    rw [link]
    exact .last fun _ => .ite (.last fun _ => .pure rfl) (.last fun _ => .pure rfl)
  | .assign op target value s, _ => by
    rcases identifier_or target with ⟨name, place, rfl⟩ | compound
    · rw [link_assign_identifier]
      exact .last fun _ => .last fun _ => .pure rfl
    · rw [link_assign_path host op compound]
      exact .last fun _ => .last fun _ => .last fun _ => .last fun _ => .last fun _ =>
        .last fun _ => .pure rfl
  | .update op before target s, _ => by
    rcases identifier_or target with ⟨name, place, rfl⟩ | compound
    · rw [link]
      exact .last fun _ => .last fun _ => .last fun _ => .pure rfl
    · rw [link_update_path host op before compound]
      exact .last fun _ => .last fun _ => .last fun _ => .last fun _ => .last fun _ =>
        .last fun _ => .pure rfl

section

variable (s : Span)

/-- A member by name is read from the value of a chain that has not stopped, and strictly if
the chain has no optional link. -/
theorem run_member_some {v : Value} (h : (link host e).run w = (.ok (some v), t)) :
    (evaluate host (.member e (.named p) false s)).run w =
      (placed s (v.property (!e.hasOptionalLink) p)).run t := by
  rw [evaluate, run_settled, link, run_bind_ok h]
  simp only [keyName, pure_bind, Bool.false_and, Bool.false_eq_true, if_false, Bool.not_false,
    Bool.true_and]
  cases v.property (!e.hasOptionalLink) p <;> rfl

theorem run_member_none (h : (link host e).run w = (.ok none, t)) :
    (evaluate host (.member e (.named p) false s)).run w = (.ok .undefined, t) := by
  rw [evaluate, run_settled, link, run_bind_ok h]
  rfl

theorem run_member_error {err : Error} (h : (link host e).run w = (.error err, t)) :
    (evaluate host (.member e (.named p) false s)).run w = (.error err, t) := by
  rw [evaluate, run_settled, link, run_bind_error h]
  rfl

end

/-- What a plain read of a member makes of the result of an expression: its errors stay, and
a member that is not there is an error. -/
inductive MemberRead (p : String) : Except Error Value → Except Error Value → Prop where
  | failed {err err' : Error} (h : err'.cause = err.cause) : MemberRead p (.error err) (.error err')
  | found {v x : Value} (h : v.member? p = some x) : MemberRead p (.ok v) (.ok x)
  | missing {v : Value} {err : Error} (h : v.member? p = none)
    (code : err.cause.code = .propertyNotExists) : MemberRead p (.ok v) (.error err)

/-- An optional chain that parentheses do not close: it stopped early, or came to a value without
the member. -/
def Opened (host : Host) (e : Expr) (p : String) (w : World) : Prop :=
  e.hasOptionalLink = true ∧
    (((link host e).run w).1 = .ok none ∨
      ∃ v, ((link host e).run w).1 = .ok (some v) ∧ v.isNullish = false ∧ v.member? p = none)

theorem MemberRead.congr {r q q' : Except Error Value} (h : MemberRead p r q)
    (k : Matches Eq q q') : MemberRead p r q' := by
  cases h with
  | failed h =>
    cases k with
    | error k => exact .failed (k.trans h)
  | found h =>
    cases k with
    | ok k => exact k ▸ .found h
  | missing h code =>
    cases k with
    | error k => exact .missing h (k ▸ code)

theorem memberRead_placed (name : isName p = true) (strict : Bool) (v : Value)
    (h : strict = true ∨ v.isNullish = true ∨ v.member? p ≠ none) (s : Span) :
    MemberRead p (.ok v) ((placed s (v.property strict p)).run t).1 := by
  rw [Value.property_name name]
  cases found : v.member? p with
  | some x => exact .found found
  | none =>
    dsimp only
    split
    · exact .missing found rfl
    · rename_i something
      have strict : strict = true := by
        rcases h with h | h | h
        · exact h
        · exact absurd h something
        · exact absurd found h
      rw [if_pos strict]
      exact .missing found rfl

/-- A chain with an optional link reads its last member as strictly as any other, unless it
has stopped or the member is missing. -/
theorem memberRead_of_not_opened (name : isName p = true) (h : ¬ Opened host e p w) (s : Span) :
    MemberRead p ((evaluate host e).run w).1
        ((evaluate host (.member e (.named p) false s)).run w).1 ∧
      ((evaluate host (.member e (.named p) false s)).run w).2 = ((evaluate host e).run w).2 := by
  rw [evaluate, run_settled]
  rcases hlink : (link host e).run w with ⟨_ | _ | v, t⟩
  · rw [run_member_error s hlink]
    exact ⟨.failed rfl, rfl⟩
  · have closed : e.hasOptionalLink = false := by
      apply Bool.eq_false_iff.mpr
      intro optional
      exact h ⟨optional, .inl (by rw [hlink])⟩
    cases (isSome_link e closed w).of_ok hlink
  · rw [run_member_some s hlink]
    constructor
    · refine memberRead_placed name _ v ?_ s
      cases closed : e.hasOptionalLink with
      | false => exact .inl rfl
      | true =>
        right
        by_contra others
        rw [not_or, not_not, Bool.not_eq_true] at others
        exact h ⟨closed, .inr ⟨v, by rw [hlink], others⟩⟩
    · cases v.property (!e.hasOptionalLink) p <;> rfl

theorem run_of_opened (name : isName p = true) (h : Opened host e p w) (s : Span) :
    (evaluate host (.member e (.named p) false s)).run w =
      (.ok .undefined, ((evaluate host e).run w).2) := by
  have after : ((evaluate host e).run w).2 = ((link host e).run w).2 := by
    rw [evaluate, run_settled]
  rw [after]
  rw [Opened] at h
  rcases hlink : (link host e).run w with ⟨r, t⟩
  rw [hlink] at h
  obtain ⟨optional, rfl | ⟨v, rfl, something, missing⟩⟩ := h
  · exact run_member_none s hlink
  · rw [run_member_some s hlink, Value.property_name name, missing, optional]
    simp only [something, Bool.false_eq_true, if_false, Bool.not_true]
    rfl

/-- A name after an expression in parentheses reads a member of its value, with all errors
that this has. Only an optional chain in the parentheses goes on behind them: where it stopped,
or its value lacks the member, there is no error but undefined. -/
theorem memberRead_of_ofText (h : ofText s = .ok e) (name : isName p = true) :
    ∃ e', ofText ("(" ++ s ++ ")." ++ p) = .ok e' ∧ ∀ host w,
      (¬ Opened host e p w →
        MemberRead p ((evaluate host e).run w).1 ((evaluate host e').run w).1 ∧
        ((evaluate host e').run w).2 = ((evaluate host e).run w).2) ∧
      (Opened host e p w →
        (evaluate host e').run w = (.ok .undefined, ((evaluate host e).run w).2)) := by
  obtain ⟨e', read, bare⟩ := exists_ofText_member h name
  refine ⟨e', read, fun host w => ?_⟩
  let member := Expr.member e (.named p) false Span.none
  have alike : e'.bare = member.bare := bare
  have same : Eval.ResemblesAt w Eq (evaluate host member) (evaluate host e') :=
    resembles_settled (resembles_link host alike) w
  constructor
  · intro closed
    obtain ⟨result, world⟩ := memberRead_of_not_opened name closed Span.none
    exact ⟨result.congr same.1, same.2.trans world⟩
  · intro opened
    have undefined := run_of_opened name opened Span.none
    obtain ⟨results, worlds⟩ := same
    rw [undefined] at results worlds
    obtain ⟨_, value, rfl⟩ := results.symm.exists_ok
    exact Prod.ext value worlds

/-- An optional chain in parentheses that comes to a value with the member. -/
theorem memberRead_of_ofText_chain :
    let object (name : String) (v : Value) : Value := .object [(name, v)]
    let w : World := ⟨Scope.ofParameters [("a", object "b" (object "c" (.bool true)))], []⟩
    let host : Host := fun _ _ => .error ""
    ∃ e e', ofText "a?.b" = .ok e ∧ isName "c" = true ∧ ofText "(a?.b).c" = .ok e' ∧
      ¬ Opened host e "c" w ∧
      MemberRead "c" ((evaluate host e).run w).1 ((evaluate host e').run w).1 := by
  intro object w host
  let e := Expr.member (.identifier "a" ⟨0, 1, 1, 1⟩) (.named "b") true ⟨0, 4, 1, 1⟩
  have read : ofText "a?.b" = .ok e := by cbv
  have name : isName "c" = true := by decide +kernel
  obtain ⟨e', read', results⟩ := memberRead_of_ofText read name
  have closed : ¬ Opened host e "c" w := by
    rintro ⟨-, stopped | ⟨v, value, -, missing⟩⟩
    · cases stopped
    · cases value
      cases missing
  exact ⟨e, e', read, name, read', closed, ((results host w).1 closed).1⟩

/-- The same chain where it stops: the member, too, is undefined, and a plain read of a member of
undefined would be an error. -/
theorem not_memberRead_of_stopped :
    let w : World := ⟨Scope.ofParameters [("a", .null)], []⟩
    let host : Host := fun _ _ => .error ""
    ∃ e e', ofText "a?.b" = .ok e ∧ isName "c" = true ∧ ofText "(a?.b).c" = .ok e' ∧
      ((evaluate host e).run w).1 = .ok .undefined ∧
      ((evaluate host e').run w).1 = .ok .undefined ∧
      ¬ MemberRead "c" ((evaluate host e).run w).1 ((evaluate host e').run w).1 := by
  intro w host
  let chain := Expr.member (.identifier "a" ⟨0, 1, 1, 1⟩) (.named "b") true ⟨0, 4, 1, 1⟩
  let wide := Expr.member (.identifier "a" ⟨1, 2, 1, 2⟩) (.named "b") true ⟨0, 6, 1, 1⟩
  have read : ofText "a?.b" = .ok chain := by cbv
  have read' : ofText "(a?.b).c" = .ok (.member wide (.named "c") false ⟨0, 8, 1, 1⟩) := by cbv
  refine ⟨chain, _, read, by decide +kernel, read', rfl, rfl, ?_⟩
  intro h
  cases h with
  | found none => cases none

end Expr

end PromptTemplate
