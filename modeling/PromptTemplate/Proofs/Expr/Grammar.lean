import PromptTemplate.Expr.Parser
import PromptTemplate.Proofs.Run

/-!
# The grammar of expressions

What a reader of expressions returns has been put together from the tokens in front of what
it leaves, by the rules given here. The rules do not tell how tightly operators bind, but they
tell which marks stand between the parts, and every span is told by the tokens.
-/

namespace PromptTemplate

open Expr.Parser

namespace Expr

/-- The marks of a link before what is in its brackets. -/
def linkMarks (optional : Bool) (opening : Mark) : List Token.Kind :=
  if optional then [.mark .questionDot, .mark opening] else [.mark opening]

/-- The mark before the name of a member. -/
def memberMark (optional : Bool) : Mark := if optional then .questionDot else .dot

mutual

/-- The tokens in front of the last ones are those of an expression. -/
inductive Derives : List Token → Expr → List Token → Prop where
  | literal {t : Token} {value : Literal} (h : Literal.ofKind? t.kind = some value)
    (rest : List Token) : Derives (t :: rest) (.literal value t.span) rest
  | identifier (name : String) (s : Span) (rest : List Token) :
    Derives (⟨.identifier name, s⟩ :: rest) (.identifier name s) rest
  /-- Parentheses widen the span of what is inside them. -/
  | parentheses {e : Expr} {ts rest : List Token} {closing : Token}
    (h : Derives ts e (closing :: rest)) (opening : Token)
    (hopening : opening.kind = .mark .leftParen) (hclosing : closing.kind = .mark .rightParen) :
    Derives (opening :: ts) (e.withSpan (Span.cover opening.span closing.span)) rest
  | array {es : List Expr} {ts rest : List Token} {closing : Token}
    (h : DerivesItems ts es closing rest) (opening : Token)
    (hopening : opening.kind = .mark .leftBracket)
    (hclosing : closing.kind = .mark .rightBracket) :
    Derives (opening :: ts) (.array es (Span.cover opening.span closing.span)) rest
  | object {ps : List Property} {ts rest : List Token} {closing : Token}
    (h : DerivesProperties ts ps closing rest) (opening : Token)
    (hopening : opening.kind = .mark .leftBrace) (hclosing : closing.kind = .mark .rightBrace) :
    Derives (opening :: ts) (.object ps (Span.cover opening.span closing.span)) rest
  /-- A name follows a point, which a question mark may precede. -/
  | member {base : Expr} {ts rest : List Token} {dot named : Token}
    (h : Derives ts base (dot :: named :: rest)) (name : String) (optional : Bool)
    (hdot : dot.kind = .mark (memberMark optional)) (hnamed : nameOf? named.kind = some name) :
    Derives ts (.member base (.named name) optional (Span.cover base.span named.span)) rest
  | computed {base e : Expr} {ts inside rest : List Token} {closing : Token}
    {marks : List Token} (h : Derives ts base (marks ++ inside))
    (he : Derives inside e (closing :: rest)) (optional : Bool)
    (hmarks : marks.map (·.kind) = linkMarks optional .leftBracket)
    (hclosing : closing.kind = .mark .rightBracket) :
    Derives ts (.member base (.computed e) optional (Span.cover base.span closing.span)) rest
  | call {callee : Expr} {es : List Expr} {ts inside rest : List Token} {closing : Token}
    {marks : List Token} (h : Derives ts callee (marks ++ inside))
    (hes : DerivesItems inside es closing rest) (optional : Bool)
    (hmarks : marks.map (·.kind) = linkMarks optional .leftParen)
    (hclosing : closing.kind = .mark .rightParen) :
    Derives ts (.call callee es optional (Span.cover callee.span closing.span)) rest
  | unary {argument : Expr} {ts rest : List Token} (h : Derives ts argument rest)
    (mark : Token) (op : UnaryOp) (hop : UnaryOp.ofKind? mark.kind = some op) :
    Derives (mark :: ts) (.unary op argument (Span.cover mark.span argument.span)) rest
  | before {argument : Expr} {ts rest : List Token} (h : Derives ts argument rest)
    (fits : argument.isTarget = true) (mark : Token) (op : UpdateOp)
    (hop : UpdateOp.ofKind? mark.kind = some op) :
    Derives (mark :: ts) (.update op true argument (Span.cover mark.span argument.span)) rest
  | after {argument : Expr} {ts rest : List Token} {mark : Token}
    (h : Derives ts argument (mark :: rest)) (fits : argument.isTarget = true) (op : UpdateOp)
    (hop : UpdateOp.ofKind? mark.kind = some op) :
    Derives ts (.update op false argument (Span.cover argument.span mark.span)) rest
  | operator {left right : Expr} {ts inside rest : List Token} {mark : Token}
    (hl : Derives ts left (mark :: inside)) (hr : Derives inside right rest) (op : Operator)
    (hop : Operator.ofKind? mark.kind = some op) :
    Derives ts (op.apply left right) rest
  | conditional {test consequent alternate : Expr} {ts inside last rest : List Token}
    {mark colon : Token} (ht : Derives ts test (mark :: inside))
    (hc : Derives inside consequent (colon :: last)) (ha : Derives last alternate rest)
    (hmark : mark.kind = .mark .question) (hcolon : colon.kind = .mark .colon) :
    Derives ts (.conditional test consequent alternate (Span.cover test.span alternate.span)) rest
  | assign {target value : Expr} {ts inside rest : List Token} {mark : Token}
    (ht : Derives ts target (mark :: inside)) (fits : target.isTarget = true)
    (hv : Derives inside value rest) (op : AssignOp)
    (hop : ∃ m, mark.kind = .mark m ∧ AssignOp.ofMark? m = some op) :
    Derives ts (.assign op target value (Span.cover target.span value.span)) rest

/-- Expressions with commas between them, and the token that ends them. -/
inductive DerivesItems : List Token → List Expr → Token → List Token → Prop where
  | nil (closing : Token) (rest : List Token) : DerivesItems (closing :: rest) [] closing rest
  | last {e : Expr} {ts rest : List Token} {closing : Token}
    (h : Derives ts e (closing :: rest)) : DerivesItems ts [e] closing rest
  | cons {e : Expr} {es : List Expr} {ts inside rest : List Token} {comma closing : Token}
    (h : Derives ts e (comma :: inside)) (hes : DerivesItems inside es closing rest)
    (hcomma : comma.kind = .mark .comma) :
    DerivesItems ts (e :: es) closing rest

inductive DerivesKey : List Token → Key → List Token → Prop where
  | named {t : Token} {name : String} (h : keyOf? t.kind = some name) (rest : List Token) :
    DerivesKey (t :: rest) (.named name) rest
  | computed {e : Expr} {ts rest : List Token} {closing : Token}
    (h : Derives ts e (closing :: rest)) (opening : Token)
    (hopening : opening.kind = .mark .leftBracket)
    (hclosing : closing.kind = .mark .rightBracket) :
    DerivesKey (opening :: ts) (.computed e) rest

inductive DerivesProperty : List Token → Property → List Token → Prop where
  /-- A name alone is also the variable that the property takes its value from. -/
  | short (name : String) (s : Span) (rest : List Token) :
    DerivesProperty (⟨.identifier name, s⟩ :: rest) (.mk (.named name) (.identifier name s)) rest
  | full {key : Key} {value : Expr} {ts inside rest : List Token} {colon : Token}
    (hkey : DerivesKey ts key (colon :: inside)) (hvalue : Derives inside value rest)
    (hcolon : colon.kind = .mark .colon) :
    DerivesProperty ts (.mk key value) rest

/-- Properties with commas between them, and the token that ends them. -/
inductive DerivesProperties : List Token → List Property → Token → List Token → Prop where
  | nil (closing : Token) (rest : List Token) : DerivesProperties (closing :: rest) [] closing rest
  | last {p : Property} {ts rest : List Token} {closing : Token}
    (h : DerivesProperty ts p (closing :: rest)) : DerivesProperties ts [p] closing rest
  | cons {p : Property} {ps : List Property} {ts inside rest : List Token}
    {comma closing : Token} (h : DerivesProperty ts p (comma :: inside))
    (hps : DerivesProperties inside ps closing rest) (hcomma : comma.kind = .mark .comma) :
    DerivesProperties ts (p :: ps) closing rest

end

namespace Parser

variable {stop : Token} {ts : List Token}

/-! ## Single tokens -/

theorem exists_of_take? {α : Type} {meaning : Token.Kind → Option α} {a : α} {rest : List Token}
    {hrest : rest.length < ts.length} (h : take? meaning ts = some (a, ⟨rest, hrest⟩)) :
    ∃ t, ts = t :: rest ∧ meaning t.kind = some a := by
  cases ts with
  | nil => cases h
  | cons t ts =>
    obtain ⟨b, hb, heq⟩ := Option.map_eq_some_iff.mp h
    cases heq
    exact ⟨t, rfl, hb⟩

/-- The span and the rest are those of the first token, which is of a kind, and of what
follows it. -/
def Headed (fits : Token.Kind → Prop) : Span × Shorter ts → Prop
  | (s, ⟨rest, _⟩) => ∃ t : Token, t.span = s ∧ ts = t :: rest ∧ fits t.kind

theorem headed_expect (stop : Token) (m : Mark) (ts : List Token) :
    Yields (Headed (· = .mark m)) (expect stop m ts) := by
  rw [expect.eq_def]
  split
  · split
    · rename_i hm
      exact .ok ⟨_, rfl, rfl, hm⟩
    · exact .error _
  · exact .error _

theorem headed_propertyName (stop : Token) (ts : List Token) :
    Yields (fun r => Headed (nameOf? · = some r.1) r.2) (propertyName stop ts) := by
  rw [propertyName.eq_def]
  split
  · split
    · rename_i hname
      exact .ok ⟨_, rfl, rfl, hname⟩
    · exact .error _
  · exact .error _

/-! ## Readers

The induction is the recursion of the readers: on the number of tokens that are left, and
then on which reader calls which. -/

mutual

theorem derives_assignment (stop : Token) (ts : List Token) :
    Yields (fun r => Derives ts r.1 r.2.1) (assignment stop ts) := by
  rw [assignment]
  refine .bind (derives_conditional stop ts) ?_
  rintro ⟨target, rest, hrest⟩ htarget
  dsimp only
  split
  · exact .ok htarget
  · rename_i op more hmore hop
    obtain ⟨mark, rfl, hmark⟩ := exists_of_take? hop
    split
    · rename_i fits
      refine .bind (derives_assignment stop more) ?_
      rintro ⟨value, after, hafter⟩ hvalue
      refine .ok (.assign htarget fits hvalue op ?_)
      split at hmark
      · rename_i m hm
        exact ⟨m, hm, hmark⟩
      · cases hmark
    · exact .error _
termination_by ts.length * 10 + 7

theorem derives_conditional (stop : Token) (ts : List Token) :
    Yields (fun r => Derives ts r.1 r.2.1) (conditional stop ts) := by
  rw [conditional]
  refine .bind (derives_binary stop 0 ts) ?_
  rintro ⟨test, rest, hrest⟩ htest
  dsimp only
  split
  · refine .bind (headed_expect _ _ _) ?_
    rintro ⟨_, more, hmore⟩ ⟨mark, -, rfl, hmark⟩
    refine .bind (derives_assignment stop more) ?_
    rintro ⟨consequent, more', hmore'⟩ hconsequent
    refine .bind (headed_expect _ _ _) ?_
    rintro ⟨_, last, hlast⟩ ⟨colon, -, rfl, hcolon⟩
    have shorter : last.length < ts.length :=
      Nat.lt_trans hlast (Nat.lt_trans hmore' (Nat.lt_trans hmore hrest))
    refine .bind (derives_assignment stop last) ?_
    rintro ⟨alternate, after, hafter⟩ halternate
    exact .ok (.conditional htest hconsequent halternate hmark hcolon)
  · exact .ok htest
termination_by ts.length * 10 + 6

theorem derives_binary (stop : Token) (level : Nat) (ts : List Token) :
    Yields (fun r => Derives ts r.1 r.2.1) (binary stop level ts) := by
  rw [binary]
  refine .bind (derives_unary stop ts) ?_
  rintro ⟨left, rest, hrest⟩ hleft
  refine .bind (derives_operators stop level hleft) ?_
  rintro ⟨e, after, hafter⟩ he
  exact .ok he
termination_by ts.length * 10 + 5

theorem derives_operators (stop : Token) (level : Nat) {start : List Token} {left : Expr}
    {ts : List Token} (hleft : Derives start left ts) :
    Yields (fun r => Derives start r.1 r.2.1) (operators stop level left ts) := by
  rw [operators]
  split
  · exact .ok hleft
  · rename_i op more hmore hop
    obtain ⟨mark, rfl, hmark⟩ := exists_of_take? hop
    split
    · exact .ok hleft
    · refine .bind (derives_binary stop op.rightLevel more) ?_
      rintro ⟨right, rest, hrest⟩ hright
      refine .bind (derives_operators stop level (.operator hleft hright op hmark)) ?_
      rintro ⟨e, after, hafter⟩ he
      exact .ok he
termination_by ts.length * 10

theorem derives_unary (stop : Token) (ts : List Token) :
    Yields (fun r => Derives ts r.1 r.2.1) (unary stop ts) := by
  rw [unary]
  dsimp only
  split
  · rename_i op more hmore hop
    obtain ⟨mark, rfl, hmark⟩ := exists_of_take? hop
    refine .bind (derives_unary stop more) ?_
    rintro ⟨argument, rest, hrest⟩ hargument
    exact .ok (.unary hargument mark op hmark)
  · split
    · rename_i op more hmore hop
      obtain ⟨mark, rfl, hmark⟩ := exists_of_take? hop
      refine .bind (derives_unary stop more) ?_
      rintro ⟨argument, rest, hrest⟩ hargument
      dsimp only
      split
      · rename_i fits
        exact .ok (.before hargument fits mark op hmark)
      · exact .error _
    · exact derives_postfixed stop ts
termination_by ts.length * 10 + 4

theorem derives_postfixed (stop : Token) (ts : List Token) :
    Yields (fun r => Derives ts r.1 r.2.1) (postfixed stop ts) := by
  rw [postfixed]
  refine .bind (derives_chain stop ts) ?_
  rintro ⟨e, rest, hrest⟩ he
  dsimp only
  split
  · exact .ok he
  · rename_i op more hmore hop
    obtain ⟨mark, rfl, hmark⟩ := exists_of_take? hop
    split
    · rename_i fits
      exact .ok (.after he fits op hmark)
    · exact .error _
termination_by ts.length * 10 + 3

theorem derives_chain (stop : Token) (ts : List Token) :
    Yields (fun r => Derives ts r.1 r.2.1) (chain stop ts) := by
  rw [chain]
  refine .bind (derives_primary stop ts) ?_
  rintro ⟨base, rest, hrest⟩ hbase
  refine .bind (derives_links stop hbase) ?_
  rintro ⟨e, after, hafter⟩ he
  exact .ok he
termination_by ts.length * 10 + 2

theorem derives_links (stop : Token) {start : List Token} {base : Expr} {ts : List Token}
    (hbase : Derives start base ts) :
    Yields (fun r => Derives start r.1 r.2.1) (links stop base ts) := by
  have next : ∀ {e : Expr} {us : List Token} (hlt : us.length < ts.length)
      (h : Derives start e us), Yields (fun r => Derives start r.1 r.2.1) (links stop e us) :=
    fun {e us} hlt h => derives_links stop h
  unfold links
  split
  · refine .bind (headed_propertyName _ _) ?_
    rintro ⟨name, stopped, rest, hrest⟩ ⟨named, rfl, rfl, hnamed⟩
    have member := hbase.member name false rfl hnamed
    refine .bind (next (by simp only [List.length_cons]; omega) member) ?_
    rintro ⟨e, after, hafter⟩ he
    exact .ok he
  · refine .bind (derives_optionalLink stop rfl hbase) ?_
    rintro ⟨e, rest, hrest⟩ he
    refine .bind (next (by simp only [List.length_cons]; omega) he) ?_
    rintro ⟨f, after, hafter⟩ hf
    exact .ok hf
  · refine .bind (derives_computedMember stop [] hbase false rfl) ?_
    rintro ⟨e, rest, hrest⟩ he
    refine .bind (next hrest he) ?_
    rintro ⟨f, after, hafter⟩ hf
    exact .ok hf
  · refine .bind (derives_call stop [] hbase false rfl) ?_
    rintro ⟨e, rest, hrest⟩ he
    refine .bind (next hrest he) ?_
    rintro ⟨f, after, hafter⟩ hf
    exact .ok hf
  · exact .ok hbase
termination_by ts.length * 10 + 1

theorem derives_optionalLink (stop : Token) {start : List Token} {base : Expr} {mark : Token}
    {ts : List Token} (hmark : mark.kind = .mark .questionDot)
    (hbase : Derives start base (mark :: ts)) :
    Yields (fun r => Derives start r.1 r.2.1) (optionalLink stop base ts) := by
  rw [optionalLink]
  split
  · exact derives_computedMember stop [mark] hbase true (by simp [linkMarks, hmark])
  · split
    · exact derives_call stop [mark] hbase true (by simp [linkMarks, hmark])
    · refine .bind (headed_propertyName _ _) ?_
      rintro ⟨name, stopped, rest, hrest⟩ ⟨named, rfl, rfl, hnamed⟩
      exact .ok (.member hbase name true hmark hnamed)
termination_by ts.length * 10 + 1

theorem derives_computedMember (stop : Token) {start : List Token} {base : Expr}
    (marks : List Token) {ts : List Token} (hbase : Derives start base (marks ++ ts))
    (optional : Bool)
    (hmarks : marks.map (·.kind) ++ [.mark .leftBracket] = linkMarks optional .leftBracket) :
    Yields (fun r => Derives start r.1 r.2.1) (computedMember stop base optional ts) := by
  rw [computedMember]
  refine .bind (headed_expect _ _ _) ?_
  rintro ⟨_, more, hmore⟩ ⟨opening, -, rfl, hopening⟩
  refine .bind (derives_assignment stop more) ?_
  rintro ⟨key, rest, hrest⟩ hkey
  refine .bind (headed_expect _ _ _) ?_
  rintro ⟨_, after, hafter⟩ ⟨closing, rfl, rfl, hclosing⟩
  rw [List.append_cons] at hbase
  exact .ok (.computed hbase hkey optional (by simp [hopening, ← hmarks]) hclosing)
termination_by ts.length * 10

theorem derives_call (stop : Token) {start : List Token} {callee : Expr}
    (marks : List Token) {ts : List Token} (hcallee : Derives start callee (marks ++ ts))
    (optional : Bool)
    (hmarks : marks.map (·.kind) ++ [.mark .leftParen] = linkMarks optional .leftParen) :
    Yields (fun r => Derives start r.1 r.2.1) (call stop callee optional ts) := by
  rw [call]
  refine .bind (headed_expect _ _ _) ?_
  rintro ⟨_, more, hmore⟩ ⟨opening, -, rfl, hopening⟩
  refine .bind (derives_items stop .rightParen more) ?_
  rintro ⟨arguments, stopped, rest, hrest⟩ ⟨closing, rfl, hclosing, harguments⟩
  rw [List.append_cons] at hcallee
  exact .ok (.call hcallee harguments optional (by simp [hopening, ← hmarks]) hclosing)
termination_by ts.length * 10

theorem derives_primary (stop : Token) (ts : List Token) :
    Yields (fun r => Derives ts r.1 r.2.1) (primary stop ts) := by
  unfold primary
  split
  · exact .error _
  · rename_i kind span more
    split
    · rename_i value hvalue
      exact .ok (.literal (t := ⟨kind, span⟩) hvalue more)
    · split
      · rename_i name _
        exact .ok (.identifier name span more)
      · refine .bind (derives_assignment stop more) ?_
        rintro ⟨e, rest, hrest⟩ he
        refine .bind (headed_expect _ _ _) ?_
        rintro ⟨_, after, hafter⟩ ⟨closing, rfl, rfl, hclosing⟩
        exact .ok (.parentheses he _ rfl hclosing)
      · refine .bind (derives_items stop .rightBracket more) ?_
        rintro ⟨es, stopped, rest, hrest⟩ ⟨closing, rfl, hclosing, hes⟩
        exact .ok (.array hes _ rfl hclosing)
      · refine .bind (derives_properties stop more) ?_
        rintro ⟨ps, stopped, rest, hrest⟩ ⟨closing, rfl, hclosing, hps⟩
        exact .ok (.object hps _ rfl hclosing)
      · exact .error _
      · exact .error _
      · exact .error _
      · exact .error _
termination_by ts.length * 10

theorem derives_items (stop : Token) (closing : Mark) (ts : List Token) :
    Yields (fun r => ∃ t : Token, t.span = r.2.1 ∧ t.kind = .mark closing ∧
      DerivesItems ts r.1 t r.2.2.1) (items stop closing ts) := by
  rw [items]
  split
  · refine .bind (headed_expect _ _ _) ?_
    rintro ⟨_, more, hmore⟩ ⟨t, rfl, rfl, ht⟩
    exact .ok ⟨t, rfl, ht, .nil t more⟩
  · refine .bind (derives_assignment stop ts) ?_
    rintro ⟨e, rest, hrest⟩ he
    dsimp only
    split
    · refine .bind (headed_expect _ _ _) ?_
      rintro ⟨_, more, hmore⟩ ⟨t, rfl, rfl, ht⟩
      exact .ok ⟨t, rfl, ht, .last he⟩
    · refine .bind (headed_expect _ _ _) ?_
      rintro ⟨_, more, hmore⟩ ⟨comma, -, rfl, hcomma⟩
      refine .bind (derives_items stop closing more) ?_
      rintro ⟨es, _, after, hafter⟩ ⟨t, rfl, ht, hes⟩
      exact .ok ⟨t, rfl, ht, .cons he hes hcomma⟩
termination_by ts.length * 10 + 8

theorem derives_property (stop : Token) (ts : List Token) :
    Yields (fun r => DerivesProperty ts r.1 r.2.1) (property stop ts) := by
  rw [property]
  refine .bind (derives_propertyKey stop ts) ?_
  rintro ⟨key, rest, hrest⟩ hkey
  dsimp only
  split
  · rename_i name found _ hfound
    obtain ⟨_, more, hmore⟩ := found
    obtain ⟨⟨kind, s⟩, rfl, hkind⟩ := exists_of_take? hfound
    have hkey : DerivesKey (⟨kind, s⟩ :: more) (.named name) rest := hkey
    cases hkey with
    | named hname =>
      cases kind with
      | identifier known =>
        obtain rfl : known = name := Option.some.inj hname
        exact .ok (.short known s _)
      | _ => cases hkind
  · refine .bind (headed_expect _ _ _) ?_
    rintro ⟨_, more, hmore⟩ ⟨colon, -, rfl, hcolon⟩
    refine .bind (derives_assignment stop more) ?_
    rintro ⟨value, after, hafter⟩ hvalue
    exact .ok (.full hkey hvalue hcolon)
termination_by ts.length * 10 + 8

theorem derives_propertyKey (stop : Token) (ts : List Token) :
    Yields (fun r => DerivesKey ts r.1 r.2.1) (propertyKey stop ts) := by
  rw [propertyKey]
  split
  · rename_i name more hname
    obtain ⟨more, hmore⟩ := more
    obtain ⟨t, rfl, ht⟩ := exists_of_take? hname
    exact .ok (.named ht more)
  · split
    · refine .bind (headed_expect _ _ _) ?_
      rintro ⟨_, more, hmore⟩ ⟨opening, -, rfl, hopening⟩
      refine .bind (derives_assignment stop more) ?_
      rintro ⟨key, rest, hrest⟩ hkey
      refine .bind (headed_expect _ _ _) ?_
      rintro ⟨_, after, hafter⟩ ⟨closing, -, rfl, hclosing⟩
      exact .ok (.computed hkey opening hopening hclosing)
    · exact .error _
termination_by ts.length * 10

theorem derives_properties (stop : Token) (ts : List Token) :
    Yields (fun r => ∃ t : Token, t.span = r.2.1 ∧ t.kind = .mark .rightBrace ∧
      DerivesProperties ts r.1 t r.2.2.1) (properties stop ts) := by
  rw [properties]
  split
  · refine .bind (headed_expect _ _ _) ?_
    rintro ⟨_, more, hmore⟩ ⟨t, rfl, rfl, ht⟩
    exact .ok ⟨t, rfl, ht, .nil t more⟩
  · refine .bind (derives_property stop ts) ?_
    rintro ⟨p, rest, hrest⟩ hp
    dsimp only
    split
    · refine .bind (headed_expect _ _ _) ?_
      rintro ⟨_, more, hmore⟩ ⟨t, rfl, rfl, ht⟩
      exact .ok ⟨t, rfl, ht, .last hp⟩
    · refine .bind (headed_expect _ _ _) ?_
      rintro ⟨_, more, hmore⟩ ⟨comma, -, rfl, hcomma⟩
      refine .bind (derives_properties stop more) ?_
      rintro ⟨ps, _, after, hafter⟩ ⟨t, rfl, ht, hps⟩
      exact .ok ⟨t, rfl, ht, .cons hp hps hcomma⟩
termination_by ts.length * 10 + 9

end

end Parser

/-- An expression is read from all tokens before the end. -/
theorem derives_of_ofTokens {ts : List Token} {e : Expr} (h : ofTokens ts = .ok e) :
    Derives (ts.takeWhile (!·.kind.isEnd)) e [] := by
  have read : Yields (fun e => Derives (ts.takeWhile (!·.kind.isEnd)) e []) (ofTokens ts) := by
    rw [ofTokens]
    dsimp only
    split
    · exact .error _
    · refine .bind (derives_assignment _ _) ?_
      rintro ⟨e, rest, hrest⟩ he
      dsimp only
      split
      · exact .ok he
      · exact .error _
  exact read e h

end Expr

end PromptTemplate
