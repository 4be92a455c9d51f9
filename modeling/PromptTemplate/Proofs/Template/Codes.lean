import PromptTemplate.Proofs.Run
import PromptTemplate.Template.Parser

/-!
# How reading fails

A text that is not a template is refused with an error of one of a few kinds: its tokens,
expressions, tags, blocks or its config block are not well formed, or a tag stands where it
may not. The other kinds of errors are left to those who compile a template or look for the
documents that it refers to.
-/

namespace PromptTemplate

/-- The kinds of errors of texts that are not templates. -/
def Code.ofReading : List Code :=
  [.parseError, .unexpectedEof, .unexpectedBlockClose, .unexpectedTagClose, .invalidConfig,
    .unknownTag, .messageTagInsideMessage, .contentTagInsideContent, .contentTagOutsideMessage,
    .stepTagInsideMessage, .stepTagInsideStep, .stepTagInsideEach]

/-- An error of a kind that texts have which are not templates. -/
def Error.OfReading (e : Error) : Prop := e.code ∈ Code.ofReading

/-- A text is not well formed. -/
def Error.Malformed (e : Error) : Prop := e.code = .parseError

theorem Error.Malformed.ofReading {e : Error} (h : e.Malformed) : e.OfReading := by
  rw [OfReading, show e.code = .parseError from h]
  decide

theorem Error.ofReading_on {c : Cause} (h : c.code ∈ Code.ofReading) (s : Span) :
    (c.on s).OfReading := h

theorem Error.ofReading_within {c : Cause} (h : c.code ∈ Code.ofReading) (start stop : Nat) :
    (c.within start stop).OfReading := h

/-- The text ends where something is wanted. -/
theorem FailsWith.ended {α : Type} (wanted : String) (start stop : Nat) :
    FailsWith Error.OfReading (.error ((Cause.endOfInput wanted).within start stop) : Except Error α) :=
  .error (Error.ofReading_within (by simp [Cause.code, Code.ofReading]) start stop)

theorem FailsWith.parseError {α : Type} {c : Cause} {s : Span} (h : c.code = .parseError) :
    FailsWith Error.Malformed (.error (c.on s) : Except Error α) := .error h

theorem FailsWith.malformed {α : Type} {c : Cause} {s : Span} (h : c.code = .parseError) :
    FailsWith Error.OfReading (.error (c.on s) : Except Error α) :=
  (FailsWith.parseError h).imp fun _ => Error.Malformed.ofReading

namespace Expr

namespace Parser

variable {α : Type} {stop : Token}

theorem fails_fail {ts : List Token} {c : Cause} (h : c.code = .parseError) :
    FailsWith Error.Malformed (fail stop ts c : Except Error α) := .parseError h

theorem fails_expect (m : Mark) (ts : List Token) :
    FailsWith Error.Malformed (expect stop m ts) := by
  unfold expect
  split
  · split
    · exact .ok _
    · exact fails_fail rfl
  · exact fails_fail rfl

theorem fails_propertyName (ts : List Token) :
    FailsWith Error.Malformed (propertyName stop ts) := by
  unfold propertyName
  split
  · split
    · exact .ok _
    · exact fails_fail rfl
  · exact fails_fail rfl

mutual

theorem fails_assignment (ts : List Token) : FailsWith Error.Malformed (assignment stop ts) := by
  rw [assignment]
  refine .bind (fails_conditional ts) ?_
  rintro ⟨target, rest, _⟩
  dsimp only
  split
  · exact .ok _
  · split
    · exact .map (fails_assignment _) _
    · exact .parseError rfl
termination_by ts.length * 10 + 7

theorem fails_conditional (ts : List Token) : FailsWith Error.Malformed (conditional stop ts) := by
  rw [conditional]
  refine .bind (fails_binary 0 ts) ?_
  rintro ⟨test, rest, hrest⟩
  dsimp only
  split
  · refine .bind (fails_expect _ _) ?_
    rintro ⟨_, more, hmore⟩
    refine .bind (fails_assignment more) ?_
    rintro ⟨consequent, more', hmore'⟩
    refine .bind (fails_expect _ _) ?_
    rintro ⟨_, last, hlast⟩
    have shorter : last.length < ts.length :=
      Nat.lt_trans hlast (Nat.lt_trans hmore' (Nat.lt_trans hmore hrest))
    exact .map (fails_assignment last) _
  · exact .ok _
termination_by ts.length * 10 + 6

theorem fails_binary (level : Nat) (ts : List Token) :
    FailsWith Error.Malformed (binary stop level ts) := by
  rw [binary]
  refine .bind (fails_unary ts) ?_
  rintro ⟨left, rest, _⟩
  exact .map (fails_operators level left rest) _
termination_by ts.length * 10 + 5

theorem fails_operators (level : Nat) (left : Expr) (ts : List Token) :
    FailsWith Error.Malformed (operators stop level left ts) := by
  rw [operators]
  split
  · exact .ok _
  · split
    · exact .ok _
    · refine .bind (fails_binary _ _) ?_
      rintro ⟨right, rest, _⟩
      exact .map (fails_operators level _ rest) _
termination_by ts.length * 10

theorem fails_unary (ts : List Token) : FailsWith Error.Malformed (unary stop ts) := by
  rw [unary]
  dsimp only
  split
  · exact .map (fails_unary _) _
  · split
    · refine .bind (fails_unary _) ?_
      rintro ⟨argument, rest, _⟩
      dsimp only
      split
      · exact .ok _
      · exact .parseError rfl
    · exact fails_postfixed ts
termination_by ts.length * 10 + 4

theorem fails_postfixed (ts : List Token) : FailsWith Error.Malformed (postfixed stop ts) := by
  rw [postfixed]
  refine .bind (fails_chain ts) ?_
  rintro ⟨e, rest, _⟩
  dsimp only
  split
  · exact .ok _
  · split
    · exact .ok _
    · exact .parseError rfl
termination_by ts.length * 10 + 3

theorem fails_chain (ts : List Token) : FailsWith Error.Malformed (chain stop ts) := by
  rw [chain]
  refine .bind (fails_primary ts) ?_
  rintro ⟨base, rest, _⟩
  exact .map (fails_links base rest) _
termination_by ts.length * 10 + 2

theorem fails_links (base : Expr) (ts : List Token) :
    FailsWith Error.Malformed (links stop base ts) := by
  have next : ∀ (e : Expr) {us : List Token} (_ : us.length < ts.length),
      FailsWith Error.Malformed (links stop e us) := fun e us hlt => fails_links e us
  unfold links
  split
  · refine .bind (fails_propertyName _) ?_
    rintro ⟨name, stopped, rest, hrest⟩
    exact .map (next _ (by simp; omega)) _
  · refine .bind (fails_optionalLink base _) ?_
    rintro ⟨e, rest, hrest⟩
    exact .map (next e (by simp; omega)) _
  · refine .bind (fails_computedMember base false _) ?_
    rintro ⟨e, rest, hrest⟩
    exact .map (next e hrest) _
  · refine .bind (fails_call base false _) ?_
    rintro ⟨e, rest, hrest⟩
    exact .map (next e hrest) _
  · exact .ok _
termination_by ts.length * 10 + 1

theorem fails_optionalLink (base : Expr) (ts : List Token) :
    FailsWith Error.Malformed (optionalLink stop base ts) := by
  rw [optionalLink]
  split
  · exact fails_computedMember base true ts
  · split
    · exact fails_call base true ts
    · exact .map (fails_propertyName ts) _
termination_by ts.length * 10 + 1

theorem fails_computedMember (base : Expr) (optional : Bool) (ts : List Token) :
    FailsWith Error.Malformed (computedMember stop base optional ts) := by
  rw [computedMember]
  refine .bind (fails_expect _ _) ?_
  rintro ⟨_, more, _⟩
  refine .bind (fails_assignment more) ?_
  rintro ⟨key, more, _⟩
  exact .map (fails_expect _ _) _
termination_by ts.length * 10

theorem fails_call (callee : Expr) (optional : Bool) (ts : List Token) :
    FailsWith Error.Malformed (call stop callee optional ts) := by
  rw [call]
  refine .bind (fails_expect _ _) ?_
  rintro ⟨_, more, _⟩
  exact .map (fails_items _ more) _
termination_by ts.length * 10

theorem fails_primary (ts : List Token) : FailsWith Error.Malformed (primary stop ts) := by
  unfold primary
  split
  · exact fails_fail rfl
  · rename_i kind span more
    split
    · exact .ok _
    · split
      · exact .ok _
      · refine .bind (fails_assignment more) ?_
        rintro ⟨e, rest, _⟩
        exact .map (fails_expect _ _) _
      · exact .map (fails_items _ more) _
      · exact .map (fails_properties more) _
      · exact .parseError rfl
      · exact .parseError rfl
      · exact .parseError rfl
      · exact .parseError rfl
termination_by ts.length * 10

theorem fails_items (closing : Mark) (ts : List Token) :
    FailsWith Error.Malformed (items stop closing ts) := by
  rw [items]
  split
  · exact .map (fails_expect _ _) _
  · refine .bind (fails_assignment ts) ?_
    rintro ⟨e, rest, _⟩
    dsimp only
    split
    · exact .map (fails_expect _ _) _
    · refine .bind (fails_expect _ _) ?_
      rintro ⟨_, more, _⟩
      exact .map (fails_items closing more) _
termination_by ts.length * 10 + 8

theorem fails_property (ts : List Token) : FailsWith Error.Malformed (property stop ts) := by
  rw [property]
  refine .bind (fails_propertyKey ts) ?_
  rintro ⟨key, rest, _⟩
  dsimp only
  split
  · exact .ok _
  · refine .bind (fails_expect _ _) ?_
    rintro ⟨_, more, _⟩
    exact .map (fails_assignment more) _
termination_by ts.length * 10 + 8

theorem fails_propertyKey (ts : List Token) :
    FailsWith Error.Malformed (propertyKey stop ts) := by
  rw [propertyKey]
  split
  · exact .ok _
  · split
    · refine .bind (fails_expect _ _) ?_
      rintro ⟨_, more, _⟩
      refine .bind (fails_assignment more) ?_
      rintro ⟨key, more, _⟩
      exact .map (fails_expect _ _) _
    · exact fails_fail rfl
termination_by ts.length * 10

theorem fails_properties (ts : List Token) :
    FailsWith Error.Malformed (properties stop ts) := by
  rw [properties]
  split
  · exact .map (fails_expect _ _) _
  · refine .bind (fails_property ts) ?_
    rintro ⟨p, rest, _⟩
    dsimp only
    split
    · exact .map (fails_expect _ _) _
    · refine .bind (fails_expect _ _) ?_
      rintro ⟨_, more, _⟩
      exact .map (fails_properties more) _
termination_by ts.length * 10 + 9

end

end Parser

theorem malformed_ofTokens (ts : List Token) : FailsWith Error.Malformed (ofTokens ts) := by
  rw [ofTokens]
  dsimp only
  split
  · exact Parser.fails_fail rfl
  · refine .bind (Parser.fails_assignment _) ?_
    rintro ⟨e, rest, _⟩
    dsimp only
    split
    · exact .ok _
    · exact .parseError rfl

theorem fails_ofTokens (ts : List Token) : FailsWith Error.OfReading (ofTokens ts) :=
  (malformed_ofTokens ts).imp fun _ => Error.Malformed.ofReading

end Expr

theorem EachHeader.malformed_ofTokens (ts : List Token) (header : Span) :
    FailsWith Error.Malformed (EachHeader.ofTokens ts header) := by
  have bound : ∀ back, FailsWith Error.Malformed (bindings header back) := by
    intro back
    unfold bindings
    split <;> first
      | exact .ok _
      | exact .parseError rfl
  unfold EachHeader.ofTokens
  split
  · exact .parseError rfl
  · exact .bind (bound _) fun _ => .map (Expr.malformed_ofTokens _) _

theorem EachHeader.fails_ofTokens (ts : List Token) (header : Span) :
    FailsWith Error.OfReading (EachHeader.ofTokens ts header) :=
  (malformed_ofTokens ts header).imp fun _ => Error.Malformed.ofReading

namespace Template

/-! ## Tags and blocks -/

theorem fails_tagTokens (start c : Text.Cursor) : FailsWith Error.OfReading (tagTokens start c) := by
  unfold tagTokens
  dsimp only
  split
  · exact .ok _
  · exact .malformed rfl
  · exact .ended _ _ _

theorem fails_tagEnd (start c : Text.Cursor) : FailsWith Error.OfReading (tagEnd start c) := by
  rw [tagEnd]
  refine .bind (fails_tagTokens start c) ?_
  rintro ⟨tokens, d⟩
  dsimp only
  split
  · exact .malformed rfl
  · exact .ok _

theorem fails_mustache (c : Text.Cursor) (h : c.rest ≠ []) :
    FailsWith Error.OfReading (mustache c h) := by
  rw [mustache]
  refine .bind (fails_tagTokens _ _) ?_
  rintro ⟨tokens, d, hd⟩
  exact .map (Expr.fails_ofTokens tokens) _

theorem fails_braceTag (c : Text.Cursor) (h : c.rest ≠ []) :
    FailsWith Error.OfReading (braceTag c h) := by
  unfold braceTag
  dsimp only
  split
  · split
    · refine .bind (fails_tagTokens _ _) ?_
      rintro ⟨tokens, d, hd⟩
      exact .map (Expr.fails_ofTokens tokens) _
    · split
      · refine .bind (fails_tagTokens _ _) ?_
        rintro ⟨tokens, d, hd⟩
        exact .map (EachHeader.fails_ofTokens tokens _) _
      · exact .malformed rfl
  · split
    · split
      · exact .malformed rfl
      · split
        · refine .bind (fails_tagTokens _ _) ?_
          rintro ⟨tokens, d, hd⟩
          exact .map (Expr.fails_ofTokens tokens) _
        · exact .map (fails_tagEnd _ _) _
    · split
      · exact .map (fails_tagEnd _ _) _
      · exact .map (fails_mustache c h) _

theorem fails_closingTag (c : Text.Cursor) (h : c.rest ≠ []) :
    FailsWith Error.OfReading (closingTag c h) := by
  unfold closingTag
  dsimp only
  split
  · exact .ok _
  · exact .malformed rfl

theorem fails_quotedPieces (start : Text.Cursor) (quote : Char) (c : Text.Cursor) :
    FailsWith Error.OfReading (quotedPieces start quote c) := by
  rw [quotedPieces]
  dsimp only
  split
  · exact .ended _ _ _
  · split
    · exact .ok _
    · refine .bind (fails_mustache _ _) ?_
      rintro ⟨e, next, hn⟩
      have shorter : next.rest.length < c.rest.length :=
        Nat.lt_of_lt_of_le hn (Text.Cursor.length_skip_le _ _)
      exact .map (fails_quotedPieces start quote next) _
termination_by c.rest.length

theorem fails_attributePieces (c : Text.Cursor) :
    FailsWith Error.OfReading (attributePieces c) := by
  unfold attributePieces
  split
  · exact .ended _ _ _
  · split
    · exact .map (fails_mustache c _) _
    · split
      · exact .map (fails_quotedPieces _ _ _) _
      · dsimp only
        split
        · exact .error (Error.ofReading_within (by decide) _ _)
        · exact .ok _

theorem fails_attributeValue (c : Text.Cursor) : FailsWith Error.OfReading (attributeValue c) := by
  unfold attributeValue
  dsimp only
  split
  · exact .map (fails_attributePieces _) _
  · exact .ok _

theorem fails_attributes (used : List String) (c : Text.Cursor) :
    FailsWith Error.OfReading (attributes used c) := by
  rw [attributes]
  dsimp only
  split
  · exact .ended _ _ _
  · rename_i h
    split
    · exact .ok _
    · split
      · exact .ok _
      · split
        · exact .error (Error.ofReading_within (by decide) _ _)
        · rename_i named
          split
          · exact .error (Error.ofReading_within (by decide) _ _)
          · split
            · exact .malformed rfl
            · refine .bind (fails_attributeValue _) ?_
              rintro ⟨value, e, he⟩
              have shorter : e.rest.length < c.rest.length :=
                Nat.lt_of_le_of_lt he (Nat.lt_of_lt_of_le
                  (Text.Cursor.length_skip_lt h (Nat.pos_of_ne_zero named))
                  (Text.Cursor.length_skipWhile_le _ _))
              exact .map (fails_attributes _ e) _
termination_by c.rest.length

theorem fails_openingTag (c : Text.Cursor) (h : c.rest ≠ []) :
    FailsWith Error.OfReading (openingTag c h) := by
  rw [openingTag]
  exact .map (fails_attributes _ _) _

theorem fails_comment (opening closing : List Char) (c : Text.Cursor) (h : c.rest ≠ [])
    (ho : 0 < opening.length) : FailsWith Error.OfReading (comment opening closing c h ho) := by
  rw [comment]
  split
  · exact .ended _ _ _
  · exact .ok _

theorem fails_configBlock (c : Text.Cursor) : FailsWith Error.OfReading (configBlock c) := by
  rw [configBlock]
  dsimp only
  split
  · exact .ok _
  · split
    · exact .ended _ _ _
    · split
      · exact .error (Error.ofReading_on (by simp [Cause.code, Code.ofReading]) _)
      · exact .ok _

/-! ## Nodes -/

theorem ofReading_unexpected (wanted : String) (stop : Option Stop) :
    (Stop.unexpected wanted stop).OfReading := by
  rcases stop with _ | (_ | _ | _)
  all_goals exact List.mem_of_elem_eq_true rfl

theorem ofReading_enter {n : Nesting} {kind : ElementKind} {cause : Cause}
    (h : kind.enter n = .error cause) (s : Span) : (cause.on s).OfReading := by
  have kinds : cause.code ∈ Code.ofReading := by
    unfold ElementKind.enter at h
    split at h
    all_goals
      repeat' split at h
      all_goals cases h
      all_goals simp [Cause.code, Code.ofReading]
  exact Error.ofReading_on kinds s

mutual

theorem fails_nodes (n : Nesting) (c : Text.Cursor) : FailsWith Error.OfReading (nodes n c) := by
  rw [nodes]
  have shorter := Text.Cursor.length_skip_le c (literal c.rest).2
  dsimp only
  split
  · exact .ok _
  · refine .bind (fails_item n _ _) ?_
    rintro ⟨a | stop, e, he⟩
    · exact .map (fails_nodes n e) _
    · exact .ok _
termination_by c.rest.length * 4 + 2

theorem fails_item (n : Nesting) (c : Text.Cursor) (h : c.rest ≠ []) :
    FailsWith Error.OfReading (item n c h) := by
  rw [item]
  split
  · exact .map (fails_comment _ _ c h _) _
  · split
    · exact .map (fails_comment _ _ c h _) _
    · split
      · refine .bind (fails_braceTag c h) ?_
        rintro ⟨_ | e | header | _ | _, d, hd⟩
        · exact .ok _
        · exact .map (fails_ifRest n _ e d) _
        · exact .map (fails_eachRest n _ header d) _
        · exact .ok _
        · exact .ok _
      · split
        · exact .map (fails_closingTag c h) _
        · exact .map (fails_element n c h) _
termination_by c.rest.length * 4 + 1

theorem fails_ifRest (n : Nesting) (start : Position) (condition : Expr) (c : Text.Cursor) :
    FailsWith Error.OfReading (ifRest n start condition c) := by
  rw [ifRest]
  refine .bind (fails_nodes n c) ?_
  rintro ⟨consequent, stop⟩
  dsimp only
  split
  · exact .ok _
  · refine .bind (fails_nodes n _) ?_
    rintro ⟨alternate, stop⟩
    dsimp only
    split
    · exact .ok _
    · exact .error (ofReading_unexpected _ _)
  · exact .map (fails_ifRest n _ _ _) _
  · exact .error (ofReading_unexpected _ _)
termination_by c.rest.length * 4 + 3

theorem fails_eachRest (n : Nesting) (start : Position) (header : EachHeader)
    (c : Text.Cursor) : FailsWith Error.OfReading (eachRest n start header c) := by
  rw [eachRest]
  refine .bind (fails_nodes _ c) ?_
  rintro ⟨body, stop⟩
  dsimp only
  split
  · exact .ok _
  · refine .bind (fails_nodes _ _) ?_
    rintro ⟨alternate, stop⟩
    dsimp only
    split
    · exact .ok _
    · exact .error (ofReading_unexpected _ _)
  · exact .malformed rfl
  · exact .error (ofReading_unexpected _ _)
termination_by c.rest.length * 4 + 3

theorem fails_element (n : Nesting) (c : Text.Cursor) (h : c.rest ≠ []) :
    FailsWith Error.OfReading (element n c h) := by
  rw [element]
  refine .bind (fails_openingTag c h) ?_
  rintro ⟨opening, d, hd⟩
  dsimp only
  split
  · exact .error (Error.ofReading_on (by simp [Cause.code, Code.ofReading]) _)
  · split
    · rename_i hcause
      exact .error (ofReading_enter hcause _)
    · split
      · exact .ok _
      · refine .bind (fails_nodes _ d) ?_
        rintro ⟨children, stop⟩
        dsimp only
        split
        · split
          · exact .ok _
          · exact .error (Error.ofReading_on (by simp [Cause.code, Code.ofReading]) _)
        · exact .ended _ _ _
        · exact .error (ofReading_unexpected _ _)
termination_by c.rest.length * 4

end

theorem fails_read (cs : List Char) : FailsWith Error.OfReading (read cs) := by
  rw [read]
  refine .bind (fails_configBlock _) ?_
  rintro ⟨config, c⟩
  refine .bind (fails_nodes _ c) ?_
  rintro ⟨children, stop⟩
  dsimp only
  split
  · exact .error (ofReading_unexpected _ _)
  · exact .ok _

end Template

/-- A text that is not a template is refused for one of these reasons. -/
theorem Fragment.fails_ofText (source : String) :
    FailsWith Error.OfReading (Fragment.ofText source) := by
  unfold Fragment.ofText
  split
  · exact .ok _
  · rename_i e he
    exact .error (Template.fails_read source.toList e he)

end PromptTemplate
