import Mathlib.Data.List.Infix
import PromptTemplate.Proofs.Token.Alone
import PromptTemplate.Proofs.Token.Strings

/-!
# Printed tokens

Keywords, marks, identifiers and strings can be written down one after the other with single
spaces between them. What has been written in this way is read as these tokens again, alone
and, if its braces are balanced, inside a tag.
-/

namespace PromptTemplate.Token

open Text

/-- A token that can be written down, with the quotes of a string. -/
inductive Writable where
  | keyword (k : Keyword)
  | mark (m : Mark)
  | identifier (name : String) (word : isName name = true)
      (free : Keyword.ofWord? name.toList = none)
  | string (quote : Char) (quoted : quote = '"' ∨ quote = '\'') (s : String)

/-- Backslashes and quotes with a backslash in front of them, and line feeds as letters with
one. -/
def escapeQuoted (quote : Char) (cs : List Char) : List Char :=
  cs.flatMap fun c =>
    if c = '\\' ∨ c = quote then ['\\', c] else if c = '\n' then ['\\', 'n'] else [c]

namespace Writable

def kind : Writable → Kind
  | keyword k => .keyword k
  | mark m => .mark m
  | identifier name _ _ => .identifier name
  | string _ _ s => .string s

def text : Writable → List Char
  | keyword k => k.chars
  | mark m => m.chars
  | identifier name _ _ => name.toList
  | string quote _ s => quote :: (escapeQuoted quote s.toList ++ [quote])

/-- Tokens with single spaces between them. -/
def print (ws : List Writable) : List Char := [' '].intercalate (ws.map text)

end Writable

/-- Right braces close left ones that stand before them, and none stays open. -/
structure Balanced (ks : List Kind) : Prop where
  opened : ∀ front, front <+: ks →
    front.count (.mark .rightBrace) ≤ front.count (.mark .leftBrace)
  closed : ks.count (.mark .rightBrace) = ks.count (.mark .leftBrace)

instance (ks : List Kind) : Decidable (Balanced ks) :=
  decidable_of_iff ((∀ front ∈ ks.inits,
      front.count (.mark .rightBrace) ≤ front.count (.mark .leftBrace)) ∧
      ks.count (.mark .rightBrace) = ks.count (.mark .leftBrace))
    ⟨fun ⟨opened, closed⟩ => ⟨fun front h => opened front ((List.mem_inits front ks).mpr h), closed⟩,
      fun h => ⟨fun front mem => h.opened front ((List.mem_inits front ks).mp mem), h.closed⟩⟩

/-! ## One token -/

/-- A space or nothing comes next. -/
def Spaced (cs : List Char) : Prop := ∀ c ∈ cs.head?, c = ' '

theorem Spaced.any {rest : List Char} (h : Spaced rest) {fits : Char → Bool}
    (space : fits ' ' = false) : rest.head?.any fits = false := by
  cases rest with
  | nil => rfl
  | cons c rest =>
    obtain rfl := h c rfl
    exact space

/-- After the first character of a token comes another one of its characters, or a space. -/
theorem Spaced.any_append {rest : List Char} (h : Spaced rest) {fits : Char → Bool}
    (space : fits ' ' = false) {taken : List Char} (inside : taken.head?.any fits = false) :
    (taken ++ rest).head?.any fits = false := by
  cases taken with
  | cons c taken => exact inside
  | nil => exact h.any space

theorem markAt_chars (m : Mark) {rest : List Char} (h : Spaced rest) :
    markAt (m.chars ++ rest) = some m := by
  cases rest with
  | nil => cases m <;> rfl
  | cons c rest =>
    obtain rfl := h c rfl
    cases m <;> rfl

theorem scan_mark (m : Mark) {rest : List Char} (h : Spaced rest) :
    ∃ c taken, m.chars = c :: taken ∧ isBlank c = false ∧
      scan .alone 0 c (taken ++ rest) = (.mark m, rest) := by
  obtain ⟨_, _, chars, -, -, -, -, -, -, point, arrow⟩ := Mark.chars_eq_cons m
  refine scan_mark_apart m (markAt_chars m h) fun c taken same => ?_
  obtain ⟨rfl, rfl⟩ := List.cons.inj (chars.symm.trans same)
  refine ⟨fun _ => h.any_append (by decide) point, fun equals next => ?_⟩
  have none := h.any_append (by decide) (arrow equals)
  rw [next] at none
  cases none

/-- The items of a string that has been written down. -/
theorem items_escapeQuoted (names : Char → List Char → Prop) {quote : Char}
    (quoted : quote = '"' ∨ quote = '\'') (cs : List Char) :
    Items names quote (escapeQuoted quote cs) cs := by
  induction cs with
  | nil => exact .nil
  | cons c cs ih =>
    rw [escapeQuoted, List.flatMap_cons]
    suffices item : Item names quote (if c = '\\' ∨ c = quote then ['\\', c]
        else if c = '\n' then ['\\', 'n'] else [c]) [c] from .cons item ih
    split
    · rename_i special
      have itself : c ≠ 'u' ∧ [c] = escaped c := by
        rcases special with rfl | rfl
        · decide
        · rcases quoted with rfl | rfl <;> decide
      have item : Item names quote ['\\', c] (escaped c) := .escape itself.1
      rwa [← itself.2] at item
    · rename_i plain
      rw [not_or] at plain
      split
      · rename_i newline
        subst newline
        exact .escape (c := 'n') (by decide)
      · rename_i newline
        exact .plain plain.2 plain.1 newline

theorem keyword_isName (k : Keyword) : isName k.symbol = true ∧ k.symbol.toList = k.chars := by
  cases k <;> decide +kernel

theorem Keyword.ofWord?_chars (k : Keyword) : Keyword.ofWord? k.chars = some k := by
  cases k <;> rfl

namespace Writable

/-- A written token is read if a space or nothing comes after it. -/
theorem scan_text (w : Writable) {rest : List Char} (h : Spaced rest) :
    ∃ c taken, w.text = c :: taken ∧ isBlank c = false ∧
      scan .alone 0 c (taken ++ rest) = (w.kind, rest) := by
  have ends : rest.head?.any isIdentifierPart = false :=
    h.any (by decide +kernel)
  cases w with
  | keyword k =>
    obtain ⟨name, chars⟩ := keyword_isName k
    obtain ⟨c, cs, text, blank, read⟩ := scan_name name ends
    rw [Kind.ofName, chars, Keyword.ofWord?_chars] at read
    exact ⟨c, cs, chars.symm.trans text, blank, read⟩
  | mark m => exact scan_mark m h
  | identifier name word free =>
    obtain ⟨c, cs, text, blank, read⟩ := scan_name word ends
    rw [Kind.ofName, free] at read
    exact ⟨c, cs, text, blank, read⟩
  | string quote quoted s =>
    refine ⟨quote, _, rfl, by rcases quoted with rfl | rfl <;> decide, ?_⟩
    have items := items_escapeQuoted NamesSigned quoted s.toList
    rw [scan_quoted quoted, Token.string, List.append_assoc, List.singleton_append,
      stringBody_items quoted items]
    exact congrArg (fun v => (Kind.string v, rest)) String.ofList_toList

theorem isTerminator_kind (w : Writable) : w.kind.isTerminator = false := by
  cases w <;> rfl

theorem kinds_text (w : Writable) {rest : List Char} (h : Spaced rest) :
    kinds (w.text ++ rest) = w.kind :: kinds rest := by
  obtain ⟨c, taken, text, blank, read⟩ := w.scan_text h
  rw [text, List.cons_append]
  exact kinds_token blank read w.isTerminator_kind

/-! ## Rows of tokens -/

/-- The induction is on the row. -/
theorem kinds_print_append (ws : List Writable) {rest : List Char} (h : Spaced rest) :
    kinds (print ws ++ rest) = ws.map kind ++ kinds rest := by
  induction ws with
  | nil => rfl
  | cons w ws ih =>
    cases ws with
    | nil =>
      rw [print, List.map_singleton, List.intercalate_singleton]
      exact w.kinds_text h
    | cons v ws =>
      have text : print (w :: v :: ws) ++ rest =
          w.text ++ ([' '] ++ (print (v :: ws) ++ rest)) := by
        simp [print]
      have spaced : Spaced ([' '] ++ (print (v :: ws) ++ rest)) := by
        rintro c ⟨⟩
        rfl
      have space : ∀ c ∈ [' '], isBlank c = true := List.forall_mem_singleton.mpr rfl
      rw [text, w.kinds_text spaced, kinds_blanks space, ih]
      rfl

end Writable

/-! ## Balanced braces -/

theorem depthAfter_add_count {n : Nat} {k : Kind} (h : ¬ (k = .mark .rightBrace ∧ n = 0)) :
    depthAfter n k + [k].count (.mark .rightBrace) = n + [k].count (.mark .leftBrace) := by
  unfold depthAfter
  split
  · rfl
  · have opened : n ≠ 0 := fun none => h ⟨rfl, none⟩
    have counts : [Kind.mark .rightBrace].count (.mark .rightBrace) = 1 ∧
        [Kind.mark .rightBrace].count (.mark .leftBrace) = 0 := ⟨rfl, rfl⟩
    omega
  · rename_i left right
    rw [List.count_eq_zero.mpr fun same => right (List.mem_singleton.mp same).symm,
      List.count_eq_zero.mpr fun same => left (List.mem_singleton.mp same).symm]

/-- Counting the braces of tokens tells how many are open after them. -/
theorem levelAfter?_eq_some {n m : Nat} {ts : List Token}
    (inner : ∀ t ∈ ts, t.kind.isTerminator = false)
    (opened : ∀ front, front <+: ts.map (·.kind) →
      front.count (.mark .rightBrace) ≤ n + front.count (.mark .leftBrace))
    (level : m + (ts.map (·.kind)).count (.mark .rightBrace) =
      n + (ts.map (·.kind)).count (.mark .leftBrace)) :
    levelAfter? n ts = some m := by
  induction ts generalizing n with
  | nil => exact congrArg some level.symm
  | cons t ts ih =>
    obtain ⟨goes_on, inner⟩ := List.forall_mem_cons.mp inner
    have inside : ¬ (t.kind = .mark .rightBrace ∧ n = 0) := by
      rintro ⟨brace, rfl⟩
      have first := opened [t.kind] (List.prefix_append _ _)
      rw [brace] at first
      exact absurd first (by decide)
    have after := depthAfter_add_count inside
    have counted (ks : List Kind) (k : Kind) :
        (t.kind :: ks).count k = [t.kind].count k + ks.count k := by
      rw [← List.singleton_append, List.count_append]
    rw [levelAfter?, if_neg (by simp [goes_on, inside])]
    refine ih inner (fun front h => ?_) ?_
    · have later := opened (t.kind :: front) (List.cons_prefix_cons.mpr ⟨rfl, h⟩)
      rw [counted front, counted front] at later
      omega
    · rw [List.map_cons, counted (ts.map _), counted (ts.map _)] at level
      omega

/-- Printing tokens and reading them again gives the same tokens, at the end of a text and, if
their braces are balanced, at the end of a tag. -/
theorem kinds_print (ws : List Writable) :
    (ofText (Writable.print ws)).map (·.kind) = ws.map Writable.kind ++ [.inputEnd] ∧
      (Balanced (ws.map Writable.kind) → ∀ rest,
        let read := ofTag Position.first (Writable.print ws ++ ' ' :: '}' :: '}' :: rest)
        read.1.map (·.kind) = ws.map Writable.kind ++ [.tagEnd] ∧ read.2.2 = rest) := by
  have alone (blanks : List Char) (spaced : Spaced blanks)
      (blank : ∀ c ∈ blanks, isBlank c = true) :
      kinds (Writable.print ws ++ blanks) = ws.map Writable.kind ++ [.inputEnd] := by
    rw [Writable.kinds_print_append ws spaced, kinds_blank blank]
  constructor
  · have whole := alone [] (by rintro c ⟨⟩) (List.forall_mem_nil _)
    rwa [List.append_nil] at whole
  · intro balanced rest
    have spaced := alone [' '] (by rintro c ⟨⟩; rfl) (List.forall_mem_singleton.mpr rfl)
    obtain ⟨body, lasts, tokens, kinds, last⟩ := List.map_eq_append_iff.mp spaced
    obtain ⟨t, rfl, ended⟩ := List.map_eq_singleton_iff.mp last
    have inner : ∀ t ∈ body, t.kind.isTerminator = false := by
      intro t ht
      have mem : t.kind ∈ ws.map Writable.kind := kinds ▸ List.mem_map_of_mem ht
      obtain ⟨w, -, same⟩ := List.mem_map.mp mem
      exact same ▸ w.isTerminator_kind
    have level : levelAfter? 0 body = some 0 := by
      apply levelAfter?_eq_some inner
      · intro front h
        rw [Nat.zero_add]
        exact balanced.opened front (kinds ▸ h)
      · rw [kinds, balanced.closed]
    have ends : t.kind.isEnd = true := by
      rw [ended]
      rfl
    obtain ⟨s, read⟩ := scanAll_tag 0 (Nat.le_refl 1) tokens level ends rest
    have text : Writable.print ws ++ ' ' :: '}' :: '}' :: rest =
        Writable.print ws ++ [' '] ++ '}' :: '}' :: rest := by simp
    have place : Position.first = Position.first.shift 0 := rfl
    simp only [ofTag]
    rw [text, place, read]
    refine ⟨?_, rfl⟩
    rw [List.map_append, List.map_map, ← kinds]
    rfl

/-- An object literal with two braces, a quote and a line feed in its string. -/
theorem kinds_print_object :
    ∃ ws : List Writable, ws.map Writable.kind = [.mark .leftBrace, .identifier "typeofs",
        .mark .colon, .string "\x7d\x7d \\'\n\"", .mark .rightBrace] ∧
      Balanced (ws.map Writable.kind) ∧
      (ofTag Position.first (Writable.print ws ++ " \x7d\x7d\x7d".toList)).1.map (·.kind) =
        ws.map Writable.kind ++ [.tagEnd] := by
  let ws : List Writable := [.mark .leftBrace,
    .identifier "typeofs" (by decide +kernel) (by decide +kernel), .mark .colon,
    .string '\'' (.inr rfl) "\x7d\x7d \\'\n\"", .mark .rightBrace]
  have balanced : Balanced (ws.map Writable.kind) := by decide +kernel
  exact ⟨ws, rfl, balanced, ((kinds_print ws).2 balanced ['}']).1⟩

end PromptTemplate.Token
