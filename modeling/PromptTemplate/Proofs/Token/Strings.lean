import PromptTemplate.Proofs.Number.Digits
import PromptTemplate.Proofs.Text.Taking
import PromptTemplate.Proofs.Token.Shielding

/-!
# String literals

Between its quotes a string literal is a row of items: characters that stand for themselves,
escaped characters, and escapes by number. The reader takes exactly these literals, but where
it reads a number it takes one with a plus sign, too.
-/

namespace PromptTemplate.Token

open Text

/-! ## Numbers of characters -/

def hexDigits : List Char := "0123456789abcdefABCDEF".toList

theorem mem_hexDigits {c : Char} : c ∈ hexDigits ↔ Number.isDigitOf 16 c = true := by
  have subset : hexDigits ⊆ Number.digitsOf 16 ∧ Number.digitsOf 16 ⊆ hexDigits := by decide
  rw [← Number.mem_digitsOf (by decide)]
  exact ⟨fun h => subset.1 h, fun h => subset.2 h⟩

/-- Hexadecimal digits that are the number of a character. -/
structure Names (x : Char) (ds : List Char) : Prop where
  nonempty : ds ≠ []
  digits : ∀ d ∈ ds, d ∈ hexDigits
  code : Number.ofDigits 16 ds = x.toNat

/-- The same with a plus sign in front, if there is one. -/
def NamesSigned (x : Char) (ds : List Char) : Prop :=
  Names x ds ∨ ∃ more, ds = '+' :: more ∧ Names x more

theorem not_names_plus (x : Char) (ds : List Char) : ¬ Names x ('+' :: ds) :=
  fun h => absurd (h.digits '+' List.mem_cons_self) (by decide)

theorem scalar?_eq_some_iff {n : Nat} {x : Char} : scalar? n = some x ↔ n = x.toNat := by
  constructor
  · intro h
    by_cases valid : n.isValidChar
    · rw [scalar?, dif_pos valid] at h
      cases h
      rfl
    · rw [scalar?, dif_neg valid] at h
      cases h
  · rintro rfl
    exact dif_pos x.valid

/-- The reader of numbers takes off a plus sign before it looks at the digits. -/
theorem scalar?_natural?_iff {ds : List Char} {x : Char} :
    (Number.natural? 16 (Nat.pow 2 32) ds).bind scalar? = some x ↔ NamesSigned x ds := by
  have unsigned (es : List Char) :
      ((if es.isEmpty || !es.all (Number.isDigitOf 16) then none
        else if Number.ofDigits 16 es < Nat.pow 2 32 then some (Number.ofDigits 16 es)
        else none).bind scalar? = some x) ↔ Names x es := by
    constructor
    · intro h
      split at h
      · cases h
      · rename_i fits
        simp only [Bool.or_eq_true, Bool.not_eq_true', not_or, Bool.not_eq_true, Bool.not_eq_false,
          List.isEmpty_eq_false_iff, List.all_eq_true] at fits
        split at h
        · exact ⟨fits.1, fun d hd => mem_hexDigits.mpr (fits.2 d hd), scalar?_eq_some_iff.mp h⟩
        · cases h
    · rintro ⟨nonempty, digits, code⟩
      have all : es.all (Number.isDigitOf 16) = true :=
        List.all_eq_true.mpr fun d hd => mem_hexDigits.mp (digits d hd)
      have small : x.toNat < Nat.pow 2 32 := x.val.toNat_lt
      rw [if_neg (by simp [nonempty, all]), code, if_pos small]
      exact scalar?_eq_some_iff.mpr rfl
  rw [Number.natural?, unsigned, NamesSigned]
  split
  · rename_i plus
    obtain ⟨more, rfl⟩ := List.head?_eq_some_iff.mp plus
    rw [List.drop_succ_cons, List.drop_zero]
    refine ⟨fun h => .inr ⟨more, rfl, h⟩, ?_⟩
    rintro (h | ⟨_, same, h⟩)
    · exact absurd h (not_names_plus x more)
    · cases same
      exact h
  · rename_i plain
    refine ⟨.inl, ?_⟩
    rintro (h | ⟨more, rfl, -⟩)
    · exact h
    · exact absurd rfl plain

/-! ## The grammar -/

/-- An item of a string literal: how it is written, and the characters it stands for. What
counts as the number of a character is given. -/
inductive Item (names : Char → List Char → Prop) (quote : Char) : List Char → List Char → Prop
  | plain {c : Char} (quoted : c ≠ quote) (escaped : c ≠ '\\') (newline : c ≠ '\n') :
      Item names quote [c] [c]
  | escape {c : Char} (number : c ≠ 'u') : Item names quote ['\\', c] (escaped c)
  | four {x : Char} {ds : List Char} (length : ds.length = 4) (number : names x ds) :
      Item names quote ('\\' :: 'u' :: ds) [x]
  | braced {x : Char} {ds : List Char} (number : names x ds) :
      Item names quote ('\\' :: 'u' :: '{' :: (ds ++ ['}'])) [x]

/-- Items one after the other. -/
inductive Items (names : Char → List Char → Prop) (quote : Char) :
    List Char → List Char → Prop
  | nil : Items names quote [] []
  | cons {used value more values : List Char} (first : Item names quote used value)
      (later : Items names quote more values) : Items names quote (used ++ more) (value ++ values)

/-- A text begins, after the opening quote, with a string literal that stands for some
characters. -/
def Literal (names : Char → List Char → Prop) (quote : Char) (cs value : List Char) : Prop :=
  ∃ body rest, cs = body ++ quote :: rest ∧ Items names quote body value

/-- An escape by number with a plus sign comes after some items of the literal. -/
def MeetsSign (quote : Char) (cs : List Char) : Prop :=
  ∃ used value more, cs = used ++ '\\' :: 'u' :: more ∧ Items Names quote used value ∧
    (more.head? = some '+' ∨ more.take 2 = ['{', '+'])

section

variable {names names' : Char → List Char → Prop} {quote : Char} {used value cs : List Char}

theorem Item.imp (h : Item names quote used value) (himp : ∀ x ds, names x ds → names' x ds) :
    Item names' quote used value := by
  cases h with
  | plain quoted escaped newline => exact .plain quoted escaped newline
  | escape number => exact .escape number
  | four length number => exact .four length (himp _ _ number)
  | braced number => exact .braced (himp _ _ number)

theorem Items.imp (h : Items names quote used value) (himp : ∀ x ds, names x ds → names' x ds) :
    Items names' quote used value := by
  induction h with
  | nil => exact .nil
  | cons first _ ih => exact .cons (first.imp himp) ih

/-- An item has a number without a sign, or is one with a sign. -/
theorem Item.unsigned_or (h : Item NamesSigned quote used value) (more : List Char) :
    Item Names quote used value ∨ MeetsSign quote (used ++ more) := by
  cases h with
  | plain quoted escaped newline => exact .inl (.plain quoted escaped newline)
  | escape number => exact .inl (.escape number)
  | four length number =>
    rcases number with number | ⟨ds, rfl, -⟩
    · exact .inl (.four length number)
    · exact .inr ⟨[], [], _, rfl, .nil, .inl rfl⟩
  | braced number =>
    rcases number with number | ⟨ds, rfl, -⟩
    · exact .inl (.braced number)
    · exact .inr ⟨[], [], _, rfl, .nil, .inr rfl⟩

theorem MeetsSign.cons (first : Item Names quote used value) (h : MeetsSign quote cs) :
    MeetsSign quote (used ++ cs) := by
  obtain ⟨before, values, more, rfl, items, sign⟩ := h
  exact ⟨used ++ before, value ++ values, more, by rw [List.append_assoc], .cons first items, sign⟩

theorem Items.unsigned (h : Items NamesSigned quote used value)
    (plain : ¬ MeetsSign quote (used ++ cs)) : Items Names quote used value := by
  induction h with
  | nil => exact .nil
  | cons first _ ih =>
    rw [List.append_assoc] at plain
    have first := (first.unsigned_or _).resolve_right plain
    exact .cons first (ih fun later => plain (later.cons first))

end

/-! ## The reader -/

theorem NamesSigned.mem {x : Char} {ds : List Char} (h : NamesSigned x ds) :
    ∀ d ∈ ds, d ∈ '+' :: hexDigits := by
  rcases h with h | ⟨more, rfl, h⟩
  · exact fun d hd => List.mem_cons_of_mem _ (h.digits d hd)
  · exact List.forall_mem_cons.mpr
      ⟨List.mem_cons_self, fun d hd => List.mem_cons_of_mem _ (h.digits d hd)⟩

/-- An escape by number is four characters, or those up to a closing brace, without which it
takes the whole text. -/
theorem numbered_eq_some_iff {cs more : List Char} {x : Char} :
    numbered cs = (some x, more) ↔
      (∃ ds, ds.length = 4 ∧ NamesSigned x ds ∧ cs = ds ++ more) ∨
      (∃ ds, NamesSigned x ds ∧ cs = '{' :: (ds ++ '}' :: more)) ∨
      (∃ ds, NamesSigned x ds ∧ cs = '{' :: ds ∧ more = []) := by
  have noBrace {ds : List Char} (h : NamesSigned x ds) : ∀ d ∈ ds, decide (d ≠ '}') = true := by
    refine fun d hd => decide_eq_true fun brace => ?_
    exact absurd (brace ▸ h.mem d hd) (by decide)
  by_cases braced : ∃ ds, cs = '{' :: ds
  · obtain ⟨ds, rfl⟩ := braced
    rw [numbered, Prod.mk.injEq, scalar?_natural?_iff]
    constructor
    · rintro ⟨number, rfl⟩
      right
      have whole := List.takeWhile_append_dropWhile (p := (· ≠ '}')) (l := ds)
      cases after : ds.dropWhile (· ≠ '}') with
      | nil =>
        rw [after, List.append_nil] at whole
        exact .inr ⟨_, number, by rw [whole], rfl⟩
      | cons c rest =>
        have brace : c = '}' := by
          have stops : c ∈ (ds.dropWhile (· ≠ '}')).head? := by rw [after]; rfl
          simpa using Cursor.head?_dropWhile stops
        rw [after, brace] at whole
        exact .inl ⟨_, number, by rw [List.drop_succ_cons, List.drop_zero, whole]⟩
    · rintro (⟨es, length, number, same⟩ | ⟨es, number, same⟩ | ⟨es, number, same, rfl⟩)
      · cases es with
        | nil => cases length
        | cons e es =>
          cases same
          exact absurd (number.mem '{' List.mem_cons_self) (by decide)
      · cases same
        rw [List.takeWhile_append_of_pos (noBrace number),
          List.dropWhile_append_of_pos (noBrace number)]
        simpa using number
      · cases same
        rw [List.takeWhile_eq_self_iff.mpr (noBrace number),
          List.dropWhile_eq_nil_iff.mpr (noBrace number)]
        exact ⟨number, rfl⟩
  · have plain : numbered cs = if cs.length < 4 then (none, []) else
        ((Number.natural? 16 (Nat.pow 2 32) (cs.take 4)).bind scalar?, cs.drop 4) := by
      unfold numbered
      split
      · exact absurd ⟨_, rfl⟩ braced
      · rfl
    rw [plain]
    constructor
    · intro h
      split at h
      · cases h
      · rename_i long
        rw [Prod.mk.injEq, scalar?_natural?_iff] at h
        obtain ⟨number, rfl⟩ := h
        exact .inl ⟨_, by simp; omega, number, (List.take_append_drop 4 cs).symm⟩
    · rintro (⟨ds, length, number, rfl⟩ | ⟨ds, -, same⟩ | ⟨ds, -, same, -⟩)
      · rw [if_neg (by simp [length]), List.take_left' length, List.drop_left' length,
          scalar?_natural?_iff.mpr number]
      · exact absurd ⟨_, same⟩ braced
      · exact absurd ⟨_, same⟩ braced

section

variable {quote : Char} (hquote : quote = '"' ∨ quote = '\'')

include hquote

/-- An item is read as what it stands for. -/
theorem stringBody_item {used value : List Char} (h : Item NamesSigned quote used value)
    (more : List Char) :
    stringBody quote (used ++ more) =
      ((stringBody quote more).1.map (value ++ ·), (stringBody quote more).2) := by
  have backslash : '\\' ≠ quote := by rcases hquote with rfl | rfl <;> decide
  have number {cs rest : List Char} {x : Char} (h : numbered cs = (some x, rest)) :
      stringBody quote ('\\' :: 'u' :: cs) =
        ((stringBody quote rest).1.map (x :: ·), (stringBody quote rest).2) := by
    rw [stringBody]
    simp [backslash, h]
  cases h with
  | plain quoted escaped newline =>
    rw [List.singleton_append, stringBody.eq_def]
    simp [quoted, escaped, newline]
  | escape plain =>
    rw [List.cons_append, List.singleton_append, stringBody]
    simp [backslash, plain]
  | four length named =>
    rw [List.cons_append, List.cons_append]
    exact number (numbered_eq_some_iff.mpr (.inl ⟨_, length, named, rfl⟩))
  | braced named =>
    refine number (numbered_eq_some_iff.mpr (.inr (.inl ⟨_, named, ?_⟩)))
    simp

theorem stringBody_items {body value : List Char} (h : Items NamesSigned quote body value)
    (rest : List Char) : stringBody quote (body ++ quote :: rest) = (.ok value, rest) := by
  induction h with
  | nil =>
    have plain : quote ≠ '\n' := by rcases hquote with rfl | rfl <;> decide
    rw [List.nil_append, stringBody.eq_def]
    simp [plain]
  | cons first _ ih =>
    rw [List.append_assoc, stringBody_item hquote first, ih]
    rfl

/-- The body of a literal is read to its quote, and nothing else is. -/
theorem stringBody_eq_ok_iff {cs value rest : List Char} :
    stringBody quote cs = (.ok value, rest) ↔
      ∃ body, cs = body ++ quote :: rest ∧ Items NamesSigned quote body value := by
  -- One item more in front of a body that has been read.
  have step {used more : List Char} {first values : List Char}
      {result : Except LexicalFault (List Char) × List Char}
      (item : Item NamesSigned quote used first)
      (h : (result.1.map (first ++ ·), result.2) = (.ok values, rest))
      (ih : ∀ {value}, result = (.ok value, rest) →
        ∃ body, more = body ++ quote :: rest ∧ Items NamesSigned quote body value) :
      ∃ body, used ++ more = body ++ quote :: rest ∧ Items NamesSigned quote body values := by
    obtain ⟨result, left⟩ := result
    cases result with
    | error fault => cases h
    | ok value =>
      cases h
      obtain ⟨body, rfl, items⟩ := ih rfl
      exact ⟨used ++ body, by rw [List.append_assoc], .cons item items⟩
  constructor
  · intro h
    fun_induction stringBody quote cs generalizing value with
    | case1 | case2 | case4 | case6 => cases h
    | case3 =>
      cases h
      exact ⟨[], rfl, .nil⟩
    | case5 =>
      rename_i more x found tail _ _ ih
      rcases numbered_eq_some_iff.mp (Prod.ext found rfl) with
        ⟨ds, length, number, same⟩ | ⟨ds, number, same⟩ | ⟨ds, number, same, none⟩
      · exact same ▸ step (.four length number) h ih
      · have items := step (.braced number) h ih
        rw [same]
        simpa using items
      · -- Without a closing brace the number takes the text to its end.
        have left : tail = (.error .unterminatedString, []) := by
          rw [← stringBody, ← none]
        rw [left] at h
        cases h
    | case7 =>
      rename_i c more plain tail _ _ ih
      exact step (.escape plain) h ih
    | case8 =>
      rename_i c more newline quoted escaped tail ih
      exact step (.plain quoted escaped newline) h ih
  · rintro ⟨body, rfl, items⟩
    exact stringBody_items hquote items rest

end

/-- At a quote the reader finds a string exactly if a string literal begins there, but that the
numbers of its escapes may have a plus sign. If none has, the reader goes by the rules alone.
Everything else is invalid. -/
theorem scan_eq_string_iff (mode : Mode) (depth : Nat) {quote : Char}
    (hquote : quote = '"' ∨ quote = '\'') (cs : List Char) :
    (∀ v, (scan mode depth quote cs).1 = .string v ↔ Literal NamesSigned quote cs v.toList) ∧
      (¬ MeetsSign quote cs → ∀ v,
        (scan mode depth quote cs).1 = .string v ↔ Literal Names quote cs v.toList) ∧
      ((∃ v, (scan mode depth quote cs).1 = .string v) ∨
        ∃ fault, (scan mode depth quote cs).1 = .invalid fault) := by
  have signed (v : String) :
      (scan mode depth quote cs).1 = .string v ↔ Literal NamesSigned quote cs v.toList := by
    rw [scan_quoted hquote, string]
    constructor
    · intro h
      split at h
      · rename_i body rest hread
        cases h
        obtain ⟨written, same, items⟩ := (stringBody_eq_ok_iff hquote).mp hread
        exact ⟨written, rest, same, by rwa [String.toList_ofList]⟩
      · cases h
    · rintro ⟨body, rest, same, items⟩
      rw [(stringBody_eq_ok_iff hquote).mpr ⟨body, same, items⟩]
      exact congrArg Kind.string (String.ofList_toList)
  refine ⟨signed, fun plain v => ?_, ?_⟩
  · rw [signed]
    constructor
    · rintro ⟨body, rest, rfl, items⟩
      exact ⟨body, rest, rfl, items.unsigned plain⟩
    · rintro ⟨body, rest, same, items⟩
      exact ⟨body, rest, same, items.imp fun _ _ => .inl⟩
  · rw [scan_quoted hquote, string]
    split
    · exact .inl ⟨_, rfl⟩
    · exact .inr ⟨_, rfl⟩

/-- Four digits, digits in braces, an escaped line end and an escaped quote. -/
theorem scan_eq_string_iff_escapes :
    ∃ cs v, cs = "\\u0041\\u\x7b1F600\x7d\\\n\\'b' c".toList ∧ v = "A😀'b" ∧
      ¬ MeetsSign '\'' cs ∧ (scan .alone 0 '\'' cs).1 = .string v ∧
      Literal Names '\'' cs v.toList := by
  have reads : (scan .alone 0 '\'' "\\u0041\\u\x7b1F600\x7d\\\n\\'b' c".toList).1 =
      .string "A😀'b" := by decide +kernel
  have unsigned : ¬ MeetsSign '\'' "\\u0041\\u\x7b1F600\x7d\\\n\\'b' c".toList := by
    rintro ⟨used, value, more, same, -, sign⟩
    have plus : '+' ∈ more := by
      rcases sign with sign | sign
      · exact List.mem_of_mem_head? sign
      · exact List.mem_of_mem_take (by rw [sign]; decide)
    have inside : '+' ∈ "\\u0041\\u\x7b1F600\x7d\\\n\\'b' c".toList := by
      rw [same]
      simp [plus]
    exact absurd inside (by decide)
  exact ⟨_, _, rfl, rfl, unsigned, reads,
    ((scan_eq_string_iff .alone 0 (.inr rfl) _).2.1 unsigned _).mp reads⟩

/-- Where four digits are wanted a sign and three digits are read. -/
theorem not_literal_of_sign :
    (scan .alone 0 '"' "\\u+041\"".toList).1 = .string "A" ∧
      ¬ Literal Names '"' "\\u+041\"".toList "A".toList := by
  refine ⟨by decide +kernel, ?_⟩
  generalize "A".toList = value
  rintro ⟨body, rest, same, items⟩
  cases items with
  | nil => cases same
  | cons first later =>
    cases first with
    | plain _ escaped _ => exact escaped (List.cons.inj same).1.symm
    | escape number => exact number (List.cons.inj (List.cons.inj same).2).1.symm
    | @four x ds length number =>
      cases ds with
      | nil => cases length
      | cons d ds =>
        obtain rfl : '+' = d := (List.cons.inj (List.cons.inj (List.cons.inj same).2).2).1
        exact not_names_plus x ds number
    | braced number => cases (List.cons.inj (List.cons.inj (List.cons.inj same).2).2).1

end PromptTemplate.Token
