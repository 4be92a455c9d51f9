import PromptTemplate.Json.Reader
import PromptTemplate.Proofs.Number.Conversion

/-!
# The grammar of JSON

A text without blanks spells a JSON value. The reader finds the value that a text spells,
whatever follows it in a list or an object, as long as brackets are nested less deep than its
limit.
-/

namespace PromptTemplate.Json

open Number

/-! ## The grammar -/

/-- Characters with a backslash, and what they stand for. -/
def escapes : List (Char × Char) :=
  [('"', '"'), ('\\', '\\'), ('/', '/'), ('b', Char.ofNat 8), ('f', Char.ofNat 12), ('n', '\n'),
    ('r', '\r'), ('t', '\t')]

/-- A character in a string. -/
inductive Letter : List Char → Char → Prop where
  | plain {c : Char} (printable : 32 ≤ c.toNat) (quote : c ≠ '"') (backslash : c ≠ '\\') :
    Letter [c] c
  | escape {e c : Char} (h : (e, c) ∈ escapes) : Letter ['\\', e] c
  | number {ds : List Char} {c : Char} (length : ds.length = 4) (digits : Digits 16 ds)
    (code : ofDigits 16 ds = c.toNat) : Letter ('\\' :: 'u' :: ds) c

/-- The characters of a string without its quotes. -/
inductive Letters : List Char → List Char → Prop where
  | nil : Letters [] []
  | cons {cs more s : List Char} {c : Char} (first : Letter cs c) (later : Letters more s) :
    Letters (cs ++ more) (c :: s)

/-- Digits without a zero before the others. -/
structure Whole (ds : List Char) : Prop extends Digits 10 ds where
  leading : ds.head? = some '0' → ds = ['0']

/-- The digits after a point, if there is one. -/
inductive Fraction : List Char → List Char → Prop where
  | none : Fraction [] []
  | digits {ds : List Char} (h : Digits 10 ds) : Fraction ('.' :: ds) ds

/-- A power of ten, if there is one. -/
inductive Power : List Char → Option Int → Prop where
  | none : Power [] none
  | digits {c : Char} {sign ds : List Char} (letter : c = 'e' ∨ c = 'E') (hsign : IsSign sign)
    (h : Digits 10 ds) :
    Power (c :: (sign ++ ds)) (some (if sign = ['-'] then -ofDigits 10 ds else ofDigits 10 ds))

/-- The value of a number with these parts. A whole number in range is an integer unless it is
the negative zero, and every other number is the double next to it. -/
def ofNumeral (negative : Bool) (whole fraction : List Char) (power : Option Int) : Json :=
  let n : Int := if negative then -ofDigits 10 whole else ofDigits 10 whole
  let d : Decimal := ⟨ofDigits 10 (whole ++ fraction), power.getD 0 - fraction.length⟩
  if fraction = [] ∧ power = none ∧ isInteger n = true ∧ ¬ (negative = true ∧ n = 0) then .integer n
  else .double (if negative then -d.toFloat else d.toFloat)

/-- A text and what it spells. -/
structure Spelling (α : Type) where
  text : List Char
  value : α

/-- A member of an object from its name and its value. -/
def Spelling.member (name : Spelling String) (e : Spelling Json) : Spelling (String × Json) :=
  ⟨'"' :: (name.text ++ '"' :: ':' :: e.text), (name.value, e.value)⟩

/-- A text spells a value with brackets nested at most so deep. -/
inductive Spells : Nat → List Char → Json → Prop where
  | null {n : Nat} : Spells n "null".toList .null
  | true {n : Nat} : Spells n "true".toList (.bool true)
  | false {n : Nat} : Spells n "false".toList (.bool false)
  | string {n : Nat} {cs : List Char} {s : String} (h : Letters cs s.toList) :
    Spells n ('"' :: (cs ++ ['"'])) (.string s)
  | number {n : Nat} {negative : Bool} {whole fraction fs power : List Char} {p : Option Int}
    (hwhole : Whole whole) (hfraction : Fraction fraction fs) (hpower : Power power p)
    (finite : ∀ x, ofNumeral negative whole fs p = .double x → x.isFinite = Bool.true) :
    Spells n ((if negative then ['-'] else []) ++ (whole ++ (fraction ++ power)))
      (ofNumeral negative whole fs p)
  | array {n : Nat} {items : List (Spelling Json)} (h : ∀ e ∈ items, Spells n e.text e.value) :
    Spells (n + 1) ('[' :: ([','].intercalate (items.map (·.text)) ++ [']']))
      (.array (items.map (·.value)))
  | object {n : Nat} {members : List (Spelling String × Spelling Json)}
    (names : ∀ e ∈ members, Letters e.1.text e.1.value.toList)
    (h : ∀ e ∈ members, Spells n e.2.text e.2.value) :
    Spells (n + 1)
      ('\x7b' :: ([','].intercalate
        (members.map fun e => '"' :: (e.1.text ++ '"' :: ':' :: e.2.text)) ++ ['\x7d']))
      (.object (Dictionary.ofList (members.map fun e => (e.1.value, e.2.value))))

/-! ## Strings -/

theorem fourDigits?_append {ds : List Char} (length : ds.length = 4) (digits : Digits 16 ds)
    (more : List Char) : fourDigits? (ds ++ more) = some (ofDigits 16 ds, more) := by
  obtain ⟨a, b, c, d, rfl⟩ := List.length_eq_four.mp length
  have all : [a, b, c, d].all (isDigitOf 16) = true :=
    List.all_eq_true.mpr fun e he => (mem_digitsOf (by decide)).mp (digits.digits e he)
  simp only [List.cons_append, List.nil_append, fourDigits?, all, ↓reduceIte]

theorem numbered?_append {ds : List Char} {c : Char} (length : ds.length = 4)
    (digits : Digits 16 ds) (code : ofDigits 16 ds = c.toNat) (more : List Char) :
    numbered? (ds ++ more) = some (c, more) := by
  have valid : c.toNat < 0xD800 ∨ 0xDFFF < c.toNat ∧ c.toNat < 0x110000 := c.valid
  rw [numbered?, fourDigits?_append length digits]
  simp only [code]
  rw [if_neg (by omega), if_neg (by omega), Char.ofNat_toNat]

theorem stringStep?_letter {cs : List Char} {c : Char} (h : Letter cs c) (more : List Char) :
    stringStep? (cs ++ more) = some (some c, more) := by
  cases h with
  | plain printable quote backslash =>
    rw [List.singleton_append, stringStep?.eq_def]
    simp [backslash, Nat.not_lt.mpr printable]
  | escape h =>
    have known : ∀ e ∈ escapes, e.1 ≠ 'u' ∧ simpleEscape? e.1 = some e.2 := by decide
    obtain ⟨plain, known⟩ := known _ h
    rw [List.cons_append, List.singleton_append, stringStep?.eq_def]
    simp [known]
  | number length digits code =>
    rw [List.cons_append, List.cons_append, stringStep?, numbered?_append length digits code]
    rfl

theorem stringBody?_letters {cs s : List Char} (h : Letters cs s) (more : List Char) :
    stringBody? (cs ++ '"' :: more) = some (s, more) := by
  induction h with
  | nil =>
    have stop : stringStep? ('"' :: more) = some (none, more) := rfl
    rw [List.nil_append, stringBody?]
    split <;> simp_all
  | cons first _ ih =>
    have step := stringStep?_letter first
    rw [List.append_assoc, stringBody?]
    split <;> simp_all

theorem string?_letters {cs : List Char} {s : String} (h : Letters cs s.toList)
    (more : List Char) : string? ('"' :: (cs ++ '"' :: more)) = some (s, more) := by
  rw [string?, stringBody?_letters h]
  simp

/-! ## Numbers -/

/-- What may follow a value in a list or an object, or at the end. -/
def Follows (rest : List Char) : Prop := ∀ c ∈ rest.head?, c = ',' ∨ c = ']' ∨ c = '}'

section

variable {rest : List Char}

theorem Whole.read {ds : List Char} (h : Whole ds) (hrest : ∀ c ∈ rest.head?, c.isDigit = false) :
    wholeDigits? (ds ++ rest) = some (ds, rest) := by
  have digits : ∀ d ∈ ds, d.isDigit = true := fun d hd => mem_digitsOf_ten.mp (h.digits d hd)
  have accepted : (ds.isEmpty || (ds.head? == some '0' && 1 < ds.length)) = false := by
    rw [List.isEmpty_eq_false_iff.mpr h.nonempty, Bool.false_or, Bool.and_eq_false_imp]
    intro zero
    rw [h.leading (beq_iff_eq.mp zero)]
    rfl
  rw [wholeDigits?, Text.Cursor.takeWhile_front digits hrest,
    Text.Cursor.dropWhile_front digits hrest]
  simp only [accepted, Bool.false_eq_true, ↓reduceIte]

theorem Fraction.read {cs fs : List Char} (h : Fraction cs fs)
    (hrest : ∀ c ∈ rest.head?, c.isDigit = false ∧ c ≠ '.') :
    fractionDigits? (cs ++ rest) = some (fs, rest) := by
  cases h with
  | none =>
    cases rest with
    | nil => rfl
    | cons c rest =>
      obtain ⟨-, point⟩ := hrest c rfl
      exact fractionDigits?.eq_2 _ fun more same => point (List.cons.inj same).1
  | digits h =>
    have digits : ∀ d ∈ fs, d.isDigit = true := fun d hd => mem_digitsOf_ten.mp (h.digits d hd)
    have stops : ∀ c ∈ rest.head?, c.isDigit = false := fun c hc => (hrest c hc).1
    rw [List.cons_append, fractionDigits?, Text.Cursor.takeWhile_front digits stops,
      Text.Cursor.dropWhile_front digits stops]
    simp [h.nonempty]

theorem Power.read {cs : List Char} {p : Option Int} (h : Power cs p)
    (hrest : ∀ c ∈ rest.head?, c.isDigit = false ∧ c ≠ 'e' ∧ c ≠ 'E') :
    power? (cs ++ rest) = some (p, rest) := by
  cases h with
  | none =>
    cases rest with
    | nil => rfl
    | cons c rest =>
      obtain ⟨-, small, large⟩ := hrest c rfl
      rw [List.nil_append, power?, if_neg (by simp [small, large])]
  | @digits c sign ds letter hsign h =>
    have digits : ∀ d ∈ ds, d.isDigit = true := fun d hd => mem_digitsOf_ten.mp (h.digits d hd)
    have stops : ∀ c ∈ rest.head?, c.isDigit = false := fun c hc => (hrest c hc).1
    have plain : ∀ c ∈ (ds ++ rest).head?, c ≠ '+' ∧ c ≠ '-' := by
      intro c hc
      rw [List.head?_append_of_ne_nil _ h.nonempty] at hc
      obtain ⟨more, rfl⟩ := List.head?_eq_some_iff.mp hc
      exact signed_digits (by decide) c more h
    rw [List.cons_append, List.append_assoc, power?, if_pos letter, signed_append hsign plain]
    dsimp only
    rw [Text.Cursor.takeWhile_front digits stops, Text.Cursor.dropWhile_front digits stops]
    simp [h.nonempty]

theorem Whole.head {ds : List Char} (h : Whole ds) :
    ∃ d more, ds = d :: more ∧ d.isDigit = true := by
  cases ds with
  | nil => exact absurd rfl h.nonempty
  | cons d more => exact ⟨d, more, rfl, mem_digitsOf_ten.mp (h.digits d List.mem_cons_self)⟩

/-- The parts of a number are read one after the other. -/
theorem number?_numeral {negative : Bool} {whole fraction fs power : List Char} {p : Option Int}
    (hwhole : Whole whole) (hfraction : Fraction fraction fs) (hpower : Power power p)
    (finite : ∀ x, ofNumeral negative whole fs p = .double x → x.isFinite = true)
    (hrest : Follows rest) :
    number? ((if negative then ['-'] else []) ++ (whole ++ (fraction ++ (power ++ rest)))) =
      some (ofNumeral negative whole fs p, rest) := by
  have afterPower : ∀ c ∈ rest.head?, c.isDigit = false ∧ c ≠ 'e' ∧ c ≠ 'E' ∧ c ≠ '.' := by
    intro c hc
    rcases hrest c hc with rfl | rfl | rfl <;> decide
  have afterFraction : ∀ c ∈ (power ++ rest).head?, c.isDigit = false ∧ c ≠ '.' := by
    intro c hc
    cases hpower with
    | none =>
      obtain ⟨digit, -, -, point⟩ := afterPower c hc
      exact ⟨digit, point⟩
    | digits letter =>
      obtain rfl := Option.some.inj hc
      rcases letter with rfl | rfl <;> decide
  have afterWhole : ∀ c ∈ (fraction ++ (power ++ rest)).head?, c.isDigit = false := by
    intro c hc
    cases hfraction with
    | none => exact (afterFraction c hc).1
    | digits =>
      obtain rfl := Option.some.inj hc
      rfl
  have readWhole := hwhole.read afterWhole
  have readFraction := hfraction.read afterFraction
  have readPower := hpower.read fun c hc => ⟨(afterPower c hc).1, (afterPower c hc).2.1,
    (afterPower c hc).2.2.1⟩
  have head : ∃ d body, whole ++ (fraction ++ (power ++ rest)) = d :: body ∧ d ≠ '-' := by
    obtain ⟨d, more, rfl, digit⟩ := hwhole.head
    refine ⟨d, _, rfl, ?_⟩
    rintro rfl
    cases digit
  obtain ⟨d, body, hbody, minus⟩ := head
  rw [hbody] at readWhole ⊢
  have sign : (((if negative then ['-'] else []) ++ d :: body).head? == some '-') = negative := by
    cases negative with
    | false => simpa using minus
    | true => rfl
  have unsigned : (if negative then ((if negative then ['-'] else []) ++ d :: body).drop 1
      else (if negative then ['-'] else []) ++ d :: body) = d :: body := by
    cases negative <;> rfl
  simp only [number?, sign, unsigned, readWhole, readFraction, readPower, Option.bind_eq_bind,
    Option.bind_some]
  unfold ofNumeral at finite ⊢
  dsimp only at finite ⊢
  generalize (if negative then -(ofDigits 10 whole : Int) else ofDigits 10 whole) = n at finite ⊢
  have integral : (fs.isEmpty && p.isNone && isInteger n && !(negative && n == 0)) = true ↔
      fs = [] ∧ p = none ∧ isInteger n = true ∧ ¬ (negative = true ∧ n = 0) := by
    cases negative <;> simp [and_assoc]
  by_cases h : fs = [] ∧ p = none ∧ isInteger n = true ∧ ¬ (negative = true ∧ n = 0)
  · rw [if_pos (integral.mpr h), if_pos h]
    rfl
  · rw [if_neg (mt integral.mp h), if_neg h, if_pos (finite _ (if_neg h))]
    rfl

end

/-! ## Lists -/

section

variable {α : Type}

/-- What a reader finds, and the rest, without the proof that it is shorter. -/
def found {cs : List Char} (result : Option (α × Shorter cs)) : Option (α × List Char) :=
  result.map fun (a, rest) => (a, rest.1)

theorem found_eq_some_iff {cs rest : List Char} {a : α} {result : Option (α × Shorter cs)} :
    found result = some (a, rest) ↔ ∃ shorter, result = some (a, ⟨rest, shorter⟩) := by
  constructor
  · intro h
    obtain ⟨⟨b, more, shorter⟩, rfl, same⟩ := Option.map_eq_some_iff.mp h
    cases same
    exact ⟨shorter, rfl⟩
  · rintro ⟨shorter, rfl⟩
    rfl

/-- A reader finds a value in a text, whatever follows it. -/
def Reads (item : (cs : List Char) → Option (α × Shorter cs)) (e : Spelling α) : Prop :=
  ∀ rest, Follows rest → found (item (e.text ++ rest)) = some (e.value, rest)

/-- A text begins with a character that neither is blank nor closes a list. -/
def Begins (cs : List Char) : Prop :=
  ∃ c more, cs = c :: more ∧ isSpace c = false ∧ c ≠ ']' ∧ c ≠ '}'

theorem skipSpace_cons {c : Char} (h : isSpace c = false) (rest : List Char) :
    skipSpace (c :: rest) = c :: rest :=
  List.dropWhile_cons_of_neg (by rw [h]; exact Bool.false_ne_true)

variable {item : (cs : List Char) → Option (α × Shorter cs)} {closing : Char}

/-- After an item comes the closing character, or a comma and more items. -/
theorem separated?_of_found {cs more : List Char} {a : α} {c : Char}
    (h : found (item cs) = some (a, c :: more)) (space : isSpace c = false) :
    found (separated? item closing cs) =
      if c = closing then some ([a], more)
      else if c = ',' then (found (separated? item closing more)).map fun (as, r) => (a :: as, r)
      else none := by
  obtain ⟨_, read⟩ := found_eq_some_iff.mp h
  rw [separated?, read]
  dsimp only
  split
  · rename_i ended
    rw [skipSpace_cons space] at ended
    cases ended
  · rename_i ended
    rw [skipSpace_cons space] at ended
    cases ended
    split
    · rfl
    split
    · rw [found, found, Option.map_map, Option.map_map]
      rfl
    · rfl

theorem listed?_cons {c : Char} (space : isSpace c = false) (rest : List Char) :
    found (listed? item closing (c :: rest)) =
      if c = closing then some ([], rest) else found (separated? item closing (c :: rest)) := by
  rw [listed?]
  split
  · rename_i ended
    rw [skipSpace_cons space] at ended
    cases ended
  · rename_i ended
    rw [skipSpace_cons space] at ended
    cases ended
    split
    · rfl
    · rfl

variable (hclosing : closing = ']' ∨ closing = '}')

include hclosing

theorem isSpace_closing : isSpace closing = false := by
  rcases hclosing with rfl | rfl <;> rfl

theorem separated?_last {e : Spelling α} (h : Reads item e) (rest : List Char) :
    found (separated? item closing (e.text ++ closing :: rest)) = some ([e.value], rest) := by
  have follows : Follows (closing :: rest) := by
    rintro c ⟨⟩
    exact .inr hclosing
  rw [separated?_of_found (h _ follows) (isSpace_closing hclosing), if_pos rfl]

theorem separated?_more {e : Spelling α} (h : Reads item e) {more rest : List Char} {as : List α}
    (later : found (separated? item closing more) = some (as, rest)) :
    found (separated? item closing (e.text ++ ',' :: more)) = some (e.value :: as, rest) := by
  have comma : ',' ≠ closing := by rcases hclosing with rfl | rfl <;> decide
  have follows : Follows (',' :: more) := by
    rintro c ⟨⟩
    exact .inl rfl
  rw [separated?_of_found (h _ follows) rfl, if_neg comma, if_pos rfl, later]
  rfl

theorem separated?_intercalate {items : List (Spelling α)} (nonempty : items ≠ [])
    (h : ∀ e ∈ items, Reads item e) (rest : List Char) :
    found (separated? item closing
      ([','].intercalate (items.map (·.text)) ++ closing :: rest)) =
        some (items.map (·.value), rest) := by
  induction items with
  | nil => exact absurd rfl nonempty
  | cons e items ih =>
    obtain ⟨first, later⟩ := List.forall_mem_cons.mp h
    cases items with
    | nil =>
      rw [List.map_singleton, List.intercalate_singleton]
      exact separated?_last hclosing first rest
    | cons e' items =>
      have later := ih (List.cons_ne_nil e' items) later
      rw [List.map_cons, List.map_cons, List.intercalate_cons_cons, List.append_assoc,
        List.append_assoc, List.singleton_append, ← List.map_cons]
      exact separated?_more hclosing first later

theorem listed?_intercalate {items : List (Spelling α)} (h : ∀ e ∈ items, Reads item e)
    (begins : ∀ e ∈ items, Begins e.text) (rest : List Char) :
    found (listed? item closing ([','].intercalate (items.map (·.text)) ++ closing :: rest)) =
      some (items.map (·.value), rest) := by
  cases items with
  | nil =>
    change found (listed? item closing (closing :: rest)) = _
    rw [listed?_cons (isSpace_closing hclosing), if_pos rfl]
    rfl
  | cons e items =>
    have read := separated?_intercalate hclosing (List.cons_ne_nil e items) h rest
    have begins : Begins ([','].intercalate ((e :: items).map (·.text)) ++ closing :: rest) := by
      obtain ⟨c, more, text, plain⟩ := begins e List.mem_cons_self
      cases items <;> simp [text, Begins, plain]
    obtain ⟨c, more, text, space, bracket, brace⟩ := begins
    have other : c ≠ closing := by rcases hclosing with rfl | rfl <;> assumption
    rw [text] at read ⊢
    rw [listed?_cons space, if_neg other, read]

end

/-! ## Values -/

/-- The characters that begin something else than a number. -/
def others : List Char :=
  ['"', 'n', 't', 'f', '[', ']', '{', '}', ' ', '\n', '\t', '\r']

/-- The first character of a number begins nothing else. -/
theorem Whole.begins {whole : List Char} (h : Whole whole) (negative : Bool) (rest : List Char) :
    ∃ c more, (if negative then ['-'] else []) ++ (whole ++ rest) = c :: more ∧
      c ∉ others := by
  obtain ⟨d, more, rfl, digit⟩ := h.head
  cases negative with
  | true => exact ⟨'-', _, rfl, by decide⟩
  | false =>
    have none : others.all (!·.isDigit) = true := rfl
    refine ⟨d, _, rfl, fun mem => ?_⟩
    have other := List.all_eq_true.mp none d mem
    rw [digit] at other
    cases other

theorem begins_of_spells {n : Nat} {cs : List Char} {j : Json} (h : Spells n cs j) :
    Begins cs := by
  cases h with
  | @number _ negative whole _ _ _ _ hwhole =>
    obtain ⟨c, more, text, other⟩ := hwhole.begins negative _
    rw [text]
    simp only [others, List.mem_cons, not_or] at other
    exact ⟨c, more, rfl, by simp [isSpace, other], other.2.2.2.2.2.1, other.2.2.2.2.2.2.2.1⟩
  | null => exact ⟨'n', _, rfl, rfl, by decide, by decide⟩
  | true => exact ⟨'t', _, rfl, rfl, by decide, by decide⟩
  | false => exact ⟨'f', _, rfl, rfl, by decide, by decide⟩
  | string => exact ⟨'"', _, rfl, rfl, by decide, by decide⟩
  | array => exact ⟨'[', _, rfl, rfl, by decide, by decide⟩
  | object => exact ⟨'{', _, rfl, rfl, by decide, by decide⟩

section

variable {limit : Nat} {rest : List Char}

theorem value?_cons {c : Char} (space : isSpace c = false) :
    found (value? (limit + 1) (c :: rest)) =
      if c = '[' then
        if limit = 0 then none
        else (found (listed? (value? limit) ']' rest)).map fun (as, r) => (.array as, r)
      else if c = '\x7b' then
        if limit = 0 then none
        else (found (listed? (member (value? limit)) '\x7d' rest)).map
          fun (members, r) => (.object (Dictionary.ofList members), r)
      else scalar? (c :: rest) := by
  rw [value?]
  split
  · rename_i ended
    rw [skipSpace_cons space] at ended
    cases ended
  rename_i ended
  rw [skipSpace_cons space] at ended
  cases ended
  dsimp only
  split
  · split
    · rfl
    · rw [found, found, Option.map_map, Option.map_map]
      rfl
  split
  · split
    · rfl
    · rw [found, found, Option.map_map, Option.map_map]
      rfl
  split
  · rename_i none
    exact none.symm
  · rename_i some
    exact some.symm

theorem member_reads {value : (cs : List Char) → Option (Json × Shorter cs)}
    {name : Spelling String} {e : Spelling Json} (letters : Letters name.text name.value.toList)
    (h : Reads value e) :
    Reads (member value) (name.member e) := by
  intro rest follows
  obtain ⟨_, read⟩ := found_eq_some_iff.mp (h rest follows)
  rw [Spelling.member]
  have key : string? (skipSpace ('"' :: (name.text ++ '"' :: ':' :: e.text) ++ rest)) =
      some (name.value, ':' :: (e.text ++ rest)) := by
    rw [List.cons_append, skipSpace_cons rfl, List.append_assoc]
    exact string?_letters letters _
  dsimp only
  rw [member]
  split
  · rename_i none
    rw [key] at none
    cases none
  · rename_i some
    rw [key] at some
    cases some
    split
    · rename_i colon
      rw [skipSpace_cons rfl] at colon
      cases colon
      rw [read]
      rfl
    · rename_i other
      exact absurd (skipSpace_cons rfl _) (other _)

end

theorem scalar?_other {c : Char} {more : List Char} (h : c ∉ others) :
    scalar? (c :: more) = number? (c :: more) := by
  simp only [others, List.mem_cons, not_or] at h
  simp [scalar?, h]

/-- A reader with a limit above the depth of a text finds the value that it spells. -/
theorem value?_spells {n : Nat} {cs : List Char} {j : Json} (h : Spells n cs j) {limit : Nat}
    (hlimit : n < limit) : Reads (value? limit) ⟨cs, j⟩ := by
  have scalar {cs : List Char} {j : Json} {limit : Nat} (begins : Begins cs)
      (bracket : cs.head? ≠ some '[') (brace : cs.head? ≠ some '{')
      (h : ∀ rest, Follows rest → scalar? (cs ++ rest) = some (j, rest)) :
      Reads (value? (limit + 1)) ⟨cs, j⟩ := by
    intro rest follows
    obtain ⟨c, more, rfl, space, -⟩ := begins
    dsimp only
    rw [List.cons_append, value?_cons space, if_neg fun same => bracket (congrArg some same),
      if_neg fun same => brace (congrArg some same)]
    exact h rest follows
  induction h generalizing limit with
  | null =>
    obtain ⟨limit, rfl⟩ := Nat.exists_eq_add_of_lt hlimit
    exact scalar (begins_of_spells (.null (n := 0))) nofun nofun fun _ _ => rfl
  | true =>
    obtain ⟨limit, rfl⟩ := Nat.exists_eq_add_of_lt hlimit
    exact scalar (begins_of_spells (.true (n := 0))) nofun nofun fun _ _ => rfl
  | false =>
    obtain ⟨limit, rfl⟩ := Nat.exists_eq_add_of_lt hlimit
    exact scalar (begins_of_spells (.false (n := 0))) nofun nofun fun _ _ => rfl
  | @string n cs s h =>
    obtain ⟨limit, rfl⟩ := Nat.exists_eq_add_of_lt hlimit
    refine scalar (begins_of_spells (.string (n := 0) h)) nofun nofun fun rest _ => ?_
    have read := string?_letters h rest
    change (string? ('"' :: (cs ++ ['"'] ++ rest))).map _ = _
    rw [List.append_assoc, List.singleton_append, read]
    rfl
  | @number n negative whole fraction fs power p hwhole hfraction hpower finite =>
    obtain ⟨limit, rfl⟩ := Nat.exists_eq_add_of_lt hlimit
    obtain ⟨c, more, text, other⟩ := hwhole.begins negative (fraction ++ power)
    have bracket : c ≠ '[' := fun same => other (same ▸ by decide)
    have brace : c ≠ '{' := fun same => other (same ▸ by decide)
    refine scalar (begins_of_spells (.number (n := 0) hwhole hfraction hpower finite)) ?_ ?_ ?_
    · rw [text]
      exact fun same => bracket (Option.some.inj same)
    · rw [text]
      exact fun same => brace (Option.some.inj same)
    · intro rest follows
      have read := number?_numeral hwhole hfraction hpower finite follows
      rw [← read, text, List.cons_append, scalar?_other other, ← List.cons_append, ← text]
      simp only [List.append_assoc]
  | @array n items h ih =>
    obtain ⟨limit, rfl⟩ : ∃ l, limit = l + 2 := ⟨limit - 2, by omega⟩
    intro rest follows
    have reads : ∀ e ∈ items, Reads (value? (limit + 1)) e := fun e he => ih e he (by omega)
    have read := listed?_intercalate (.inl rfl) reads (fun e he => begins_of_spells (h e he)) rest
    dsimp only
    rw [List.cons_append, List.append_assoc, List.singleton_append, value?_cons rfl, if_pos rfl,
      if_neg (Nat.succ_ne_zero limit), read]
    rfl
  | @object n members names h ih =>
    obtain ⟨limit, rfl⟩ : ∃ l, limit = l + 2 := ⟨limit - 2, by omega⟩
    intro rest follows
    have reads : ∀ e ∈ members.map (fun e => e.1.member e.2),
        Reads (member (value? (limit + 1))) e := by
      intro _ mem
      obtain ⟨e, he, rfl⟩ := List.mem_map.mp mem
      exact member_reads (names e he) (ih e he (by omega))
    have begins : ∀ e ∈ members.map (fun e => e.1.member e.2), Begins e.text := by
      intro _ mem
      obtain ⟨e, he, rfl⟩ := List.mem_map.mp mem
      exact ⟨'"', _, rfl, rfl, by decide, by decide⟩
    have read := listed?_intercalate (.inr rfl) reads begins rest
    rw [List.map_map, List.map_map] at read
    have bracket : '{' ≠ '[' := by decide
    dsimp only
    rw [List.cons_append, List.append_assoc, List.singleton_append, value?_cons rfl, if_neg bracket,
      if_pos rfl, if_neg (Nat.succ_ne_zero limit)]
    exact congrArg (Option.map _) read

/-- A text is read to its end. -/
theorem found_value?_spells {n limit : Nat} {cs : List Char} {j : Json} (h : Spells n cs j)
    (hlimit : n < limit) : found (value? limit cs) = some (j, []) := by
  have read := value?_spells h hlimit [] nofun
  dsimp only at read
  rwa [List.append_nil] at read

theorem read?_spells {n : Nat} {s : String} {j : Json} (h : Spells n s.toList j)
    (hlimit : n < nestingLimit) : read? s = some j := by
  obtain ⟨_, read⟩ := found_eq_some_iff.mp (found_value?_spells h hlimit)
  rw [read?, read]
  rfl

/-- No reader goes through as many opening brackets as its limit. -/
theorem value?_replicate (limit : Nat) (rest : List Char) :
    value? limit (List.replicate limit '[' ++ rest) = none := by
  induction limit with
  | zero => rfl
  | succ limit ih =>
    rw [List.replicate_succ, List.cons_append]
    refine Option.map_eq_none_iff.mp (Eq.trans (value?_cons rfl) ?_)
    rw [if_pos rfl]
    cases limit with
    | zero => rfl
    | succ limit =>
      have stops : found (separated? (value? (limit + 1)) ']'
          (List.replicate (limit + 1) '[' ++ rest)) = none := by
        rw [separated?, ih]
        rfl
      rw [if_neg (Nat.succ_ne_zero limit), List.replicate_succ, List.cons_append, listed?_cons rfl,
        if_neg (by decide), ← List.cons_append, ← List.replicate_succ, stops]
      rfl

end PromptTemplate.Json
