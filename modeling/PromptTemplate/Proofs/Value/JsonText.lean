import PromptTemplate.Proofs.Json.Numerals
import PromptTemplate.Proofs.Value.Json
import PromptTemplate.Proofs.Value.Parts

/-!
# JSON texts of values

The text that is written for a value spells a JSON value, with brackets as deep as arrays and
objects are nested in it. Reading the text and converting what was read gives the same as
converting the JSON form of the value.
-/

namespace PromptTemplate.Value

open Json

/-! ## Numbers -/

theorem ofFloat_zero : Number.Binary.ofFloat 0 = .finite false 0 (-1074) := by decide +kernel

theorem ofFloat_negativeZero : Number.Binary.ofFloat (-0) = .finite true 0 (-1074) := by
  decide +kernel

theorem ofJson_of_float? {j : Json} {x : Float} (h : j.float? = some x) :
    ofJson j = .number x := by
  cases j with
  | integer => exact congrArg Value.number (Option.some.inj h)
  | double => exact congrArg Value.number (Option.some.inj h)
  | _ => cases h

/-- The decimal of a number that is read back is not zero. -/
theorem coefficient_ne_zero {x : Float} {negative : Bool} {m : Nat} {e : Int}
    (h : Number.Binary.ofFloat x = .finite negative m e) (hm : m ≠ 0) {d : Number.Decimal}
    (reads : (if negative then -d.toFloat else d.toFloat) = x) : d.coefficient ≠ 0 := by
  intro zero
  have value : d.toFloat = 0 := by
    rw [Number.Decimal.toFloat]
    exact if_pos (.inl zero)
  rw [value] at reads
  rw [← reads] at h
  cases negative with
  | false =>
    rw [if_neg Bool.false_ne_true, ofFloat_zero] at h
    cases h
    exact hm rfl
  | true =>
    rw [if_pos rfl, ofFloat_negativeZero] at h
    cases h
    exact hm rfl

/-- A number text with its value, if this is the number that the text stands for. -/
theorem spells_ofNumeral {negative : Bool} {whole fraction fs power : List Char} {p : Option Int}
    {x : Float} (hwhole : Whole whole) (hfraction : Fraction fraction fs) (hpower : Power power p)
    (finite : x.isFinite = true) (value : (ofNumeral negative whole fs p).float? = some x)
    (n : Nat) :
    ∃ j, Spells n ((if negative then ['-'] else []) ++ (whole ++ (fraction ++ power))) j ∧
      ofJson j = .number x := by
  refine ⟨_, .number hwhole hfraction hpower ?_, ofJson_of_float? value⟩
  intro y double
  rw [double] at value
  cases value
  exact finite

theorem exists_spelling_number {x : Float} (finite : x.isFinite = true) (reads : ReadsBack x)
    (n : Nat) :
    ∃ j, Spells n (Number.text x).toList j ∧ ofJson j = carried (.number x) := by
  obtain ⟨negative, m, e, parts⟩ := Number.exists_ofFloat finite
  by_cases zero : m = 0
  · subst zero
    have text : (Number.text x).toList = ['0'] := by
      rw [Number.text, Number.Layout.write, parts]
      simp [Number.Layout.value]
    have back : carried (.number x) = .number 0 := by
      rcases Number.eq_zero_of_ofFloat parts with rfl | rfl
      · rw [carried, if_pos finite, ite_self]
      · rw [carried, if_pos rfl]
    have value : (ofNumeral false ['0'] [] none).float? = some 0 :=
      float?_ofNumeral (fun _ _ => ofInt_zero) (by decide +kernel)
    rw [text, back]
    exact spells_ofNumeral whole_zero .none .none (by decide +kernel) value n
  -- Zero apart, the text is that of the shortest decimal, which is not zero either.
  · obtain ⟨decimal, integer⟩ := reads negative m e parts zero
    have nonzero := coefficient_ne_zero parts zero decimal
    obtain ⟨whole, fraction, fs, power, p, text, hwhole, hfraction, hpower, value⟩ :=
      (denotes_digits nonzero).read_back nonzero decimal integer
    have signed : x ≠ -0 := by
      rintro rfl
      rw [ofFloat_negativeZero] at parts
      cases parts
      exact zero rfl
    have written : (Number.text x).toList =
        (if negative then ['-'] else []) ++ (whole ++ (fraction ++ power)) := by
      rw [Number.text, Number.Layout.write, parts, ← text]
      dsimp only
      rw [if_neg zero]
      cases negative <;> simp
    rw [written, carried, if_neg signed, if_pos finite]
    exact spells_ofNumeral hwhole hfraction hpower finite value n

/-! ## Strings -/

theorem letter_control {c : Char} (h : c.toNat < 32) :
    Letter ['\\', 'u', '0', '0', hexDigit (c.toNat / 16), hexDigit (c.toNat % 16)] c := by
  have digits : ∀ n < 32, let ds := ['0', '0', hexDigit (n / 16), hexDigit (n % 16)]
      (ds.isEmpty || !ds.all (Number.isDigitOf 16)) = false ∧ Number.ofDigits 16 ds = n := by
    decide
  obtain ⟨digits, code⟩ := digits _ h
  exact .number rfl ((Number.digits_iff (by decide)).mpr digits) code

theorem letter_escape (c : Char) : Letter (escape c) c := by
  have code (n : Nat) (h : c.toNat = n) : c = Char.ofNat n := by rw [← h, Char.ofNat_toNat]
  unfold escape
  split_ifs with quote backslash line carriage tab back feed control
  · rw [quote]
    exact .escape (by decide)
  · rw [backslash]
    exact .escape (by decide)
  · rw [line]
    exact .escape (by decide)
  · rw [carriage]
    exact .escape (by decide)
  · rw [tab]
    exact .escape (by decide)
  · rw [code 8 back]
    exact .escape (by decide)
  · rw [code 12 feed]
    exact .escape (by decide)
  · exact letter_control control
  · exact .plain (Nat.not_lt.mp control) quote backslash

theorem letters_escape (cs : List Char) : Letters (cs.flatMap escape) cs := by
  induction cs with
  | nil => exact .nil
  | cons c cs ih => exact .cons (letter_escape c) ih

theorem quoted_eq (s : String) (rest : List Char) :
    quoted s rest = '"' :: (s.toList.flatMap escape ++ ['"']) ++ rest := by
  rw [quoted, List.cons_append, List.append_assoc, List.singleton_append]

/-! ## Lists -/

/-- An opening writes a text. -/
def Writes {α : Type} (o : Opening) (e : Spelling α) : Prop := ∀ rest, o rest = e.text ++ rest

section

variable {α : Type} {parts : List Opening} {es : List (Spelling α)}

theorem separated_eq (h : List.Forall₂ Writes parts es) (rest : List Char) :
    separated parts rest = [','].intercalate (es.map (·.text)) ++ rest := by
  induction h with
  | nil => rfl
  | @cons o e parts es first later ih =>
    cases later with
    | nil => simpa [separated] using first rest
    | @cons o' e' parts es second more =>
      change o (',' :: separated (o' :: parts) rest) = _
      rw [first, ih]
      simp only [List.map_cons, List.intercalate_cons_cons, List.append_assoc, List.cons_append,
        List.nil_append]

theorem bracketed_eq (opening closing : Char) (h : List.Forall₂ Writes parts es)
    (rest : List Char) : bracketed opening closing parts rest =
      opening :: ([','].intercalate (es.map (·.text)) ++ [closing]) ++ rest := by
  rw [bracketed, separated_eq h, List.cons_append, List.append_assoc, List.singleton_append]

end

/-! ## Values -/

mutual

/-- How deep arrays and objects are nested in a value. -/
def nesting : Value → Nat
  | .array items => itemsNesting items + 1
  | .object members => membersNesting members + 1
  | _ => 0

def itemsNesting : List Value → Nat
  | [] => 0
  | v :: rest => max v.nesting (itemsNesting rest)

def membersNesting : List (String × Value) → Nat
  | [] => 0
  | (_, v) :: rest => max v.nesting (membersNesting rest)

end

theorem nesting_le_of_mem {items : List Value} {v : Value} (h : v ∈ items) :
    v.nesting ≤ itemsNesting items := by
  induction items with
  | nil => cases h
  | cons a rest ih =>
    rw [itemsNesting]
    rcases List.mem_cons.mp h with rfl | h
    · exact Nat.le_max_left _ _
    · exact (ih h).trans (Nat.le_max_right _ _)

theorem nesting_le_of_mem_members {members : List (String × Value)} {e : String × Value}
    (h : e ∈ members) : e.2.nesting ≤ membersNesting members := by
  induction members with
  | nil => cases h
  | cons a rest ih =>
    rw [membersNesting]
    rcases List.mem_cons.mp h with rfl | h
    · exact Nat.le_max_left _ _
    · exact (ih h).trans (Nat.le_max_right _ _)

/-- The text of a value spells what comes back of the value. -/
def Spelled (n : Nat) (v : Value) : Prop :=
  ∃ e : Spelling Json, Writes v.jsonOpening e ∧ Spells n e.text e.value ∧ ofJson e.value = v.carried

theorem spelled_null {n : Nat} {v : Value} (opening : v.jsonOpening = ("null".toList ++ ·))
    (carried : v.carried = .null) : Spelled n v :=
  ⟨⟨"null".toList, .null⟩, fun rest => by rw [opening], .null, carried.symm⟩

theorem exists_items {n : Nat} {items : List Value} (h : ∀ v ∈ items, Spelled n v) :
    ∃ es : List (Spelling Json), List.Forall₂ Writes (itemOpenings items) es ∧
      (∀ e ∈ es, Spells n e.text e.value) ∧
        ofJsonItems (es.map (·.value)) = carriedItems items := by
  induction items with
  | nil => exact ⟨[], .nil, nofun, rfl⟩
  | cons v items ih =>
    obtain ⟨hv, hitems⟩ := List.forall_mem_cons.mp h
    obtain ⟨e, writes, spells, value⟩ := hv
    obtain ⟨es, allWrite, allSpell, values⟩ := ih hitems
    refine ⟨e :: es, .cons writes allWrite, List.forall_mem_cons.mpr ⟨spells, allSpell⟩, ?_⟩
    rw [List.map_cons, ofJsonItems, carriedItems, value, values]

theorem exists_members {n : Nat} {members : List (String × Value)}
    (h : ∀ e ∈ members, Spelled n e.2) :
    ∃ es : List (Spelling String × Spelling Json),
      List.Forall₂ Writes (memberOpenings members) (es.map fun e => e.1.member e.2) ∧
      (∀ e ∈ es, Letters e.1.text e.1.value.toList) ∧ (∀ e ∈ es, Spells n e.2.text e.2.value) ∧
        ofJsonMembers (es.map fun e => (e.1.member e.2).value) = carriedMembers members := by
  induction members with
  | nil => exact ⟨[], .nil, nofun, nofun, rfl⟩
  | cons member members ih =>
    obtain ⟨k, v⟩ := member
    obtain ⟨hv, hmembers⟩ := List.forall_mem_cons.mp h
    obtain ⟨es, allWrite, names, allSpell, values⟩ := ih hmembers
    rw [memberOpenings, carriedMembers]
    by_cases kept : v.isKept = true
    · obtain ⟨e, writes, spells, value⟩ := hv
      let name : Spelling String := ⟨k.toList.flatMap escape, k⟩
      have labelled : Writes (labelled k v.jsonOpening) (name.member e) := by
        intro rest
        rw [labelled, quoted, writes]
        simp [Spelling.member, name]
      rw [if_pos kept, if_pos kept]
      refine ⟨(name, e) :: es, .cons labelled allWrite,
        List.forall_mem_cons.mpr ⟨letters_escape _, names⟩,
        List.forall_mem_cons.mpr ⟨spells, allSpell⟩, ?_⟩
      rw [List.map_cons, Spelling.member, ofJsonMembers, value, values]
    · rw [if_neg kept, if_neg kept]
      exact ⟨es, allWrite, names, allSpell, values⟩

theorem keys_ofJsonMembers (members : List (String × Json)) :
    Dictionary.keys (ofJsonMembers members) = Dictionary.keys members := by
  induction members with
  | nil => rfl
  | cons e members ih => exact congrArg (e.1 :: ·) ih

theorem keys_carriedMembers (members : List (String × Value)) :
    (Dictionary.keys (carriedMembers members)).Sublist (Dictionary.keys members) := by
  induction members with
  | nil => exact .slnil
  | cons e members ih =>
    obtain ⟨k, v⟩ := e
    rw [carriedMembers]
    split
    · exact ih.cons_cons k
    · exact ih.cons k

/-- All numbers in a value are read back from their shortest decimals. -/
def NumbersReadBack (v : Value) : Prop := v.Everywhere fun a => ∀ x, a = .number x → ReadsBack x

theorem spelled {v : Value} (unique : v.UniqueKeys)
    (numbers : v.NumbersReadBack) {n : Nat} (hn : v.nesting ≤ n) : Spelled n v := by
  induction v using induct generalizing n with
  | undefined => exact spelled_null rfl rfl
  | null => exact spelled_null rfl rfl
  | function => exact spelled_null rfl rfl
  | bool b =>
    cases b with
    | false => exact ⟨⟨"false".toList, .bool false⟩, fun _ => rfl, .false, rfl⟩
    | true => exact ⟨⟨"true".toList, .bool true⟩, fun _ => rfl, .true, rfl⟩
  | number x =>
    by_cases finite : x.isFinite = true
    · obtain ⟨j, spells, value⟩ := exists_spelling_number finite (numbers.here x rfl) n
      refine ⟨⟨(Number.text x).toList, j⟩, fun rest => ?_, spells, value⟩
      rw [jsonOpening, if_pos finite]
    · refine spelled_null ?_ ?_
      · rw [jsonOpening, if_neg finite]
      · have signed : x ≠ -0 := by
          rintro rfl
          exact finite (by decide +kernel)
        rw [carried, if_neg signed, if_neg finite]
  | string s =>
    exact ⟨⟨'"' :: (s.toList.flatMap escape ++ ['"']), .string s⟩, quoted_eq s,
      .string (letters_escape _), rfl⟩
  | array items ih =>
    obtain ⟨n, rfl⟩ : ∃ m, n = m + 1 := ⟨n - 1, by rw [nesting] at hn; omega⟩
    rw [nesting, Nat.add_le_add_iff_right] at hn
    have inside := uniqueKeys_array.mp unique
    have numbers := (everywhere_array.mp numbers).2
    obtain ⟨es, writes, spells, values⟩ := exists_items fun v mem =>
      ih v mem (inside v mem) (numbers v mem) ((nesting_le_of_mem mem).trans hn)
    exact ⟨⟨_, .array (es.map (·.value))⟩, bracketed_eq '[' ']' writes, .array spells,
      congrArg Value.array values⟩
  | object members ih =>
    obtain ⟨n, rfl⟩ : ∃ m, n = m + 1 := ⟨n - 1, by rw [nesting] at hn; omega⟩
    rw [nesting, Nat.add_le_add_iff_right] at hn
    obtain ⟨distinct, inside⟩ := uniqueKeys_object.mp unique
    have numbers := (everywhere_object.mp numbers).2
    obtain ⟨es, writes, names, spells, values⟩ := exists_members fun e mem =>
      ih e mem (inside e mem) (numbers e mem) ((nesting_le_of_mem_members mem).trans hn)
    have opening := bracketed_eq '{' '}' writes
    rw [List.map_map] at opening
    refine ⟨⟨_, _⟩, opening, .object names spells, ?_⟩
    have distinct : (Dictionary.keys (es.map fun e => (e.1.member e.2).value)).Nodup := by
      rw [← keys_ofJsonMembers, values]
      exact distinct.sublist (keys_carriedMembers members)
    change ofJson (.object (Dictionary.ofList (es.map fun e => (e.1.member e.2).value))) = _
    rw [Dictionary.ofList_of_nodup distinct, ofJson, carried, values]

/-- The text of a value is JSON without blanks, with brackets nested as deep as arrays and objects
are in the value. A reader with a limit above this depth reads it, and what it reads stands for
the same value as the JSON form of the value, with the members of objects in the same order. -/
theorem jsonText_spells {v : Value} (unique : v.UniqueKeys) (numbers : v.NumbersReadBack) :
    ∃ j, Spells v.nesting v.jsonText.toList j ∧ ofJson j = ofJson v.toJson ∧
      (∀ limit, v.nesting < limit → found (value? limit v.jsonText.toList) = some (j, [])) ∧
        (v.nesting < nestingLimit → read? v.jsonText = some j) := by
  obtain ⟨⟨text, j⟩, writes, spells, value⟩ := spelled unique numbers (Nat.le_refl v.nesting)
  have written : v.jsonText.toList = text := by
    rw [jsonText, String.toList_ofList, writes [], List.append_nil]
  rw [← ofJson_toJson] at value
  dsimp only at spells
  rw [← written] at spells
  exact ⟨j, spells, value, fun limit h => found_value?_spells spells h, read?_spells spells⟩

/-- A list that becomes null, numbers with a point and with an exponent, escaped characters, and a
member that is left out. -/
theorem jsonText_spells_nested :
    let v := Value.object [("a", .array [.undefined, .number 0.1, .string "\"\n"]),
      ("gone", .undefined), ("b", .number 1e21)]
    v.jsonText = "\x7b\"a\":[null,0.1,\"\\\"\\n\"],\"b\":1e+21\x7d" ∧ v.NumbersReadBack ∧
      ∃ j, read? v.jsonText = some j ∧ ofJson j = ofJson v.toJson := by
  intro v
  have tenth : ReadsBack 0.1 := by
    intro negative m e parts _
    have tenth : Number.Binary.ofFloat 0.1 = .finite false 7205759403792794 (-56) := by
      decide +kernel
    rw [tenth] at parts
    cases parts
    exact ⟨by decide +kernel, fun whole => absurd whole (by decide +kernel)⟩
  have large : ReadsBack 1e21 := by
    intro negative m e parts _
    have large : Number.Binary.ofFloat 1e21 = .finite false 7629394531250000 17 := by
      decide +kernel
    rw [large] at parts
    cases parts
    exact ⟨by decide +kernel, fun _ => by decide +kernel⟩
  have atom {w : Value} (array : w.kind ≠ .array) (object : w.kind ≠ .object)
      (number : ∀ x, w = .number x → ReadsBack x) : w.UniqueKeys ∧ w.NumbersReadBack :=
    ⟨uniqueKeys_atom array object, (everywhere_atom array object).mpr number⟩
  have undefined := atom (w := .undefined) nofun nofun nofun
  have string := atom (w := .string "\"\n") nofun nofun nofun
  have small := atom (w := .number 0.1) nofun nofun (by rintro _ ⟨⟩; exact tenth)
  have large := atom (w := .number 1e21) nofun nofun (by rintro _ ⟨⟩; exact large)
  have unique : v.UniqueKeys := by
    simp [v, uniqueKeys_object, uniqueKeys_array, undefined, string, small, large, Dictionary.keys]
  have numbers : v.NumbersReadBack := by
    simp only [NumbersReadBack] at *
    simp [v, everywhere_object, everywhere_array, undefined, string, small, large]
  obtain ⟨j, -, value, -, read⟩ := jsonText_spells unique numbers
  exact ⟨by decide +kernel, numbers, j, read (by decide), value⟩

/-- An array in an array, and so on. -/
def deep : Nat → Value
  | 0 => .array []
  | n + 1 => .array [deep n]

theorem jsonOpening_deep (n : Nat) (rest : List Char) :
    (deep n).jsonOpening rest =
      List.replicate (n + 1) '[' ++ (List.replicate (n + 1) ']' ++ rest) := by
  induction n generalizing rest with
  | zero => rfl
  | succ n ih =>
    change '[' :: (deep n).jsonOpening (']' :: rest) = _
    have closing : List.replicate (n + 1 + 1) ']' = List.replicate (n + 1) ']' ++ [']'] :=
      List.replicate_succ'
    rw [ih, closing, List.append_assoc]
    rfl

/-- The text of an array that is nested as deep as the limit is not read. -/
theorem read?_deep {n : Nat} (h : nestingLimit ≤ n + 1) : read? (deep n).jsonText = none := by
  obtain ⟨more, hmore⟩ := Nat.exists_eq_add_of_le h
  have text : (deep n).jsonText.toList = List.replicate nestingLimit '[' ++
      (List.replicate more '[' ++ (List.replicate (n + 1) ']' ++ [])) := by
    rw [jsonText, String.toList_ofList, jsonOpening_deep, ← List.append_assoc,
      ← List.append_assoc, ← List.replicate_add, ← hmore, List.append_assoc]
  have stops := value?_replicate nestingLimit
    (List.replicate more '[' ++ (List.replicate (n + 1) ']' ++ []))
  rw [← text] at stops
  rw [read?, stops]

theorem not_read_deep :
    ¬ ∃ j, read? (deep 127).jsonText = some j ∧ ofJson j = ofJson (deep 127).toJson := by
  rintro ⟨j, read, -⟩
  rw [read?_deep (by decide)] at read
  cases read

end PromptTemplate.Value
