import PromptTemplate.Proofs.Number.Digits
import PromptTemplate.Proofs.Number.Literals
import PromptTemplate.Proofs.Text.Taking
import PromptTemplate.Value.Basic

/-!
# Texts that name numbers

A text names a number if, its blank ends apart, it is empty, an infinity or a decimal literal
with an optional sign, or an unsigned literal in base sixteen, eight or two. The conversion of
texts takes exactly these, but for the digits of the three bases, where it takes a plus sign in
front of them and refuses a number that needs more than 64 bits.
-/

namespace PromptTemplate.Number

/-! ## The grammar -/

/-- A sign or none. -/
def IsSign (cs : List Char) : Prop := cs = [] ∨ cs = ['+'] ∨ cs = ['-']

/-- Digits with a point among them or none. -/
inductive Mantissa : List Char → Prop where
  | whole {ds : List Char} (h : Digits 10 ds) : Mantissa ds
  | point {ds fs : List Char} (h : Digits 10 ds) (fraction : ∀ d ∈ fs, d ∈ digitsOf 10) :
    Mantissa (ds ++ '.' :: fs)
  | fraction {fs : List Char} (h : Digits 10 fs) : Mantissa ('.' :: fs)

inductive Exponent : List Char → Prop where
  | none : Exponent []
  | power {c : Char} {sign ds : List Char} (letter : c = 'e' ∨ c = 'E') (h : IsSign sign)
    (digits : Digits 10 ds) : Exponent (c :: (sign ++ ds))

/-- A zero and the letter of a base. -/
inductive Announces : Nat → List Char → Prop where
  | hexadecimal {c : Char} (letter : c = 'x' ∨ c = 'X') : Announces 16 ['0', c]
  | octal {c : Char} (letter : c = 'o' ∨ c = 'O') : Announces 8 ['0', c]
  | binary {c : Char} (letter : c = 'b' ∨ c = 'B') : Announces 2 ['0', c]

/-- A text without blank ends that names a number. What may follow the letter of a base is
given. -/
inductive Numeral (follows : Nat → List Char → Prop) : List Char → Prop where
  | empty : Numeral follows []
  | infinity {sign : List Char} (h : IsSign sign) : Numeral follows (sign ++ "Infinity".toList)
  | decimal {sign mantissa exponent : List Char} (h : IsSign sign) (digits : Mantissa mantissa)
    (power : Exponent exponent) : Numeral follows (sign ++ (mantissa ++ exponent))
  | based {base : Nat} {letter ds : List Char} (h : Announces base letter)
    (digits : follows base ds) : Numeral follows (letter ++ ds)

/-- Digits of a number of 64 bits. -/
structure Fits (base : Nat) (ds : List Char) : Prop extends Digits base ds where
  small : ofDigits base ds < 2 ^ 64

/-- The same with a plus sign in front, if there is one. -/
def FitsSigned (base : Nat) (ds : List Char) : Prop :=
  Fits base ds ∨ ∃ more, ds = '+' :: more ∧ Fits base more

/-- A literal in one of the three bases that needs more than 64 bits, or has a plus sign before
its digits and needs no more. -/
def Misread (cs : List Char) : Prop :=
  ∃ base letter ds, cs = letter ++ ds ∧ Announces base letter ∧
    ((Digits base ds ∧ 2 ^ 64 ≤ ofDigits base ds) ∨ ∃ more, ds = '+' :: more ∧ Fits base more)

/-! ## Signs -/

/-- What has been put in front as a sign is taken off. -/
theorem signed_append {sign body : List Char} (hsign : IsSign sign)
    (plain : ∀ c ∈ body.head?, c ≠ '+' ∧ c ≠ '-') :
    signed (sign ++ body) = (decide (sign = ['-']), body) := by
  rcases hsign with rfl | rfl | rfl
  · cases body with
    | nil => rfl
    | cons c body =>
      obtain ⟨plus, minus⟩ := plain c rfl
      exact signed.eq_3 _ (by simp [minus]) (by simp [plus])
  · rfl
  · rfl

/-- Texts that do not begin with a sign are what is left without one. -/
theorem signed_iff {cs : List Char} {P : List Char → Prop}
    (plain : ∀ c body, P (c :: body) → c ≠ '+' ∧ c ≠ '-') :
    P (signed cs).2 ↔ ∃ sign body, IsSign sign ∧ cs = sign ++ body ∧ P body := by
  constructor
  · intro h
    unfold signed at h
    split at h
    · exact ⟨['-'], _, .inr (.inr rfl), rfl, h⟩
    · exact ⟨['+'], _, .inr (.inl rfl), rfl, h⟩
    · exact ⟨[], _, .inl rfl, rfl, h⟩
  · rintro ⟨sign, body, hsign, rfl, h⟩
    have unsigned : ∀ c ∈ body.head?, c ≠ '+' ∧ c ≠ '-' := by
      intro c hc
      obtain ⟨more, rfl⟩ := List.head?_eq_some_iff.mp hc
      exact plain c more h
    rwa [signed_append hsign unsigned]

theorem signed_eq_self {cs : List Char} (h : (signed cs).2.length = cs.length) :
    (signed cs).2 = cs := by
  unfold signed at h ⊢
  split <;> simp_all

theorem signed_digits {base : Nat} (hbase : base ≤ 16) (c : Char) (body : List Char)
    (h : Digits base (c :: body)) : c ≠ '+' ∧ c ≠ '-' := by
  have digit := digitsOf_subset hbase (h.digits c List.mem_cons_self)
  constructor
  · rintro rfl
    exact absurd digit (by decide)
  · rintro rfl
    exact absurd digit (by decide)

/-! ## Decimal literals -/

theorem isSome_exponent?_iff {cs : List Char} : (exponent? cs).isSome ↔ Exponent cs := by
  cases cs with
  | nil => exact iff_of_true rfl .none
  | cons c cs =>
    by_cases letter : c = 'e' ∨ c = 'E'
    · have digits : (exponent? (c :: cs)).isSome ↔ Digits 10 (signed cs).2 := by
        rw [exponent?, if_pos letter, digits_ten_iff]
        split
        simp_all
      rw [digits, signed_iff (signed_digits (by decide))]
      constructor
      · rintro ⟨sign, ds, hsign, rfl, hds⟩
        exact .power letter hsign hds
      · intro h
        cases h with
        | power _ hsign hds => exact ⟨_, _, hsign, rfl, hds⟩
    · rw [exponent?, if_neg letter]
      refine iff_of_false Bool.false_ne_true fun h => ?_
      cases h with
      | power other => exact letter other

section

variable {ds fs rest : List Char} (whole : ∀ d ∈ ds, d ∈ digitsOf 10)

include whole

/-- Digits without a point after them. -/
theorem unsignedDecimal?_whole (digits : ∀ c ∈ rest.head?, c.isDigit = false)
    (point : rest.head? ≠ some '.') :
    unsignedDecimal? (ds ++ rest) =
      if ds.isEmpty then none else (exponent? rest).map fun e => ⟨ofDigits 10 ds, e⟩ := by
  have whole : ∀ d ∈ ds, d.isDigit = true := fun d hd => mem_digitsOf_ten.mp (whole d hd)
  simp only [unsignedDecimal?, Text.Cursor.takeWhile_front whole digits,
    Text.Cursor.dropWhile_front whole digits]
  split
  · exact absurd rfl point
  · simp

/-- Digits with a point among them. -/
theorem unsignedDecimal?_point (fraction : ∀ d ∈ fs, d ∈ digitsOf 10)
    (digits : ∀ c ∈ rest.head?, c.isDigit = false) :
    unsignedDecimal? (ds ++ '.' :: (fs ++ rest)) =
      if ds.isEmpty && fs.isEmpty then none
      else (exponent? rest).map fun e => ⟨ofDigits 10 (ds ++ fs), e - fs.length⟩ := by
  have whole : ∀ d ∈ ds, d.isDigit = true := fun d hd => mem_digitsOf_ten.mp (whole d hd)
  have fraction : ∀ d ∈ fs, d.isDigit = true := fun d hd => mem_digitsOf_ten.mp (fraction d hd)
  have point : ∀ c ∈ ('.' :: (fs ++ rest)).head?, c.isDigit = false := by
    rintro _ ⟨⟩
    rfl
  simp only [unsignedDecimal?, Text.Cursor.takeWhile_front whole point,
    Text.Cursor.dropWhile_front whole point, Text.Cursor.takeWhile_front fraction digits,
    Text.Cursor.dropWhile_front fraction digits]

end

theorem head?_of_exponent {e : List Char} (h : Exponent e) :
    (∀ c ∈ e.head?, c.isDigit = false) ∧ e.head? ≠ some '.' := by
  cases h with
  | none => simp
  | power letter => rcases letter with rfl | rfl <;> simp

theorem isSome_unsignedDecimal?_iff {cs : List Char} :
    (unsignedDecimal? cs).isSome ↔ ∃ m e, cs = m ++ e ∧ Mantissa m ∧ Exponent e := by
  have digit (cs : List Char) : ∀ d ∈ cs.takeWhile Char.isDigit, d ∈ digitsOf 10 :=
    fun d hd => mem_digitsOf_ten.mpr (List.mem_takeWhile_imp hd)
  have other (cs : List Char) : ∀ c ∈ (cs.dropWhile Char.isDigit).head?, c.isDigit = false :=
    fun c hc => Text.Cursor.head?_dropWhile hc
  have whole (cs : List Char) : ∃ ds rest, cs = ds ++ rest ∧ (∀ d ∈ ds, d ∈ digitsOf 10) ∧
      ∀ c ∈ rest.head?, c.isDigit = false :=
    ⟨_, _, List.takeWhile_append_dropWhile.symm, digit cs, other cs⟩
  constructor
  · intro h
    obtain ⟨ds, rest, rfl, hds, hrest⟩ := whole cs
    by_cases point : rest.head? = some '.'
    · obtain ⟨more, rfl⟩ := List.head?_eq_some_iff.mp point
      obtain ⟨fs, tail, rfl, hfs, htail⟩ := whole more
      rw [unsignedDecimal?_point hds hfs htail] at h
      split at h
      · cases h
      rename_i nonempty
      rw [Option.isSome_map] at h
      have exponent := isSome_exponent?_iff.mp h
      cases ds with
      | nil =>
        have hfs : Digits 10 fs := ⟨by simpa using nonempty, hfs⟩
        exact ⟨'.' :: fs, tail, rfl, .fraction hfs, exponent⟩
      | cons d ds =>
        exact ⟨d :: ds ++ '.' :: fs, tail, by simp, .point ⟨by simp, hds⟩ hfs, exponent⟩
    · rw [unsignedDecimal?_whole hds hrest point] at h
      split at h
      · cases h
      rename_i nonempty
      rw [Option.isSome_map] at h
      exact ⟨ds, rest, rfl, .whole ⟨by simpa using nonempty, hds⟩, isSome_exponent?_iff.mp h⟩
  · rintro ⟨m, e, rfl, hm, he⟩
    obtain ⟨digits, point⟩ := head?_of_exponent he
    have exponent := isSome_exponent?_iff.mpr he
    cases hm with
    | whole h =>
      rw [unsignedDecimal?_whole h.digits digits point]
      simp [h.nonempty, exponent]
    | point h fraction =>
      rw [List.append_assoc, List.cons_append, unsignedDecimal?_point h.digits fraction digits]
      simp [h.nonempty, exponent]
    | fraction h =>
      have none : ∀ d ∈ ([] : List Char), d ∈ digitsOf 10 := nofun
      have reads := unsignedDecimal?_point none h.digits digits
      rw [List.cons_append, ← List.nil_append ('.' :: _), reads]
      simp [h.nonempty, exponent]

theorem Mantissa.head {m e cs : List Char} {c : Char} (h : Mantissa m) (same : c :: cs = m ++ e) :
    c ≠ '+' ∧ c ≠ '-' := by
  have digits {ds rest : List Char} (h : Digits 10 ds) (same : c :: cs = ds ++ rest) :
      c ≠ '+' ∧ c ≠ '-' := by
    cases ds with
    | nil => exact absurd rfl h.nonempty
    | cons d ds =>
      obtain rfl : c = d := (List.cons.inj same).1
      exact signed_digits (by decide) c ds h
  cases h with
  | whole h => exact digits h same
  | point h =>
    rw [List.append_assoc] at same
    exact digits h same
  | fraction =>
    obtain rfl : c = '.' := (List.cons.inj same).1
    decide

theorem isDecimalPart_of_digit {d : Char} (h : d ∈ digitsOf 10) : isDecimalPart d = true := by
  simp [isDecimalPart, mem_digitsOf_ten.mp h]

theorem Mantissa.parts {m : List Char} (h : Mantissa m) : ∀ c ∈ m, isDecimalPart c = true := by
  have point : isDecimalPart '.' = true := rfl
  cases h with
  | whole h => exact fun c hc => isDecimalPart_of_digit (h.digits c hc)
  | point h fraction =>
    refine List.forall_mem_append.mpr ⟨fun c hc => isDecimalPart_of_digit (h.digits c hc), ?_⟩
    exact List.forall_mem_cons.mpr ⟨point, fun c hc => isDecimalPart_of_digit (fraction c hc)⟩
  | fraction h =>
    exact List.forall_mem_cons.mpr ⟨point, fun c hc => isDecimalPart_of_digit (h.digits c hc)⟩

theorem Exponent.parts {e : List Char} (h : Exponent e) : ∀ c ∈ e, isDecimalPart c = true := by
  cases h with
  | none => nofun
  | power letter hsign digits =>
    refine List.forall_mem_cons.mpr ⟨by rcases letter with rfl | rfl <;> rfl, ?_⟩
    refine List.forall_mem_append.mpr ⟨?_, fun c hc => isDecimalPart_of_digit (digits.digits c hc)⟩
    rcases hsign with rfl | rfl | rfl <;> simp [isDecimalPart]

theorem toLower_of_part {c : Char} (h : isDecimalPart c = true) :
    c.toLower ≠ 'i' ∧ c.toLower ≠ 'n' := by
  have letters : ∀ c ∈ "0123456789.eE+-".toList, c.toLower ≠ 'i' ∧ c.toLower ≠ 'n' := by
    simp
  have digits : digitsOf 10 ⊆ "0123456789.eE+-".toList := by decide
  refine letters c ?_
  simp only [isDecimalPart, Bool.or_eq_true, decide_eq_true_eq, ← mem_digitsOf_ten] at h
  rcases h with ((((digit | rfl) | rfl) | rfl) | rfl) | rfl
  · exact digits digit
  all_goals decide

/-- Names are not made of the characters of decimal literals. -/
theorem named?_of_parts {cs : List Char} (h : cs.all isDecimalPart = true) :
    named? cs = none := by
  cases cs with
  | nil => rfl
  | cons c cs =>
    have part : isDecimalPart c = true := List.all_eq_true.mp h c List.mem_cons_self
    obtain ⟨notI, notN⟩ := toLower_of_part part
    simp [named?, notI, notN]

theorem double?_of_parts {cs : List Char} (h : (signed cs).2.all isDecimalPart = true) :
    double? cs = decimal? cs := by
  rw [double?, decimal?]
  simp [named?_of_parts h, Function.comp_def]

/-! ## Other bases -/

theorem announcedBase_eq_some_iff {cs : List Char} {base : Nat} :
    announcedBase cs = some base ↔
      ∃ letter, Announces base letter ∧ cs = letter ++ cs.drop 2 := by
  constructor
  · intro h
    unfold announcedBase at h
    split at h
    · split at h
      · cases h
        exact ⟨_, .hexadecimal ‹_›, rfl⟩
      split at h
      · cases h
        exact ⟨_, .octal ‹_›, rfl⟩
      split at h
      · cases h
        exact ⟨_, .binary ‹_›, rfl⟩
      cases h
    · cases h
  · rintro ⟨letter, h, same⟩
    rw [same]
    cases h with
    | hexadecimal letter => rcases letter with rfl | rfl <;> rfl
    | octal letter => rcases letter with rfl | rfl <;> rfl
    | binary letter => rcases letter with rfl | rfl <;> rfl

theorem isSome_natural?_iff {base : Nat} (hbase : base ≤ 16) {cs : List Char} :
    (natural? base (Nat.pow 2 64) cs).isSome ↔ FitsSigned base cs := by
  have unsigned (ds : List Char) :
      (if ds.isEmpty || !ds.all (isDigitOf base) then none
        else if ofDigits base ds < Nat.pow 2 64 then some (ofDigits base ds)
        else none).isSome ↔ Fits base ds := by
    by_cases digits : Digits base ds
    · rw [(digits_iff hbase).mp digits, if_neg Bool.false_ne_true]
      split
      · exact iff_of_true rfl ⟨digits, ‹_›⟩
      · exact iff_of_false Bool.false_ne_true fun h => absurd h.small ‹_›
    · rw [if_pos (Bool.eq_true_of_not_eq_false (mt (digits_iff hbase).mpr digits))]
      exact iff_of_false Bool.false_ne_true fun h => digits h.toDigits
  rw [natural?, unsigned, FitsSigned]
  split
  · rename_i plus
    obtain ⟨more, rfl⟩ := List.head?_eq_some_iff.mp plus
    rw [List.drop_succ_cons, List.drop_zero]
    refine ⟨fun h => .inr ⟨more, rfl, h⟩, ?_⟩
    rintro (h | ⟨_, same, h⟩)
    · exact absurd rfl (signed_digits hbase _ _ h.toDigits).1
    · cases same
      exact h
  · rename_i plain
    refine ⟨.inl, ?_⟩
    rintro (h | ⟨more, rfl, -⟩)
    · exact h
    · exact absurd rfl plain

/-! ## The conversion -/

/-- What the conversion looks at, one alternative for each rule of the grammar. -/
theorem numeral_iff {follows : Nat → List Char → Prop} {cs : List Char} :
    Numeral follows cs ↔ cs = [] ∨ (signed cs).2 = "Infinity".toList ∨
      (unsignedDecimal? (signed cs).2).isSome ∨
        ∃ base, announcedBase cs = some base ∧ follows base (cs.drop 2) := by
  have infinity : (signed cs).2 = "Infinity".toList ↔
      ∃ sign body, IsSign sign ∧ cs = sign ++ body ∧ body = "Infinity".toList := by
    refine signed_iff (P := (· = "Infinity".toList)) fun c body h => ?_
    obtain rfl : c = 'I' := (List.cons.inj h).1
    decide
  have decimal : (unsignedDecimal? (signed cs).2).isSome ↔ ∃ sign body, IsSign sign ∧
      cs = sign ++ body ∧ (unsignedDecimal? body).isSome := by
    refine signed_iff (P := fun cs => (unsignedDecimal? cs).isSome) fun c body h => ?_
    obtain ⟨m, e, same, hm, he⟩ := isSome_unsignedDecimal?_iff.mp h
    exact hm.head same
  rw [infinity, decimal]
  constructor
  · intro h
    cases h with
    | empty => exact .inl rfl
    | infinity h => exact .inr (.inl ⟨_, _, h, rfl, rfl⟩)
    | decimal h digits power =>
      have reads := isSome_unsignedDecimal?_iff.mpr ⟨_, _, rfl, digits, power⟩
      exact .inr (.inr (.inl ⟨_, _, h, rfl, reads⟩))
    | based h digits =>
      refine .inr (.inr (.inr ⟨_, announcedBase_eq_some_iff.mpr ⟨_, h, ?_⟩, ?_⟩))
      · cases h <;> rfl
      · cases h <;> exact digits
  · rintro (rfl | ⟨sign, body, h, rfl, rfl⟩ | ⟨sign, body, h, rfl, reads⟩ | ⟨base, found, digits⟩)
    · exact .empty
    · exact .infinity h
    · obtain ⟨m, e, rfl, hm, he⟩ := isSome_unsignedDecimal?_iff.mp reads
      exact .decimal h hm he
    · obtain ⟨letter, h, same⟩ := announcedBase_eq_some_iff.mp found
      rw [same]
      exact .based h digits

/-- A literal in another base is no decimal literal and has no sign. -/
theorem plain_of_announced {cs : List Char} {base : Nat} (h : announcedBase cs = some base) :
    base ≤ 16 ∧ unsignedDecimal? cs = none ∧ signed cs = (false, cs) := by
  have undecimal {c : Char} {rest : List Char} (letter : isDecimalPart c = false) :
      unsignedDecimal? ('0' :: c :: rest) = none := by
    by_contra reads
    obtain ⟨m, e, same, hm, he⟩ :=
      isSome_unsignedDecimal?_iff.mp (Option.isSome_iff_ne_none.mpr reads)
    have parts := List.forall_mem_append.mpr ⟨hm.parts, he.parts⟩
    rw [← same] at parts
    have part := parts c (by simp)
    rw [letter] at part
    cases part
  obtain ⟨letter, announces, same⟩ := announcedBase_eq_some_iff.mp h
  rw [same]
  cases announces with
  | hexadecimal letter =>
    exact ⟨by decide, undecimal (by rcases letter with rfl | rfl <;> rfl), rfl⟩
  | octal letter =>
    exact ⟨by decide, undecimal (by rcases letter with rfl | rfl <;> rfl), rfl⟩
  | binary letter =>
    exact ⟨by decide, undecimal (by rcases letter with rfl | rfl <;> rfl), rfl⟩

theorem not_isNaN_nan : ¬ nan.isNaN = false := by decide +kernel

theorem isNaN_infinity (negative : Bool) : (infinity negative).isNaN = false := by
  cases negative <;> decide +kernel

/-- Where no base is announced the decimal literals are the texts that are read. -/
theorem isNaN_double?_iff {cs : List Char} :
    (if (signed cs).2.all isDecimalPart then (double? cs).getD nan else nan).isNaN = false ↔
      (unsignedDecimal? (signed cs).2).isSome := by
  split
  · rename_i parts
    have reads : (decimal? cs).isSome = (unsignedDecimal? (signed cs).2).isSome := by
      rw [decimal?, Option.isSome_map]
    rw [double?_of_parts parts, ← reads]
    cases h : decimal? cs with
    | none => exact iff_of_false not_isNaN_nan Bool.false_ne_true
    | some x => exact iff_of_true (isNaN_of_decimal? h) rfl
  · rename_i strange
    refine iff_of_false not_isNaN_nan fun reads => strange ?_
    obtain ⟨m, e, same, hm, he⟩ := isSome_unsignedDecimal?_iff.mp reads
    rw [same]
    exact List.all_eq_true.mpr (List.forall_mem_append.mpr ⟨hm.parts, he.parts⟩)

/-- The conversion of a text gives a number exactly if the text without its blank ends is a
numeral, read with signs and limits. -/
theorem isNaN_ofText_iff (s : String) :
    (ofText s).isNaN = false ↔ Numeral FitsSigned (Text.trim s.toList) := by
  rw [numeral_iff, ofText]
  generalize Text.trim s.toList = cs
  obtain ⟨negative, body, hs⟩ : ∃ negative body, signed cs = (negative, body) := ⟨_, _, rfl⟩
  have body_eq : (signed cs).2 = body := by rw [hs]
  rw [body_eq, hs]
  dsimp only
  split
  · rename_i empty
    exact iff_of_true (isNaN_ofNat 0) (.inl (List.isEmpty_iff.mp empty))
  rename_i nonempty
  split
  · rename_i infinite
    exact iff_of_true (isNaN_infinity negative) (.inr (.inl infinite))
  rename_i finite
  have nonempty : cs ≠ [] := fun empty => nonempty (List.isEmpty_iff.mpr empty)
  simp only [nonempty, finite, false_or]
  split
  · rename_i base announced
    obtain ⟨hbase, undecimal, -⟩ := plain_of_announced announced
    simp only [undecimal, Option.isSome_none, Bool.false_eq_true, false_or]
    split
    -- A sign has been taken off, and no literal in another base begins with one.
    · rename_i shorter
      refine iff_of_false not_isNaN_nan ?_
      rintro ⟨base, announced, -⟩
      obtain ⟨-, -, unsigned⟩ := plain_of_announced announced
      exact shorter (by rw [← body_eq, unsigned])
    · rename_i long
      have same : cs = body := by
        rw [← body_eq, signed_eq_self (by rw [body_eq]; exact not_not.mp long)]
      subst same
      simp only [announced, Option.some.injEq, exists_eq_left']
      rw [← isSome_natural?_iff hbase]
      cases natural? base (Nat.pow 2 64) (cs.drop 2) with
      | none => exact iff_of_false not_isNaN_nan Bool.false_ne_true
      | some n => exact iff_of_true (isNaN_ofNat n) rfl
  · rename_i unannounced
    have plain : ¬ ∃ base, announcedBase cs = some base ∧ FitsSigned base (cs.drop 2) := by
      rintro ⟨base, announced, -⟩
      obtain ⟨-, -, unsigned⟩ := plain_of_announced announced
      rw [← body_eq, unsigned, announced] at unannounced
      cases unannounced
    rw [or_iff_left plain]
    rw [← body_eq]
    exact isNaN_double?_iff

theorem numeral_of_announced {follows : Nat → List Char → Prop} {cs : List Char} {base : Nat}
    (h : announcedBase cs = some base) : Numeral follows cs ↔ follows base (cs.drop 2) := by
  obtain ⟨-, undecimal, unsigned⟩ := plain_of_announced h
  have nonempty : cs ≠ [] := by
    rintro rfl
    cases h
  have finite : cs ≠ "Infinity".toList := by
    rintro rfl
    cases h
  rw [numeral_iff, unsigned, undecimal, h]
  simp only [nonempty, finite, Option.isSome_none, Bool.false_eq_true, false_or,
    Option.some.injEq, exists_eq_left']

theorem misread_iff {cs : List Char} :
    Misread cs ↔ ∃ base, announcedBase cs = some base ∧
      ((Digits base (cs.drop 2) ∧ 2 ^ 64 ≤ ofDigits base (cs.drop 2)) ∨
        ∃ more, cs.drop 2 = '+' :: more ∧ Fits base more) := by
  constructor
  · rintro ⟨base, letter, ds, rfl, h, misread⟩
    have rest : (letter ++ ds).drop 2 = ds := by cases h <;> rfl
    rw [rest]
    exact ⟨base, announcedBase_eq_some_iff.mpr ⟨letter, h, by rw [rest]⟩, misread⟩
  · rintro ⟨base, announced, misread⟩
    obtain ⟨letter, h, same⟩ := announcedBase_eq_some_iff.mp announced
    exact ⟨base, letter, _, same, h, misread⟩

/-- The digits that are read are those of the grammar, unless they are too many or have a sign. -/
theorem fitsSigned_iff_digits {base : Nat} (hbase : base ≤ 16) {ds : List Char} :
    (FitsSigned base ds ↔ Digits base ds) ↔
      ¬ ((Digits base ds ∧ 2 ^ 64 ≤ ofDigits base ds) ∨
        ∃ more, ds = '+' :: more ∧ Fits base more) := by
  have unsigned (plus : ∃ more, ds = '+' :: more ∧ Fits base more) : ¬ Digits base ds := by
    obtain ⟨more, rfl, -⟩ := plus
    exact fun digits => (signed_digits hbase _ _ digits).1 rfl
  constructor
  · rintro same (⟨digits, large⟩ | plus)
    · rcases same.mpr digits with fits | plus
      · exact absurd fits.small (Nat.not_lt.mpr large)
      · exact unsigned plus digits
    · exact unsigned plus (same.mp (.inr plus))
  · intro h
    rw [not_or, not_and] at h
    constructor
    · rintro (fits | plus)
      · exact fits.toDigits
      · exact absurd plus h.2
    · exact fun digits => .inl ⟨digits, Nat.lt_of_not_le (h.1 digits)⟩

end PromptTemplate.Number

namespace PromptTemplate.Value

open Number

/-- The conversion of a text to a number succeeds for the numerals, but that digits of another
base may have a plus sign and have to fit 64 bits. It goes by the grammar alone for exactly those
texts where neither matters. -/
theorem isNaN_toNumber_string_iff (s : String) :
    ((Value.string s).toNumber.isNaN = false ↔ Numeral FitsSigned (Text.trim s.toList)) ∧
      (((Value.string s).toNumber.isNaN = false ↔ Numeral Digits (Text.trim s.toList)) ↔
        ¬ Misread (Text.trim s.toList)) := by
  refine ⟨isNaN_ofText_iff s, ?_⟩
  rw [toNumber, isNaN_ofText_iff]
  cases h : announcedBase (Text.trim s.toList) with
  | none => simp [numeral_iff, misread_iff, h]
  | some base =>
    obtain ⟨hbase, -, -⟩ := plain_of_announced h
    rw [numeral_of_announced h, numeral_of_announced h, fitsSigned_iff_digits hbase, misread_iff]
    simp [h]

/-- A sign after the letter of a base is read as if it were not there, and a number of 65 bits is
not read. -/
theorem toNumber_misread :
    (Value.string "0x+1").toNumber.isNaN = false ∧ ¬ Numeral Digits (Text.trim "0x+1".toList) ∧
      (Value.string "0x10000000000000000").toNumber.isNaN = true ∧
      Numeral Digits (Text.trim "0x10000000000000000".toList) := by
  have digits : Digits 16 "10000000000000000".toList := (digits_iff (by decide)).mpr (by decide)
  have large : Text.trim "0x10000000000000000".toList =
      ['0', 'x'] ++ "10000000000000000".toList := by decide
  have announced : announcedBase (Text.trim "0x+1".toList) = some 16 := by decide
  have misread : ¬ Numeral Digits (Text.trim "0x+1".toList) := by
    rw [numeral_of_announced announced]
    exact fun digits => (signed_digits (by decide) _ _ digits).1 rfl
  refine ⟨by decide +kernel, misread, by decide +kernel, ?_⟩
  rw [large]
  exact .based (.hexadecimal (.inl rfl)) digits

end PromptTemplate.Value
