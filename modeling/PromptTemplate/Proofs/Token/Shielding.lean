import Mathlib.Data.List.TakeWhile
import PromptTemplate.Token.Lexer

/-!
# Tokens do not look past the end of their tag

A reader of a token looks at some characters after the token, but never past a closing brace
or parenthesis there. So the tokens of a tag up to its closing braces are the same whatever
follows the tag, and wherever it stands.
-/

namespace PromptTemplate.Token

open Text

/-! ## Readers that stop at a closing sign -/

/-- A brace or a parenthesis that closes. Nothing but a string goes on with one. -/
def Closing (x : Char) : Prop := x = '}' ∨ x = ')'

/-- A reader does not look past a sign that it does not take. -/
def Shielded {α : Type} (x : Char) (f : List Char → α × List Char) (cs : List Char) : Prop :=
  ∀ rest, f (cs ++ x :: rest) = ((f cs).1, (f cs).2 ++ x :: rest)

variable {x : Char}

section

variable {fits : Char → Bool}

theorem takeWhile_stop (h : fits x = false) (cs rest : List Char) :
    (cs ++ x :: rest).takeWhile fits = cs.takeWhile fits := by
  induction cs with
  | nil => simp [h]
  | cons c cs ih =>
    rw [List.cons_append, List.takeWhile_cons, List.takeWhile_cons, ih]

theorem dropWhile_stop (h : fits x = false) (cs rest : List Char) :
    (cs ++ x :: rest).dropWhile fits = cs.dropWhile fits ++ x :: rest := by
  induction cs with
  | nil => simp [h]
  | cons c cs ih =>
    rw [List.cons_append, List.dropWhile_cons, List.dropWhile_cons, ih]
    split <;> rfl

theorem any_head?_stop (h : fits x = false) (cs rest : List Char) :
    (cs ++ x :: rest).head?.any fits = cs.head?.any fits := by
  cases cs with
  | nil => simp [h]
  | cons c cs => rfl

end

namespace Closing

theorem isDigit (hx : Closing x) : x.isDigit = false := by
  rcases hx with rfl | rfl <;> decide

theorem isIdentifierStart (hx : Closing x) : Text.isIdentifierStart x = false := by
  rcases hx with rfl | rfl <;> decide +kernel

theorem isIdentifierPart (hx : Closing x) : Text.isIdentifierPart x = false := by
  rcases hx with rfl | rfl <;> decide +kernel

end Closing

section

variable (hx : Closing x)

include hx

theorem shielded_fraction (cs : List Char) : Shielded x fraction cs := by
  intro rest
  cases cs with
  | nil => rcases hx with rfl | rfl <;> rfl
  | cons c cs =>
    by_cases point : c = '.'
    · subst point
      simp only [List.cons_append, fraction, takeWhile_stop hx.isDigit,
        dropWhile_stop hx.isDigit]
    · simp [fraction, point]

theorem shielded_exponent (cs : List Char) : Shielded x exponent cs := by
  intro rest
  cases cs with
  | nil => rcases hx with rfl | rfl <;> rfl
  | cons e cs =>
    rw [List.cons_append]
    by_cases power : e = 'e' ∨ e = 'E'
    · cases cs with
      | nil => rcases hx with rfl | rfl <;> simp [exponent, power]
      | cons c more =>
        simp only [List.cons_append, exponent, power, if_true, any_head?_stop hx.isDigit]
        split
        · rw [← List.cons_append, takeWhile_stop hx.isDigit, dropWhile_stop hx.isDigit]
        · split
          · rw [takeWhile_stop hx.isDigit, dropWhile_stop hx.isDigit]
          · rfl
    · simp [exponent, power]

theorem shielded_decimal (cs : List Char) : Shielded x decimal cs := by
  intro rest
  simp only [decimal, takeWhile_stop hx.isDigit, dropWhile_stop hx.isDigit,
    shielded_fraction hx _ rest, shielded_exponent hx _ rest]

theorem announcedBase_closing (c : Char) (cs rest : List Char) :
    Number.announcedBase (c :: cs ++ x :: rest) = Number.announcedBase (c :: cs) := by
  by_cases zero : c = '0'
  · subst zero
    cases cs with
    | nil => rcases hx with rfl | rfl <;> rfl
    | cons d more => rfl
  · simp [Number.announcedBase, zero]

theorem isDigitOf_closing {base : Nat} {cs : List Char} (h : Number.announcedBase cs = some base) :
    Number.isDigitOf base x = false := by
  have few : base ≤ 36 := by
    unfold Number.announcedBase at h
    split at h
    · repeat' split at h
      all_goals
        cases h
        try decide
    · cases h
  have value : Number.digitValue x = 36 := by
    rcases hx with rfl | rfl <;> decide
  simpa [Number.isDigitOf, value] using few

theorem shielded_number (c : Char) (cs : List Char) : Shielded x number (c :: cs) := by
  intro rest
  unfold number
  rw [announcedBase_closing hx]
  cases hbase : Number.announcedBase (c :: cs) with
  | some base =>
    have stops := isDigitOf_closing hx hbase
    have two : ∃ d more, cs = d :: more := by
      cases cs with
      | nil => simp [Number.announcedBase] at hbase
      | cons d more => exact ⟨d, more, rfl⟩
    obtain ⟨d, more, rfl⟩ := two
    simp only [List.cons_append, List.drop_succ_cons, List.drop_zero, List.take_succ_cons,
      List.take_zero, takeWhile_stop stops, dropWhile_stop stops]
    split <;> rfl
  | none =>
    simp only [shielded_decimal hx _ rest, any_head?_stop hx.isIdentifierStart]
    split
    · rename_i letter
      cases hrest : (decimal (c :: cs)).2 with
      | nil => simp [hrest] at letter
      | cons d more => rfl
    · split <;> rfl

theorem shielded_word (cs : List Char) : Shielded x word cs := by
  intro rest
  simp only [word, takeWhile_stop hx.isIdentifierPart, dropWhile_stop hx.isIdentifierPart]

/-! ## Marks -/

/-- No mark has a closing sign in it, but there are those that begin with one. -/
theorem not_mem_tail_chars (m : Mark) : x ∉ m.chars.tail := by
  rcases hx with rfl | rfl <;> cases m <;> decide

omit hx in
theorem isPrefixOf_stop {mark cs : List Char} (h : x ∉ mark) (rest : List Char) :
    mark.isPrefixOf (cs ++ x :: rest) = mark.isPrefixOf cs := by
  induction mark generalizing cs with
  | nil => simp
  | cons y mark ih =>
    cases cs with
    | nil =>
      have other : (y == x) = false :=
        beq_false_of_ne fun same => h (by rw [same]; exact List.mem_cons_self)
      simp [List.isPrefixOf, other]
    | cons c cs =>
      have later : x ∉ mark := fun more => h (List.mem_cons_of_mem _ more)
      simp [List.isPrefixOf, ih later]

theorem longest?_closing (c : Char) (cs rest : List Char) :
    Mark.longest? (c :: cs ++ x :: rest) = Mark.longest? (c :: cs) := by
  unfold Mark.longest?
  congr 1
  funext m
  cases hm : m.chars with
  | nil => rfl
  | cons y mark =>
    have inside : x ∉ mark := by simpa [hm] using not_mem_tail_chars hx m
    simp only [List.cons_append, List.isPrefixOf]
    rw [isPrefixOf_stop inside]

theorem markAt_closing (c : Char) (cs rest : List Char) :
    markAt (c :: cs ++ x :: rest) = markAt (c :: cs) := by
  unfold markAt
  rw [longest?_closing hx]
  cases hm : Mark.longest? (c :: cs) with
  | none => rfl
  | some m =>
    cases m with
    | questionDot =>
      obtain ⟨more, hmore⟩ := Mark.chars_isPrefix hm
      rw [← hmore]
      simp only [Mark.chars, List.cons_append, List.nil_append, List.drop_succ_cons,
        List.drop_zero, any_head?_stop hx.isDigit]
    | _ => rfl

end

theorem chars_markAt {cs : List Char} {m : Mark} (h : markAt cs = some m) : m.chars <+: cs := by
  unfold markAt at h
  split at h
  · rename_i optional
    have read := Mark.chars_isPrefix optional
    split at h
    · cases h
      have first : Mark.question.chars <+: Mark.questionDot.chars := ⟨['.'], rfl⟩
      exact first.trans read
    · cases h
      exact read
  · exact Mark.chars_isPrefix h

/-! ## Strings -/

/-- A reader has taken something off a text, and takes the same off whatever follows it. -/
def Takes {α : Type} (f : List Char → α × List Char) (cs used : List Char) : Prop :=
  cs = used ++ (f cs).2 ∧ ∀ rest, f (used ++ rest) = ((f cs).1, rest)

/-- Where a reader stops that takes characters of a kind. -/
theorem exists_stop {fits : Char → Bool} {cs : List Char} (h : cs.dropWhile fits ≠ []) :
    ∃ front c rest, cs = front ++ c :: rest ∧ (∀ x ∈ front, fits x = true) ∧ fits c = false := by
  induction cs with
  | nil => exact absurd rfl h
  | cons c cs ih =>
    by_cases hc : fits c = true
    · rw [List.dropWhile_cons_of_pos hc] at h
      obtain ⟨front, d, rest, hcs, hfront, hd⟩ := ih h
      refine ⟨c :: front, d, rest, by rw [hcs]; rfl, ?_, hd⟩
      exact List.forall_mem_cons.mpr ⟨hc, hfront⟩
    · exact ⟨[], c, cs, rfl, List.forall_mem_nil _, Bool.eq_false_iff.mpr hc⟩

theorem takes_numbered {cs : List Char} {x : Char} (h : (numbered cs).1 = some x)
    (more : (numbered cs).2 ≠ []) : ∃ used, Takes numbered cs used := by
  by_cases braced : ∃ ds, cs = '{' :: ds
  · obtain ⟨ds, rfl⟩ := braced
    have goes_on : ds.dropWhile (· ≠ '}') ≠ [] := by
      intro none
      simp only [numbered, none, List.drop_nil] at more
      exact more rfl
    obtain ⟨front, c, rest, rfl, hfront, hc⟩ := exists_stop goes_on
    obtain rfl : c = '}' := by simpa using hc
    have digits (us : List Char) : (front ++ '}' :: us).takeWhile (· ≠ '}') = front ∧
        (front ++ '}' :: us).dropWhile (· ≠ '}') = '}' :: us := by
      rw [List.takeWhile_append_of_pos hfront, List.dropWhile_append_of_pos hfront]
      simp
    refine ⟨'{' :: (front ++ ['}']), ?_, fun us => ?_⟩
    · simp only [numbered, (digits rest).2, List.drop_succ_cons, List.drop_zero, List.cons_append,
        List.append_assoc, List.nil_append]
    · simp only [List.cons_append, List.append_assoc, List.nil_append, numbered,
        (digits rest).1, (digits us).1, (digits us).2, List.drop_succ_cons, List.drop_zero]
  · have four : ∀ ds, (∀ es, ds ≠ '{' :: es) → numbered ds = if ds.length < 4 then (none, [])
        else ((Number.natural? 16 (Nat.pow 2 32) (ds.take 4)).bind scalar?, ds.drop 4) := by
      intro ds hds
      unfold numbered
      split
      · exact absurd rfl (hds _)
      · rfl
    have plain : ∀ es, cs ≠ '{' :: es := fun es hes => braced ⟨es, hes⟩
    rw [four cs plain] at h
    have long : 4 ≤ cs.length := by
      apply Nat.le_of_not_lt
      intro short
      simp [short] at h
    refine ⟨cs.take 4, ?_, fun us => ?_⟩
    · rw [four cs plain, if_neg (Nat.not_lt_of_le long), List.take_append_drop]
    · have length : (cs.take 4).length = 4 := by simp [long]
      have front : ∀ es, cs.take 4 ++ us ≠ '{' :: es := by
        intro es same
        cases cs with
        | nil => simp at long
        | cons c cs =>
          cases same
          exact plain cs rfl
      rw [four _ front, four cs plain, if_neg (Nat.not_lt_of_le long), if_neg (by simp [length]),
        List.take_left' length, List.drop_left' length]

theorem takes_stringBody {quote : Char} {cs body : List Char}
    (h : (stringBody quote cs).1 = .ok body) : ∃ used, Takes (stringBody quote) cs used := by
  fun_induction stringBody quote cs generalizing body with
  | case1 | case2 | case4 | case6 => cases h
  | case3 more newline =>
    refine ⟨[quote], ?_, fun rest => ?_⟩
    · rw [stringBody.eq_def]
      simp [newline]
    · rw [List.singleton_append, stringBody.eq_def, stringBody.eq_def quote (quote :: more)]
      simp [newline]
  | case5 =>
    rename_i more x hx tail newline hquote ih
    change (stringBody quote (numbered more).2).1.map (x :: ·) = .ok body at h
    cases hbody : (stringBody quote (numbered more).2).1 with
    | error fault => simp [hbody, Except.map] at h
    | ok later =>
      have goes_on : (numbered more).2 ≠ [] := by
        intro none
        rw [none, stringBody] at hbody
        cases hbody
      obtain ⟨first, hfirst, numbers⟩ := takes_numbered hx goes_on
      obtain ⟨used, hused, reads⟩ := ih hbody
      have step (rest : List Char) (h : (numbered rest).1 = some x) :
          stringBody quote ('\\' :: 'u' :: rest) =
            ((stringBody quote (numbered rest).2).1.map (x :: ·),
              (stringBody quote (numbered rest).2).2) := by
        rw [stringBody]
        simp [newline, hquote, h]
      refine ⟨'\\' :: 'u' :: (first ++ used), ?_, fun rest => ?_⟩
      · rw [step more hx]
        simpa using hfirst.trans (congrArg (first ++ ·) hused)
      · have numbers' := numbers (used ++ rest)
        rw [List.cons_append, List.cons_append, List.append_assoc, step more hx,
          step _ (by rw [numbers', hx]), numbers', reads]
  | case7 =>
    rename_i d more hd tail newline hquote ih
    change (stringBody quote more).1.map (escaped d ++ ·) = .ok body at h
    cases hbody : (stringBody quote more).1 with
    | error fault => simp [hbody, Except.map] at h
    | ok later =>
      obtain ⟨used, hused, reads⟩ := ih hbody
      have step (rest : List Char) : stringBody quote ('\\' :: d :: rest) =
          ((stringBody quote rest).1.map (escaped d ++ ·), (stringBody quote rest).2) := by
        rw [stringBody]
        simp [newline, hquote, hd]
      refine ⟨'\\' :: d :: used, ?_, fun rest => ?_⟩
      · rw [step]
        simpa using hused
      · rw [List.cons_append, List.cons_append, step, step, reads]
  | case8 =>
    rename_i c more newline hquote escape tail ih
    change (stringBody quote more).1.map (c :: ·) = .ok body at h
    cases hbody : (stringBody quote more).1 with
    | error fault => simp [hbody, Except.map] at h
    | ok later =>
      obtain ⟨used, hused, reads⟩ := ih hbody
      have step (rest : List Char) : stringBody quote (c :: rest) =
          ((stringBody quote rest).1.map (c :: ·), (stringBody quote rest).2) := by
        rw [stringBody.eq_def]
        simp [newline, hquote, escape]
      refine ⟨c :: used, ?_, fun rest => ?_⟩
      · rw [step]
        simpa using hused
      · rw [List.cons_append, step, step, reads]

theorem takes_string {quote : Char} {cs : List Char}
    (h : ∀ fault, (string quote cs).1 ≠ .invalid fault) : ∃ used, Takes (string quote) cs used := by
  have step (us : List Char) {body : List Char} (hbody : (stringBody quote us).1 = .ok body) :
      string quote us = (.string (String.ofList body), (stringBody quote us).2) := by
    simp only [string]
    rcases hus : stringBody quote us with ⟨_ | _, rest⟩ <;> simp_all
  cases hbody : (stringBody quote cs).1 with
  | error fault =>
    refine absurd ?_ (h fault)
    simp only [string]
    rcases hus : stringBody quote cs with ⟨_ | _, rest⟩ <;> simp_all
  | ok body =>
    obtain ⟨used, hused, reads⟩ := takes_stringBody hbody
    refine ⟨used, ?_, fun rest => ?_⟩
    · rw [step cs hbody]
      exact hused
    · have again : (stringBody quote (used ++ rest)).1 = .ok body := by rw [reads, hbody]
      rw [step cs hbody, step _ again, reads]

/-! ## Tokens -/

theorem head?_stop {y : Char} (h : y ≠ x) (cs rest : List Char) :
    (cs ++ x :: rest).head? = some y ↔ cs.head? = some y := by
  cases cs with
  | nil => simp [h.symm]
  | cons c cs => rfl

theorem scan_quoted {mode : Mode} {depth : Nat} {c : Char} (quoted : c = '"' ∨ c = '\'')
    (cs : List Char) : scan mode depth c cs = string c cs := by
  rcases quoted with rfl | rfl <;> simp [scan, Char.isDigit]

/-- A token that is neither a string nor the end of its tag. -/
theorem shielded_scan (hx : Closing x) {mode : Mode} {depth : Nat} {c : Char}
    (inside : ¬ (c = '}' ∧ mode = .tag ∧ depth = 0)) (plain : ¬ (c = '"' ∨ c = '\''))
    (cs : List Char) : Shielded x (scan mode depth c) cs := by
  intro rest
  have other : '>' ≠ x := by
    rcases hx with rfl | rfl <;> decide
  have arrow := head?_stop other cs rest
  simp only [scan, inside, plain, if_false, any_head?_stop hx.isDigit, arrow]
  split
  · exact shielded_number hx c cs rest
  · split
    · exact shielded_word hx (c :: cs) rest
    · split
      · rename_i h
        cases cs with
        | nil => simp at h
        | cons d more => rfl
      · split
        · rfl
        · rw [← List.cons_append, markAt_closing hx]
          cases hm : markAt (c :: cs) with
          | none => rfl
          | some m =>
            have taken : m.chars.length ≤ (c :: cs).length := (chars_markAt hm).length_le
            simp only [List.drop_append_of_le_length taken]

/-- A token that is not the last of its tag is the same whatever follows the tag. -/
theorem scan_brace {depth : Nat} {c : Char} {cs left rest : List Char}
    (more : (scan .tag depth c (cs ++ '}' :: rest)).1.isTerminator = false)
    (taken : (scan .tag depth c (cs ++ '}' :: rest)).2 = left ++ '}' :: rest) (rest' : List Char) :
    scan .tag depth c (cs ++ '}' :: rest') =
      ((scan .tag depth c (cs ++ '}' :: rest)).1, left ++ '}' :: rest') := by
  have inside : ¬ (c = '}' ∧ Mode.tag = Mode.tag ∧ depth = 0) := by
    intro last
    simp only [scan, last, true_and, if_true] at more
    split at more <;> cases more
  by_cases quoted : c = '"' ∨ c = '\''
  · rw [scan_quoted quoted] at more taken
    rw [scan_quoted quoted, scan_quoted quoted]
    have valid : ∀ fault, (string c (cs ++ '}' :: rest)).1 ≠ .invalid fault := by
      intro fault invalid
      rw [invalid] at more
      cases more
    obtain ⟨used, hused, takes⟩ := takes_string valid
    rw [taken, ← List.append_assoc] at hused
    obtain rfl : cs = used ++ left := List.append_cancel_right hused
    rw [List.append_assoc, takes]
  · have shielded := shielded_scan (.inl rfl) inside quoted cs
    rw [shielded rest] at taken
    obtain rfl : (scan .tag depth c cs).2 = left := List.append_cancel_right taken
    rw [shielded rest', shielded rest]

/-- A token of a text that stands alone is the same if a closing sign follows the text. -/
theorem scan_closing (hx : Closing x) {depth : Nat} {c : Char} {taken left : List Char}
    {k : Kind} (h : scan .alone depth c (taken ++ left) = (k, left))
    (more : k.isTerminator = false) (rest : List Char) :
    scan .alone depth c (taken ++ (left ++ x :: rest)) = (k, left ++ x :: rest) := by
  by_cases quoted : c = '"' ∨ c = '\''
  · rw [scan_quoted quoted] at h ⊢
    have valid : ∀ fault, (string c (taken ++ left)).1 ≠ .invalid fault := by
      intro fault invalid
      rw [h] at invalid
      subst invalid
      cases more
    obtain ⟨used, hused, takes⟩ := takes_string valid
    rw [h] at hused takes
    obtain rfl : taken = used := List.append_cancel_right hused
    exact takes _
  · have shielded : Shielded x (scan .alone depth c) (taken ++ left) :=
      shielded_scan hx (by simp) quoted _
    have reads := shielded rest
    rwa [h, List.append_assoc] at reads

/-! ## Tags -/

theorem suffix_fraction (cs : List Char) : (fraction cs).2 <:+ cs := by
  unfold fraction
  split
  · exact (List.dropWhile_suffix _).trans (List.suffix_cons _ _)
  · exact List.suffix_rfl

theorem suffix_exponent (cs : List Char) : (exponent cs).2 <:+ cs := by
  unfold exponent
  split
  · exact List.suffix_rfl
  · rename_i e cs
    split
    · split
      · exact List.suffix_rfl
      · split
        · exact (List.dropWhile_suffix _).trans (List.suffix_cons _ _)
        · split
          · exact ((List.dropWhile_suffix _).trans (List.suffix_cons _ _)).trans
              (List.suffix_cons _ _)
          · exact List.suffix_rfl
    · exact List.suffix_rfl

theorem suffix_number (cs : List Char) : (number cs).2 <:+ cs := by
  have decimal : (decimal cs).2 <:+ cs :=
    ((suffix_exponent _).trans (suffix_fraction _)).trans (List.dropWhile_suffix _)
  unfold number
  split
  · have digits (base : Nat) : (cs.drop 2).dropWhile (Number.isDigitOf base) <:+ cs :=
      (List.dropWhile_suffix _).trans (List.drop_suffix _ _)
    dsimp only
    split <;> exact digits _
  · dsimp only
    split
    · exact (List.drop_suffix _ _).trans decimal
    · split <;> exact decimal

theorem suffix_numbered (cs : List Char) : (numbered cs).2 <:+ cs := by
  unfold numbered
  split
  · exact ((List.drop_suffix _ _).trans (List.dropWhile_suffix _)).trans (List.suffix_cons _ _)
  · split
    · exact List.nil_suffix
    · exact List.drop_suffix _ _

theorem suffix_stringBody (quote : Char) (cs : List Char) : (stringBody quote cs).2 <:+ cs := by
  fun_induction stringBody quote cs with
  | case1 => exact List.suffix_rfl
  | case2 => exact List.suffix_rfl
  | case3 c cs => exact List.suffix_cons _ _
  | case4 => exact List.nil_suffix
  | case5 more x _ tail _ _ ih =>
    have number := (suffix_numbered more).trans (List.suffix_cons 'u' more)
    exact (ih.trans number).trans (List.suffix_cons _ _)
  | case6 more =>
    have number := (suffix_numbered more).trans (List.suffix_cons 'u' more)
    exact number.trans (List.suffix_cons _ _)
  | case7 d more _ tail _ _ ih =>
    exact (ih.trans (List.suffix_cons d more)).trans (List.suffix_cons _ _)
  | case8 c more _ _ _ tail ih => exact ih.trans (List.suffix_cons _ _)

theorem suffix_string (quote : Char) (cs : List Char) : (string quote cs).2 <:+ cs := by
  have body := suffix_stringBody quote cs
  unfold string
  split
  all_goals
    rename_i read
    rw [read] at body
    exact body

/-- What is left after a token is a part of the text. -/
theorem suffix_scan (mode : Mode) (depth : Nat) (c : Char) (cs : List Char) :
    (scan mode depth c cs).2 <:+ cs := by
  have shorter := length_scan_le mode depth c cs
  have later {us : List Char} (h : us <:+ cs) : us <:+ c :: cs := h.trans (List.suffix_cons c cs)
  have whole : (scan mode depth c cs).2 <:+ c :: cs := by
    unfold scan
    split
    · split
      · exact later (List.drop_suffix 1 cs)
      · exact later List.suffix_rfl
    split
    · exact suffix_number _
    split
    · exact later (suffix_string c cs)
    split
    · exact List.dropWhile_suffix _
    split
    · exact later (List.drop_suffix 1 cs)
    split
    · exact later List.suffix_rfl
    split
    · exact List.drop_suffix _ _
    · exact later List.suffix_rfl
  rcases List.suffix_cons_iff.mp whole with all | rest
  · rw [all, List.length_cons] at shorter
    omega
  · exact rest

/-- Only two closing braces end a token list before the end of the text, and only those of a tag
at its level. -/
theorem eq_braces_of_scan {mode : Mode} {depth : Nat} {c : Char} {cs : List Char}
    (h : (scan mode depth c cs).1.isEnd = true) :
    c = '}' ∧ mode = .tag ∧ depth = 0 ∧ ∃ rest, cs = '}' :: rest := by
  revert h
  unfold scan
  split
  · rename_i inside
    split
    · rename_i closed
      cases cs with
      | nil => cases closed
      | cons d rest =>
        cases closed
        exact fun _ => ⟨inside.1, inside.2.1, inside.2.2, rest, rfl⟩
    · exact fun h => nomatch h
  · split
    · unfold number
      split
      · dsimp only
        split <;> exact fun h => nomatch h
      · dsimp only
        split
        · exact fun h => nomatch h
        · split <;> exact fun h => nomatch h
    · split
      · unfold string
        split <;> exact fun h => nomatch h
      · split
        · unfold word
          dsimp only
          split <;> exact fun h => nomatch h
        · split
          · exact fun h => nomatch h
          · split
            · exact fun h => nomatch h
            · split <;> exact fun h => nomatch h

theorem exists_blanks {cs : List Char} {c : Char} {more : List Char}
    (h : cs.dropWhile isBlank = c :: more) :
    ∃ blanks, cs = blanks ++ c :: more ∧ (∀ x ∈ blanks, isBlank x = true) ∧
      isBlank c = false := by
  refine ⟨cs.takeWhile isBlank, ?_, ?_, ?_⟩
  · rw [← h, List.takeWhile_append_dropWhile]
  · exact List.all_eq_true.mp List.all_takeWhile
  · have := List.head_dropWhile_not isBlank (l := cs) (by rw [h]; exact List.cons_ne_nil _ _)
    simpa [h] using this

/-- A text is blank or has a first token after some blanks. -/
theorem blank_or_token (mode : Mode) (depth : Nat) (cs : List Char) :
    (∀ x ∈ cs, isBlank x = true) ∨
      ∃ blanks c taken left k, cs = blanks ++ c :: (taken ++ left) ∧
        (∀ x ∈ blanks, isBlank x = true) ∧ isBlank c = false ∧
        scan mode depth c (taken ++ left) = (k, left) ∧ left.length < cs.length := by
  cases hcs : cs.dropWhile isBlank with
  | nil =>
    left
    exact List.dropWhile_eq_nil_iff.mp hcs
  | cons c more =>
    right
    obtain ⟨blanks, rfl, hblanks, hc⟩ := exists_blanks hcs
    obtain ⟨taken, htaken⟩ := suffix_scan mode depth c more
    have shorter : (scan mode depth c more).2.length < (blanks ++ c :: more).length := by
      have := length_scan_le mode depth c more
      simp only [List.length_append, List.length_cons]
      omega
    exact ⟨blanks, c, taken, _, _, by rw [htaken], hblanks, hc, by rw [htaken], shorter⟩

/-- A blank text has no tokens but the end of the input. -/
theorem scanAll_blank {mode : Mode} {depth : Nat} {cs : List Char}
    (h : ∀ x ∈ cs, isBlank x = true) (p : Position) :
    let stop := p.advance cs
    scanAll mode depth p cs = ([⟨.inputEnd, Span.between stop stop⟩], stop, []) := by
  have none : cs.dropWhile isBlank = []  := List.dropWhile_eq_nil_iff.mpr h
  have all : cs.takeWhile isBlank = cs := List.takeWhile_eq_self_iff.mpr h
  rw [scanAll]
  split
  · rw [all]
  · rename_i some
    rw [none] at some
    cases some

section

variable {mode : Mode} {depth : Nat} {blanks : List Char} {c : Char}

/-- The first token after some blanks. -/
theorem scanAll_token (hblanks : ∀ x ∈ blanks, isBlank x = true) (hc : isBlank c = false)
    (more : List Char) (p : Position) :
    scanAll mode depth p (blanks ++ c :: more) =
      let scanned := scan mode depth c more
      let taken := c :: more.take (more.length - scanned.2.length)
      let stop := p.advance (blanks ++ taken)
      let token : Token := ⟨scanned.1, Span.between (p.advance blanks) stop⟩
      if scanned.1.isTerminator then ([token], stop, scanned.2)
      else
        let after := scanAll mode (depthAfter depth scanned.1) stop scanned.2
        (token :: after.1, after.2) := by
  have before : (blanks ++ c :: more).takeWhile isBlank = blanks := by
    rw [List.takeWhile_append_of_pos hblanks]
    simp [hc]
  have after : (blanks ++ c :: more).dropWhile isBlank = c :: more := by
    rw [List.dropWhile_append_of_pos hblanks]
    simp [hc]
  rw [scanAll]
  split
  · rename_i none
    rw [after] at none
    cases none
  · rename_i d ds some
    rw [after] at some
    cases some
    simp only [before, Position.advance_append]

/-- The kinds of the tokens, and what is left after them, where the first is the last. -/
theorem kinds_last (hblanks : ∀ x ∈ blanks, isBlank x = true) (hc : isBlank c = false)
    {more : List Char} (last : (scan mode depth c more).1.isTerminator = true) (p : Position) :
    (scanAll mode depth p (blanks ++ c :: more)).1.map (·.kind) = [(scan mode depth c more).1] := by
  rw [scanAll_token hblanks hc]
  simp [last]

/-- The first token after some blanks, where more tokens follow. -/
theorem scanAll_next (hblanks : ∀ x ∈ blanks, isBlank x = true) (hc : isBlank c = false)
    {taken left : List Char} {k : Kind} (h : scan mode depth c (taken ++ left) = (k, left))
    (more : k.isTerminator = false) (p : Position) :
    let stop := p.advance (blanks ++ c :: taken)
    let after := scanAll mode (depthAfter depth k) stop left
    scanAll mode depth p (blanks ++ c :: (taken ++ left)) =
      (⟨k, Span.between (p.advance blanks) stop⟩ :: after.1, after.2) := by
  rw [scanAll_token hblanks hc]
  simp [h, more]

/-- The kinds of the tokens, and what is left after them, where more tokens follow. -/
theorem kinds_next (hblanks : ∀ x ∈ blanks, isBlank x = true) (hc : isBlank c = false)
    {taken left : List Char} {k : Kind} (h : scan mode depth c (taken ++ left) = (k, left))
    (more : k.isTerminator = false) (p : Position) :
    let after := scanAll mode (depthAfter depth k) (p.advance (blanks ++ c :: taken)) left
    (scanAll mode depth p (blanks ++ c :: (taken ++ left))).1.map (·.kind) =
        k :: after.1.map (·.kind) ∧
      (scanAll mode depth p (blanks ++ c :: (taken ++ left))).2 = after.2 := by
  rw [scanAll_next hblanks hc h more]
  exact ⟨rfl, rfl⟩

end

/-- The closing braces of a tag after some blanks. -/
theorem scanAll_braces {blanks : List Char} (hblanks : ∀ x ∈ blanks, isBlank x = true)
    (p : Position) (rest : List Char) :
    let stop := p.advance (blanks ++ ['}', '}'])
    scanAll .tag 0 p (blanks ++ '}' :: '}' :: rest) =
      ([⟨.tagEnd, Span.between (p.advance blanks) stop⟩], stop, rest) := by
  have braces : scan .tag 0 '}' ('}' :: rest) = (.tagEnd, rest) := by
    simp [scan]
  have last : Kind.tagEnd.isTerminator = true := rfl
  rw [scanAll_token hblanks (by decide)]
  simp [braces, last]

theorem kinds_braces {blanks : List Char} (hblanks : ∀ x ∈ blanks, isBlank x = true)
    (p : Position) (rest : List Char) :
    (scanAll .tag 0 p (blanks ++ '}' :: '}' :: rest)).1.map (·.kind) = [.tagEnd] ∧
      (scanAll .tag 0 p (blanks ++ '}' :: '}' :: rest)).2 =
        (p.advance (blanks ++ ['}', '}']), rest) := by
  rw [scanAll_braces hblanks]
  exact ⟨rfl, rfl⟩

/-- A tag without anything in it. -/
theorem head?_of_kinds {p : Position} {cs : List Char}
    (h : (scanAll .tag 0 p cs).1.map (·.kind) = [.tagEnd]) :
    (cs.dropWhile isBlank).head? = some '}' := by
  cases hcs : cs.dropWhile isBlank with
  | nil =>
    rw [scanAll_blank (List.dropWhile_eq_nil_iff.mp hcs)] at h
    cases h
  | cons c more =>
    obtain ⟨blanks, rfl, hblanks, hc⟩ := exists_blanks hcs
    cases last : (scan .tag 0 c more).1.isTerminator with
    | true =>
      rw [kinds_last hblanks hc last] at h
      have closes : (scan .tag 0 c more).1 = .tagEnd := List.head_eq_of_cons_eq h
      obtain ⟨rfl, -, -⟩ := eq_braces_of_scan (by rw [closes]; rfl)
      rfl
    | false =>
      rw [scanAll_token hblanks hc] at h
      simp only [last, Bool.false_eq_true, if_false, List.map_cons, List.cons.injEq] at h
      rw [h.1] at last
      cases last

/-- A tag that ends with closing braces is read the same wherever it stands and whatever
follows it. -/
theorem exists_scanAll {depth : Nat} {p : Position} {cs : List Char}
    (h : ((scanAll .tag depth p cs).1.map (·.kind)).getLast? = some .tagEnd) :
    ∃ inner, cs = inner ++ '}' :: '}' :: (scanAll .tag depth p cs).2.2 ∧
      (scanAll .tag depth p cs).2.1 = p.advance (inner ++ ['}', '}']) ∧
      ∀ q rest, (scanAll .tag depth q (inner ++ '}' :: '}' :: rest)).1.map (·.kind) =
          (scanAll .tag depth p cs).1.map (·.kind) ∧
        (scanAll .tag depth q (inner ++ '}' :: '}' :: rest)).2 =
          (q.advance (inner ++ ['}', '}']), rest) := by
  induction n : cs.length using Nat.strongRecOn generalizing depth p cs with
  | ind n ih =>
    rcases blank_or_token .tag depth cs with
      blank | ⟨blanks, c, taken, left, k, rfl, hblanks, hc, first, shorter⟩
    · rw [scanAll_blank blank] at h
      cases h
    · cases last : k.isTerminator with
      | true =>
        rw [kinds_last hblanks hc (by rw [first]; exact last), first] at h
        obtain rfl : k = .tagEnd := Option.some.inj h
        have closes : (scan .tag depth c (taken ++ left)).1.isEnd = true := by
          rw [first]
          rfl
        obtain ⟨rfl, -, rfl, rest, closed⟩ := eq_braces_of_scan closes
        rw [closed]
        obtain ⟨kinds, after⟩ := kinds_braces hblanks p rest
        refine ⟨blanks, ?_, ?_, fun q rest' => ?_⟩
        · rw [after]
        · rw [after]
        · rw [kinds]
          exact kinds_braces hblanks q rest'
      | false =>
        obtain ⟨kinds, after⟩ := kinds_next hblanks hc first last p
        have goes_on : k ≠ .tagEnd := by
          rintro rfl
          cases last
        have ends : ((scanAll .tag (depthAfter depth k) (p.advance (blanks ++ c :: taken))
            left).1.map (·.kind)).getLast? = some .tagEnd := by
          rw [kinds, List.getLast?_cons] at h
          cases hlast : ((scanAll .tag (depthAfter depth k) (p.advance (blanks ++ c :: taken))
              left).1.map (·.kind)).getLast? with
          | none =>
            rw [hlast] at h
            exact absurd (Option.some.inj h) goes_on
          | some x =>
            rw [hlast] at h
            exact h
        obtain ⟨inner, rest, position, reads⟩ := ih left.length (n ▸ shorter) ends rfl
        rw [kinds, after]
        refine ⟨blanks ++ c :: (taken ++ inner), ?_, ?_, fun q rest' => ?_⟩
        · rw [List.append_assoc, List.cons_append, List.append_assoc, ← rest]
        · rw [position, ← Position.advance_append]
          simp
        · rw [rest, ← List.append_assoc] at first
          have again := scan_brace (by rw [first]; exact last) (by rw [first]) ('}' :: rest')
          rw [first, List.append_assoc] at again
          obtain ⟨kinds', after'⟩ := kinds_next hblanks hc again last q
          obtain ⟨same, place⟩ := reads (q.advance (blanks ++ c :: taken)) rest'
          rw [List.append_assoc, List.cons_append, List.append_assoc, kinds', after', same, place,
            ← Position.advance_append]
          simp

end PromptTemplate.Token
