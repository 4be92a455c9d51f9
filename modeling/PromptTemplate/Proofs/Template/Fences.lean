import PromptTemplate.Proofs.Text.Taking
import PromptTemplate.Template.Markup

/-!
# The config block of a text

A config block ends with a line, so what stands after that line does not matter for it. A
text without a config block does not begin with a fence.
-/

namespace PromptTemplate

open Text Text.Cursor

namespace Template

/-- Whether a line is over. -/
def EndsLine (cs : List Char) : Prop := ∀ x ∈ cs.head?, x = '\n'

variable {cs line : List Char}

theorem takeWhile_line (hline : ∀ x ∈ line, x ≠ '\n') (h : EndsLine cs) :
    (line ++ cs).takeWhile (· ≠ '\n') = line :=
  takeWhile_front (fun x hx => decide_eq_true (hline x hx)) fun x hx =>
    decide_eq_false fun other => other (h x hx)

/-- The first line of a text and what comes after it. -/
theorem exists_line (cs : List Char) :
    ∃ line rest, cs = line ++ rest ∧ (∀ x ∈ line, x ≠ '\n') ∧ EndsLine rest ∧
      cs.takeWhile (· ≠ '\n') = line := by
  refine ⟨cs.takeWhile (· ≠ '\n'), cs.dropWhile (· ≠ '\n'),
    List.takeWhile_append_dropWhile.symm, ?_, ?_, rfl⟩
  · intro x hx
    exact of_decide_eq_true (List.all_eq_true.mp List.all_takeWhile x hx)
  · intro x hx
    exact Decidable.not_not.mp (of_decide_eq_false (head?_dropWhile hx))

theorem configBody?_cons {x : Char} (hcs : cs = x :: line) :
    configBody? cs =
      if trimEnd (cs.takeWhile (· ≠ '\n')) = ['-', '-', '-'] then
        some ([], (cs.takeWhile (· ≠ '\n')).length)
      else if (cs.takeWhile (· ≠ '\n')).length = cs.length then none
      else (configBody? (cs.drop ((cs.takeWhile (· ≠ '\n')).length + 1))).map fun (body, n) =>
        (cs.takeWhile (· ≠ '\n') ++ '\n' :: body, n) := by
  subst hcs
  rw [configBody?]

/-- The lines up to the closing one and that line itself are the same before any other line
end. -/
theorem configBody?_append {body : List Char} {n : Nat} (h : configBody? cs = some (body, n)) :
    ∃ used rest, cs = used ++ rest ∧ used.length = body.length + n ∧ EndsLine rest ∧
      ∀ rest', EndsLine rest' → configBody? (used ++ rest') = some (body, n) := by
  induction hn : cs.length using Nat.strongRecOn generalizing cs body with
  | ind m ih =>
    obtain ⟨line, rest, rfl, hline, hrest, hfront⟩ := exists_line cs
    cases hcs : line ++ rest with
    | nil =>
      rw [hcs, configBody?] at h
      cases h
    | cons x xs =>
      rw [configBody?_cons hcs, hfront] at h
      split at h
      · rename_i fence
        cases h
        refine ⟨line, rest, hcs.symm, by simp, hrest, fun rest' hrest' => ?_⟩
        cases line with
        | nil => cases fence
        | cons y ys =>
          rw [configBody?_cons List.cons_append, takeWhile_line hline hrest', if_pos fence]
      · rename_i notFence
        split at h
        · cases h
        · rename_i more
          obtain ⟨⟨body', n'⟩, hbody, heq⟩ := Option.map_eq_some_iff.mp h
          cases heq
          cases rest with
          | nil => simp at more
          | cons y tail =>
            cases hrest y rfl
            rw [List.drop_length_add_append, List.drop_succ_cons, List.drop_zero] at hbody
            have shorter : tail.length < m := by
              rw [← hn, List.length_append, List.length_cons]
              omega
            obtain ⟨used, rest, rfl, hused, hrest, again⟩ := ih _ shorter hbody rfl
            refine ⟨line ++ '\n' :: used, rest, by rw [← hcs]; simp, by simp [hused]; omega, hrest,
              fun rest' hrest' => ?_⟩
            have later : EndsLine ('\n' :: (used ++ rest')) := fun x hx => (Option.some.inj hx).symm
            have first : (line ++ '\n' :: (used ++ rest')).takeWhile (· ≠ '\n') = line :=
              takeWhile_line hline later
            rw [List.append_assoc, List.cons_append]
            cases hcs' : line ++ '\n' :: (used ++ rest') with
            | nil => simp at hcs'
            | cons z zs =>
              rw [← hcs', configBody?_cons hcs', first, if_neg notFence,
                List.drop_length_add_append, List.drop_succ_cons, List.drop_zero,
                again rest' hrest', if_neg (by simp)]
              rfl

/-! ## Fences -/

/-- The line of a fence. -/
theorem exists_fence {rest : List Char} (hline : ∀ x ∈ line, x ≠ '\n') (hrest : EndsLine rest)
    (h : isFence (line ++ rest) = true) :
    ∃ blanks, line = '-' :: '-' :: '-' :: blanks ∧ ∀ x ∈ blanks, isBlank x = true := by
  rw [isFence, Bool.and_eq_true] at h
  obtain ⟨marks, blanks⟩ := h
  match line with
  | [] | [_] | [_, _] =>
    exfalso
    cases rest with
    | nil => simp [List.isPrefixOf] at marks
    | cons x xs =>
      cases hrest x rfl
      simp [List.isPrefixOf] at marks
  | a :: b :: c :: more =>
    simp only [List.cons_append, List.isPrefixOf, Bool.and_true, Bool.and_eq_true,
      beq_iff_eq] at marks
    obtain ⟨rfl, rfl, rfl⟩ := marks
    have hmore : ∀ x ∈ more, x ≠ '\n' := fun x hx => hline x (by simp [hx])
    rw [List.cons_append, List.cons_append, List.cons_append, List.drop_succ_cons,
      List.drop_succ_cons, List.drop_succ_cons, List.drop_zero,
      takeWhile_line hmore hrest] at blanks
    exact ⟨more, rfl, List.all_eq_true.mp blanks⟩

/-- The text of a config block. -/
def blockText (before blanks used : List Char) : List Char :=
  before ++ ('-' :: '-' :: '-' :: blanks) ++ '\n' :: used

/-- A config block is read to the end of its last line. -/
theorem configBlock_blockText {before blanks used rest body : List Char} {n : Nat}
    (hbefore : ∀ x ∈ before, isBlank x = true) (hblanks : ∀ x ∈ blanks, isBlank x = true)
    (hline : ∀ x ∈ blanks, x ≠ '\n') (hbody : configBody? (used ++ rest) = some (body, n))
    (hused : used.length = body.length + n) :
    configBlock (Cursor.start (blockText before blanks used ++ rest)) =
      match Config.read (String.ofList body) with
      | .error fault => .error ((Cause.invalidConfig fault.message).on
        (Span.between (Position.first.advance before)
          (Position.first.advance (blockText before blanks used))))
      | .ok value => .ok (some (.config value (Span.between (Position.first.advance before)
        (Position.first.advance (blockText before blanks used)))),
          ⟨Position.first.advance (blockText before blanks used), rest⟩) := by
  have later : EndsLine ('\n' :: (used ++ rest)) := fun x hx => (Option.some.inj hx).symm
  have fence : ∀ x ∈ ('-' :: '-' :: '-' :: blanks), x ≠ '\n' := by
    simpa using hline
  have text : blockText before blanks used ++ rest =
      before ++ (('-' :: '-' :: '-' :: blanks) ++ '\n' :: (used ++ rest)) := by
    simp [blockText]
  have start : (Cursor.start (blockText before blanks used ++ rest)).skipBlank =
      ⟨Position.first.advance before,
        ('-' :: '-' :: '-' :: blanks) ++ '\n' :: (used ++ rest)⟩ := by
    rw [Cursor.start, skipBlank, skipWhile, text, takeWhile_front hbefore (by simp [isBlank])]
    simp [skip]
  have isfence : isFence (('-' :: '-' :: '-' :: blanks) ++ '\n' :: (used ++ rest)) = true := by
    rw [isFence, List.cons_append, List.cons_append, List.cons_append, List.drop_succ_cons,
      List.drop_succ_cons, List.drop_succ_cons, List.drop_zero, takeWhile_line hline later]
    simpa [List.isPrefixOf] using hblanks
  have opened : (Cursor.mk (Position.first.advance before)
      (('-' :: '-' :: '-' :: blanks) ++ '\n' :: (used ++ rest))).skip
        (('-' :: '-' :: '-' :: blanks).length + 1) =
      ⟨Position.first.advance (before ++ ('-' :: '-' :: '-' :: blanks) ++ ['\n']),
        used ++ rest⟩ := by
    rw [skip, List.drop_length_add_append, List.take_length_add_append]
    simp [Position.advance_append]
  have stop : (Cursor.mk (Position.first.advance
      (before ++ ('-' :: '-' :: '-' :: blanks) ++ ['\n'])) (used ++ rest)).skip
        (body.length + n) = ⟨Position.first.advance (blockText before blanks used), rest⟩ := by
    rw [skip, ← hused, List.take_left, List.drop_left, ← Position.advance_append]
    simp [blockText]
  rw [configBlock]
  dsimp only
  rw [start, takeWhile_line fence later, opened, isfence]
  cases read : Config.read (String.ofList body) <;>
    simp only [hbody, stop, Bool.not_true, Bool.false_eq_true, if_false, span, read]

/-! ## Texts with and without a config block -/

/-- A text with the config block that it begins with, if there is one, and the cursor where its
nodes begin. -/
inductive Headed (cs : List Char) : Option Node → Cursor → Prop where
  | plain : isFence (trimStart cs) = false → Headed cs none (Cursor.start cs)
  | block (front rest : List Char) (value : Config) (s : Span) :
    cs = front ++ rest → EndsLine rest → s.stop = byteLength front →
    (∀ rest', EndsLine rest' → configBlock (Cursor.start (front ++ rest')) =
      .ok (some (.config value s), ⟨Position.first.advance front, rest'⟩)) →
    Headed cs (some (.config value s)) ⟨Position.first.advance front, rest⟩

theorem Headed.exists_front {config : Option Node} {c : Cursor} (h : Headed cs config c) :
    ∃ front, cs = front ++ c.rest ∧ c.position = Position.first.advance front := by
  cases h with
  | plain => exact ⟨[], rfl, rfl⟩
  | block front rest value s whole => exact ⟨front, whole, rfl⟩

theorem configBlock_plain (h : isFence (trimStart cs) = false) :
    configBlock (Cursor.start cs) = .ok (none, Cursor.start cs) := by
  rw [configBlock]
  dsimp only
  rw [skipBlank, rest_skipWhile, Cursor.start, show cs.dropWhile isBlank = trimStart cs from rfl, h]
  rfl

theorem headed_of_configBlock {config : Option Node} {c : Cursor}
    (h : configBlock (Cursor.start cs) = .ok (config, c)) : Headed cs config c := by
  cases hfence : isFence (trimStart cs) with
  | false =>
    rw [configBlock_plain hfence] at h
    cases h
    exact .plain hfence
  | true =>
    obtain ⟨line, rest, hcs, hline, hrest, hfront⟩ := exists_line (trimStart cs)
    have hfence' := hfence
    rw [hcs] at hfence'
    obtain ⟨blanks, rfl, hblanks⟩ := exists_fence hline hrest hfence'
    have hblanks' : ∀ x ∈ blanks, x ≠ '\n' := fun x hx => hline x (by simp [hx])
    have start : (Cursor.start cs).skipBlank.rest = trimStart cs := rest_skipWhile _ _
    have hcs' : cs = cs.takeWhile isBlank ++ trimStart cs :=
      List.takeWhile_append_dropWhile.symm
    have hread := h
    rw [configBlock] at h
    dsimp only at h
    rw [start, hfence, Bool.not_true, if_neg Bool.false_ne_true, hfront, rest_skip, start, hcs,
      List.drop_length_add_append] at h
    cases rest with
    | nil =>
      rw [List.drop_nil, configBody?] at h
      cases h
    | cons x tail =>
      cases hrest x rfl
      rw [List.drop_succ_cons, List.drop_zero] at h
      cases hbody : configBody? tail with
      | none =>
        rw [hbody] at h
        cases h
      | some r =>
        obtain ⟨body, n⟩ := r
        obtain ⟨used, rest, rfl, hused, hrest, again⟩ := configBody?_append hbody
        have text : cs = blockText (cs.takeWhile isBlank) blanks used ++ rest := by
          rw [hcs] at hcs'
          simpa [blockText] using hcs'
        generalize hbefore : cs.takeWhile isBlank = before at text
        have blank : ∀ x ∈ before, isBlank x = true := by
          rw [← hbefore]
          exact List.all_eq_true.mp List.all_takeWhile
        have block (rest' : List Char) (hrest' : EndsLine rest') :=
          configBlock_blockText blank hblanks hblanks' (again rest' hrest') hused
        rw [text, block rest hrest] at hread
        cases hconfig : Config.read (String.ofList body) with
        | error fault =>
          rw [hconfig] at hread
          cases hread
        | ok value =>
          rw [hconfig] at hread block
          cases hread
          refine .block _ rest value _ text hrest ?_ block
          exact (Position.offset_advance _ _).trans (Nat.zero_add _)

end Template

end PromptTemplate
