import Mathlib.Order.Defs.Unbundled

/-!
# Runs of computations

A computation that may fail leaves a state either way. What holds at its end is said of
its value and the state, or of its error and the state, and is found from its parts in
the order in which they run. A relation between the state before and the state after that
every part keeps is kept by the whole.
-/

namespace PromptTemplate

variable {ε σ α β : Type}

/-! ## Results -/

/-- What holds of a result, if it is not an error. -/
def Yields (P : α → Prop) (r : Except ε α) : Prop := ∀ a, r = .ok a → P a

namespace Yields

variable {P : α → Prop} {Q : β → Prop}

theorem ok {a : α} (h : P a) : Yields P (.ok a : Except ε α) := by
  intro b hb
  cases hb
  exact h

theorem error (e : ε) : Yields P (.error e : Except ε α) := by
  intro a h
  cases h

theorem any (r : Except ε α) : Yields (fun _ => True) r := fun _ _ => trivial

theorem bind {r : Except ε α} {f : α → Except ε β} (hr : Yields P r)
    (hf : ∀ a, P a → Yields Q (f a)) : Yields Q (r >>= f) := by
  cases r with
  | error e => exact error e
  | ok a => exact hf a (hr a rfl)

end Yields

/-- A computation fails in its first part, or in what follows the value of that part. -/
theorem bind_eq_error_iff {r : Except ε α} {f : α → Except ε β} {e : ε} :
    (r >>= f) = .error e ↔ r = .error e ∨ ∃ a, r = .ok a ∧ f a = .error e := by
  cases r <;> simp [bind, Except.bind]

/-- What only changes the value of a computation does not fail of itself. -/
theorem map_eq_error_iff {r : Except ε α} {f : α → β} {e : ε} :
    (r >>= fun a => pure (f a)) = .error e ↔ r = .error e :=
  bind_eq_error_iff.trans (or_iff_left fun ⟨_, _, hfa⟩ => by cases hfa)

/-- What holds of the error of a result, if it is one. -/
def FailsWith (P : ε → Prop) (r : Except ε α) : Prop := ∀ e, r = .error e → P e

namespace FailsWith

variable {P : ε → Prop}

theorem ok (a : α) : FailsWith P (.ok a) := by
  intro e h
  cases h

theorem error {e : ε} (h : P e) : FailsWith P (.error e : Except ε α) := by
  intro e' he
  cases he
  exact h

theorem bind {r : Except ε α} {f : α → Except ε β} (hr : FailsWith P r)
    (hf : ∀ a, FailsWith P (f a)) : FailsWith P (r >>= f) := by
  cases r with
  | error e => exact error (hr e rfl)
  | ok a => exact hf a

theorem imp {Q : ε → Prop} {r : Except ε α} (hr : FailsWith P r) (h : ∀ e, P e → Q e) :
    FailsWith Q r := fun e he => h e (hr e he)

/-- A computation that goes on with the value as it is. -/
theorem map {r : Except ε α} (hr : FailsWith P r) (f : α → β) :
    FailsWith P (r >>= fun a => pure (f a)) :=
  hr.bind fun a => ok (f a)

end FailsWith

/-! ## Computations -/

/-- What holds at the end of a computation. -/
def Ends (p : ExceptT ε (StateM σ) α) (s : σ) (good : α → σ → Prop) (bad : ε → σ → Prop) :
    Prop :=
  match p.run s with
  | (.ok a, t) => good a t
  | (.error e, t) => bad e t

section

variable {p : ExceptT ε (StateM σ) α} {s : σ} {good : α → σ → Prop} {bad : ε → σ → Prop}

@[simp] theorem ends_pure (a : α) : Ends (pure a) s good bad ↔ good a s := Iff.rfl

@[simp] theorem ends_throw (e : ε) : Ends (throw e) s good bad ↔ bad e s := Iff.rfl

@[simp] theorem ends_get {good : σ → σ → Prop} : Ends get s good bad ↔ good s s := Iff.rfl

@[simp] theorem ends_set (t : σ) {good : PUnit → σ → Prop} :
    Ends (set t) s good bad ↔ good ⟨⟩ t := Iff.rfl

@[simp] theorem ends_modify (f : σ → σ) {good : PUnit → σ → Prop} :
    Ends (modify f) s good bad ↔ good ⟨⟩ (f s) := Iff.rfl

@[simp] theorem ends_ofExcept (r : Except ε α) :
    Ends (ofExcept r) s good bad ↔
      match r with
      | .ok a => good a s
      | .error e => bad e s := by
  cases r <;> exact Iff.rfl

theorem run_bind (p : ExceptT ε (StateM σ) α) (f : α → ExceptT ε (StateM σ) β) (s : σ) :
    (p >>= f).run s =
      match p.run s with
      | (.ok a, t) => (f a).run t
      | (.error e, t) => (.error e, t) := by
  change (match p.run s with | (r, t) => ExceptT.bindCont f r t) = _
  rcases p.run s with ⟨_ | _, t⟩ <;> rfl

@[simp] theorem run_get (s : σ) : (get : ExceptT ε (StateM σ) σ).run s = (.ok s, s) := rfl

@[simp] theorem run_set (t s : σ) :
    (set t : ExceptT ε (StateM σ) PUnit).run s = (.ok ⟨⟩, t) := rfl

@[simp] theorem run_modify (f : σ → σ) (s : σ) :
    (modify f : ExceptT ε (StateM σ) PUnit).run s = (.ok ⟨⟩, f s) := rfl

theorem run_bind_congr {q : ExceptT ε (StateM σ) α} {t : σ} (h : p.run s = q.run t)
    (f : α → ExceptT ε (StateM σ) β) : (p >>= f).run s = (q >>= f).run t := by
  rw [run_bind, run_bind, h]

theorem run_bind_ok {a : α} {t : σ} (h : p.run s = (.ok a, t))
    (f : α → ExceptT ε (StateM σ) β) : (p >>= f).run s = (f a).run t := by
  rw [run_bind, h]

theorem run_bind_error {e : ε} {t : σ} (h : p.run s = (.error e, t))
    (f : α → ExceptT ε (StateM σ) β) : (p >>= f).run s = (.error e, t) := by
  rw [run_bind, h]

@[simp] theorem ends_bind (f : α → ExceptT ε (StateM σ) β) {good : β → σ → Prop} :
    Ends (p >>= f) s good bad ↔ Ends p s (fun a t => Ends (f a) t good bad) bad := by
  simp only [Ends]
  rw [run_bind]
  rcases p.run s with ⟨_ | _, t⟩ <;> exact Iff.rfl

theorem Ends.of_ok (h : Ends p s good bad) {a : α} {t : σ} (hrun : p.run s = (.ok a, t)) :
    good a t := by
  rw [Ends] at h
  rw [hrun] at h
  exact h

theorem Ends.of_error (h : Ends p s good bad) {e : ε} {t : σ} (hrun : p.run s = (.error e, t)) :
    bad e t := by
  rw [Ends] at h
  rw [hrun] at h
  exact h

/-- The end of a computation is what its run comes to. -/
theorem Ends.run :
    Ends p s (fun a t => p.run s = (.ok a, t)) (fun e t => p.run s = (.error e, t)) := by
  rw [Ends]
  split <;> rename_i hrun <;> exact hrun

theorem Ends.any : Ends p s (fun _ _ => True) (fun _ _ => True) := by
  rw [Ends]
  split <;> trivial

theorem Ends.and {good' : α → σ → Prop} {bad' : ε → σ → Prop} (h : Ends p s good bad)
    (h' : Ends p s good' bad') :
    Ends p s (fun a t => good a t ∧ good' a t) (fun e t => bad e t ∧ bad' e t) := by
  rw [Ends] at *
  split <;> rename_i hrun <;> rw [hrun] at h h' <;> exact ⟨h, h'⟩

theorem Ends.imp {better : α → σ → Prop} {worse : ε → σ → Prop} (h : Ends p s good bad)
    (hgood : ∀ a t, good a t → better a t) (hbad : ∀ e t, bad e t → worse e t) :
    Ends p s better worse := by
  rw [Ends] at *
  split at h
  · exact hgood _ _ h
  · exact hbad _ _ h

end

/-- A computation that changes the state only along a relation, and fails only in some
ways. -/
def Keeps (R : σ → σ → Prop) (F : ε → Prop) (p : ExceptT ε (StateM σ) α) : Prop :=
  ∀ s, Ends p s (fun _ t => R s t) (fun e t => R s t ∧ F e)

namespace Keeps

variable {R : σ → σ → Prop} [IsPreorder σ R] {F : ε → Prop}

theorem pure (a : α) : Keeps R F (pure a) := fun s => refl_of R s

theorem throw {e : ε} (h : F e) : Keeps R F (throw e : ExceptT ε (StateM σ) α) :=
  fun s => ⟨refl_of R s, h⟩

omit [IsPreorder σ R] in
/-- The state at the end, whatever the result. -/
theorem run {p : ExceptT ε (StateM σ) α} (h : Keeps R F p) (s : σ) : R s (p.run s).2 := by
  have hs := h s
  rw [Ends] at hs
  split at hs <;> rename_i hrun <;> rw [hrun]
  · exact hs
  · exact hs.1

theorem after {p : ExceptT ε (StateM σ) α} (h : Keeps R F p) {s t : σ} (hst : R s t) :
    Ends p t (fun _ u => R s u) (fun e u => R s u ∧ F e) := by
  refine (h t).imp (fun _ _ htu => trans_of R hst htu) ?_
  rintro e u ⟨htu, he⟩
  exact ⟨trans_of R hst htu, he⟩

theorem bind {p : ExceptT ε (StateM σ) α} {f : α → ExceptT ε (StateM σ) β}
    (hp : Keeps R F p) (hf : ∀ a, Keeps R F (f a)) : Keeps R F (p >>= f) := by
  intro s
  rw [ends_bind]
  exact (hp s).imp (fun a _ hst => (hf a).after hst) (fun _ _ h => h)

omit [IsPreorder σ R] in
theorem ite {c : Prop} [Decidable c] {p q : ExceptT ε (StateM σ) α} (hp : Keeps R F p)
    (hq : Keeps R F q) : Keeps R F (if c then p else q) := by
  split
  · exact hp
  · exact hq

omit [IsPreorder σ R] in
theorem modify {f : σ → σ} (h : ∀ s, R s (f s)) :
    Keeps R F (modify f : ExceptT ε (StateM σ) PUnit) := h

theorem ofExcept {r : Except ε α} (h : ∀ e, r = .error e → F e) :
    Keeps R F (ofExcept r : ExceptT ε (StateM σ) α) := by
  cases r with
  | ok a => exact Keeps.pure a
  | error e => exact Keeps.throw (h e rfl)

end Keeps

/-- A computation whose values are all good. -/
def Returns (good : α → Prop) (p : ExceptT ε (StateM σ) α) : Prop :=
  ∀ s, Ends p s (fun a _ => good a) (fun _ _ => True)

namespace Returns

variable {good : α → Prop} {p : ExceptT ε (StateM σ) α}

theorem any : Returns (fun _ => True) p := fun _ => Ends.any

theorem pure {a : α} (h : good a) : Returns good (pure a : ExceptT ε (StateM σ) α) := fun _ => h

theorem throw (e : ε) : Returns good (throw e : ExceptT ε (StateM σ) α) := fun _ => trivial

theorem bind {f : α → ExceptT ε (StateM σ) β} {fine : β → Prop} (hp : Returns good p)
    (hf : ∀ a, good a → Returns fine (f a)) : Returns fine (p >>= f) := by
  intro s
  rw [ends_bind]
  exact (hp s).imp (fun a t ha => hf a ha t) (fun _ _ h => h)

/-- The values are those of the last part. -/
theorem last {f : α → ExceptT ε (StateM σ) β} {fine : β → Prop}
    (hf : ∀ a, Returns fine (f a)) : Returns fine (p >>= f) :=
  any.bind fun a _ => hf a

theorem ite {c : Prop} [Decidable c] {q : ExceptT ε (StateM σ) α} (hp : Returns good p)
    (hq : Returns good q) : Returns good (if c then p else q) := by
  split
  · exact hp
  · exact hq

end Returns

/-- A computation that does the same to states that are related, and leaves them related. -/
def Respects (R : σ → σ → Prop) (p : ExceptT ε (StateM σ) α) : Prop :=
  ∀ s t, R s t → (p.run t).1 = (p.run s).1 ∧ R (p.run s).2 (p.run t).2

namespace Respects

variable {R : σ → σ → Prop}

theorem pure (a : α) : Respects R (pure a : ExceptT ε (StateM σ) α) := fun _ _ h => ⟨rfl, h⟩

theorem throw (e : ε) : Respects R (throw e : ExceptT ε (StateM σ) α) := fun _ _ h => ⟨rfl, h⟩

theorem modify {f : σ → σ} (h : ∀ {s t}, R s t → R (f s) (f t)) :
    Respects R (modify f : ExceptT ε (StateM σ) PUnit) := fun _ _ hst => ⟨rfl, h hst⟩

theorem bind {p : ExceptT ε (StateM σ) α} {f : α → ExceptT ε (StateM σ) β}
    (hp : Respects R p) (hf : ∀ a, Respects R (f a)) : Respects R (p >>= f) := by
  intro s t h
  rw [run_bind, run_bind]
  obtain ⟨hresult, hrelated⟩ := hp s t h
  rcases hs : p.run s with ⟨r, s'⟩
  rcases ht : p.run t with ⟨r', t'⟩
  rw [hs, ht] at hresult hrelated
  cases hresult
  cases r with
  | ok a => exact hf a _ _ hrelated
  | error e => exact ⟨rfl, hrelated⟩

/-- A computation may look at what related states have in common. -/
theorem bind_get {f : σ → ExceptT ε (StateM σ) β} (hf : ∀ {s t}, R s t → f t = f s)
    (h : ∀ s, Respects R (f s)) : Respects R (get >>= f) := by
  intro s t hst
  rw [run_bind, run_bind]
  change ((f t).run t).1 = ((f s).run s).1 ∧ R ((f s).run s).2 ((f t).run t).2
  rw [hf hst]
  exact h s _ _ hst

theorem ite {c : Prop} [Decidable c] {p q : ExceptT ε (StateM σ) α} (hp : Respects R p)
    (hq : Respects R q) : Respects R (if c then p else q) := by
  split
  · exact hp
  · exact hq

theorem ofExcept (r : Except ε α) : Respects R (ofExcept r : ExceptT ε (StateM σ) α) := by
  cases r with
  | ok a => exact Respects.pure a
  | error e => exact Respects.throw e

end Respects

end PromptTemplate
