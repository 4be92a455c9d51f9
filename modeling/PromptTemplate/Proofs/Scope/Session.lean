import PromptTemplate.Proofs.Scope.Layers

/-!
# Sessions with environments

A session asks an environment of variables one thing after another, copies it, and goes
on with any of the copies. Two kinds of environments cannot be told apart by sessions if
a view of the first one as the second commutes with every operation. Scopes and stacks of
dictionaries are such a pair.
-/

namespace PromptTemplate

/-- The operations of an environment of variables. -/
structure Environment (σ : Type) where
  set : σ → String → Value → σ
  declare : σ → String → Value → σ
  get? : σ → String → Option Value
  contains : σ → String → Bool
  push : σ → σ
  pop : σ → σ
  depth : σ → Nat
  /-- The environment made again from what is stored of it. -/
  restore : σ → σ

inductive Request where
  | set (name : String) (v : Value)
  | declare (name : String) (v : Value)
  | get (name : String)
  | contains (name : String)
  | push
  | pop
  | depth
  | restore
  | copy
  /-- Goes on with a copy, and keeps the environment in its place. -/
  | swap (k : Nat)

inductive Answer where
  | done
  | value (v : Option Value)
  | flag (b : Bool)
  | count (n : Nat)

/-- The environment in use and the copies made so far. -/
structure Session (σ : Type) where
  current : σ
  copies : List σ

namespace Session

variable {σ τ : Type}

def All (valid : σ → Prop) (p : Session σ) : Prop :=
  valid p.current ∧ ∀ s ∈ p.copies, valid s

def map (view : σ → τ) (p : Session σ) : Session τ :=
  ⟨view p.current, p.copies.map view⟩

end Session

namespace Environment

variable {σ τ : Type}

def answer (m : Environment σ) (p : Session σ) : Request → Answer × Session σ
  | .set name v => (.done, { p with current := m.set p.current name v })
  | .declare name v => (.done, { p with current := m.declare p.current name v })
  | .get name => (.value (m.get? p.current name), p)
  | .contains name => (.flag (m.contains p.current name), p)
  | .push => (.done, { p with current := m.push p.current })
  | .pop => (.done, { p with current := m.pop p.current })
  | .depth => (.count (m.depth p.current), p)
  | .restore => (.done, { p with current := m.restore p.current })
  | .copy => (.done, { p with copies := p.copies ++ [p.current] })
  | .swap k =>
    match p.copies[k]? with
    | some s => (.done, ⟨s, p.copies.set k p.current⟩)
    | none => (.done, p)

/-- The answers to some requests, and the session after them. -/
def run (m : Environment σ) (p : Session σ) : List Request → List Answer × Session σ
  | [] => ([], p)
  | r :: rest =>
    let (a, next) := m.answer p r
    let (more, last) := m.run next rest
    (a :: more, last)

/-- What makes a view of valid environments as other ones invisible to sessions. -/
structure Refines (m : Environment σ) (n : Environment τ) (valid : σ → Prop)
    (view : σ → τ) : Prop where
  set : ∀ s, valid s → ∀ name v,
    valid (m.set s name v) ∧ view (m.set s name v) = n.set (view s) name v
  declare : ∀ s, valid s → ∀ name v,
    valid (m.declare s name v) ∧ view (m.declare s name v) = n.declare (view s) name v
  get? : ∀ s, valid s → ∀ name, m.get? s name = n.get? (view s) name
  contains : ∀ s, valid s → ∀ name, m.contains s name = n.contains (view s) name
  push : ∀ s, valid s → valid (m.push s) ∧ view (m.push s) = n.push (view s)
  pop : ∀ s, valid s → valid (m.pop s) ∧ view (m.pop s) = n.pop (view s)
  depth : ∀ s, valid s → m.depth s = n.depth (view s)
  restore : ∀ s, valid s → valid (m.restore s) ∧ view (m.restore s) = n.restore (view s)

variable {m : Environment σ} {n : Environment τ} {valid : σ → Prop} {view : σ → τ}

/-- One request is answered alike, and leaves sessions that correspond. -/
theorem Refines.answer_eq (h : Refines m n valid view) {p : Session σ} (hp : p.All valid)
    (r : Request) :
    n.answer (p.map view) r = ((m.answer p r).1, (m.answer p r).2.map view) ∧
      (m.answer p r).2.All valid := by
  obtain ⟨hs, hcopies⟩ := hp
  cases r with
  | set name v =>
    obtain ⟨hv, he⟩ := h.set _ hs name v
    exact ⟨by simp [answer, Session.map, he], hv, hcopies⟩
  | declare name v =>
    obtain ⟨hv, he⟩ := h.declare _ hs name v
    exact ⟨by simp [answer, Session.map, he], hv, hcopies⟩
  | get name => exact ⟨by simp [answer, Session.map, h.get? _ hs], hs, hcopies⟩
  | contains name => exact ⟨by simp [answer, Session.map, h.contains _ hs], hs, hcopies⟩
  | push =>
    obtain ⟨hv, he⟩ := h.push _ hs
    exact ⟨by simp [answer, Session.map, he], hv, hcopies⟩
  | pop =>
    obtain ⟨hv, he⟩ := h.pop _ hs
    exact ⟨by simp [answer, Session.map, he], hv, hcopies⟩
  | depth => exact ⟨by simp [answer, Session.map, h.depth _ hs], hs, hcopies⟩
  | restore =>
    obtain ⟨hv, he⟩ := h.restore _ hs
    exact ⟨by simp [answer, Session.map, he], hv, hcopies⟩
  | copy =>
    refine ⟨by simp [answer, Session.map], hs, ?_⟩
    intro s hmem
    rcases List.mem_append.mp hmem with hold | hnew
    · exact hcopies s hold
    · exact List.mem_singleton.mp hnew ▸ hs
  | swap k =>
    cases hk : p.copies[k]? with
    | none => exact ⟨by simp [answer, Session.map, hk], by simpa [answer, hk] using ⟨hs, hcopies⟩⟩
    | some s =>
      refine ⟨by simp [answer, Session.map, hk, List.map_set], ?_⟩
      simp only [answer, hk]
      refine ⟨hcopies s (List.mem_of_getElem? hk), ?_⟩
      intro t hmem
      rcases List.mem_or_eq_of_mem_set hmem with hold | heq
      · exact hcopies t hold
      · exact heq ▸ hs

theorem Refines.run_eq (h : Refines m n valid view) {p : Session σ} (hp : p.All valid)
    (requests : List Request) :
    (m.run p requests).1 = (n.run (p.map view) requests).1 ∧
      (m.run p requests).2.All valid := by
  induction requests generalizing p with
  | nil => exact ⟨rfl, hp⟩
  | cons r rest ih =>
    obtain ⟨heq, hnext⟩ := h.answer_eq hp r
    obtain ⟨hmore, hlast⟩ := ih hnext
    exact ⟨by simp only [run, heq, hmore], hlast⟩

end Environment

namespace Layers

def environment : Environment Layers where
  set := set
  declare l name v := l.declare name v
  get? := get?
  contains := contains
  push := push
  pop := pop
  depth := List.length
  restore l := l

theorem get?_declare (d : Dictionary Value) (rest : Layers) (name other : String) (v : Value) :
    get? (declare name v (d :: rest)) other =
      if name = other then some v else get? (d :: rest) other := by
  simp only [get?, declare, List.findSome?_cons, Dictionary.get?_put]
  by_cases h : name = other <;> simp [h]

theorem get?_overwrite (l : Layers) {name other : String} (v : Value) (h : name ≠ other) :
    get? (l.overwrite name v) other = l.get? other := by
  simp only [get?]
  induction l with
  | nil => rfl
  | cons d rest ih =>
    by_cases hd : Dictionary.contains d name
    · rw [overwrite, if_pos hd, List.findSome?_cons, List.findSome?_cons, Dictionary.get?_put,
        if_neg h]
    · rw [overwrite, if_neg hd, List.findSome?_cons, List.findSome?_cons, ih]

end Layers

namespace Scope

def environment : Environment Scope where
  set := set
  declare := declare
  get? := get?
  contains := contains
  push := push
  pop := pop
  depth := depth
  restore s := ofStash s.stash

theorem environment_refines :
    Environment.Refines environment Layers.environment WellFormed layers where
  set _ h name v := ⟨h.set name v, layers_set h name v⟩
  declare _ h name v := ⟨h.declare name v, layers_declare h name v⟩
  get? _ h name := (get?_layers h name).symm
  contains s _ name := (contains_layers s name).symm
  push s h := ⟨h.push, layers_push s⟩
  pop _ h := ⟨h.pop, layers_pop h⟩
  depth s _ := (length_layers s).symm
  restore s h := by
    have : environment.restore s = s := ofStash_stash s
    rw [this]
    exact ⟨h, rfl⟩

/-- A new variable is not seen under another name. -/
theorem WellFormed.get?_declare_ne {s : Scope} (h : s.WellFormed) {name other : String}
    (v : Value) (hne : name ≠ other) : (s.declare name v).get? other = s.get? other := by
  rw [← get?_layers (h.declare name v), layers_declare h, ← get?_layers h]
  exact (Layers.get?_declare _ _ name other v).trans (if_neg hne)

/-- A write is not seen under another name. -/
theorem WellFormed.get?_set_ne {s : Scope} (h : s.WellFormed) {name other : String}
    (v : Value) (hne : name ≠ other) : (s.set name v).get? other = s.get? other := by
  rw [← get?_layers (h.set name v), layers_set h, Layers.set]
  split
  · rw [Layers.get?_overwrite _ v hne, get?_layers h]
  · rw [← layers_declare h, get?_layers (h.declare name v), h.get?_declare_ne v hne]

/-- Whatever a session asks, a scope answers like the stack of dictionaries with the same
parameters. In every scope of the session the names that exist are those that can be
read, and a write to one name does not change what another one reads. -/
theorem session_eq (parameters : List (String × Value)) (requests : List Request) :
    let scopes := environment.run ⟨ofParameters parameters, []⟩ requests
    let layers := Layers.environment.run ⟨[Dictionary.ofList parameters], []⟩ requests
    scopes.1 = layers.1 ∧
      ∀ s ∈ scopes.2.current :: scopes.2.copies,
        (∀ name, s.contains name = true ↔ ∃ v, s.get? name = some v) ∧
        ∀ name other v, name ≠ other →
          (s.set name v).get? other = s.get? other ∧
          (s.declare name v).get? other = s.get? other := by
  intro scopes layers
  have start : Session.All WellFormed ⟨ofParameters parameters, []⟩ :=
    ⟨wellFormed_ofParameters parameters, by simp⟩
  obtain ⟨hanswers, hcurrent, hcopies⟩ := environment_refines.run_eq start requests
  constructor
  · have hview : Session.map Scope.layers ⟨ofParameters parameters, []⟩ =
        ⟨[Dictionary.ofList parameters], []⟩ := by
      simp [Session.map, layers_ofParameters]
    rw [hview] at hanswers
    exact hanswers
  · intro s hs
    have h : s.WellFormed := by
      rcases List.mem_cons.mp hs with heq | hmem
      · exact heq ▸ hcurrent
      · exact hcopies s hmem
    refine ⟨h.contains_iff, ?_⟩
    intro name other v hne
    exact ⟨h.get?_set_ne v hne, h.get?_declare_ne v hne⟩

end Scope

end PromptTemplate
