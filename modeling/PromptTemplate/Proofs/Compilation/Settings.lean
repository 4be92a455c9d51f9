import PromptTemplate.Proofs.Compilation.Resumed
import PromptTemplate.Proofs.Compilation.Suspensions

/-!
# Config blocks and the settings of steps

The config of a compilation is the config block at the beginning of the template. Its
settings of a step are those of the step at which it has stopped: the values of the
attributes of the step other than `as`, put one after the other.
-/

namespace PromptTemplate

/-! ## Attributes of steps -/

namespace Compile

/-- The name for the response to a step: the output of its last `as` attribute, if it has
one, and another name otherwise. -/
def responseName (name : Option String) (pairs : List (Attribute × Value)) : Option String :=
  ((pairs.filter (·.1.name = "as")).getLast?.map (·.2.output)).or name

/-- The attributes of a step other than `as`, with their values. -/
def settings (pairs : List (Attribute × Value)) : List (String × Json) :=
  (pairs.filter (·.1.name ≠ "as")).map fun (a, v) => (a.name, v.toJson)

theorem responseName_cons (name : Option String) (a : Attribute) (v : Value)
    (pairs : List (Attribute × Value)) : responseName name ((a, v) :: pairs) =
      responseName (if a.name = "as" then some v.output else name) pairs := by
  by_cases h : a.name = "as"
  · cases hlast : (pairs.filter (·.1.name = "as")).getLast? <;>
      simp [responseName, h, hlast, List.getLast?_cons]
  · simp [responseName, h]

theorem settings_cons (a : Attribute) (v : Value) (pairs : List (Attribute × Value)) :
    settings ((a, v) :: pairs) =
      if a.name = "as" then settings pairs else (a.name, v.toJson) :: settings pairs := by
  by_cases h : a.name = "as" <;> simp [settings, h]

/-- The attributes of a step are evaluated in order. -/
theorem stepAttributes_eq (host : Host) (name : Option String) (config : Config)
    (as : List Attribute) :
    stepAttributes host name config as = (do
      let vs ← as.mapM (attributeValue host)
      let pairs := as.zip vs
      return (responseName name pairs, Dictionary.overlay config (settings pairs))) := by
  induction as generalizing name config with
  | nil => rfl
  | cons a rest ih =>
    simp only [stepAttributes, List.mapM_cons, bind_assoc, pure_bind]
    congr 1
    funext v
    by_cases h : a.name = "as"
    · simp [h, ih, responseName_cons, settings_cons]
    · simp [h, ih, responseName_cons, settings_cons, Dictionary.overlay]

/-- What the attributes of a step come to. -/
theorem run_stepAttributes {host : Host} {as : List Attribute} {c d : Compilation}
    {name : Option String} {config : Config}
    (h : (stepAttributes host none [] as).run c = (.ok (name, config), d)) :
    ∃ vs, (as.mapM (attributeValue host)).run c = (.ok vs, d) ∧
      name = responseName none (as.zip vs) ∧
      config = Dictionary.ofList (settings (as.zip vs)) := by
  rw [stepAttributes_eq, run_bind] at h
  rcases hvs : (as.mapM (attributeValue host)).run c with ⟨e | vs, f⟩
  · rw [hvs] at h
    cases h
  · rw [hvs] at h
    cases h
    exact ⟨vs, rfl, rfl, rfl⟩

end Compile

/-! ## Config blocks -/

/-- The config block at the beginning of a template. -/
def Fragment.configBlock? (f : Fragment) : Option Config :=
  match f.children with
  | .config v _ :: _ => some v
  | _ => none

namespace Compile

open Compilation

variable {host : Host} {nodes : List Node} {f : Fragment} {c : Compilation}

theorem closed_config (host : Host) :
    Closed host fun _ p => Keeps (Fixes (·.config)) (fun _ => True) p :=
  closed_keeps (fun _ _ _ => rfl) Change.config_apply

/-- Nodes without config blocks leave the config as it is. -/
theorem keeps_config (host : Host) (h : ∀ x ∈ Node.walkAll nodes, x.isConfig = false) :
    Keeps (Fixes (·.config)) (fun _ => True) (walkAll host nodes) := by
  refine walking_walkAll (closed_config host).walking (fun _ => .modify fun _ => rfl) nodes ?_
  intro v s hmem
  cases h _ hmem

theorem Remainder.not_isConfig {k : Nat} (h : Remainder k nodes) :
    ∀ x ∈ Node.walkAll nodes, x.isConfig = false := by
  induction h with
  | here name s hrest =>
    exact List.forall_mem_cons.mpr ⟨rfl, Node.not_isConfig_of_allPlaced hrest⟩
  | inside _ s hrest ih =>
    exact List.forall_mem_cons.mpr
      ⟨rfl, List.forall_mem_append.mpr ⟨ih, Node.not_isConfig_of_allPlaced hrest⟩⟩

theorem configBlock?_eq_none (h : ∀ x ∈ f.walk, x.isConfig = false) : f.configBlock? = none := by
  rw [Fragment.configBlock?]
  split
  · rename_i v s rest hchildren
    have found : Node.config v s ∈ f.walk := by
      rw [Fragment.walk, hchildren]
      exact List.mem_cons_self
    cases h _ found
  · rfl

/-- The config of a compilation is the config block of its template. -/
theorem ends_config (host : Host) (h : f.Compilable) (hc : c.config = none) :
    Ends (whole host f) c (fun _ d => d.config = f.configBlock?) (fun _ _ => True) := by
  have without : (∀ x ∈ f.walk, x.isConfig = false) →
      Ends (walkAll host f.children) c (fun _ d => d.config = f.configBlock?)
        (fun _ _ => True) := by
    intro no_config
    rw [configBlock?_eq_none no_config]
    exact (keeps_config host no_config c).imp (fun _ _ hd => hd.trans hc) (fun _ _ _ => trivial)
  refine ends_whole_of_walkAll ?_ fun _ d hd => (Change.config_apply .flush d).trans hd
  rcases h with ⟨front, nodes, hchildren, hnodes⟩ | ⟨k, hk⟩
  · have written := Node.not_isConfig_of_allPlaced hnodes
    cases front with
    | none =>
      refine without ?_
      rw [Fragment.walk, hchildren]
      exact written
    | some found =>
      have block : f.configBlock? = some found.1 := by
        rw [Fragment.configBlock?, hchildren]
        rfl
      rw [hchildren, block]
      simp only [Option.map_some, Option.toList_some, List.cons_append, List.nil_append, walkAll,
        walk, ends_bind, ends_modify]
      refine (keeps_config host written _).imp (fun _ _ hd => hd.trans ?_) (fun _ _ _ => trivial)
      rw [hc]
      rfl
  · exact without (Remainder.not_isConfig hk)

/-- Where a compilation has no step, it has no settings of one; and where it stops, it has come
to the step at which it stops. -/
theorem ends_stepConfig (host : Host) (h : f.Compilable) (hc : c.tags = (false, false))
    (hs : c.stepConfig = none) :
    Ends (whole host f) c
      (fun flow d => match flow with
        | .done => d.stepConfig = none
        | .suspended left => ∃ v as children s, Visits host f.children c v ∧ v.Outside ∧
            v.node = .step as children s ∧ v.Stops host as (.suspended left) d)
      (fun _ _ => True) := by
  refine ends_whole_of_walkAll ?_ ?_
  · refine (accounted_walkAll host f.children c).imp (fun flow d hd => ?_) (fun _ _ h => h)
    cases flow with
    | suspended left => exact hd
    | done =>
      rcases hd with unchanged | ⟨v, hv, hstep, inside⟩
      · exact unchanged.trans hs
      · exact absurd ((h.wellPlaced hc hv).outside hstep) inside
  · rintro (_ | left) d hd
    · exact (Change.stepConfig_apply .flush d).trans hd
    · obtain ⟨v, as, children, s, hv, outside, hnode, hstops⟩ := hd
      exact ⟨v, as, children, s, hv, outside, hnode,
        hstops.congr (Change.stepConfig_apply .flush d)⟩

end Compile

end PromptTemplate
