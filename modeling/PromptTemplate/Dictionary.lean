/-!
# Dictionaries

A dictionary is its entries in the order in which their keys were first put. A key
that is put again keeps its place and gets the new value.
-/

namespace PromptTemplate

abbrev Dictionary (α : Type) := List (String × α)

namespace Dictionary

variable {α β : Type}

def get? (d : Dictionary α) (key : String) : Option α :=
  match d with
  | [] => none
  | (k, a) :: rest => if k = key then some a else get? rest key

def contains (d : Dictionary α) (key : String) : Bool :=
  (get? d key).isSome

def put (d : Dictionary α) (key : String) (value : α) : Dictionary α :=
  match d with
  | [] => [(key, value)]
  | (k, a) :: rest => if k = key then (k, value) :: rest else (k, a) :: put rest key value

/-- The dictionary of some entries put one after the other. -/
def ofList (entries : List (String × α)) : Dictionary α :=
  entries.foldl (fun d (k, a) => put d k a) []

/-- All entries of the second dictionary put into the first. -/
def overlay (d e : Dictionary α) : Dictionary α :=
  e.foldl (fun d (k, a) => put d k a) d

def keys (d : Dictionary α) : List String := d.map (·.1)

theorem get?_put (d : Dictionary α) (k l : String) (a : α) :
    get? (put d k a) l = if k = l then some a else get? d l := by
  induction d with
  | nil => simp [put, get?]
  | cons e rest ih =>
    obtain ⟨m, b⟩ := e
    by_cases hmk : m = k
    · subst hmk
      by_cases hml : m = l <;> simp [put, get?, hml]
    · by_cases hml : m = l
      · subst hml
        simp [put, get?, hmk, Ne.symm hmk]
      · simp [put, get?, hmk, hml, ih]

theorem keys_put (d : Dictionary α) (k : String) (a : α) :
    keys (put d k a) = if k ∈ keys d then keys d else keys d ++ [k] := by
  induction d with
  | nil => simp [put, keys]
  | cons e rest ih =>
    obtain ⟨m, b⟩ := e
    by_cases hmk : m = k
    · simp [put, keys, hmk]
    · simp only [put, hmk, if_false, keys, List.map_cons, List.mem_cons] at ih ⊢
      by_cases hk : k ∈ rest.map (·.1) <;> simp_all [Ne.symm hmk]

end Dictionary

end PromptTemplate
