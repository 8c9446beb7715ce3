/-!
# Tables

Maps from names to values that remember the order in which names were first put in.
Overwriting a value keeps the position of its name.
-/

namespace Flowchart

structure Table (α : Type) where
  entries : List (String × α)
deriving Repr, DecidableEq

namespace Table

variable {α β : Type}

def empty : Table α := ⟨[]⟩

/-! ## Entries -/

def getFrom (name : String) : List (String × α) → Option α
  | [] => none
  | (k, a) :: rest => if k = name then some a else getFrom name rest

def putInto (name : String) (a : α) : List (String × α) → List (String × α)
  | [] => [(name, a)]
  | (k, b) :: rest => if k = name then (k, a) :: rest else (k, b) :: putInto name a rest

/-! ## Operations -/

def get? (t : Table α) (name : String) : Option α := getFrom name t.entries

def contains (t : Table α) (name : String) : Bool := (t.get? name).isSome

def put (t : Table α) (name : String) (a : α) : Table α := ⟨putInto name a t.entries⟩

def erase (t : Table α) (name : String) : Table α := ⟨t.entries.filter (·.1 ≠ name)⟩

def size (t : Table α) : Nat := t.entries.length

def keys (t : Table α) : List String := t.entries.map (·.1)

/-- Puts all entries of `u` into `t`. -/
def merge (t u : Table α) : Table α := u.entries.foldl (fun t e => t.put e.1 e.2) t

/-! ## Laws -/

@[simp] theorem get?_empty (name : String) : (empty : Table α).get? name = none := rfl

theorem getFrom_putInto (name other : String) (a : α) (l : List (String × α)) :
    getFrom other (putInto name a l) = if name = other then some a else getFrom other l := by
  induction l with
  | nil => simp [putInto, getFrom]
  | cons e rest ih =>
    obtain ⟨k, b⟩ := e
    by_cases hk : k = name <;> by_cases ho : k = other <;> grind [putInto, getFrom]

@[simp] theorem get?_put (t : Table α) (name other : String) (a : α) :
    (t.put name a).get? other = if name = other then some a else t.get? other :=
  getFrom_putInto name other a t.entries

theorem map_putInto (name : String) (a : α) (l : List (String × α)) :
    (putInto name a l).map (·.1) =
      if (getFrom name l).isSome then l.map (·.1) else l.map (·.1) ++ [name] := by
  induction l with
  | nil => simp [putInto, getFrom]
  | cons e rest ih =>
    obtain ⟨k, b⟩ := e
    by_cases hk : k = name
    · simp [putInto, getFrom, hk]
    · simp only [putInto, getFrom, hk, if_false, List.map_cons, ih]
      split <;> simp

theorem keys_put (t : Table α) (name : String) (a : α) :
    (t.put name a).keys = if t.contains name then t.keys else t.keys ++ [name] :=
  map_putInto name a t.entries

end Table

end Flowchart
