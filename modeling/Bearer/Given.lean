namespace Bearer

/-- A setting that may be left out or given as null. Most uses take both for nothing, but a form
writes the null out. -/
inductive Given (α : Type) where
  | missing
  | null
  | value (a : α)

namespace Given

variable {α β : Type}

instance : Inhabited (Given α) := ⟨missing⟩

/-- The value, null being nothing. -/
def toOption : Given α → Option α
  | value a => some a
  | _ => none

def getD (g : Given α) (a : α) : α := g.toOption.getD a

def map (f : α → β) : Given α → Given β
  | missing => missing
  | null => null
  | value a => value (f a)

def ofOption : Option α → Given α
  | some a => value a
  | none => missing

/-- What a form writes, nothing if the setting was left out. -/
def written (null : α) : Given α → Option α
  | missing => none
  | Given.null => some null
  | value a => some a

def formText (g : Given String) : Option String := g.written "null"

def filled? (g : Given String) : Option String := g.toOption.filter (· ≠ "")

end Given
end Bearer
