/-!
# Keyed lists

Values under text keys, in the order in which the keys were first put. Putting a value under a key
that is there already replaces the value and keeps its place.
-/

namespace Quarterly

/-- Values under text keys, in order. -/
abbrev Keyed (α : Type) := List (String × α)

namespace Keyed

variable {α : Type}

/-- The value under a key. -/
def get? (entries : Keyed α) (key : String) : Option α :=
  (entries.find? fun e => e.1 == key).map (·.2)

/-- Whether there is a value under a key. -/
def has (entries : Keyed α) (key : String) : Bool := entries.any fun e => e.1 == key

/-- Put a value under a key. -/
def put : Keyed α → String → α → Keyed α
  | [], key, value => [(key, value)]
  | (k, v) :: rest, key, value =>
    if k == key then (k, value) :: rest else (k, v) :: put rest key value

/-- Change the value under a key, or put one there. -/
def update (entries : Keyed α) (key : String) (change : Option α → α) : Keyed α :=
  put entries key (change (get? entries key))

def keys (entries : Keyed α) : List String := entries.map (·.1)

end Keyed

end Quarterly
