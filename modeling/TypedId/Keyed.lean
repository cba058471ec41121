/-!
Things with keys, at most one for each key, in the order of their keys.

`put` keeps the order, and `get?` finds what was put: `get?_put_self` and `get?_put_of_ne` say what
each key leads to after a `put`, and `get?_erase` what is left after an `erase`.
-/

namespace TypedId

/-- Things with keys. -/
abbrev Keyed (κ α : Type) := List (κ × α)

/-- Things with names. -/
abbrev Named (α : Type) := Keyed String α

namespace Keyed

variable {κ α : Type} [DecidableEq κ]

/-- The thing with a key. -/
def get? (things : Keyed κ α) (key : κ) : Option α :=
  match things with
  | [] => none
  | (k, a) :: rest => if k = key then some a else get? rest key

/-- Gives a key to a thing, in the place of any other with that key. -/
def put [LT κ] [DecidableLT κ] (key : κ) (a : α) : Keyed κ α → Keyed κ α
  | [] => [(key, a)]
  | (k, b) :: rest =>
    if k = key then (key, a) :: rest
    else if key < k then (key, a) :: (k, b) :: rest
    else (k, b) :: put key a rest

/-- Forgets the thing with a key. -/
def erase (things : Keyed κ α) (key : κ) : Keyed κ α :=
  things.filter fun (k, _) => k ≠ key

/-- The keys, in order. -/
def keys (things : Keyed κ α) : List κ :=
  things.map Prod.fst

@[simp] theorem get?_nil (key : κ) : get? ([] : Keyed κ α) key = none := rfl

/-- A thing that was put is found under its key. -/
@[simp] theorem get?_put_self [LT κ] [DecidableLT κ] (key : κ) (a : α) (things : Keyed κ α) :
    get? (put key a things) key = some a := by
  induction things with
  | nil => simp [put, get?]
  | cons p rest ih => grind [put, get?]

/-- Putting a thing changes nothing under other keys. -/
theorem get?_put_of_ne [LT κ] [DecidableLT κ] {key other : κ} (h : other ≠ key) (a : α)
    (things : Keyed κ α) : get? (put key a things) other = get? things other := by
  induction things with
  | nil => grind [put, get?]
  | cons p rest ih => grind [put, get?]

/-- What was forgotten is not found, and all else is. -/
theorem get?_erase (things : Keyed κ α) (key other : κ) :
    get? (erase things key) other = if other = key then none else get? things other := by
  induction things with
  | nil => simp [erase, get?]
  | cons p rest ih =>
    obtain ⟨k, b⟩ := p
    by_cases hk : k = key
    · grind [erase, get?]
    · grind [erase, get?]

end Keyed

end TypedId
