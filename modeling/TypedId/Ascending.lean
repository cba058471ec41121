/-!
Sets as ascending lists.

`insert` and `erase` change which things are in a set; `mem_insert` and `mem_erase` say how.
-/

namespace TypedId

/-- A set whose members are listed from the least to the greatest. -/
abbrev Ascending (α : Type) := List α

namespace Ascending

variable {α : Type} [DecidableEq α]

/-- Adds a member. -/
def insert [LT α] [DecidableLT α] (a : α) : Ascending α → Ascending α
  | [] => [a]
  | b :: rest => if a = b then b :: rest else if a < b then a :: b :: rest else b :: insert a rest

/-- Takes a member away. -/
def erase (set : Ascending α) (a : α) : Ascending α :=
  set.filter (· ≠ a)

/-- The set of all things in a list. -/
def ofList [LT α] [DecidableLT α] (as : List α) : Ascending α :=
  as.foldl (fun set a => insert a set) []

/-- The members from one bound to another, both included. -/
def between [LE α] [DecidableLE α] (set : Ascending α) (low high : α) : Ascending α :=
  set.filter fun a => low ≤ a ∧ a ≤ high

theorem mem_insert [LT α] [DecidableLT α] {a b : α} {set : Ascending α} :
    b ∈ insert a set ↔ b = a ∨ b ∈ set := by
  induction set with
  | nil => simp [insert]
  | cons c rest ih => grind [insert]

theorem mem_erase {a b : α} {set : Ascending α} : b ∈ erase set a ↔ b ∈ set ∧ b ≠ a := by
  simp [erase]

end Ascending

end TypedId
