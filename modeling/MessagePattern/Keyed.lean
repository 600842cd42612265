/-!
# Keyed lists

Lists of key and value in which a repeated key keeps its first place and takes its last value. The
sub-messages of a placeholder and the objects of the compact form are collected this way.

* `Keyed.collapse` — the list with repeated keys merged;
* `Keyed.find?` — the first value under a key.
-/

namespace MessagePattern.Keyed

variable {α : Type}

/-- Gives a key a value: in the place that the key has, or at the end when it is new. -/
def put (key : String) (value : α) : List (String × α) → List (String × α)
  | [] => [(key, value)]
  | entry :: rest => if entry.1 = key then (key, value) :: rest else entry :: put key value rest

/-- Merges repeated keys: each keeps its first place and takes its last value. -/
def collapse (entries : List (String × α)) : List (String × α) :=
  entries.foldl (fun merged entry => put entry.1 entry.2 merged) []

/-- The first value under a key. -/
def find? (key : String) (entries : List (String × α)) : Option α :=
  (entries.find? fun entry => entry.1 == key).map (·.2)

/-- Putting a value under a key makes it the value of that key and changes no other. -/
theorem find?_put (key k : String) (value : α) (entries : List (String × α)) :
    find? k (put key value entries) = if key = k then some value else find? k entries := by
  induction entries with
  | nil => by_cases h : key = k <;> simp [put, find?, h]
  | cons entry rest ih =>
    simp only [put]
    split
    · next same => by_cases h : key = k <;> simp [find?, same, h]
    · next other =>
      by_cases h : entry.1 = k
      · have : ¬ key = k := fun e => other (h.trans e.symm)
        simp [find?, h, this]
      · simpa [find?, h] using ih

end MessagePattern.Keyed
