/-!
# Tables

A `Table` assigns values to some names.  It keeps its names in the order in which they
were added.
-/

namespace FortranScope

/-- Pairs of a name and its value, in the order of addition. -/
structure Table (α : Type) where
  entries : List (String × α)
deriving DecidableEq

namespace Table

variable {α : Type}

/-- The table without names. -/
def empty : Table α := ⟨[]⟩

instance : Inhabited (Table α) := ⟨empty⟩

/-- The value of `key`. -/
def get? (t : Table α) (key : String) : Option α := t.entries.lookup key

/-- Whether `key` has a value. -/
def contains (t : Table α) (key : String) : Bool := (t.get? key).isSome

/-- The table without `key`. -/
def erase (t : Table α) (key : String) : Table α :=
  ⟨t.entries.filter fun entry => entry.1 ≠ key⟩

/-- The table with `value` for `key`, which becomes the last name. -/
def insert (t : Table α) (key : String) (value : α) : Table α :=
  ⟨(t.erase key).entries ++ [(key, value)]⟩

/-- The values in the order of addition. -/
def values (t : Table α) : List α := t.entries.map Prod.snd

/-- The names in increasing order. -/
def sortedKeys (t : Table α) : List String :=
  (t.entries.map Prod.fst).mergeSort fun a b => a ≤ b

/-- An empty table has no entry. -/
@[simp]
theorem get?_empty (key : String) :
  (empty : Table α).get? key = none
  := rfl

/-- An erased key has no entry. -/
@[simp]
theorem get?_erase_self (t : Table α) (key : String) :
  (t.erase key).get? key = none
  := by
  rw [get?, List.lookup_eq_none_iff]
  intro entry hentry
  have h := of_decide_eq_true (List.mem_filter.mp hentry).2
  rw [bne_iff_ne]
  apply h.symm

/-- Erasing one key leaves the entries of the others. -/
theorem get?_erase_of_ne (t : Table α) {key other : String} (h : other ≠ key) :
  (t.erase key).get? other = t.get? other
  := by
  obtain ⟨entries⟩ := t
  rw [get?, get?, erase]
  induction entries with
  | nil => rfl
  | cons entry entries ih =>
    obtain ⟨k, v⟩ := entry
    rw [List.filter_cons]
    by_cases hk : k = key
    · have hko : (other == k) = false := beq_eq_false_iff_ne.mpr (hk ▸ h)
      rw [if_neg (by simp [hk]), List.lookup_cons, hko, ih]
    · rw [if_pos (by simp [hk]), List.lookup_cons, List.lookup_cons, ih]

/-- An inserted key has the inserted value, whether or not it had one before. -/
@[simp]
theorem get?_insert_self (t : Table α) (key : String) (value : α) :
  (t.insert key value).get? key = some value
  := by
  have h := get?_erase_self t key
  rw [get?] at h
  rw [get?, insert, List.lookup_append, h]
  simp

/-- Inserting one key leaves the entries of the others. -/
theorem get?_insert_of_ne (t : Table α) {key other : String} (value : α) (h : other ≠ key) :
  (t.insert key value).get? other = t.get? other
  := by
  have he := get?_erase_of_ne t h
  rw [get?] at he
  have hk : (other == key) = false := by simpa using h
  rw [get?, insert, List.lookup_append, he]
  simp [List.lookup_cons, hk]

end Table

end FortranScope
