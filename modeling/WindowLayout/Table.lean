/-!
# Insertion-ordered tables

A finite map that remembers the order in which its keys first came in. Writing to a key that
is present keeps its place; a new key goes to the end.

## Main definitions

* `Table` — the type; `Table.get?`, `Table.insert`, `Table.erase`, `Table.mapValues` — its
  operations;
* `Table.ofList` — the table of a list of entries, written in order.

## Main results

* `Table.get?_insert` — what is read after a write;
* `Table.insert_of_get?`, `Table.insert_insert` — a write of what is there already, and two writes;
* `Table.keys_insert` — the order of the keys after a write.
-/

namespace WindowLayout

/-- A finite map with its keys in the order in which they came in. A key is listed once, and writing
to it again does not move it. -/
structure Table (κ β : Type) where
  entries : List (κ × β)
deriving Repr

namespace Table

variable {κ β γ : Type} [DecidableEq κ]

/-- The table without entries. -/
def empty : Table κ β := ⟨[]⟩

instance : Inhabited (Table κ β) := ⟨empty⟩

/-- Looks a key up in a list of entries. -/
def find? (key : κ) : List (κ × β) → Option β
  | [] => none
  | (k, v) :: rest => if k = key then some v else find? key rest

/-- The value at a key. -/
def get? (t : Table κ β) (key : κ) : Option β := find? key t.entries

def contains (t : Table κ β) (key : κ) : Bool := (t.get? key).isSome

/-- Writes a value in a list of entries, at the end for a new key. -/
def write (key : κ) (value : β) : List (κ × β) → List (κ × β)
  | [] => [(key, value)]
  | (k, v) :: rest => if k = key then (key, value) :: rest else (k, v) :: write key value rest

/-- Writes a value at a key. A key that is there keeps its place, a new one is put at the end. -/
def insert (t : Table κ β) (key : κ) (value : β) : Table κ β := ⟨write key value t.entries⟩

/-- Removes a key. The other keys keep their order. -/
def erase (t : Table κ β) (key : κ) : Table κ β := ⟨t.entries.filter (·.1 ≠ key)⟩

/-- The keys, in the order in which they came in. -/
def keys (t : Table κ β) : List κ := t.entries.map (·.1)

/-- The values, in the order of their keys. -/
def values (t : Table κ β) : List β := t.entries.map (·.2)

/-- Every value mapped, the keys kept. Keys keep their order as well, as nothing is written anew. -/
def mapValues (f : β → γ) (t : Table κ β) : Table κ γ := ⟨t.entries.map fun e => (e.1, f e.2)⟩

/-- The table of a list of entries, written from the left. Of several values for a key the last one
stays, at the place of the first. -/
def ofList (entries : List (κ × β)) : Table κ β :=
  entries.foldl (fun t e => t.insert e.1 e.2) empty

/-! ### What is read after a write -/

/-- A search after a write finds the new value under its key, and what it found before elsewhere. -/
theorem find?_write (key key' : κ) (value : β) (entries : List (κ × β)) :
    find? key' (write key value entries) =
      if key = key' then some value else find? key' entries := by
  induction entries with
  | nil => simp [write, find?]
  | cons e rest ih =>
    obtain ⟨k, v⟩ := e
    by_cases hk : k = key
    · subst hk
      by_cases h : k = key' <;> simp [write, find?, h]
    · by_cases h : k = key'
      · subst h
        simp [write, find?, hk, Ne.symm hk]
      · simp [write, find?, hk, h, ih]

/-- After a write the written key holds the value and every other key what it held. -/
@[simp] theorem get?_insert (t : Table κ β) (key key' : κ) (value : β) :
    (t.insert key value).get? key' = if key = key' then some value else t.get? key' :=
  find?_write key key' value t.entries

/-- To write the value that is there changes nothing, not even the order of the entries. -/
theorem write_of_find? {key : κ} {value : β} {entries : List (κ × β)}
    (h : find? key entries = some value) : write key value entries = entries := by
  induction entries with
  | nil => cases h
  | cons e rest ih =>
    obtain ⟨k, v⟩ := e
    rw [find?] at h
    rw [write]
    split at h
    · next hk =>
      obtain rfl := Option.some.inj h
      rw [if_pos hk, hk]
    · next hk => rw [if_neg hk, ih h]

/-- A write of the value that a key holds changes nothing. -/
theorem insert_of_get? {t : Table κ β} {key : κ} {value : β} (h : t.get? key = some value) :
    t.insert key value = t := by
  rw [insert, write_of_find? h]

/-- Of two values written under one key the second one stays. -/
theorem write_write (key : κ) (value value' : β) (entries : List (κ × β)) :
    write key value' (write key value entries) = write key value' entries := by
  induction entries with
  | nil => simp [write]
  | cons e rest ih =>
    obtain ⟨k, v⟩ := e
    by_cases hk : k = key <;> simp [write, hk, ih]

/-- Of two writes at one key the second one counts. -/
theorem insert_insert (t : Table κ β) (key : κ) (value value' : β) :
    (t.insert key value).insert key value' = t.insert key value' := by
  rw [insert, insert, write_write, insert]

@[simp] theorem get?_empty (key : κ) : (empty : Table κ β).get? key = none := rfl

/-- A write keeps the keys in their order. A key that was not there is added at the end. -/
theorem map_fst_write (key : κ) (value : β) (entries : List (κ × β)) :
    (write key value entries).map (·.1) =
      if key ∈ entries.map (·.1) then entries.map (·.1) else entries.map (·.1) ++ [key] := by
  induction entries with
  | nil => simp [write]
  | cons e rest ih =>
    obtain ⟨k, v⟩ := e
    by_cases hk : k = key
    · subst hk
      simp [write]
    · by_cases h : key ∈ rest.map (·.1)
      · simp_all [write, Ne.symm hk]
      · simp_all [write, Ne.symm hk]

/-- A write keeps the order of the keys; a new key goes to the end. So tables that are written in
one order list their keys in that order. -/
theorem keys_insert (t : Table κ β) (key : κ) (value : β) :
    (t.insert key value).keys = if key ∈ t.keys then t.keys else t.keys ++ [key] :=
  map_fst_write key value t.entries

end Table

end WindowLayout
