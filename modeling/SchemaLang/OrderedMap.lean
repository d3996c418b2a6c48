/-!
# Ordered maps

Finite maps from names to values that remember the order in which the names
first arrived. Storing a value under a name that is already present replaces
the value and leaves the name where it is; a new name goes to the end. Position
therefore follows the first occurrence and content the last one.
-/

namespace SchemaLang

/-- A list of named values without repeated names, oldest name first. -/
structure OrderedMap (α : Type) where
  entries : List (String × α)
  nodup : (entries.map Prod.fst).Nodup
deriving DecidableEq

namespace OrderedMap

variable {α β : Type}

/-! ## Storing into a list of entries -/

/-- Replaces the entry of a name in place, or appends it when there is none. -/
def setEntry (name : String) (value : α) : List (String × α) → List (String × α)
  | [] => [(name, value)]
  | entry :: rest =>
    if entry.1 = name then (name, value) :: rest
    else entry :: setEntry name value rest

theorem map_fst_setEntry (name : String) (value : α) (entries : List (String × α)) :
    (setEntry name value entries).map Prod.fst =
      if name ∈ entries.map Prod.fst then entries.map Prod.fst
      else entries.map Prod.fst ++ [name] := by
  induction entries with
  | nil => simp [setEntry]
  | cons entry rest ih =>
    by_cases h : entry.1 = name
    · simp [setEntry, h]
    · have h' : name ≠ entry.1 := fun e => h e.symm
      simp only [setEntry, h, if_false, List.map_cons, ih, List.mem_cons, h', false_or]
      split <;> simp

theorem nodup_setEntry (name : String) (value : α) {entries : List (String × α)}
    (h : (entries.map Prod.fst).Nodup) :
    ((setEntry name value entries).map Prod.fst).Nodup := by
  rw [map_fst_setEntry]
  split
  · exact h
  · next hn =>
    rw [List.nodup_append]
    refine ⟨h, by simp, ?_⟩
    intro a ha b hb hab
    rw [List.mem_singleton] at hb
    exact hn (hb ▸ hab ▸ ha)

/-! ## The map -/

/-- The map without entries. -/
def empty : OrderedMap α := ⟨[], by simp⟩

instance : Inhabited (OrderedMap α) := ⟨empty⟩

/-- Stores a value under a name. -/
def insert (m : OrderedMap α) (name : String) (value : α) : OrderedMap α :=
  ⟨setEntry name value m.entries, nodup_setEntry name value m.nodup⟩

/-- The value stored under a name. -/
def find? (m : OrderedMap α) (name : String) : Option α :=
  m.entries.lookup name

/-- Whether a name is present. -/
def contains (m : OrderedMap α) (name : String) : Bool :=
  (m.find? name).isSome

/-- The names, oldest first. -/
def keys (m : OrderedMap α) : List String :=
  m.entries.map Prod.fst

/-- The values, in the order of their names. -/
def values (m : OrderedMap α) : List α :=
  m.entries.map Prod.snd

/-- The number of names. -/
def size (m : OrderedMap α) : Nat :=
  m.entries.length

/-- Stores every entry of a list, from left to right. -/
def insertAll (m : OrderedMap α) (entries : List (String × α)) : OrderedMap α :=
  entries.foldl (fun acc entry => acc.insert entry.1 entry.2) m

/-- Stores every entry of a second map, in its order. -/
def extend (m other : OrderedMap α) : OrderedMap α :=
  m.insertAll other.entries

/-- The map that a list of entries builds from nothing. -/
def ofList (entries : List (String × α)) : OrderedMap α :=
  empty.insertAll entries

/-- Applies a function to every value, given its name. -/
def mapValues (f : String → α → β) (m : OrderedMap α) : OrderedMap β :=
  ⟨m.entries.map fun entry => (entry.1, f entry.1 entry.2), by
    have h : (m.entries.map fun entry => (entry.1, f entry.1 entry.2)).map Prod.fst =
        m.entries.map Prod.fst := by
      simp [List.map_map, Function.comp_def]
    rw [h]
    exact m.nodup⟩

/-! ## How each operation changes the names -/

@[simp] theorem keys_empty : (empty : OrderedMap α).keys = [] := rfl

@[simp] theorem entries_insert (m : OrderedMap α) (name : String) (value : α) :
    (m.insert name value).entries = setEntry name value m.entries := rfl

/-- A stored name keeps its place; a new one goes to the end. -/
theorem keys_insert (m : OrderedMap α) (name : String) (value : α) :
    (m.insert name value).keys =
      if name ∈ m.keys then m.keys else m.keys ++ [name] :=
  map_fst_setEntry name value m.entries

theorem mem_keys_of_find? {m : OrderedMap α} {name : String} {value : α}
    (h : m.find? name = some value) : name ∈ m.keys := by
  unfold find? at h
  unfold keys
  generalize m.entries = entries at h
  induction entries with
  | nil => cases h
  | cons entry rest ih =>
    rw [List.map_cons, List.mem_cons]
    by_cases he : name = entry.1
    · exact Or.inl he
    · have hb : (name == entry.1) = false := by simpa using he
      rw [List.lookup_cons, hb] at h
      exact Or.inr (ih h)

theorem keys_nodup (m : OrderedMap α) : m.keys.Nodup := m.nodup

@[simp] theorem keys_mapValues (f : String → α → β) (m : OrderedMap α) :
    (m.mapValues f).keys = m.keys := by
  simp [keys, mapValues, List.map_map, Function.comp_def]

theorem insertAll_append (m : OrderedMap α) (xs ys : List (String × α)) :
    m.insertAll (xs ++ ys) = (m.insertAll xs).insertAll ys := by
  simp [insertAll]

end OrderedMap

end SchemaLang
