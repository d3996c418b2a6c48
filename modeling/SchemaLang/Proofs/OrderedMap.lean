import Mathlib.Data.List.Nodup
import SchemaLang.OrderedMap

/-!
# Facts about ordered maps

A map is determined by its list of names and by what is found under each name
(`ext_find`), so every operation is described by what it does to these two. For the
storing of a whole list they are `keys_insertAll` and `find?_insertAll`: the names in
the order of their first occurrence, each with the last value given to it.
-/

namespace SchemaLang

/-! ## Names in the order of their first occurrence -/

section EraseDups

variable {xs ys : List String}

theorem nodup_eraseDups (xs : List String) : xs.eraseDups.Nodup := by
  induction h : xs.length using Nat.strongRecOn generalizing xs with
  | ind n ih =>
    cases xs with
    | nil => simp
    | cons x rest =>
      -- the rest loses its copies of `x` first, so it is no longer than before
      have hlt : (rest.filter fun y => !y == x).length < n := by
        have hle := List.length_filter_le (fun y => !y == x) rest
        simp only [List.length_cons] at h
        omega
      rw [List.eraseDups_cons, List.nodup_cons]
      refine ⟨?_, ih _ hlt _ rfl⟩
      intro hx
      rw [List.mem_eraseDups] at hx
      simpa using List.of_mem_filter hx

theorem eraseDups_of_nodup (h : xs.Nodup) : xs.eraseDups = xs := by
  induction xs with
  | nil => rfl
  | cons x rest ih =>
    obtain ⟨hx, hrest⟩ := List.nodup_cons.mp h
    have hkeep : (rest.filter fun y => !y == x) = rest := by
      rw [List.filter_eq_self]
      intro y hy
      have hne : y ≠ x := fun e => hx (e ▸ hy)
      simpa using hne
    rw [List.eraseDups_cons, hkeep, ih hrest]

/-- Behind names without repetition come those of a second list that are new. -/
theorem eraseDups_append_of_nodup (h : xs.Nodup) :
    (xs ++ ys).eraseDups = xs ++ (ys.removeAll xs).eraseDups := by
  rw [List.eraseDups_append, eraseDups_of_nodup h]

theorem eraseDups_append_of_subset (h : ys ⊆ xs) : (xs ++ ys).eraseDups = xs.eraseDups := by
  have hnone : ys.removeAll xs = [] := by
    rw [List.removeAll, List.filter_eq_nil_iff]
    intro y hy
    simpa using h hy
  rw [List.eraseDups_append, hnone, List.eraseDups_nil, List.append_nil]

theorem eraseDups_append_of_disjoint (hxs : xs.Nodup) (h : ∀ y ∈ ys, y ∉ xs) :
    (xs ++ ys).eraseDups = xs ++ ys.eraseDups := by
  have hall : ys.removeAll xs = ys := by
    rw [List.removeAll, List.filter_eq_self]
    intro y hy
    simpa using h y hy
  rw [eraseDups_append_of_nodup hxs, hall]

theorem eraseDups_eraseDups_append (xs ys : List String) :
    (xs.eraseDups ++ ys).eraseDups = (xs ++ ys).eraseDups := by
  rw [eraseDups_append_of_nodup (nodup_eraseDups xs), List.eraseDups_append]
  congr 2
  simp [List.removeAll]

end EraseDups

namespace OrderedMap

variable {α β : Type}

/-! ## Names and values -/

theorem lookup_entry_cons (entry : String × α) (rest : List (String × α)) (name : String) :
    (entry :: rest).lookup name =
      if name = entry.1 then some entry.2 else rest.lookup name := by
  obtain ⟨key, value⟩ := entry
  rw [List.lookup_cons]
  by_cases h : name = key
  · simp [h]
  · have hb : (name == key) = false := by simpa using h
    simp [h, hb]

/-- Looking a name up among entries whose names differ finds each of them. -/
theorem lookup_of_mem {entries : List (String × α)} (hnd : (entries.map Prod.fst).Nodup)
    {name : String} {value : α} (h : (name, value) ∈ entries) :
    entries.lookup name = some value := by
  induction entries with
  | nil => cases h
  | cons entry rest ih =>
    obtain ⟨habsent, hrest⟩ := List.nodup_cons.mp hnd
    rw [lookup_entry_cons]
    rcases List.mem_cons.mp h with rfl | h
    · rw [if_pos rfl]
    · have hne : name ≠ entry.1 := by
        rintro rfl
        exact habsent (List.mem_map.mpr ⟨_, h, rfl⟩)
      rw [if_neg hne, ih hrest h]

theorem mem_entries_of_find? {m : OrderedMap α} {name : String} {value : α}
    (h : m.find? name = some value) : (name, value) ∈ m.entries := by
  obtain ⟨before, after, he, -⟩ := List.lookup_eq_some_iff.mp h
  simp [he]

theorem find?_eq_some_iff {m : OrderedMap α} {name : String} {value : α} :
    m.find? name = some value ↔ (name, value) ∈ m.entries :=
  ⟨mem_entries_of_find?, lookup_of_mem m.nodup⟩

theorem mem_keys_iff {m : OrderedMap α} {name : String} :
    name ∈ m.keys ↔ ∃ value, m.find? name = some value := by
  simp only [find?_eq_some_iff, keys, List.mem_map, Prod.exists, exists_and_right,
    exists_eq_right]

theorem contains_iff {m : OrderedMap α} {name : String} :
    m.contains name = true ↔ name ∈ m.keys := by
  rw [contains, mem_keys_iff, Option.isSome_iff_exists]

theorem mem_values_iff {m : OrderedMap α} {value : α} :
    value ∈ m.values ↔ ∃ name, m.find? name = some value := by
  simp only [find?_eq_some_iff, values, List.mem_map, Prod.exists, exists_eq_right]

/-- The entries are the names, each with what is found under it. -/
theorem entries_eq (m : OrderedMap α) :
    m.entries = m.keys.filterMap fun name => (m.find? name).map fun value => (name, value) := by
  have h : ∀ entry ∈ m.entries,
      (m.find? entry.1).map (fun value => (entry.1, value)) = some entry := by
    intro entry he
    rw [find?_eq_some_iff.mpr (show (entry.1, entry.2) ∈ m.entries from he)]
    rfl
  rw [keys, List.filterMap_map]
  calc m.entries = m.entries.filterMap some := by simp
    _ = _ := (List.filterMap_congr h).symm

/-- A map is determined by its names in order and by what is found under each. -/
theorem ext_find {m n : OrderedMap α} (hkeys : m.keys = n.keys)
    (hfind : ∀ name, m.find? name = n.find? name) : m = n := by
  have hentries : m.entries = n.entries := by
    rw [entries_eq m, entries_eq n, hkeys]
    simp only [hfind]
  cases m
  cases n
  cases hentries
  rfl

/-! ## How each operation changes what is found -/

@[simp] theorem find?_empty (name : String) : (empty : OrderedMap α).find? name = none := rfl

theorem lookup_setEntry (name : String) (value : α) (entries : List (String × α))
    (asked : String) :
    (setEntry name value entries).lookup asked =
      if asked = name then some value else entries.lookup asked := by
  induction entries with
  | nil => exact lookup_entry_cons (name, value) [] asked
  | cons entry rest ih =>
    rw [setEntry]
    split
    · next he =>
      rw [lookup_entry_cons, lookup_entry_cons, he]
      split <;> rfl
    · next he =>
      rw [lookup_entry_cons, lookup_entry_cons, ih]
      by_cases h : asked = name
      · have hne : asked ≠ entry.1 := fun e => he (e.symm.trans h)
        rw [if_neg hne, if_pos h, if_pos h]
      · rw [if_neg h, if_neg h]

theorem find?_insert (m : OrderedMap α) (name : String) (value : α) (asked : String) :
    (m.insert name value).find? asked =
      if asked = name then some value else m.find? asked :=
  lookup_setEntry name value m.entries asked

@[simp] theorem find?_mapValues (f : String → α → β) (m : OrderedMap α) (name : String) :
    (m.mapValues f).find? name = (m.find? name).map (f name) := by
  show (m.entries.map fun entry => (entry.1, f entry.1 entry.2)).lookup name =
    (m.entries.lookup name).map (f name)
  induction m.entries with
  | nil => rfl
  | cons entry rest ih =>
    rw [List.map_cons, lookup_entry_cons, lookup_entry_cons, ih]
    split
    · next h => rw [h, Option.map_some]
    · rfl

@[simp] theorem values_mapValues (f : α → β) (m : OrderedMap α) :
    (m.mapValues fun _ => f).values = m.values.map f := by
  simp [values, mapValues, Function.comp_def]

theorem mapValues_mapValues {γ : Type} (f : String → α → β) (g : String → β → γ)
    (m : OrderedMap α) :
    (m.mapValues f).mapValues g = m.mapValues fun name value => g name (f name value) := by
  simp [mapValues, Function.comp_def]

theorem mapValues_injective {f : α → β} (hf : Function.Injective f) :
    Function.Injective fun m : OrderedMap α => m.mapValues fun _ => f := by
  intro m n h
  apply ext_find
  · simpa using congrArg keys h
  · intro name
    have hname := congrArg (fun t => t.find? name) h
    simp only [find?_mapValues] at hname
    exact Option.map_injective hf hname

theorem mapValues_insert (f : String → α → β) (m : OrderedMap α) (name : String) (value : α) :
    (m.insert name value).mapValues f = (m.mapValues f).insert name (f name value) := by
  apply ext_find
  · rw [keys_mapValues, keys_insert, keys_insert, keys_mapValues]
  · intro asked
    rw [find?_mapValues, find?_insert, find?_insert, find?_mapValues]
    split
    · next h => rw [h, Option.map_some]
    · rfl

/-! ## Storing many entries -/

theorem keys_insert_eq_eraseDups (m : OrderedMap α) (name : String) (value : α) :
    (m.insert name value).keys = (m.keys ++ [name]).eraseDups := by
  rw [keys_insert]
  split
  · next h =>
    rw [eraseDups_append_of_subset (by simpa using h), eraseDups_of_nodup m.keys_nodup]
  · next h =>
    rw [eraseDups_append_of_disjoint m.keys_nodup (by simpa using h)]
    rfl

/-- Names stand in the order of their first occurrence. -/
theorem keys_insertAll (m : OrderedMap α) (entries : List (String × α)) :
    (m.insertAll entries).keys = (m.keys ++ entries.map Prod.fst).eraseDups := by
  induction entries generalizing m with
  | nil =>
    rw [List.map_nil, List.append_nil, eraseDups_of_nodup m.keys_nodup]
    rfl
  | cons entry rest ih =>
    show ((m.insert entry.1 entry.2).insertAll rest).keys = _
    rw [ih, keys_insert_eq_eraseDups, eraseDups_eraseDups_append, List.map_cons,
      List.append_assoc]
    rfl

/-- The last value given to a name is the one that is found. -/
theorem find?_insertAll (m : OrderedMap α) (entries : List (String × α)) (asked : String) :
    (m.insertAll entries).find? asked = (entries.reverse.lookup asked).or (m.find? asked) := by
  induction entries generalizing m with
  | nil => rfl
  | cons entry rest ih =>
    show ((m.insert entry.1 entry.2).insertAll rest).find? asked = _
    rw [ih, find?_insert, List.reverse_cons, List.lookup_append, lookup_entry_cons,
      List.lookup_nil, Option.or_assoc]
    split <;> rfl

/-- What a list of entries makes a map: each name at the place of its first occurrence,
with the value of its last. -/
structure Collects (m : OrderedMap α) (entries : List (String × α)) : Prop where
  keys : m.keys = (entries.map Prod.fst).eraseDups
  found : ∀ name, m.find? name = entries.reverse.lookup name

theorem collects_ofList (entries : List (String × α)) : (ofList entries).Collects entries where
  keys := keys_insertAll empty entries
  found := by
    intro name
    rw [ofList, find?_insertAll, find?_empty, Option.or_none]

theorem Collects.eq_ofList {m : OrderedMap α} {entries : List (String × α)}
    (h : m.Collects entries) : m = ofList entries := by
  apply ext_find
  · rw [h.keys, (collects_ofList entries).keys]
  · intro name
    rw [h.found, (collects_ofList entries).found]

theorem Collects.insert {m : OrderedMap α} {entries : List (String × α)}
    (h : m.Collects entries) (name : String) (value : α) :
    (m.insert name value).Collects (entries ++ [(name, value)]) := by
  have hlast : m.insert name value = ofList (entries ++ [(name, value)]) := by
    rw [ofList, insertAll_append, h.eq_ofList]
    rfl
  rw [hlast]
  exact collects_ofList _

/-- What a map collects stands in the list. -/
theorem Collects.mem_of_find? {m : OrderedMap α} {entries : List (String × α)}
    (h : m.Collects entries) {name : String} {value : α} (hv : m.find? name = some value) :
    (name, value) ∈ entries := by
  rw [h.found] at hv
  obtain ⟨before, after, he, -⟩ := List.lookup_eq_some_iff.mp hv
  rw [← List.mem_reverse, he]
  simp

/-! ## One map behind another -/

/-- Among entries whose names differ it does not matter from which end one is looked up. -/
theorem lookup_reverse {entries : List (String × α)} (hnd : (entries.map Prod.fst).Nodup)
    (name : String) : entries.reverse.lookup name = entries.lookup name := by
  cases h : entries.lookup name with
  | none =>
    rw [List.lookup_eq_none_iff] at h ⊢
    exact fun entry he => h entry (List.mem_reverse.mp he)
  | some value =>
    obtain ⟨before, after, he, -⟩ := List.lookup_eq_some_iff.mp h
    apply lookup_of_mem
    · rw [List.map_reverse]
      exact List.nodup_reverse.mpr hnd
    · rw [List.mem_reverse, he]
      simp

theorem find?_extend (m other : OrderedMap α) (name : String) :
    (m.extend other).find? name = (other.find? name).or (m.find? name) := by
  rw [extend, find?_insertAll, lookup_reverse other.nodup]
  rfl

/-- Whatever is found after storing was stored or was there before. -/
theorem find?_extend_cases {m other : OrderedMap α} {name : String} {value : α}
    (h : (m.extend other).find? name = some value) :
    other.find? name = some value ∨ m.find? name = some value := by
  rw [find?_extend, Option.or_eq_some_iff] at h
  exact h.imp id And.right

/-- Storing a map and then an entry is storing the map that has the entry. -/
theorem extend_insert (m other : OrderedMap α) (name : String) (value : α) :
    m.extend (other.insert name value) = (m.extend other).insert name value := by
  apply ext_find
  · rw [keys_insert_eq_eraseDups, extend, extend, keys_insertAll, keys_insertAll,
      eraseDups_eraseDups_append]
    show (m.keys ++ (other.insert name value).keys).eraseDups =
      (m.keys ++ other.keys ++ [name]).eraseDups
    rw [keys_insert]
    split
    · next h => exact (eraseDups_append_of_subset (by simp [h])).symm
    · rw [List.append_assoc]
  · intro asked
    rw [find?_extend, find?_insert, find?_insert, find?_extend]
    split <;> rfl

theorem extend_insertAll (m other : OrderedMap α) (entries : List (String × α)) :
    m.extend (other.insertAll entries) = (m.extend other).insertAll entries := by
  induction entries generalizing other with
  | nil => rfl
  | cons entry rest ih =>
    show m.extend ((other.insert entry.1 entry.2).insertAll rest) =
      ((m.extend other).insert entry.1 entry.2).insertAll rest
    rw [ih, extend_insert]

/-- Of three maps behind one another it does not matter which two are put together first. -/
theorem extend_assoc (m n k : OrderedMap α) :
    (m.extend n).extend k = m.extend (n.extend k) :=
  (extend_insertAll m n k.entries).symm

theorem keys_extend (m other : OrderedMap α) :
    (m.extend other).keys = m.keys ++ other.keys.filter fun name => name ∉ m.keys := by
  have hnew : other.keys.removeAll m.keys = other.keys.filter fun name => name ∉ m.keys := by
    rw [List.removeAll]
    congr 1
    ext name
    simp
  calc (m.extend other).keys = (m.keys ++ other.keys).eraseDups :=
        keys_insertAll m other.entries
    _ = m.keys ++ (other.keys.removeAll m.keys).eraseDups :=
        eraseDups_append_of_nodup m.keys_nodup
    _ = m.keys ++ other.keys.filter fun name => name ∉ m.keys := by
        rw [hnew, eraseDups_of_nodup (other.keys_nodup.filter _)]

@[simp] theorem extend_empty (m : OrderedMap α) : m.extend empty = m := rfl

@[simp] theorem empty_extend (m : OrderedMap α) : empty.extend m = m := by
  apply ext_find
  · simp [keys_extend]
  · intro name
    rw [find?_extend, find?_empty, Option.or_none]

/-- One map laid over another: where both have a name, the upper value counts; the names of the
lower one keep their places, and those that it lacks follow in the order of the upper one. -/
structure IsOverlay (m lower upper : OrderedMap α) : Prop where
  found : ∀ name, m.find? name = (upper.find? name).or (lower.find? name)
  keys : m.keys = lower.keys ++ upper.keys.filter fun name => name ∉ lower.keys

theorem isOverlay_extend (m other : OrderedMap α) : (m.extend other).IsOverlay m other where
  found := find?_extend m other
  keys := keys_extend m other

theorem Collects.extend {m other : OrderedMap α} {xs ys : List (String × α)}
    (h : m.Collects xs) (ho : other.Collects ys) : (m.extend other).Collects (xs ++ ys) := by
  have hlast : m.extend other = ofList (xs ++ ys) := by
    rw [ho.eq_ofList, ofList, extend_insertAll, ofList, insertAll_append, h.eq_ofList]
    rfl
  rw [hlast]
  exact collects_ofList _

theorem mapValues_insertAll (f : String → α → β) (m : OrderedMap α)
    (entries : List (String × α)) :
    (m.insertAll entries).mapValues f =
      (m.mapValues f).insertAll (entries.map fun entry => (entry.1, f entry.1 entry.2)) := by
  induction entries generalizing m with
  | nil => rfl
  | cons entry rest ih =>
    show ((m.insert entry.1 entry.2).insertAll rest).mapValues f = _
    rw [ih, mapValues_insert]
    rfl

theorem mapValues_extend (f : String → α → β) (m other : OrderedMap α) :
    (m.extend other).mapValues f = (m.mapValues f).extend (other.mapValues f) :=
  mapValues_insertAll f m other.entries

end OrderedMap

end SchemaLang
