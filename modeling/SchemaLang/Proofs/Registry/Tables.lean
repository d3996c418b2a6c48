import Mathlib.Data.Option.Basic
import SchemaLang.Proofs.Schema
import SchemaLang.Registry

/-!
# Facts about tables

The three tables seen as one, from a kind and a name to an entry. Taking in a schema
is described by what it does to the names and to the entry under each name. From this
follow the two facts that batches rest on: announcing names leaves the confirmed
entries alone (`confirmed?_commit_lazy`), and confirming what was announced before
leaves no trace of the announcement (`commitAll_lazy_strict`).
-/

namespace SchemaLang

namespace Tables

/-! ## One table -/

section OneTable

variable {α β : Type}

/-- What stands under a name when an entry for it arrives. -/
def displace (old : Option (Entry α)) : Option (Entry α) → Option (Entry α)
  | none => old
  | some new => if new.lazy && old.any fun e => !e.lazy then old else some new

@[simp] theorem displace_none (old : Option (Entry α)) : displace old none = old := rfl

theorem displace_strict {new : Entry α} (h : new.lazy = false) (old : Option (Entry α)) :
    displace old (some new) = some new := by
  simp [displace, h]

theorem find?_register (table : OrderedMap (Entry α)) (name : String) (entry : Entry α)
    (asked : String) :
    (register table name entry).find? asked =
      if asked = name then displace (table.find? asked) (some entry)
      else table.find? asked := by
  by_cases ha : asked = name
  · subst ha
    rw [if_pos rfl, register, displace]
    split
    · rfl
    · rw [OrderedMap.find?_insert, if_pos rfl]
  · rw [if_neg ha, register]
    split
    · rfl
    · rw [OrderedMap.find?_insert, if_neg ha]

theorem keys_register (table : OrderedMap (Entry α)) (name : String) (entry : Entry α) :
    (register table name entry).keys = (table.keys ++ [name]).eraseDups := by
  rw [register]
  split
  · next h =>
    -- the name is refused because it is there, so it adds nothing to the names
    simp only [Bool.and_eq_true, Option.any_eq_true] at h
    obtain ⟨-, e, he, -⟩ := h
    have hmem : [name] ⊆ table.keys := by
      simpa using OrderedMap.mem_keys_of_find? he
    rw [eraseDups_append_of_subset hmem, eraseDups_of_nodup table.keys_nodup]
  · exact OrderedMap.keys_insert_eq_eraseDups table name entry

theorem find?_registerAll (table entries : OrderedMap (Entry α)) (asked : String) :
    (registerAll table entries).find? asked =
      displace (table.find? asked) (entries.find? asked) := by
  obtain ⟨entries, hnd⟩ := entries
  show (entries.foldl (fun acc entry => register acc entry.1 entry.2) table).find? asked =
    displace (table.find? asked) (entries.lookup asked)
  induction entries generalizing table with
  | nil => rfl
  | cons entry rest ih =>
    obtain ⟨habsent, hrest⟩ := List.nodup_cons.mp hnd
    rw [List.foldl_cons, ih _ hrest, find?_register, OrderedMap.lookup_entry_cons]
    split
    · next ha =>
      -- the name does not come up again in the rest
      have hnone : rest.lookup asked = none := by
        rw [List.lookup_eq_none_iff]
        intro p hp
        have hne : asked ≠ p.1 := fun e => habsent (ha ▸ e ▸ List.mem_map_of_mem hp)
        simpa using hne
      rw [hnone, displace_none]
    · rfl

theorem keys_registerAll (table entries : OrderedMap (Entry α)) :
    (registerAll table entries).keys = (table.keys ++ entries.keys).eraseDups := by
  unfold registerAll
  rw [show entries.keys = entries.entries.map Prod.fst from rfl]
  generalize entries.entries = entries
  show (entries.foldl (fun acc entry => register acc entry.1 entry.2) table).keys =
    (table.keys ++ entries.map Prod.fst).eraseDups
  induction entries generalizing table with
  | nil =>
    rw [List.map_nil, List.append_nil, eraseDups_of_nodup table.keys_nodup]
    rfl
  | cons entry rest ih =>
    rw [List.foldl_cons, ih, keys_register, eraseDups_eraseDups_append, List.append_assoc]
    rfl

/-- Displacing looks at nothing of an entry but whether it is an announcement. -/
theorem map_displace {g : Entry α → Entry β} (hg : ∀ e, (g e).lazy = e.lazy)
    (old new : Option (Entry α)) :
    (displace old new).map g = displace (old.map g) (new.map g) := by
  cases new with
  | none => rfl
  | some new =>
    have hany : ((old.map g).any fun e => !e.lazy) = old.any fun e => !e.lazy := by
      cases old <;> simp [hg]
    simp only [displace, Option.map_some, hg, hany]
    split <;> rfl

theorem registerAll_mapValues {g : Entry α → Entry β} (hg : ∀ e, (g e).lazy = e.lazy)
    (table entries : OrderedMap (Entry α)) :
    (registerAll table entries).mapValues (fun _ e => g e) =
      registerAll (table.mapValues fun _ e => g e) (entries.mapValues fun _ e => g e) := by
  apply OrderedMap.ext_find
  · simp only [OrderedMap.keys_mapValues, keys_registerAll]
  · intro asked
    simp only [OrderedMap.find?_mapValues, find?_registerAll, map_displace hg]

end OneTable

/-! ## The tables as one -/

/-- The entries of a kind under their names. -/
def ofKind (t : Tables) : DeclarationKind → OrderedMap (Entry Declaration)
  | .model => t.models.mapValues fun _ e => e.map .model
  | .enum => t.enums.mapValues fun _ e => e.map .enum
  | .typeDef => t.typedefs.mapValues fun _ e => e.map .typeDef

/-- What is registered as a kind: the names in order with their declarations. -/
def contents (t : Tables) (kind : DeclarationKind) : List (String × Declaration) :=
  (t.ofKind kind).entries.map fun entry => (entry.1, entry.2.declaration)

theorem lookup?_eq (t : Tables) (kind : DeclarationKind) (name : String) :
    t.lookup? kind name = (t.ofKind kind).find? name := by
  cases kind <;> simp only [lookup?, ofKind, OrderedMap.find?_mapValues]

theorem mem_keys_ofKind {t : Tables} {kind : DeclarationKind} {name : String} :
    name ∈ (t.ofKind kind).keys ↔ ∃ e, t.lookup? kind name = some e := by
  simp only [lookup?_eq, OrderedMap.mem_keys_iff]

theorem names_eq (t : Tables) :
    t.names = DeclarationKind.all.flatMap fun kind => (t.ofKind kind).keys := by
  simp [names, DeclarationKind.all, ofKind]

theorem mem_names {t : Tables} {name : String} :
    name ∈ t.names ↔ ∃ kind, name ∈ (t.ofKind kind).keys := by
  simp [names_eq, DeclarationKind.mem_all]

theorem mem_names_of_lookup? {t : Tables} {kind : DeclarationKind} {name : String}
    {e : Entry Declaration} (h : t.lookup? kind name = some e) : name ∈ t.names :=
  mem_names.mpr ⟨kind, mem_keys_ofKind.mpr ⟨e, h⟩⟩

theorem mapValues_entryMap_injective {α : Type} {f : α → Declaration}
    (hf : ∀ a b, f a = f b → a = b) {m n : OrderedMap (Entry α)}
    (h : (m.mapValues fun _ e => e.map f) = n.mapValues fun _ e => e.map f) : m = n := by
  have hmap : Function.Injective (Entry.map f) := by
    rintro ⟨a, l, b⟩ ⟨a', l', b'⟩ he
    simp only [Entry.map, Entry.mk.injEq] at he ⊢
    exact ⟨hf _ _ he.1, he.2⟩
  exact OrderedMap.mapValues_injective hmap h

/-- Tables are determined by what they have of each kind. -/
theorem ext_ofKind {t t' : Tables} (h : ∀ kind, t.ofKind kind = t'.ofKind kind) : t = t' := by
  obtain ⟨models, enums, typedefs⟩ := t
  obtain ⟨models', enums', typedefs'⟩ := t'
  have hm : models = models' :=
    mapValues_entryMap_injective (fun _ _ e => Declaration.model.inj e) (h .model)
  have he : enums = enums' :=
    mapValues_entryMap_injective (fun _ _ e => Declaration.enum.inj e) (h .enum)
  have ht : typedefs = typedefs' :=
    mapValues_entryMap_injective (fun _ _ e => Declaration.typeDef.inj e) (h .typeDef)
  rw [hm, he, ht]

/-! ## Taking in a schema -/

/-- The entry that a declaration gets. -/
def entryOf (id : RegistryId) (lazy : Bool) (batch : Nat) (d : Declaration) :
    Entry Declaration :=
  ⟨d.bind id, lazy, batch⟩

theorem ofKind_commit (t : Tables) (s : Schema) (id : RegistryId) (lazy : Bool) (batch : Nat)
    (kind : DeclarationKind) :
    (t.commit s id lazy batch).ofKind kind =
      registerAll (t.ofKind kind)
        ((s.ofKind kind).mapValues fun _ d => entryOf id lazy batch d) := by
  have hmap {α : Type} (f : α → Declaration) (table entries : OrderedMap (Entry α)) :=
    registerAll_mapValues (g := Entry.map f) (fun _ => rfl) table entries
  cases kind <;>
    simp only [ofKind, Schema.ofKind, commit, hmap, OrderedMap.mapValues_mapValues] <;>
    rfl

theorem lookup?_commit (t : Tables) (s : Schema) (id : RegistryId) (lazy : Bool) (batch : Nat)
    (kind : DeclarationKind) (name : String) :
    (t.commit s id lazy batch).lookup? kind name =
      displace (t.lookup? kind name) ((s.find? kind name).map (entryOf id lazy batch)) := by
  rw [lookup?_eq, lookup?_eq, ofKind_commit, find?_registerAll, OrderedMap.find?_mapValues]
  rfl

theorem keys_ofKind_commit (t : Tables) (s : Schema) (id : RegistryId) (lazy : Bool)
    (batch : Nat) (kind : DeclarationKind) :
    ((t.commit s id lazy batch).ofKind kind).keys =
      ((t.ofKind kind).keys ++ (s.ofKind kind).keys).eraseDups := by
  rw [ofKind_commit, keys_registerAll, OrderedMap.keys_mapValues]

theorem mem_names_commit {t : Tables} {s : Schema} {id : RegistryId} {lazy : Bool}
    {batch : Nat} {name : String} :
    name ∈ (t.commit s id lazy batch).names ↔ name ∈ t.names ∨ name ∈ s.names := by
  simp only [mem_names, keys_ofKind_commit, List.mem_eraseDups, List.mem_append,
    Schema.mem_names, ← Schema.mem_keys_ofKind, exists_or]

/-! ## Confirmed entries -/

/-- The entry of a name, unless it is only announced. -/
def confirmed? (t : Tables) (kind : DeclarationKind) (name : String) :
    Option (Entry Declaration) :=
  (t.lookup? kind name).filter fun e => !e.lazy

theorem confirmed?_eq_some {t : Tables} {kind : DeclarationKind} {name : String}
    {e : Entry Declaration} :
    t.confirmed? kind name = some e ↔ t.lookup? kind name = some e ∧ e.lazy = false := by
  simp [confirmed?, Option.filter_eq_some_iff]

theorem isConfirmed_iff {t : Tables} {kind : DeclarationKind} {name : String} :
    t.isConfirmed kind name = true ↔ ∃ e, t.confirmed? kind name = some e := by
  simp [isConfirmed, confirmed?_eq_some, Option.any_eq_true]

/-- Announcing names leaves the confirmed entries as they are. -/
theorem confirmed?_commit_lazy (t : Tables) (s : Schema) (id : RegistryId) (batch : Nat)
    (kind : DeclarationKind) (name : String) :
    (t.commit s id true batch).confirmed? kind name = t.confirmed? kind name := by
  rw [confirmed?, confirmed?, lookup?_commit]
  cases s.find? kind name with
  | none => rfl
  | some d =>
    show (if (!false && _) = true then _ else _ : Option (Entry Declaration)).filter _ = _
    split
    · rfl
    · next h =>
      cases ho : t.lookup? kind name with
      | none => rfl
      | some old =>
        have hlazy : old.lazy = true := by simpa [ho] using h
        simp [entryOf, hlazy, Option.filter_some]

theorem confirmed?_commit_strict (t : Tables) (s : Schema) (id : RegistryId) (batch : Nat)
    (kind : DeclarationKind) (name : String) :
    (t.commit s id false batch).confirmed? kind name =
      ((s.find? kind name).map (entryOf id false batch)).or (t.confirmed? kind name) := by
  rw [confirmed?, confirmed?, lookup?_commit]
  cases s.find? kind name with
  | none => rfl
  | some d =>
    rw [Option.map_some, displace_strict rfl]
    rfl

end Tables

/-! ## Many schemas -/

namespace Schema

/-- The declaration of a name in the last of several schemas that has it. -/
def last? (units : List Schema) (kind : DeclarationKind) (name : String) :
    Option Declaration :=
  units.reverse.findSome? fun s => s.find? kind name

/-- What several schemas declare as a kind: the names in the order of their first
occurrence, each with its declaration in the last schema that has it. -/
def collect (units : List Schema) (kind : DeclarationKind) : List (String × Declaration) :=
  (units.flatMap fun s => (s.ofKind kind).keys).eraseDups.filterMap fun name =>
    (last? units kind name).map fun d => (name, d)

theorem last?_cons (s : Schema) (rest : List Schema) (kind : DeclarationKind)
    (name : String) :
    last? (s :: rest) kind name = (last? rest kind name).or (s.find? kind name) := by
  rw [last?, List.reverse_cons, List.findSome?_append]
  congr 1
  cases h : s.find? kind name <;> simp [h]

theorem last?_eq_none_iff {units : List Schema} {kind : DeclarationKind} {name : String} :
    last? units kind name = none ↔ ∀ s ∈ units, s.find? kind name = none := by
  simp [last?, List.findSome?_eq_none_iff]

theorem exists_of_last? {units : List Schema} {kind : DeclarationKind} {name : String}
    {d : Declaration} (h : last? units kind name = some d) :
    ∃ s ∈ units, s.find? kind name = some d := by
  obtain ⟨s, hs, hd⟩ := List.exists_of_findSome?_eq_some h
  exact ⟨s, List.mem_reverse.mp hs, hd⟩

theorem mem_flatMap_keys {units : List Schema} {kind : DeclarationKind} {name : String} :
    name ∈ (units.flatMap fun s => (s.ofKind kind).keys) ↔
      ∃ d, last? units kind name = some d := by
  constructor
  · intro h
    obtain ⟨s, hs, hname⟩ := List.mem_flatMap.mp h
    obtain ⟨d, hd⟩ := mem_keys_ofKind.mp hname
    cases hlast : last? units kind name with
    | some found => exact ⟨found, rfl⟩
    | none =>
      rw [last?_eq_none_iff.mp hlast s hs] at hd
      cases hd
  · rintro ⟨d, hd⟩
    obtain ⟨s, hs, hfound⟩ := exists_of_last? hd
    exact List.mem_flatMap.mpr ⟨s, hs, mem_keys_ofKind.mpr ⟨d, hfound⟩⟩

end Schema

namespace Tables

/-- The tables with the declarations of several schemas, one after another. -/
def commitAll (t : Tables) (units : List Schema) (id : RegistryId) (lazy : Bool)
    (batch : Nat) : Tables :=
  units.foldl (fun acc s => acc.commit s id lazy batch) t

variable (t : Tables) (units : List Schema) (id : RegistryId) (batch : Nat)

theorem keys_ofKind_commitAll (lazy : Bool) (kind : DeclarationKind) :
    ((t.commitAll units id lazy batch).ofKind kind).keys =
      ((t.ofKind kind).keys ++ units.flatMap fun s => (s.ofKind kind).keys).eraseDups := by
  induction units generalizing t with
  | nil =>
    rw [List.flatMap_nil, List.append_nil,
      eraseDups_of_nodup (OrderedMap.keys_nodup (t.ofKind kind))]
    rfl
  | cons s rest ih =>
    show (((t.commit s id lazy batch).commitAll rest id lazy batch).ofKind kind).keys = _
    rw [ih, keys_ofKind_commit, eraseDups_eraseDups_append, List.flatMap_cons,
      List.append_assoc]

theorem mem_names_commitAll {lazy : Bool} {name : String} :
    name ∈ (t.commitAll units id lazy batch).names ↔
      name ∈ t.names ∨ ∃ s ∈ units, name ∈ s.names := by
  induction units generalizing t with
  | nil => simp [commitAll]
  | cons s rest ih =>
    show name ∈ ((t.commit s id lazy batch).commitAll rest id lazy batch).names ↔ _
    simp only [ih, mem_names_commit, List.mem_cons, exists_eq_or_imp, or_assoc]

theorem lookup?_commitAll_strict (kind : DeclarationKind) (name : String) :
    (t.commitAll units id false batch).lookup? kind name =
      ((Schema.last? units kind name).map (entryOf id false batch)).or
        (t.lookup? kind name) := by
  induction units generalizing t with
  | nil => rfl
  | cons s rest ih =>
    show ((t.commit s id false batch).commitAll rest id false batch).lookup? kind name = _
    rw [ih, lookup?_commit, Schema.last?_cons]
    cases Schema.last? rest kind name with
    | some d => rfl
    | none =>
      cases s.find? kind name with
      | none => rfl
      | some d =>
        rw [Option.map_some, displace_strict rfl]
        rfl

/-- A name that no schema declares keeps its entry. -/
theorem lookup?_commitAll_of_none {kind : DeclarationKind} {name : String} (lazy : Bool)
    (h : Schema.last? units kind name = none) :
    (t.commitAll units id lazy batch).lookup? kind name = t.lookup? kind name := by
  rw [Schema.last?_eq_none_iff] at h
  induction units generalizing t with
  | nil => rfl
  | cons s rest ih =>
    show ((t.commit s id lazy batch).commitAll rest id lazy batch).lookup? kind name = _
    rw [ih _ fun s hs => h s (List.mem_cons_of_mem _ hs), lookup?_commit,
      h s List.mem_cons_self]
    rfl

theorem confirmed?_commitAll_lazy (kind : DeclarationKind) (name : String) :
    (t.commitAll units id true batch).confirmed? kind name = t.confirmed? kind name := by
  induction units generalizing t with
  | nil => rfl
  | cons s rest ih =>
    show ((t.commit s id true batch).commitAll rest id true batch).confirmed? kind name = _
    rw [ih, confirmed?_commit_lazy]

/-- Announcing schemas before they are confirmed leaves no trace in the tables. -/
theorem commitAll_lazy_strict :
    (t.commitAll units id true batch).commitAll units id false batch =
      t.commitAll units id false batch := by
  apply ext_ofKind
  intro kind
  apply OrderedMap.ext_find
  · rw [keys_ofKind_commitAll, keys_ofKind_commitAll, keys_ofKind_commitAll,
      eraseDups_eraseDups_append, eraseDups_append_of_subset]
    exact List.subset_append_right _ _
  · intro name
    rw [← lookup?_eq, ← lookup?_eq, lookup?_commitAll_strict, lookup?_commitAll_strict]
    cases h : Schema.last? units kind name with
    | some d => rfl
    | none => rw [lookup?_commitAll_of_none t units id batch true h]

/-- Schemas whose names are all new go behind what is there. -/
theorem contents_commitAll (kind : DeclarationKind)
    (fresh : ∀ s ∈ units, ∀ name ∈ s.names, name ∉ t.names) :
    (t.commitAll units id false batch).contents kind =
      t.contents kind ++
        (Schema.collect units kind).map fun entry => (entry.1, entry.2.bind id) := by
  have hnew : ∀ name ∈ units.flatMap (fun s => (s.ofKind kind).keys),
      name ∉ (t.ofKind kind).keys := by
    intro name hname hold
    obtain ⟨s, hs, hkey⟩ := List.mem_flatMap.mp hname
    have hdeclared : name ∈ s.names :=
      Schema.mem_names.mpr ⟨kind, Schema.mem_keys_ofKind.mp hkey⟩
    exact fresh s hs name hdeclared (mem_names.mpr ⟨kind, hold⟩)
  have hkeys : ((t.commitAll units id false batch).ofKind kind).keys =
      (t.ofKind kind).keys ++ (units.flatMap fun s => (s.ofKind kind).keys).eraseDups := by
    rw [keys_ofKind_commitAll]
    exact eraseDups_append_of_disjoint (OrderedMap.keys_nodup _) hnew
  have hfind : ∀ name, ((t.commitAll units id false batch).ofKind kind).find? name =
      ((Schema.last? units kind name).map (entryOf id false batch)).or
        ((t.ofKind kind).find? name) := by
    intro name
    rw [← lookup?_eq, ← lookup?_eq, lookup?_commitAll_strict]
  rw [contents, OrderedMap.entries_eq, hkeys, List.filterMap_append, List.map_append]
  congr 1
  · -- no schema has an old name, so each is found as before
    rw [contents, OrderedMap.entries_eq (t.ofKind kind)]
    congr 1
    apply List.filterMap_congr
    intro name hname
    have hnone : Schema.last? units kind name = none := by
      cases h : Schema.last? units kind name with
      | none => rfl
      | some d => exact absurd hname (hnew name (Schema.mem_flatMap_keys.mpr ⟨d, h⟩))
    rw [hfind, hnone]
    rfl
  · rw [Schema.collect, List.map_filterMap, List.map_filterMap]
    apply List.filterMap_congr
    intro name hname
    rw [List.mem_eraseDups] at hname
    obtain ⟨d, hd⟩ := Schema.mem_flatMap_keys.mp hname
    rw [hfind, hd]
    rfl

end Tables

end SchemaLang
