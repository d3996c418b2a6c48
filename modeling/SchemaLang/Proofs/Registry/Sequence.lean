import SchemaLang.Proofs.Registry.Failure

/-!
# Batches and loads one by one

Sources that a registry takes in one after another it also takes in as one batch, and the
same is registered in the end (`loadAllSources_of_each`). One by one, a source must do with the
names that came before it; in a batch it may use all the others, so the batch asks less of it.
What later sources declare is new when their turn comes, so in the batch no two sources
declare the same name. For one source the two ways make no difference.
-/

namespace SchemaLang

namespace Schema

theorem Sound.mono {s : Schema} {known known' : String → Prop} (h : s.Sound known)
    (hmono : ∀ name, known name → known' name) : s.Sound known' where
  once := h.once
  apart := h.apart
  wellFormed := h.wellFormed
  resolved := fun d hd name hname => (h.resolved d hd name hname).imp_right (hmono name)

theorem collect_singleton (s : Schema) (kind : DeclarationKind) :
    collect [s] kind = (s.ofKind kind).entries := by
  rw [OrderedMap.entries_eq, collect, List.flatMap_singleton,
    eraseDups_of_nodup (OrderedMap.keys_nodup _)]
  apply List.filterMap_congr
  intro name _
  rw [last?_cons]
  rfl

/-- What a schema declares comes before what the others do when they have none of its names. -/
theorem collect_cons {s : Schema} {rest : List Schema} (kind : DeclarationKind)
    (hnew : ∀ s' ∈ rest, ∀ name ∈ s'.names, name ∉ s.names) :
    collect (s :: rest) kind = collect [s] kind ++ collect rest kind := by
  have hmem : ∀ {s' : Schema} {name : String} {d : Declaration}, s'.find? kind name = some d →
      name ∈ s'.names := fun hd => mem_names.mpr ⟨kind, _, hd⟩
  have hapart : ∀ {name : String} {d d' : Declaration}, last? rest kind name = some d →
      s.find? kind name ≠ some d' := by
    intro name d d' hd hd'
    obtain ⟨s', hs', hfound⟩ := exists_of_last? hd
    exact hnew s' hs' name (hmem hfound) (hmem hd')
  have hkeys : ∀ name ∈ rest.flatMap fun s' => (s'.ofKind kind).keys,
      name ∉ (s.ofKind kind).keys := by
    intro name hname hown
    obtain ⟨d, hd⟩ := mem_flatMap_keys.mp hname
    obtain ⟨d', hd'⟩ := mem_keys_ofKind.mp hown
    exact hapart hd hd'
  have hnodup : (s.ofKind kind).keys.Nodup := OrderedMap.keys_nodup _
  simp only [collect, List.flatMap_cons, List.flatMap_nil, List.append_nil,
    eraseDups_append_of_disjoint hnodup hkeys, eraseDups_of_nodup hnodup, List.filterMap_append]
  congr 1
  · apply List.filterMap_congr
    intro name hname
    obtain ⟨d, hd⟩ := mem_keys_ofKind.mp hname
    have hnone : last? rest kind name = none := by
      by_contra hsome
      obtain ⟨d', hd'⟩ := Option.ne_none_iff_exists'.mp hsome
      exact hapart hd' hd
    rw [last?_cons, last?_cons, hnone]
    rfl
  · apply List.filterMap_congr
    intro name hname
    obtain ⟨d, hd⟩ := mem_flatMap_keys.mp (List.mem_eraseDups.mp hname)
    rw [last?_cons, hd]
    rfl

end Schema

namespace Registry

variable {r : Registry}

/-! ## One schema before the others -/

/-- What is admitted after a schema has been taken in is admitted together with it. -/
theorem Admits.cons {s : Schema} {rest : List Schema} (hfirst : r.Admits [s])
    (hrest : (r.accept [s]).Admits rest) : r.Admits (s :: rest) where
  sound := by
    rw [List.forall_mem_cons]
    constructor
    · refine (hfirst.sound s (List.mem_singleton_self s)).mono fun name => Or.imp_right ?_
      rintro ⟨s', hs', hname⟩
      exact ⟨s', List.mem_cons.mpr (Or.inl (List.mem_singleton.mp hs')), hname⟩
    · intro s' hs'
      refine (hrest.sound s' hs').mono fun name => ?_
      rw [mem_names_accept]
      rintro ((hold | ⟨s'', hs'', hname⟩) | ⟨s'', hs'', hname⟩)
      · exact Or.inl hold
      · exact Or.inr ⟨s'', List.mem_cons.mpr (Or.inl (List.mem_singleton.mp hs'')), hname⟩
      · exact Or.inr ⟨s'', List.mem_cons_of_mem _ hs'', hname⟩
  fresh := by
    rw [List.forall_mem_cons]
    refine ⟨hfirst.fresh s (List.mem_singleton_self s), fun s' hs' name hname hold => ?_⟩
    exact hrest.fresh s' hs' name hname (mem_names_accept.mpr (Or.inl hold))
  agree := by
    refine List.pairwise_cons.mpr ⟨fun s' hs' name kind kind' d d' hd hd' => ?_, hrest.agree⟩
    -- the second schema was taken in when the name was registered, so it cannot have it
    have hname : name ∈ s'.names := Schema.mem_names.mpr ⟨kind', d', hd'⟩
    have htaken : name ∈ (r.accept [s]).tables.names := mem_names_accept.mpr
      (Or.inr ⟨s, List.mem_singleton_self s, Schema.mem_names.mpr ⟨kind, d, hd⟩⟩)
    exact absurd htaken (hrest.fresh s' hs' name hname)

/-! ## One source after another -/

/-- Sources that are taken in one after another parse to schemas that are admitted together. -/
theorem Settled.admits_of_each (h : r.Settled) {sources : List Source}
    (hok : ∀ event ∈ r.history (sources.map .loadSource), event.2 = .ok ()) :
    ∃ units, List.Forall₂ (Source.Parses r.importer) sources units ∧ r.Admits units ∧
      ∀ kind, (r.run (sources.map .loadSource)).tables.contents kind =
        (r.accept units).tables.contents kind := by
  induction sources generalizing r with
  | nil =>
    have hnone : r.Admits [] := ⟨by simp, by simp, .nil⟩
    exact ⟨[], .nil, hnone, fun _ => rfl⟩
  | cons source rest ih =>
    rw [List.map_cons, history, List.forall_mem_cons] at hok
    obtain ⟨s, hs, hfirst, hafter⟩ := h.loadSource_eq_ok_iff.mp (Prod.ext rfl hok.1)
    have hnext : (Call.apply r (.loadSource source)).1 = r.accept [s] := hafter
    have hsettled : (r.accept [s]).Settled := h.accept (by simpa using hs.keyed) hfirst
    rw [hnext] at hok
    obtain ⟨units, hparse, hrest, hcontents⟩ := ih hsettled hok.2
    have hnew : ∀ s' ∈ units, ∀ name ∈ s'.names, name ∉ s.names := by
      intro s' hs' name hname hown
      exact hrest.fresh s' hs' name hname
        (mem_names_accept.mpr (Or.inr ⟨s, List.mem_singleton_self s, hown⟩))
    refine ⟨s :: units, .cons hs hparse, hfirst.cons hrest, fun kind => ?_⟩
    calc (r.run ((source :: rest).map .loadSource)).tables.contents kind
        = ((r.accept [s]).run (rest.map .loadSource)).tables.contents kind := by
          rw [← hnext]
          rfl
      _ = ((r.accept [s]).accept units).tables.contents kind := hcontents kind
      _ = r.tables.contents kind ++ (Schema.collect (s :: units) kind).map fun entry =>
            (entry.1, entry.2.bind r.id) := by
          rw [hrest.contents_accept, hfirst.contents_accept, Schema.collect_cons kind hnew,
            List.map_append, List.append_assoc]
          rfl
      _ = (r.accept (s :: units)).tables.contents kind :=
          ((hfirst.cons hrest).contents_accept kind).symm

/-- A source by itself and the batch of one are taken in or refused alike. -/
theorem Settled.loadSource_alike_batch (h : r.Settled) (source : Source) :
    ((r.loadSource source).2 = .ok () ↔ (r.loadAllSources [source]).2 = .ok ()) ∧
      (r.loadSource source).1.tables = (r.loadAllSources [source]).1.tables := by
  have hsame (after : Registry) :
      r.loadSource source = (after, .ok ()) ↔ r.loadAllSources [source] = (after, .ok ()) := by
    rw [h.loadSource_eq_ok_iff, h.loadAllSources_eq_ok_iff]
    constructor
    · rintro ⟨s, hs, ha, hafter⟩
      exact ⟨[s], .cons hs .nil, ha, hafter⟩
    · rintro ⟨units, hparse, ha, hafter⟩
      cases hparse with
      | cons hs hnil =>
        cases hnil
        exact ⟨_, hs, ha, hafter⟩
  rcases r.loadSource_cases source with ⟨after, hok⟩ | ⟨errors, -, hrefused⟩
  · rw [(hsame after).mp hok, hok]
    exact ⟨Iff.rfl, rfl⟩
  · rcases r.loadAllSources_cases [source] with ⟨after, hok⟩ | ⟨errors', -, hrefused'⟩
    · rw [(hsame after).mpr hok] at hrefused
      cases hrefused
    · -- both are refused, and the tables are those from before
      rw [hrefused, hrefused']
      exact ⟨iff_of_false (nomatch ·) (nomatch ·), rfl⟩

/-- When each of several sources is taken in, one after another, they are taken in as one
batch, and the tables hold the same names in the same order with equal declarations. One source
is taken in by itself exactly when it is as a batch, and the tables are equal then. -/
theorem loadAllSources_of_each (h : r.Reachable) :
    (∀ sources : List Source,
      (∀ event ∈ r.history (sources.map .loadSource), event.2 = .ok ()) →
      (r.loadAllSources sources).2 = .ok () ∧
        ∀ kind, (r.loadAllSources sources).1.tables.contents kind =
          (r.run (sources.map .loadSource)).tables.contents kind) ∧
    ∀ source : Source,
      ((r.loadSource source).2 = .ok () ↔ (r.loadAllSources [source]).2 = .ok ()) ∧
        (r.loadSource source).1.tables = (r.loadAllSources [source]).1.tables := by
  refine ⟨fun sources hok => ?_, h.settled.loadSource_alike_batch⟩
  obtain ⟨units, hparse, ha, hcontents⟩ := h.settled.admits_of_each hok
  have hload : r.loadAllSources sources = (r.accept units, .ok ()) :=
    h.settled.loadAllSources_eq_ok_iff.mpr ⟨units, hparse, ha, rfl⟩
  rw [hload]
  exact ⟨rfl, fun kind => (hcontents kind).symm⟩

/-- An enum and then a typedef that uses it. -/
theorem loadAllSources_of_each_enum_typedef :
    (Registry.new ⟨0⟩ .standard .none).Reachable ∧
    (∀ event ∈ (Registry.new ⟨0⟩ .standard .none).history
      ([⟨"enum B \x7b Y \x7d", none⟩, ⟨"typedef A B", none⟩].map .loadSource),
      event.2 = .ok ()) ∧
    ((Registry.new ⟨0⟩ .standard .none).loadAllSources
      [⟨"enum B \x7b Y \x7d", none⟩, ⟨"typedef A B", none⟩]).2 = .ok () ∧
    ∀ kind, ((Registry.new ⟨0⟩ .standard .none).loadAllSources
        [⟨"enum B \x7b Y \x7d", none⟩, ⟨"typedef A B", none⟩]).1.tables.contents kind =
      ((Registry.new ⟨0⟩ .standard .none).run
        ([⟨"enum B \x7b Y \x7d", none⟩, ⟨"typedef A B", none⟩].map
          .loadSource)).tables.contents kind := by
  have hnew : (Registry.new ⟨0⟩ .standard .none).Reachable := .new _ _ _
  have hhistory : ((Registry.new ⟨0⟩ .standard .none).history
      ([⟨"enum B \x7b Y \x7d", none⟩, ⟨"typedef A B", none⟩].map .loadSource)).map Prod.snd =
        [.ok (), .ok ()] := by
    cbv
  have hok : ∀ event ∈ (Registry.new ⟨0⟩ .standard .none).history
      ([⟨"enum B \x7b Y \x7d", none⟩, ⟨"typedef A B", none⟩].map .loadSource),
      event.2 = .ok () := by
    intro event hevent
    have hresult := List.mem_map_of_mem (f := Prod.snd) hevent
    rw [hhistory] at hresult
    simpa using hresult
  obtain ⟨hbatch, -⟩ := loadAllSources_of_each hnew
  exact ⟨hnew, hok, hbatch _ hok⟩

end Registry

end SchemaLang
