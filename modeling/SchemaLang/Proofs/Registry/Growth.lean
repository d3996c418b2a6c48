import SchemaLang.Proofs.Registry.Admission

/-!
# Growth

Tables only grow. A call leaves what is registered where it is and as it is; what it
adds comes behind (`contents_prefix_apply`). This holds along every run
(`Settled.extends_run`), so that a declaration that was registered once is found under its
name ever after (`Settled.declaration_kept`).
-/

namespace SchemaLang

namespace Tables

/-- Tables that begin with what others hold, each declaration in its place. -/
def Extends (t before : Tables) : Prop :=
  ∀ kind, before.contents kind <+: t.contents kind

theorem Extends.refl (t : Tables) : t.Extends t := fun _ => List.prefix_rfl

theorem Extends.trans {t t' t'' : Tables} (h : t''.Extends t') (h' : t'.Extends t) :
    t''.Extends t := fun kind => (h' kind).trans (h kind)

theorem mem_contents {t : Tables} {kind : DeclarationKind} {name : String} {d : Declaration} :
    (name, d) ∈ t.contents kind ↔ ∃ e, t.lookup? kind name = some e ∧ e.declaration = d := by
  simp only [contents, List.mem_map, Prod.mk.injEq, lookup?_eq, OrderedMap.find?_eq_some_iff]
  constructor
  · rintro ⟨⟨_, e⟩, he, rfl, rfl⟩
    exact ⟨e, he, rfl⟩
  · rintro ⟨e, he, rfl⟩
    exact ⟨(name, e), he, rfl, rfl⟩

end Tables

namespace Registry

variable {r : Registry} {units : List Schema}

theorem Admits.extends_accept (ha : r.Admits units) : (r.accept units).tables.Extends r.tables := by
  intro kind
  rw [ha.contents_accept]
  exact List.prefix_append _ _

theorem Settled.extends_apply (h : r.Settled) (c : Call) :
    (c.apply r).1.tables.Extends r.tables := by
  rcases h.apply_cases c with ⟨importer, hc, -⟩ | ⟨units, -, ha, hc⟩ | ⟨errors, -, hc⟩
  · rw [hc]
    exact .refl _
  · rw [hc]
    exact ha.extends_accept
  · -- a refused load has put the old tables back
    rw [hc]
    exact .refl _

theorem Settled.extends_run (h : r.Settled) (calls : List Call) :
    (r.run calls).tables.Extends r.tables := by
  induction calls generalizing r with
  | nil => exact .refl _
  | cons c rest ih => exact (ih (h.apply c)).trans (h.extends_apply c)

/-- Whatever is registered under a name stays registered under it. -/
theorem Settled.declaration_kept (h : r.Settled) (calls : List Call) {kind : DeclarationKind}
    {name : String} {e : Entry Declaration} (he : r.tables.lookup? kind name = some e) :
    ∃ e', (r.run calls).tables.lookup? kind name = some e' ∧
      e'.declaration = e.declaration := by
  have hmem : (name, e.declaration) ∈ r.tables.contents kind :=
    Tables.mem_contents.mpr ⟨e, he, rfl⟩
  exact Tables.mem_contents.mp ((h.extends_run calls kind).subset hmem)

/-- No call removes, replaces or moves what is registered. -/
theorem contents_prefix_apply (h : r.Reachable) (c : Call) (kind : DeclarationKind) :
    r.tables.contents kind <+: (c.apply r).1.tables.contents kind :=
  h.settled.extends_apply c kind

/-- An enum keeps its place when a batch adds another one. -/
theorem contents_prefix_after_enum :
    ((Call.load "enum A \x7b X \x7d").apply (Registry.new ⟨0⟩ .standard .none)).1.Reachable ∧
    (((Call.load "enum A \x7b X \x7d").apply
      (Registry.new ⟨0⟩ .standard .none)).1.tables.contents .enum).map Prod.fst = ["A"] ∧
    ((Call.load "enum A \x7b X \x7d").apply
        (Registry.new ⟨0⟩ .standard .none)).1.tables.contents .enum <+:
      ((Call.loadAll ["enum B \x7b X \x7d"]).apply
        ((Call.load "enum A \x7b X \x7d").apply
          (Registry.new ⟨0⟩ .standard .none)).1).1.tables.contents .enum := by
  have hreachable :
      ((Call.load "enum A \x7b X \x7d").apply (Registry.new ⟨0⟩ .standard .none)).1.Reachable :=
    .call (.new _ _ _) _
  refine ⟨hreachable, ?_, contents_prefix_apply hreachable _ .enum⟩
  cbv

end Registry

end SchemaLang
