import SchemaLang.Proofs.Text.ByteOrder
import SchemaLang.Scope

/-!
# What a scope suggests

The suggestion for a name is the closest candidate (`closest?_eq_some_iff`): no other one
scores higher, and of those that score the same it is the first in the order of bytes.
There is at most one such candidate, so it does not matter in which order the names of a
scope come and how often (`closestTo?_of_same_names`). Scores may be any ordered values.
-/

namespace SchemaLang

variable {σ : Type} [LinearOrder σ] {score : String → σ} {threshold : σ}
  {candidate : String → Prop} {a b c : String}

/-! ## The closest candidate -/

/-- A candidate that reaches the threshold, that no other one exceeds in its score, and that
is the first in the order of bytes among those of its score. -/
structure Closest (score : String → σ) (threshold : σ) (candidate : String → Prop)
    (c : String) : Prop where
  among : candidate c
  reaches : threshold ≤ score c
  highest : ∀ d, candidate d → score d ≤ score c
  first : ∀ d, candidate d → score d = score c → Text.bytes c ≤ Text.bytes d

theorem Closest.unique (h : Closest score threshold candidate a)
    (h' : Closest score threshold candidate b) : a = b := by
  have hscore : score a = score b :=
    le_antisymm (h'.highest a h.among) (h.highest b h'.among)
  have hab : a ≤ b := Text.bytes_le_iff.mp (h.first b h'.among hscore.symm)
  have hba : b ≤ a := Text.bytes_le_iff.mp (h'.first a h.among hscore)
  exact le_antisymm hab hba

/-! ## Comparing two candidates -/

/-- One candidate goes before another: its score is higher, or it is equal and the name
comes no later. -/
def Precedes (score : String → σ) (a b : String) : Prop :=
  score b < score a ∨ score b = score a ∧ a ≤ b

theorem Precedes.refl (a : String) : Precedes score a a :=
  Or.inr ⟨rfl, le_rfl⟩

theorem Precedes.trans (hab : Precedes score a b) (hbc : Precedes score b c) :
    Precedes score a c := by
  rcases hab with hab | ⟨hab, hle⟩
  · rcases hbc with hbc | ⟨hbc, -⟩
    · exact Or.inl (hbc.trans hab)
    · exact Or.inl (hbc ▸ hab)
  · rcases hbc with hbc | ⟨hbc, hle'⟩
    · exact Or.inl (hab ▸ hbc)
    · exact Or.inr ⟨hbc.trans hab, hle.trans hle'⟩

theorem closer_cases (score : String → σ) (a b : String) :
    closer score a b = a ∨ closer score a b = b := by
  unfold closer
  split_ifs <;> simp

/-- The closer of two candidates goes before both. -/
theorem precedes_closer (score : String → σ) (a b : String) :
    Precedes score (closer score a b) a ∧ Precedes score (closer score a b) b := by
  unfold closer
  split_ifs with hab hba hlt
  · exact ⟨Or.inl hab, .refl b⟩
  · exact ⟨.refl a, Or.inl hba⟩
  · have heq : score a = score b := le_antisymm (not_lt.mp hba) (not_lt.mp hab)
    exact ⟨Or.inr ⟨heq, hlt.le⟩, .refl b⟩
  · have heq : score a = score b := le_antisymm (not_lt.mp hba) (not_lt.mp hab)
    exact ⟨.refl a, Or.inr ⟨heq.symm, not_lt.mp hlt⟩⟩

/-- What is left when candidates are compared one after another is one of them and goes
before all. -/
theorem foldl_closer (score : String → σ) (first : String) (rest : List String) :
    rest.foldl (closer score) first ∈ first :: rest ∧
      ∀ c ∈ first :: rest, Precedes score (rest.foldl (closer score) first) c := by
  induction rest generalizing first with
  | nil => simp [Precedes.refl]
  | cons next rest ih =>
    rw [List.foldl_cons]
    obtain ⟨hmem, hbefore⟩ := ih (closer score first next)
    obtain ⟨hfirst, hnext⟩ := precedes_closer score first next
    have hhead := hbefore _ List.mem_cons_self
    constructor
    · rcases List.mem_cons.mp hmem with heq | hrest
      · rw [heq]
        rcases closer_cases score first next with h | h <;> simp [h]
      · exact List.mem_cons_of_mem _ (List.mem_cons_of_mem _ hrest)
    · intro c hc
      rcases List.mem_cons.mp hc with rfl | hc
      · exact hhead.trans hfirst
      rcases List.mem_cons.mp hc with rfl | hc
      · exact hhead.trans hnext
      · exact hbefore c (List.mem_cons_of_mem _ hc)

/-! ## The closest of a list -/

variable {candidates : List String}

theorem closest?_eq_none_iff :
    closest? score threshold candidates = none ↔ ∀ c ∈ candidates, score c < threshold := by
  unfold closest?
  split
  · next hfilter => simpa [List.filter_eq_nil_iff] using hfilter
  · next first rest hfilter =>
    have hfirst : first ∈ candidates.filter fun c => ¬ score c < threshold := by
      rw [hfilter]
      exact List.mem_cons_self
    obtain ⟨hcandidate, hreaches⟩ := List.mem_filter.mp hfirst
    refine iff_of_false (by simp) fun hlow => ?_
    exact absurd (hlow first hcandidate) (by simpa using hreaches)

theorem closest_of_closest? (h : closest? score threshold candidates = some c) :
    Closest score threshold (· ∈ candidates) c := by
  unfold closest? at h
  split at h
  · cases h
  · next first rest hfilter =>
    obtain ⟨hmem, hbefore⟩ := foldl_closer score first rest
    rw [Option.some.inj h, ← hfilter] at hmem hbefore
    obtain ⟨hcandidate, hreaches⟩ := List.mem_filter.mp hmem
    have hreaches : threshold ≤ score c := by simpa using hreaches
    -- what falls short of the threshold has not been compared, but it scores lower
    have hall (d : String) (hd : d ∈ candidates) : Precedes score c d := by
      by_cases hlow : score d < threshold
      · exact Or.inl (hlow.trans_le hreaches)
      · exact hbefore d (List.mem_filter.mpr ⟨hd, by simpa using hlow⟩)
    refine ⟨hcandidate, hreaches, fun d hd => ?_, fun d hd heq => ?_⟩
    · rcases hall d hd with hlt | ⟨heq, -⟩
      · exact hlt.le
      · exact heq.le
    · rcases hall d hd with hlt | ⟨-, hle⟩
      · exact absurd heq hlt.ne
      · exact Text.bytes_le_iff.mpr hle

theorem closest?_eq_some_iff :
    closest? score threshold candidates = some c ↔
      Closest score threshold (· ∈ candidates) c := by
  refine ⟨closest_of_closest?, fun h => ?_⟩
  cases hfound : closest? score threshold candidates with
  | none => exact absurd (closest?_eq_none_iff.mp hfound c h.among) (not_lt.mpr h.reaches)
  | some d => rw [(closest_of_closest? hfound).unique h]

theorem closest?_congr {candidates' : List String}
    (h : ∀ name, name ∈ candidates ↔ name ∈ candidates') :
    closest? score threshold candidates = closest? score threshold candidates' := by
  have hsame : (· ∈ candidates) = (· ∈ candidates') := funext fun name => propext (h name)
  ext c
  rw [closest?_eq_some_iff, closest?_eq_some_iff, hsame]

/-! ## Suggestions -/

namespace Scope

theorem resolves_iff {scope : Scope} {name : String} :
    scope.resolves name = true ↔ name ∈ baseTypes ++ scope.names := by
  simp [resolves, isBaseType]

/-- The suggestion depends on the set of the declared names only. There is none when all
that types may use scores below the threshold; otherwise it is the closest of that. -/
theorem closestTo?_of_same_names (score : String → String → σ) (threshold : σ)
    (input : String) (scope scope' : Scope)
    (same : ∀ name, name ∈ scope.names ↔ name ∈ scope'.names) :
    scope.closestTo? score threshold input = scope'.closestTo? score threshold input ∧
      (scope.closestTo? score threshold input = none ↔
        ∀ name, scope.resolves name = true → score input name < threshold) ∧
      ∀ name, scope.closestTo? score threshold input = some name ↔
        Closest (score input) threshold (scope.resolves · = true) name := by
  simp only [closestTo?, closest?_eq_none_iff, closest?_eq_some_iff, resolves_iff,
    implies_true, and_true]
  refine closest?_congr fun name => ?_
  rw [List.mem_append, List.mem_append, same]

/-- Three of the candidates begin like the input. -/
theorem closestTo?_of_same_names_st :
    (∀ name, name ∈ ["sum", "string", "sort"] ↔ name ∈ ["sort", "sum", "sort", "string"]) ∧
      Scope.closestTo? ⟨["sum", "string", "sort"]⟩
        (fun input name => if name.toList.head? = input.toList.head? then 1 else 0) 1 "st" =
          some "sort" ∧
      Scope.closestTo? ⟨["sort", "sum", "sort", "string"]⟩
        (fun input name => if name.toList.head? = input.toList.head? then 1 else 0) 1 "st" =
          some "sort" := by
  have same : ∀ name, name ∈ ["sum", "string", "sort"] ↔
      name ∈ ["sort", "sum", "sort", "string"] := by
    intro name
    simp only [List.mem_cons, List.not_mem_nil, or_false]
    tauto
  have first : Scope.closestTo? ⟨["sum", "string", "sort"]⟩
      (fun input name => if name.toList.head? = input.toList.head? then 1 else 0) 1 "st" =
        some "sort" := by decide
  refine ⟨same, first, ?_⟩
  rw [← first]
  exact (closestTo?_of_same_names _ _ _ _ _ same).1.symm

end Scope

end SchemaLang
