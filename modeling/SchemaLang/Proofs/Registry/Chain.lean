import SchemaLang.Proofs.Registry.Resolution

/-!
# Chains of aliases

A type leads to the type that its typedef gives it, if it is a bare name of one, and that type
may lead on. Such a chain either leaves the bare names of typedefs or goes round for ever. What
a type resolves to is read off its chain, and it is found with no more expansions than there are
typedefs (`resolve_chain`).

The chain and its end are told by what is registered under a name (`IsAlias`, `Means`), and not by
the steps that resolution takes.
-/

namespace SchemaLang.Registry

variable {r : Registry} {field : String} {t u : FieldType} {d : TypeDef}

/-! ## The chain of a type -/

/-- The type so many aliases behind a type, if the chain goes that far. -/
def chain (r : Registry) (t : FieldType) : Nat → Option FieldType
  | 0 => some t
  | n + 1 => (r.chain t n).bind fun u =>
    if u.isBare then (r.typeDef? u.name).map (·.type) else none

/-- What a chain of aliases comes to, and after how many of them. Either it leaves the bare names
of typedefs, for a type that means what its name does. Or it never does and comes round to a name
for the first time; no name that stands before that one on the chain comes again. -/
inductive ChainEnd (r : Registry) (field : String) (t : FieldType) : Nat → ResolvedType → Prop where
  | leaves {n : Nat} {u : FieldType} {result : ResolvedType} (reached : r.chain t n = some u)
    (free : ∀ d, ¬r.IsAlias u d) (meaning : r.Means field u result) :
    ChainEnd r field t n result
  | comesRound {k n : Nat} {name : String}
    (endless : ∀ i, ∃ u d, r.chain t i = some u ∧ r.IsAlias u d)
    (reached : r.chain t k = some (.named name)) (later : k < n)
    (again : r.chain t n = some (.named name))
    (first : ∀ i j, i < j → j < n → r.chain t i ≠ r.chain t j)
    (once : ∀ i j, i < k → i < j → r.chain t i ≠ r.chain t j) :
    ChainEnd r field t n (.type (.named name))

/-- The expansions of aliases by which a type is resolved when some have been followed, with
their number. -/
inductive Expands (r : Registry) (field : String) :
    List String → FieldType → Nat → ResolvedType → Prop where
  | free {seen : List String} {t : FieldType} {result : ResolvedType}
    (free : ∀ d, ¬r.IsAlias t d) (meaning : r.Means field t result) :
    Expands r field seen t 0 result
  | followed {seen : List String} {t : FieldType} {d : TypeDef} (bare : r.IsAlias t d)
    (followed : t.name ∈ seen) : Expands r field seen t 0 (.type t)
  | expand {seen : List String} {t : FieldType} {d : TypeDef} {n : Nat} {result : ResolvedType}
    (bare : r.IsAlias t d) (fresh : t.name ∉ seen)
    (others : Expands r field (t.name :: seen) d.type n result) :
    Expands r field seen t (n + 1) result

/-! ## The number of expansions -/

theorem expands_resolveFrom (r : Registry) (field : String) (seen : List String) (t : FieldType) :
    ∃ n, r.Expands field seen t n (r.resolveFrom field seen t) := by
  fun_induction r.resolveFrom field seen t with
  | case1 seen t halias =>
    exact ⟨0, .free (alias?_eq_none_iff.mp halias) (r.means_classify field t)⟩
  | case2 seen t d halias hfollowed =>
    exact ⟨0, .followed (alias?_eq_some_iff.mp halias) hfollowed⟩
  | case3 seen t d halias hfresh ih =>
    obtain ⟨n, hn⟩ := ih
    exact ⟨n + 1, .expand (alias?_eq_some_iff.mp halias) hfresh hn⟩

theorem Expands.unique {seen : List String} {n m : Nat} {result other : ResolvedType}
    (h : r.Expands field seen t n result) (h' : r.Expands field seen t m other) :
    m = n ∧ other = result := by
  induction h generalizing m with
  | free hfree hmeans =>
    cases h' with
    | free _ hmeans' => exact ⟨rfl, hmeans.unique hmeans'⟩
    | followed hbare => exact absurd hbare (hfree _)
    | expand hbare => exact absurd hbare (hfree _)
  | followed hbare hfollowed =>
    cases h' with
    | free hfree => exact absurd hbare (hfree _)
    | followed => exact ⟨rfl, rfl⟩
    | expand _ hfresh => exact absurd hfollowed hfresh
  | expand hbare hfresh _ ih =>
    cases h' with
    | free hfree => exact absurd hbare (hfree _)
    | followed _ hfollowed => exact absurd hfollowed hfresh
    | expand hbare' _ hothers =>
      cases hbare.registered.symm.trans hbare'.registered
      obtain ⟨rfl, rfl⟩ := ih hothers
      exact ⟨rfl, rfl⟩

/-- An alias is followed at most once. -/
theorem Expands.le_unfollowed {seen : List String} {n : Nat} {result : ResolvedType}
    (h : r.Expands field seen t n result) : n ≤ (r.unfollowed seen).length := by
  induction h with
  | free => exact Nat.zero_le _
  | followed => exact Nat.zero_le _
  | expand hbare hfresh _ ih =>
    exact Nat.lt_of_le_of_lt ih (length_unfollowed_lt (alias?_eq_some_iff.mpr hbare) hfresh)

theorem length_unfollowed_nil (r : Registry) :
    (r.unfollowed []).length = r.typedefs.length := by
  simp [unfollowed, typedefs, OrderedMap.keys, OrderedMap.values]

/-! ## Along the chain -/

theorem chain_succ_eq_some_iff {n : Nat} :
    r.chain t (n + 1) = some u ↔
      ∃ v d, r.chain t n = some v ∧ r.IsAlias v d ∧ d.type = u := by
  rw [chain, Option.bind_eq_some_iff]
  constructor
  · rintro ⟨v, hv, hnext⟩
    split at hnext
    · next hbare =>
      obtain ⟨d, hd, htype⟩ := Option.map_eq_some_iff.mp hnext
      exact ⟨v, d, hv, ⟨hbare, hd⟩, htype⟩
    · cases hnext
  · rintro ⟨v, d, hv, halias, rfl⟩
    refine ⟨v, hv, ?_⟩
    rw [if_pos halias.bare, halias.registered, Option.map_some]

theorem chain_add (r : Registry) (t : FieldType) (n m : Nat) :
    r.chain t (n + m) = (r.chain t n).bind fun u => r.chain u m := by
  induction m with
  | zero => simp [chain]
  | succ m ih =>
    rw [← Nat.add_assoc, chain, ih, Option.bind_assoc]
    rfl

/-- Whatever stands before another type on a chain is an alias. -/
theorem alias_of_chain {n k : Nat} (h : r.chain t n = some u) (hk : k < n) :
    ∃ v d, r.chain t k = some v ∧ r.IsAlias v d := by
  obtain ⟨m, rfl⟩ := Nat.exists_eq_add_of_lt hk
  rw [Nat.add_assoc, chain_add, Option.bind_eq_some_iff] at h
  obtain ⟨v, hv, hrest⟩ := h
  rw [Nat.add_comm, chain_add, Option.bind_eq_some_iff] at hrest
  obtain ⟨w, hw, -⟩ := hrest
  obtain ⟨v', d, hv', hd, -⟩ := chain_succ_eq_some_iff.mp hw
  obtain rfl : v = v' := Option.some.inj hv'
  exact ⟨v, d, hv, hd⟩

/-- A chain that comes round to an alias goes on for ever. -/
theorem endless_of_chain_eq {i j : Nat} (hij : i < j) (heq : r.chain t i = r.chain t j)
    (hj : r.chain t j = some u) (halias : r.IsAlias u d) (k : Nat) :
    ∃ v d, r.chain t k = some v ∧ r.IsAlias v d := by
  induction k using Nat.strongRecOn with
  | _ k ih =>
    rcases Nat.lt_trichotomy k j with hlt | rfl | hgt
    · exact alias_of_chain hj hlt
    · exact ⟨u, d, hj, halias⟩
    · -- as far behind the second place as behind the first
      obtain ⟨m, rfl⟩ := Nat.exists_eq_add_of_le hgt.le
      have hback : r.chain t (j + m) = r.chain t (i + m) := by
        rw [chain_add, chain_add, heq]
      rw [hback]
      exact ih (i + m) (by omega)

/-- What stands before the place to which a chain comes round does not come again. -/
theorem chain_ne_of_distinct {k n : Nat} (hkn : k < n) (heq : r.chain t k = r.chain t n)
    (hdistinct : ∀ i j, i < j → j < n → r.chain t i ≠ r.chain t j) {i j : Nat} (hik : i < k)
    (hij : i < j) : r.chain t i ≠ r.chain t j := by
  induction j using Nat.strongRecOn with
  | _ j ih =>
    rcases Nat.lt_or_ge j n with hlt | hge
    · exact hdistinct i j hij hlt
    · obtain ⟨m, rfl⟩ := Nat.exists_eq_add_of_le hge
      have hback : r.chain t (n + m) = r.chain t (k + m) := by
        rw [chain_add, chain_add, heq]
      rw [hback]
      exact ih (k + m) (by omega) (by omega)

/-! ## What resolution has seen -/

/-- The place on the chain of a type that resolution has come to, and the names that it has
followed on the way: all of them are different. -/
structure Followed (r : Registry) (t : FieldType) (n : Nat) (seen : List String) (u : FieldType) :
    Prop where
  reached : r.chain t n = some u
  mem_seen : ∀ name, name ∈ seen ↔ ∃ k < n, r.chain t k = some (.named name)
  distinct : ∀ i j, i < j → j < n → r.chain t i ≠ r.chain t j

theorem followed_nil (r : Registry) (t : FieldType) : r.Followed t 0 [] t where
  reached := rfl
  mem_seen := by simp
  distinct := by simp

theorem Followed.expand {n : Nat} {seen : List String} (h : r.Followed t n seen u)
    (halias : r.IsAlias u d) (hfresh : u.name ∉ seen) :
    r.Followed t (n + 1) (u.name :: seen) d.type := by
  have hbare : u = .named u.name := halias.eq_named
  constructor
  case reached => exact chain_succ_eq_some_iff.mpr ⟨u, d, h.reached, halias, rfl⟩
  case mem_seen =>
    intro name
    rw [List.mem_cons, h.mem_seen]
    constructor
    · rintro (rfl | ⟨k, hk, hchain⟩)
      · exact ⟨n, Nat.lt_succ_self n, h.reached.trans (congrArg some hbare)⟩
      · exact ⟨k, Nat.lt_succ_of_lt hk, hchain⟩
    · rintro ⟨k, hk, hchain⟩
      rcases Nat.lt_succ_iff_lt_or_eq.mp hk with hk | rfl
      · exact Or.inr ⟨k, hk, hchain⟩
      · obtain rfl := Option.some.inj (h.reached.symm.trans hchain)
        exact Or.inl rfl
  case distinct =>
    intro i j hij hj heq
    rcases Nat.lt_succ_iff_lt_or_eq.mp hj with hj | rfl
    · exact h.distinct i j hij hj heq
    · -- the last name would have been followed before
      refine hfresh ((h.mem_seen _).mpr ⟨i, hij, ?_⟩)
      rw [heq, h.reached]
      exact congrArg some hbare

/-- Where resolution stops, the chain ends. -/
theorem Expands.chainEnd {seen : List String} {n m : Nat} {result : ResolvedType}
    (h : r.Expands field seen u m result) (hfollowed : r.Followed t n seen u) :
    r.ChainEnd field t (n + m) result := by
  induction h generalizing n with
  | free hfree hmeans => exact .leaves hfollowed.reached hfree hmeans
  | @followed seen u d halias hseen =>
    have hbare : u = .named u.name := halias.eq_named
    obtain ⟨k, hk, hchain⟩ := (hfollowed.mem_seen _).mp hseen
    have hagain : r.chain t n = some (.named u.name) :=
      hfollowed.reached.trans (congrArg some hbare)
    have heq : r.chain t k = r.chain t n := hchain.trans hagain.symm
    rw [hbare]
    exact .comesRound (endless_of_chain_eq hk heq hfollowed.reached halias) hchain hk hagain
      hfollowed.distinct fun i j => chain_ne_of_distinct hk heq hfollowed.distinct
  | @expand seen u d m result halias hfresh _ ih =>
    have hend := ih (hfollowed.expand halias hfresh)
    rwa [Nat.add_assoc, Nat.add_comm 1] at hend

/-! ## Resolution -/

theorem not_alias_of_free {n : Nat} (hreached : r.chain t n = some u)
    (hfree : ∀ d, ¬r.IsAlias u d) : ¬∃ v d, r.chain t n = some v ∧ r.IsAlias v d := by
  rintro ⟨v, d, hv, halias⟩
  obtain rfl := Option.some.inj (hreached.symm.trans hv)
  exact hfree d halias

theorem ChainEnd.le {n m : Nat} {result other : ResolvedType}
    (h : r.ChainEnd field t n result) (h' : r.ChainEnd field t m other) : m ≤ n := by
  by_contra hlt
  rw [Nat.not_le] at hlt
  cases h with
  | leaves hreached hfree =>
    refine not_alias_of_free hreached hfree ?_
    cases h' with
    | leaves hother => exact alias_of_chain hother hlt
    | comesRound hendless => exact hendless n
  | @comesRound k _ name hendless hreached hlater hagain =>
    cases h' with
    | leaves hother hfree => exact not_alias_of_free hother hfree (hendless m)
    | comesRound _ _ _ _ hfirst => exact hfirst k n hlater hlt (hreached.trans hagain.symm)

/-- A chain ends in one way. -/
theorem ChainEnd.unique {n m : Nat} {result other : ResolvedType}
    (h : r.ChainEnd field t n result) (h' : r.ChainEnd field t m other) :
    m = n ∧ other = result := by
  obtain rfl : m = n := Nat.le_antisymm (h.le h') (h'.le h)
  refine ⟨rfl, ?_⟩
  cases h with
  | leaves hreached hfree hmeans =>
    cases h' with
    | leaves hother _ hmeans' =>
      obtain rfl := Option.some.inj (hreached.symm.trans hother)
      exact hmeans.unique hmeans'
    | comesRound hendless => exact absurd (hendless m) (not_alias_of_free hreached hfree)
  | comesRound hendless _ _ hagain =>
    cases h' with
    | leaves hother hfree => exact absurd (hendless m) (not_alias_of_free hother hfree)
    | comesRound _ _ _ hother =>
      exact congrArg ResolvedType.type (Option.some.inj (hother.symm.trans hagain))

/-- A type is resolved with at most one expansion for each typedef. The expansions go along the
chain of the type to where it ends, which decides the result. -/
theorem resolve_chain (r : Registry) (field : String) (t : FieldType) :
    ∃ n ≤ r.typedefs.length,
      (∀ m result, r.Expands field [] t m result ↔ m = n ∧ result = r.resolve field t) ∧
      (∀ m result, r.ChainEnd field t m result ↔ m = n ∧ result = r.resolve field t) := by
  obtain ⟨n, hn⟩ := expands_resolveFrom r field [] t
  have hend : r.ChainEnd field t (0 + n) (r.resolve field t) := hn.chainEnd (followed_nil r t)
  rw [Nat.zero_add] at hend
  refine ⟨n, r.length_unfollowed_nil ▸ hn.le_unfollowed, fun m result => ⟨hn.unique, ?_⟩,
    fun m result => ⟨hend.unique, ?_⟩⟩
  · rintro ⟨rfl, rfl⟩
    exact hn
  · rintro ⟨rfl, rfl⟩
    exact hend

end SchemaLang.Registry
