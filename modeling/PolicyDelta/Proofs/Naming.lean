import PolicyDelta.Expansion
import PolicyDelta.Proofs.Outcome

/-! What the names of a policy stand for, said as a relation between names and types. A successful
look-up finds exactly the related types (`Scope.mem_iff_denotes`), all of them types of the policy,
and the expansion of a rule consists of the related pairs (`Scope.mem_pairsOf`). -/

namespace PolicyDelta

/-- A name stands for a type: by itself, as an alias of it, or as an attribute that has it as a
member. A type hides an alias and an attribute of its name, an alias hides an attribute. -/
inductive Policy.Denotes (p : Policy) : String → String → Prop where
  | typeName : t ∈ p.types → p.Denotes t t
  | aliasName : n ∉ p.types → p.aliases[n]? = some t → t ∈ p.types → p.Denotes n t
  | attributeName : n ∉ p.types → n ∉ p.aliases → p.attributes[n]? = some ms → t ∈ ms →
    p.Denotes n t

theorem Policy.denotes_typeName {p : Policy} {n t : String} (h : n ∈ p.types) :
    p.Denotes n t ↔ t = n := by
  constructor
  · intro ht
    cases ht with
    | typeName => rfl
    | aliasName hn | attributeName hn => exact absurd h hn
  · rintro rfl
    exact .typeName h

/-- A rule stands for a pair of types. Its target `self` is the source of the pair. -/
def Rule.Expands (p : Policy) (r : Rule) (source target : String) : Prop :=
  p.Denotes r.head.source source ∧
    if r.head.target = selfTarget then target = source else p.Denotes r.head.target target

/-- A name is known if it has a kind and stands for types of the policy only. -/
structure Scope.Knows (s : Scope) (n : String) : Prop where
  kind : ∃ kind, s.kindOf n = .ok kind
  types : ∀ t, s.policy.Denotes n t → t ∈ s.policy.types

namespace Scope

variable {s : Scope} {n t : String} {ts : NameSet} {kind : NameKind}

theorem kindOf_cases (h : s.kindOf n = .ok kind) :
    (kind = .typeName ∧ n ∈ s.policy.types) ∨
    (kind = .aliasName ∧ n ∉ s.policy.types ∧ n ∈ s.policy.aliases) ∨
    (kind = .attributeName ∧ n ∉ s.policy.types ∧ n ∉ s.policy.aliases ∧
      n ∈ s.policy.attributes) := by
  unfold kindOf at h
  split at h
  · rename_i ht
    cases h
    exact .inl ⟨rfl, ht⟩
  split at h
  · rename_i ht ha
    cases h
    exact .inr (.inl ⟨rfl, ht, ha⟩)
  split at h
  · rename_i ht ha hm
    cases h
    exact .inr (.inr ⟨rfl, ht, ha, hm⟩)
  · cases h

theorem lookupType_eq_ok :
    s.lookupType n = .ok t ↔ (n ∈ s.policy.types ∧ n = t) ∨
      (n ∉ s.policy.types ∧ s.policy.aliases[n]? = some t ∧ t ∈ s.policy.types) := by
  unfold lookupType
  by_cases ht : n ∈ s.policy.types
  · simp [ht]
  cases s.policy.aliases[n]? with
  | none => simp [ht]
  | some actual =>
    by_cases hm : actual ∈ s.policy.types
    · simp only [ht, hm, if_true, if_false, Except.ok.injEq, false_and, false_or,
        not_false_eq_true, true_and, Option.some.injEq]
      exact ⟨fun h => ⟨h, h ▸ hm⟩, And.left⟩
    · simp only [ht, hm, if_false, reduceCtorEq, false_and, false_or, not_false_eq_true, true_and,
        Option.some.injEq, false_iff, not_and]
      exact fun h => h ▸ hm

/-- A name that is no attribute stands for the one type that it is looked up to. -/
theorem denotes_of_not_attribute (h : s.kindOf n = .ok kind) (hk : kind ≠ .attributeName) :
    s.policy.Denotes n t ↔ s.lookupType n = .ok t := by
  rw [lookupType_eq_ok]
  constructor
  · intro hd
    cases hd with
    | typeName ht => exact .inl ⟨ht, rfl⟩
    | aliasName hn ha ht => exact .inr ⟨hn, ha, ht⟩
    | attributeName hn ha hm _ =>
      rcases kindOf_cases h with ⟨-, ht⟩ | ⟨-, -, ha'⟩ | ⟨hk', -⟩
      · exact absurd ht hn
      · exact absurd ha' ha
      · exact absurd hk' hk
  · rintro (⟨ht, rfl⟩ | ⟨hn, ha, ht⟩)
    · exact .typeName ht
    · exact .aliasName hn ha ht

/-- An attribute stands for its members. -/
theorem denotes_of_attribute (h : s.kindOf n = .ok .attributeName) :
    s.policy.Denotes n t ↔ t ∈ s.policy.attributes.getD n ∅ := by
  rw [Std.ExtTreeMap.getD_eq_getD_getElem?]
  rcases kindOf_cases h with ⟨⟨⟩, -⟩ | ⟨⟨⟩, -⟩ | ⟨-, hn, ha, hm⟩
  obtain ⟨ms, hms⟩ := Option.isSome_iff_exists.1 (Std.ExtTreeMap.mem_iff_isSome_getElem?.1 hm)
  rw [hms, Option.getD_some]
  constructor
  · intro hd
    cases hd with
    | typeName ht => exact absurd ht hn
    | aliasName _ hget _ =>
      exact absurd (Std.ExtTreeMap.mem_iff_isSome_getElem?.2 (by rw [hget]; rfl)) ha
    | attributeName _ _ hget ht =>
      cases hms.symm.trans hget
      exact ht
  · exact .attributeName hn ha hms

theorem mem_iff_denotes (h : s.typesOf n = .ok ts) : t ∈ ts ↔ s.policy.Denotes n t := by
  unfold typesOf at h
  obtain ⟨kind, hkind, h⟩ := bind_eq_ok.1 h
  by_cases hk : kind = .attributeName
  · subst hk
    simp only at h
    split at h
    · cases h
    cases h
    exact (denotes_of_attribute hkind).symm
  · have hone : ∃ u, s.lookupType n = .ok u ∧ ts = {u} := by
      cases kind with
      | typeName | aliasName =>
        obtain ⟨u, hu, h⟩ := bind_eq_ok.1 h
        exact ⟨u, hu, (Except.ok.inj h).symm⟩
      | attributeName => exact absurd rfl hk
    obtain ⟨u, hu, rfl⟩ := hone
    rw [denotes_of_not_attribute hkind hk, hu]
    simp

/-- A name whose types are looked up with success is known. -/
theorem knows_of_typesOf (h : s.typesOf n = .ok ts) : s.Knows n := by
  refine ⟨?_, fun t ht => ?_⟩
  · obtain ⟨kind, hkind, -⟩ := bind_eq_ok.1 h
    exact ⟨kind, hkind⟩
  cases ht with
  | typeName ht | aliasName _ _ ht => exact ht
  | attributeName hn ha hms ht =>
    have hkind : s.kindOf n = .ok .attributeName := by
      have hm := Std.ExtTreeMap.mem_iff_isSome_getElem?.2 (by rw [hms]; rfl)
      simp [kindOf, hn, ha, hm]
    unfold typesOf at h
    rw [hkind] at h
    simp only [bind, Except.bind, Std.ExtTreeMap.getD_eq_getD_getElem?, hms, Option.getD_some] at h
    split at h
    · cases h
    · rename_i hfind
      simpa using List.find?_eq_none.1 hfind t (Std.ExtTreeSet.mem_toList.2 ht)

end Scope

section

variable {sources targets : NameSet} {a b : String}

theorem mem_selfPairs : (a, b) ∈ selfPairs sources ↔ a ∈ sources ∧ b = a := by
  simp only [selfPairs, List.mem_map, Std.ExtTreeSet.mem_toList, Prod.mk.injEq]
  constructor
  · rintro ⟨c, hc, rfl, rfl⟩
    exact ⟨hc, rfl⟩
  · rintro ⟨ha, rfl⟩
    exact ⟨b, ha, rfl, rfl⟩

theorem mem_typePairs : (a, b) ∈ typePairs sources targets ↔ a ∈ sources ∧ b ∈ targets := by
  simp [typePairs]

end

namespace Scope

variable {s : Scope} {r : Rule} {pairs : List TypePair} {a b : String}

/-- The pairs of a rule that is expanded with success. -/
theorem mem_pairsOf (h : s.pairsOf r.head.source r.head.target = .ok pairs) :
    (a, b) ∈ pairs ↔ r.Expands s.policy a b := by
  unfold pairsOf at h
  obtain ⟨sources, hs, h⟩ := bind_eq_ok.1 h
  unfold Rule.Expands
  rw [← mem_iff_denotes hs]
  by_cases hself : r.head.target = selfTarget
  · rw [if_pos hself] at h ⊢
    cases h
    exact mem_selfPairs
  · rw [if_neg hself] at h ⊢
    obtain ⟨targets, ht, h⟩ := bind_eq_ok.1 h
    cases h
    rw [← mem_iff_denotes ht]
    exact mem_typePairs

/-- The names of a rule that is expanded with success are known. -/
theorem knows_of_pairsOf (h : s.pairsOf r.head.source r.head.target = .ok pairs) :
    s.Knows r.head.source ∧ (r.head.target ≠ selfTarget → s.Knows r.head.target) := by
  unfold pairsOf at h
  obtain ⟨sources, hs, h⟩ := bind_eq_ok.1 h
  refine ⟨knows_of_typesOf hs, fun hne => ?_⟩
  rw [if_neg hne] at h
  obtain ⟨targets, ht, -⟩ := bind_eq_ok.1 h
  exact knows_of_typesOf ht

end Scope

end PolicyDelta
