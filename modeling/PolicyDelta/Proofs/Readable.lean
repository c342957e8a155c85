import PolicyDelta.Proofs.Comparison
import PolicyDelta.Proofs.Meaning

/-! When a session is built. A rule can be read exactly if its class is known, its default type
resolves and its source and target have meanings (`Equivalence.exists_readRule_iff`); a session is
built exactly if the renamings pass the check and every rule of both policies can be read
(`Session.exists_build_iff`). -/

namespace PolicyDelta

namespace Equivalence

theorem checkRenames_eq_ok {base modified : Scope} {ps : List (String × String)} :
    checkRenames base modified ps = .ok () ↔
      ∀ p ∈ ps, p.1 ∈ base.policy.types ∧ p.2 ∈ modified.policy.types := by
  refine ⟨types_of_checkRenames, fun h => ?_⟩
  induction ps with
  | nil => rfl
  | cons p ps ih =>
    obtain ⟨⟨hold, hnew⟩, hps⟩ := List.forall_mem_cons.1 h
    simp [checkRenames, hold, hnew, ih hps]

theorem checkClass_eq_ok {s : Scope} {rule : Rule} : RuleIndex.checkClass s rule = .ok () ↔
    s.policy.classes.isEmpty ∨ rule.head.objectClass ∈ s.policy.classes := by
  unfold RuleIndex.checkClass Scope.lookupClass
  split
  · simp [*]
  · split
    · simp [*, bind, Except.bind]
      rfl
    · simp [*, bind, Except.bind]

/-- Everything that a rule of a side names is known there. -/
structure Readable (eq : Equivalence) (side : Side) (rule : Rule) : Prop where
  checked : RuleIndex.checkClass (eq.scope side) rule = .ok ()
  default : ∃ d, RuleIndex.resolvedDefault eq side rule = .ok d
  source : ∃ m, eq.Means side rule.head.source m
  target : rule.head.target ≠ selfTarget → ∃ m, eq.Means side rule.head.target m

variable {eq : Equivalence} {side : Side} {rule : Rule}

theorem readable_of_readRule {r : RuleReading} (h : eq.readRule side rule = .ok r) :
    eq.Readable side rule := by
  unfold readRule at h
  obtain ⟨_, hchecked, h⟩ := bind_eq_ok.1 h
  obtain ⟨default, hdefault, h⟩ := bind_eq_ok.1 h
  obtain ⟨_, -, h⟩ := bind_eq_ok.1 h
  obtain ⟨pairs, hpairs, -⟩ := bind_eq_ok.1 h
  obtain ⟨sources, hsources, hpairs⟩ := bind_eq_ok.1 hpairs
  refine ⟨hchecked, ⟨default, hdefault⟩, exists_means_iff.2 ⟨sources, hsources⟩, fun hne => ?_⟩
  rw [if_neg hne] at hpairs
  obtain ⟨targets, htargets, -⟩ := bind_eq_ok.1 hpairs
  exact exists_means_iff.2 ⟨targets, htargets⟩

theorem Readable.exists_coverageOf (h : eq.Readable side rule) :
    ∃ v, eq.coverageOf side rule = .ok v := by
  obtain ⟨m, hm⟩ := h.source
  unfold coverageOf
  rw [hm.endpoint]
  by_cases hself : rule.head.target = selfTarget
  · rw [hself, canonicalEndpoint_self]
    exact ⟨_, rfl⟩
  · obtain ⟨m', hm'⟩ := h.target hself
    rw [hm'.endpoint]
    exact ⟨_, rfl⟩

theorem Readable.exists_pairsOf (h : eq.Readable side rule) :
    ∃ pairs, (eq.scope side).pairsOf rule.head.source rule.head.target = .ok pairs := by
  obtain ⟨sources, hsources⟩ := exists_means_iff.1 h.source
  unfold Scope.pairsOf
  rw [hsources]
  by_cases hself : rule.head.target = selfTarget
  · exact ⟨_, by simp [hself, bind, Except.bind]; rfl⟩
  · obtain ⟨targets, htargets⟩ := exists_means_iff.1 (h.target hself)
    exact ⟨_, by simp [hself, htargets, bind, Except.bind]; rfl⟩

/-- The pairs of a rule consist of types, so there is a key at each of them. -/
theorem exists_keyOf {pairs : List TypePair}
    (h : (eq.scope side).pairsOf rule.head.source rule.head.target = .ok pairs) :
    ∀ p ∈ pairs, ∃ k, eq.keyOf side rule p.1 p.2 = .ok k := by
  intro p hp
  obtain ⟨hsource, htarget⟩ := Scope.knows_of_pairsOf h
  obtain ⟨hdenotes, hdenotes'⟩ := (Scope.mem_pairsOf h).1 hp
  have hs := hsource.types p.1 hdenotes
  have ht : p.2 ∈ (eq.scope side).policy.types := by
    by_cases hself : rule.head.target = selfTarget
    · rw [if_pos hself] at hdenotes'
      exact hdenotes' ▸ hs
    · rw [if_neg hself] at hdenotes'
      exact (htarget hself).types p.2 hdenotes'
  unfold keyOf
  rw [canonicalType_eq_ok.2 ⟨hs, rfl⟩, canonicalType_eq_ok.2 ⟨ht, rfl⟩]
  exact ⟨_, rfl⟩

theorem exists_readRule_iff : (∃ r, eq.readRule side rule = .ok r) ↔ eq.Readable side rule := by
  constructor
  · rintro ⟨r, h⟩
    exact readable_of_readRule h
  · intro h
    obtain ⟨default, hdefault⟩ := h.default
    obtain ⟨coverage, hcoverage⟩ := h.exists_coverageOf
    obtain ⟨pairs, hpairs⟩ := h.exists_pairsOf
    obtain ⟨keys, hkeys⟩ := exists_mapM_eq_ok (exists_keyOf hpairs)
    unfold readRule
    rw [h.checked, hdefault, hcoverage, hpairs]
    simp only [bind, Except.bind, hkeys]
    exact ⟨_, rfl⟩

end Equivalence

namespace Session

variable {base modified : Policy} {d : TypeDelta} {workers : Int}

theorem mem_allRules {eq : Equivalence} {side : Side} {rule : Rule} :
    (side, rule) ∈ allRules eq ↔ ∃ family, rule ∈ eq.rules family side := by
  have hfamily (family : RuleFamily) : family ∈ RuleFamily.all := by
    cases family <;> decide
  have hside (side : Side) : side ∈ Side.all := by
    cases side <;> decide
  simp only [allRules, List.mem_flatMap, List.mem_map, Prod.mk.injEq]
  constructor
  · rintro ⟨family, -, side, -, rule, hrule, rfl, rfl⟩
    exact ⟨family, hrule⟩
  · rintro ⟨family, hrule⟩
    exact ⟨family, hfamily family, side, hside side, rule, hrule, rfl, rfl⟩

/-- A session is built exactly if the renamings are of types of both policies and all rules can be
read. -/
theorem exists_build_iff : (∃ s, (build base modified d workers).1 = .ok s) ↔
    Equivalence.checkRenames base.scope modified.scope d.renames.pairs = .ok () ∧
      ∀ family side, ∀ rule ∈ (Equivalence.ofDelta base modified d).rules family side,
        (Equivalence.ofDelta base modified d).Readable side rule := by
  have hcompared : (∃ s, (build base modified d workers).1 = .ok s) ↔
      ∃ found, compared base modified d = .ok found := by
    rw [build_eq_compared]
    cases compared base modified d <;> simp [Except.map]
  rw [hcompared, exists_ok_iff, compared_unit, scanned, bind_eq_ok]
  constructor
  · rintro ⟨eq, heq, hread⟩
    obtain ⟨_, hrenames, -⟩ := bind_eq_ok.1 heq
    obtain rfl := eq_ofDelta_of_make heq
    refine ⟨hrenames, fun family side rule hrule => Equivalence.exists_readRule_iff.1 ?_⟩
    exact discard_eq_ok.1 (forM_eq_ok.1 hread (side, rule) (mem_allRules.2 ⟨family, hrule⟩))
  · rintro ⟨hrenames, hread⟩
    refine ⟨.ofDelta base modified d, ?_, forM_eq_ok.2 fun p hp => discard_eq_ok.2 ?_⟩
    · exact bind_eq_ok.2 ⟨(), hrenames, rfl⟩
    · obtain ⟨family, hrule⟩ := mem_allRules.1 hp
      exact Equivalence.exists_readRule_iff.2 (hread family p.1 p.2 hrule)

end Session

end PolicyDelta
