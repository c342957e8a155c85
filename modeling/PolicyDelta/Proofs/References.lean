import PolicyDelta.Proofs.Provenance
import PolicyDelta.Proofs.Readable

/-! References between names. A rule refers to a class, to a default type and to what stands at its
source and target, and a renaming refers to a type of each policy. Building a session succeeds
exactly if every reference is good, and fails with one that dangles otherwise
(`Session.build_references`); classifying the indexes that are built cannot fail any more. -/

namespace PolicyDelta

namespace Policy

/-- A name resolves: as a type, else as an alias of a type, else as an attribute whose members are
all types. -/
inductive Resolves (p : Policy) (n : String) : Prop where
  | typeName (hn : n ∈ p.types)
  | aliasName (hn : n ∉ p.types) (ha : p.aliases[n]? = some t) (ht : t ∈ p.types)
  | attributeName (hn : n ∉ p.types) (ha : n ∉ p.aliases) (hm : p.attributes[n]? = some ms)
    (hms : ∀ t ∈ ms, t ∈ p.types)

/-- A name names a type, by itself or as an alias. -/
def NamesType (p : Policy) (n : String) : Prop :=
  n ∈ p.types ∨ ∃ t, p.aliases[n]? = some t ∧ t ∈ p.types

/-- All references of a rule are good in a policy. -/
structure Supports (p : Policy) (r : Rule) : Prop where
  objectClass : p.classes = ∅ ∨ r.head.objectClass ∈ p.classes
  default : ∀ n, r.default? = some n → p.NamesType n
  source : p.Resolves r.head.source
  target : r.head.target = selfTarget ∨ p.Resolves r.head.target

/-- A name does not resolve; the other name and the role are those that are reported. -/
inductive Unresolved (p : Policy) (n : String) : String → NameRole → Prop where
  | unknown (hn : n ∉ p.types) (ha : n ∉ p.aliases) (hm : n ∉ p.attributes) :
    Unresolved p n n .typeOrAttribute
  | aliasName (hn : n ∉ p.types) (ha : p.aliases[n]? = some t) (ht : t ∉ p.types) :
    Unresolved p n n .type
  | member (hn : n ∉ p.types) (ha : n ∉ p.aliases) (hm : p.attributes[n]? = some ms)
    (hmem : t ∈ ms) (ht : t ∉ p.types) : Unresolved p n t .type

/-- A reference of a rule dangles in a policy, and a name is reported in a role. -/
inductive Dangles (p : Policy) (r : Rule) : String → NameRole → Prop where
  | objectClass (hsome : p.classes ≠ ∅) (h : r.head.objectClass ∉ p.classes) :
    Dangles p r r.head.objectClass .objectClass
  | default (hd : r.default? = some n) (h : ¬p.NamesType n) : Dangles p r n .type
  | source (h : p.Unresolved r.head.source n role) : Dangles p r n role
  | target (hself : r.head.target ≠ selfTarget) (h : p.Unresolved r.head.target n role) :
    Dangles p r n role

end Policy

/-! ## Good references -/

namespace Equivalence

variable {eq : Equivalence} {side : Side} {n : String} {rule : Rule}

theorem exists_means_iff_resolves :
    (∃ m, eq.Means side n m) ↔ (eq.scope side).policy.Resolves n := by
  constructor
  · rintro ⟨m, hm⟩
    cases hm with
    | typeName hn => exact .typeName hn
    | aliasName hn ha ht => exact .aliasName hn ha ht
    | attributeName hn ha hms hmem => exact .attributeName hn ha hms hmem
  · intro h
    cases h with
    | typeName hn => exact ⟨_, .typeName hn⟩
    | aliasName hn ha ht => exact ⟨_, .aliasName hn ha ht⟩
    | attributeName hn ha hms hmem => exact ⟨_, .attributeName hn ha hms hmem⟩

theorem exists_means_type_iff :
    (∃ t, eq.Means side n (.ofType t)) ↔ (eq.scope side).policy.NamesType n := by
  constructor
  · rintro ⟨t, hm⟩
    cases hm with
    | typeName hn => exact .inl hn
    | aliasName _ ha ht => exact .inr ⟨_, ha, ht⟩
  · intro h
    by_cases hn : n ∈ (eq.scope side).policy.types
    · exact ⟨_, .typeName hn⟩
    · obtain ⟨t, ha, ht⟩ := h.resolve_left hn
      exact ⟨_, .aliasName hn ha ht⟩

theorem exists_resolvedDefault_iff : (∃ o, RuleIndex.resolvedDefault eq side rule = .ok o) ↔
    ∀ n, rule.default? = some n → (eq.scope side).policy.NamesType n := by
  simp only [resolvedDefault_eq_ok, ← exists_means_type_iff]
  cases rule.default? with
  | none => exact iff_of_true ⟨none, .none⟩ (by simp)
  | some n =>
    constructor
    · rintro ⟨_, ⟨hm⟩⟩ _ ⟨⟩
      exact ⟨_, hm⟩
    · intro h
      obtain ⟨t, ht⟩ := h n rfl
      exact ⟨some t, .some ht⟩

/-- A rule can be read exactly if all its references are good. -/
theorem readable_iff_supports :
    eq.Readable side rule ↔ (eq.scope side).policy.Supports rule := by
  have hclasses : RuleIndex.checkClass (eq.scope side) rule = .ok () ↔
      (eq.scope side).policy.classes = ∅ ∨
        rule.head.objectClass ∈ (eq.scope side).policy.classes := by
    rw [checkClass_eq_ok, Std.ExtTreeMap.isEmpty_iff]
  constructor
  · intro h
    exact {
      objectClass := hclasses.1 h.checked
      default := exists_resolvedDefault_iff.1 h.default
      source := exists_means_iff_resolves.1 h.source
      target := by
        by_cases hself : rule.head.target = selfTarget
        · exact .inl hself
        · exact .inr (exists_means_iff_resolves.1 (h.target hself)) }
  · intro h
    exact {
      checked := hclasses.2 h.objectClass
      default := exists_resolvedDefault_iff.2 h.default
      source := exists_means_iff_resolves.2 h.source
      target := fun hself => exists_means_iff_resolves.2 (h.target.resolve_left hself) }

end Equivalence

/-! ## Failures -/

namespace Scope

variable {s : Scope} {n : String}

/-- A failure reports a reference that dangles in the policy of a scope. -/
def Reports (s : Scope) (Dangling : String → NameRole → Prop) (e : UnknownIdentifier) : Prop :=
  e.policy = s.id ∧ Dangling e.name e.role

theorem kindOf_fails : FailsWith (s.Reports (s.policy.Unresolved n)) (s.kindOf n) := by
  intro e he
  unfold kindOf at he
  split at he
  · cases he
  split at he
  · cases he
  split at he
  · cases he
  · rename_i hn ha hm
    cases he
    exact ⟨rfl, .unknown hn ha hm⟩

theorem lookupType_fails :
    FailsWith (fun e => e = ⟨n, .type, s.id⟩ ∧ ¬s.policy.NamesType n) (s.lookupType n) := by
  intro e he
  have hnot : ¬s.policy.NamesType n := by
    intro h
    obtain ⟨t, ht⟩ : ∃ t, s.lookupType n = .ok t := by
      simp only [lookupType_eq_ok]
      by_cases hn : n ∈ s.policy.types
      · exact ⟨n, .inl ⟨hn, rfl⟩⟩
      · obtain ⟨t, ha, ht⟩ := h.resolve_left hn
        exact ⟨t, .inr ⟨hn, ha, ht⟩⟩
    cases ht.symm.trans he
  unfold lookupType at he
  split at he
  · cases he
  split at he
  · split at he
    · cases he
    · cases he
      exact ⟨rfl, hnot⟩
  · cases he
    exact ⟨rfl, hnot⟩

/-- A name that is an alias and no type fails to be looked up if it does not stand for a type. -/
theorem lookupType_fails_of_kind {kind : NameKind} (hkind : s.kindOf n = .ok kind)
    (hk : kind ≠ .attributeName) :
    FailsWith (s.Reports (s.policy.Unresolved n)) (s.lookupType n) := by
  rintro e he
  obtain ⟨rfl, hnot⟩ := lookupType_fails e he
  obtain ⟨hn, ha⟩ := not_or.1 hnot
  rcases kindOf_cases hkind with ⟨-, hn'⟩ | ⟨-, -, ha'⟩ | ⟨hk', -⟩
  · exact absurd hn' hn
  · obtain ⟨t, ht⟩ := Option.isSome_iff_exists.1 (Std.ExtTreeMap.mem_iff_isSome_getElem?.1 ha')
    exact ⟨rfl, .aliasName hn ht fun hmem => ha ⟨t, ht, hmem⟩⟩
  · exact absurd hk' hk

theorem typesOf_fails : FailsWith (s.Reports (s.policy.Unresolved n)) (s.typesOf n) := by
  refine kindOf_fails.bind fun kind hkind => ?_
  rcases kindOf_cases hkind with ⟨rfl, -⟩ | ⟨rfl, -⟩ | ⟨rfl, hn, ha, hm⟩
  · exact (lookupType_fails_of_kind hkind (by decide)).bind fun _ _ => .of_ok rfl
  · exact (lookupType_fails_of_kind hkind (by decide)).bind fun _ _ => .of_ok rfl
  · obtain ⟨ms, hms⟩ := Option.isSome_iff_exists.1 (Std.ExtTreeMap.mem_iff_isSome_getElem?.1 hm)
    intro e he
    simp only [Std.ExtTreeMap.getD_eq_getD_getElem?, hms, Option.getD_some] at he
    split at he
    · rename_i t hfind
      cases he
      have ht : t ∉ s.policy.types := by simpa using List.find?_some hfind
      have hmem := Std.ExtTreeSet.mem_toList.1 (List.mem_of_find?_eq_some hfind)
      exact ⟨rfl, .member hn ha hms hmem ht⟩
    · cases he

variable {r : Rule}

theorem pairsOf_fails :
    FailsWith (s.Reports (s.policy.Dangles r)) (s.pairsOf r.head.source r.head.target) := by
  refine (typesOf_fails.imp fun e he => ⟨he.1, .source he.2⟩).bind fun sources _ => ?_
  by_cases hself : r.head.target = selfTarget
  · exact .of_ok (by rw [if_pos hself]; rfl)
  · rw [if_neg hself]
    exact (typesOf_fails.imp fun e he => ⟨he.1, .target hself he.2⟩).bind fun _ _ => .of_ok rfl

theorem checkClass_fails :
    FailsWith (s.Reports (s.policy.Dangles r)) (RuleIndex.checkClass s r) := by
  intro e he
  unfold RuleIndex.checkClass lookupClass at he
  split at he
  · cases he
  · rename_i hsome
    rw [Std.ExtTreeMap.isEmpty_iff] at hsome
    split at he
    · cases he
    · rename_i hclass
      cases he
      exact ⟨rfl, .objectClass hsome hclass⟩

end Scope

namespace Equivalence

variable {eq : Equivalence} {side : Side} {n : String} {rule : Rule}

/-- What a name is looked up to is a type, so it has a canonical name. -/
theorem canonicalType_of_lookupType {t : String} (h : (eq.scope side).lookupType n = .ok t) :
    eq.canonicalType side t = .ok (eq.canonicalName side t) := by
  rcases Scope.lookupType_eq_ok.1 h with ⟨hn, rfl⟩ | ⟨-, -, ht⟩
  · exact canonicalType_eq_ok.2 ⟨hn, rfl⟩
  · exact canonicalType_eq_ok.2 ⟨ht, rfl⟩

theorem canonicalEndpoint_fails :
    FailsWith ((eq.scope side).Reports ((eq.scope side).policy.Unresolved n))
      (eq.canonicalEndpoint side n) := by
  unfold canonicalEndpoint
  split
  · exact .of_ok rfl
  refine Scope.kindOf_fails.bind fun kind hkind => ?_
  have htype (hk : kind ≠ .attributeName) :
      FailsWith ((eq.scope side).Reports ((eq.scope side).policy.Unresolved n))
        ((eq.scope side).lookupType n >>= eq.canonicalType side) := by
    exact (Scope.lookupType_fails_of_kind hkind hk).bind fun t ht =>
      .of_ok (canonicalType_of_lookupType ht)
  cases kind with
  | attributeName => exact .of_ok rfl
  | typeName => exact htype (by decide)
  | aliasName => exact htype (by decide)

theorem resolvedDefault_fails :
    FailsWith ((eq.scope side).Reports ((eq.scope side).policy.Dangles rule))
      (RuleIndex.resolvedDefault eq side rule) := by
  unfold RuleIndex.resolvedDefault
  cases hd : rule.default? with
  | none => exact .of_ok rfl
  | some n =>
    refine FailsWith.bind (Scope.lookupType_fails.imp ?_) fun t ht => ?_
    · rintro e ⟨rfl, hnot⟩
      exact ⟨rfl, .default hd hnot⟩
    · exact FailsWith.map (.of_ok (canonicalType_of_lookupType ht))

theorem coverageOf_fails :
    FailsWith ((eq.scope side).Reports ((eq.scope side).policy.Dangles rule))
      (eq.coverageOf side rule) := by
  refine (canonicalEndpoint_fails.imp fun e he => ⟨he.1, .source he.2⟩).bind fun source _ => ?_
  by_cases hself : rule.head.target = selfTarget
  · exact .of_ok (by rw [hself, canonicalEndpoint_self]; rfl)
  · exact (canonicalEndpoint_fails.imp fun e he => ⟨he.1, .target hself he.2⟩).bind fun _ _ =>
      .of_ok rfl

theorem readRule_fails :
    FailsWith ((eq.scope side).Reports ((eq.scope side).policy.Dangles rule))
      (eq.readRule side rule) := by
  unfold readRule
  refine Scope.checkClass_fails.bind fun _ _ => resolvedDefault_fails.bind fun _ _ => ?_
  refine coverageOf_fails.bind fun _ _ => Scope.pairsOf_fails.bind fun pairs hpairs => ?_
  -- There is a key at each pair of types, so nothing fails after the expansion.
  obtain ⟨keys, hkeys⟩ := exists_mapM_eq_ok (exists_keyOf hpairs)
  exact (FailsWith.of_ok hkeys).bind fun _ _ => .of_ok rfl

end Equivalence

namespace Session

variable {base modified : Policy} {d : TypeDelta} {workers : Int}

/-- All references of both policies and of the renamings are good. -/
structure References (base modified : Policy) (d : TypeDelta) : Prop where
  renames : ∀ p ∈ d.renames.pairs, p.1 ∈ base.types ∧ p.2 ∈ modified.types
  rules : ∀ p ∈ [base, modified], ∀ family, ∀ rule ∈ p.rules family, p.Supports rule

/-- The failure reports a reference of a renaming or of a rule that dangles. -/
inductive Dangling (base modified : Policy) (d : TypeDelta) : UnknownIdentifier → Prop where
  | oldName (h : (old, new) ∈ d.renames.pairs) (hold : old ∉ base.types) :
    Dangling base modified d ⟨old, .type, base.id⟩
  | newName (h : (old, new) ∈ d.renames.pairs) (hnew : new ∉ modified.types) :
    Dangling base modified d ⟨new, .type, modified.id⟩
  | rule {p : Policy} (hp : p ∈ [base, modified]) (hrule : rule ∈ p.rules family)
    (h : p.Dangles rule n role) : Dangling base modified d ⟨n, role, p.id⟩

theorem policy_mem (side : Side) :
    ((Equivalence.ofDelta base modified d).scope side).policy ∈ [base, modified] := by
  cases side with
  | base => exact List.mem_cons_self
  | modified => exact List.mem_cons_of_mem _ List.mem_cons_self

theorem references_iff : References base modified d ↔
    Equivalence.checkRenames base.scope modified.scope d.renames.pairs = .ok () ∧
      ∀ family side, ∀ rule ∈ (Equivalence.ofDelta base modified d).rules family side,
        (Equivalence.ofDelta base modified d).Readable side rule := by
  simp only [Equivalence.checkRenames_eq_ok, Equivalence.readable_iff_supports]
  constructor
  · intro h
    exact ⟨h.renames, fun family side => h.rules _ (policy_mem side) family⟩
  · rintro ⟨hrenames, hrules⟩
    refine ⟨hrenames, List.forall_mem_cons.2 ⟨fun family => hrules family .base, ?_⟩⟩
    exact List.forall_mem_singleton.2 fun family => hrules family .modified

theorem checkRenames_fails {ps : List (String × String)} (hps : ∀ p ∈ ps, p ∈ d.renames.pairs) :
    FailsWith (Dangling base modified d)
      (Equivalence.checkRenames base.scope modified.scope ps) := by
  induction ps with
  | nil => exact .of_ok rfl
  | cons p ps ih =>
    obtain ⟨hp, hps⟩ := List.forall_mem_cons.1 hps
    intro e he
    rw [Equivalence.checkRenames] at he
    split at he
    · rename_i hold
      cases he
      exact .oldName hp hold
    split at he
    · rename_i hnew
      cases he
      exact .newName hp hnew
    · exact ih hps e he

theorem scanned_fails : FailsWith (Dangling base modified d) (scanned base modified d) := by
  have hmake : FailsWith (Dangling base modified d)
      (Equivalence.make base.scope modified.scope d) :=
    (checkRenames_fails fun _ => id).bind fun _ _ => .of_ok rfl
  refine hmake.bind fun eq heq => .forM fun p hp => ?_
  obtain rfl := eq_ofDelta_of_make heq
  obtain ⟨family, hrule⟩ := mem_allRules.1 hp
  refine Equivalence.readRule_fails.discard.imp ?_
  rintro ⟨name, role, id⟩ ⟨rfl, hdangles⟩
  rw [Scope.id_eq]
  exact .rule (policy_mem p.1) hrule hdangles

theorem build_fails :
    FailsWith (Dangling base modified d) (build base modified d workers).1 := by
  intro e he
  refine scanned_fails e ?_
  rw [build_eq_compared] at he
  rw [← compared_unit]
  cases hcompared : compared base modified d with
  | error e' =>
    rw [hcompared] at he
    cases he
    rfl
  | ok found =>
    rw [hcompared] at he
    cases he

end Session

/-! ## Nothing fails after indexing -/

/-- An index is built on a side, among whatever expansions of the policies are remembered. -/
def RuleIndex.Builds (eq : Equivalence) (family : RuleFamily) (side : Side) (workers : Int)
    (ix : RuleIndex) : Prop :=
  ∃ w w', Workspace.Faithful eq.scope w ∧ (build eq family side workers).run.run w = (.ok ix, w')

theorem RuleIndex.Builds.indexes {eq : Equivalence} {family : RuleFamily} {side : Side}
    {workers : Int} {ix : RuleIndex} (h : Builds eq family side workers ix) :
    ix.Indexes eq family side := by
  obtain ⟨w, w', hw, hrun⟩ := h
  obtain ⟨w'', hread, -⟩ := build_yields eq family side workers w hw
  exact indexes_of_read (Prod.mk.inj (hread.symm.trans hrun)).1

/-- A classifier answers everything that it is asked: whether there is a change at a key, through
which types the rules of an entry cover it, and for all changes at once. -/
structure Classifier.Answers (c : Classifier) : Prop where
  classify : ∀ k ∈ c.keys, ∃ found, c.classify k = .ok found
  membershipTypes : ∀ side k e, (c.index side).get? k = some e → ∀ rule ∈ e.rules,
    ∃ types, c.membershipTypes side rule k = .ok types
  changes : ∃ changes, c.changes = .ok changes

theorem Classifier.Ready.answers {c : Classifier} {family : RuleFamily} (h : c.Ready family) :
    c.Answers where
  classify k hk := by
    obtain ⟨found, hfound, -⟩ := h.changeAt k
    have hpresent : ((c.base.get? k).isNone && (c.modified.get? k).isNone) = false := by
      rcases mem_keys.1 hk with hk | hk
      · rw [Option.isNone_eq_false_iff.2 hk, Bool.false_and]
      · rw [Option.isNone_eq_false_iff.2 hk, Bool.and_false]
    exact ⟨found, by unfold Classifier.classify; rw [hpresent, hfound]; rfl⟩
  membershipTypes side k e he rule hrule := by
    obtain ⟨r, hr⟩ := entryRead_of_indexes (h.index side) he rule hrule
    obtain ⟨types, htypes, -⟩ := membershipTypes_spec hr k
    exact ⟨types, htypes⟩
  changes := by
    obtain ⟨changes, hchanges, -⟩ := h.changes_spec
    exact ⟨changes, hchanges⟩

namespace Session

theorem exists_builds {base modified : Policy} {d : TypeDelta} (h : References base modified d)
    (family : RuleFamily) (side : Side) (workers : Int) :
    ∃ ix, RuleIndex.Builds (.ofDelta base modified d) family side workers ix := by
  have hread (rule : Rule)
      (hrule : rule ∈ (Equivalence.ofDelta base modified d).rules family side) :
      ∃ r, (Equivalence.ofDelta base modified d).readRule side rule = .ok r :=
    Equivalence.exists_readRule_iff.2 ((references_iff.1 h).2 family side rule hrule)
  obtain ⟨rs, hrs⟩ := exists_mapM_eq_ok hread
  obtain ⟨w', hrun, -⟩ := RuleIndex.build_yields (.ofDelta base modified d) family side workers {}
    (Workspace.faithful_empty _)
  rw [RuleIndex.read, hrs] at hrun
  exact ⟨_, {}, w', Workspace.faithful_empty _, hrun⟩

/-- Building a session succeeds exactly if no reference dangles, and otherwise it fails with one
that does. Once the indexes of both sides are built, they can be matched and classified. -/
theorem build_references (base modified : Policy) (d : TypeDelta) (workers : Int) :
    ((∃ s, (build base modified d workers).1 = .ok s) ↔ References base modified d) ∧
    (∀ e, (build base modified d workers).1 = .error e → Dangling base modified d e) ∧
    ∀ family (ix : Side → RuleIndex), (∀ side,
        RuleIndex.Builds (.ofDelta base modified d) family side workers (ix side)) →
      ∃ c, Classifier.make (ix .base) (ix .modified) (.ofDelta base modified d) d = .ok c ∧
        c.Answers := by
  refine ⟨exists_build_iff.trans references_iff.symm, build_fails, fun family ix h => ?_⟩
  have hindexes (side : Side) := (h side).indexes
  have hready : Classifier.Ready ⟨ix .base, ix .modified, .ofDelta base modified d, d⟩ family :=
    ⟨hindexes .base, hindexes .modified⟩
  have hfamily : (ix .base).family = (ix .modified).family :=
    (hindexes .base).family_eq.trans (hindexes .modified).family_eq.symm
  exact ⟨_, by rw [Classifier.make, if_pos hfamily], hready.answers⟩

end Session

/-- The log is a file, but no type. -/
def Sample.withoutLog : Policy := { Sample.before with types := .ofList ["app", "tmp"] }

theorem Session.build_references_sample :
    (∃ e, (build Sample.withoutLog Sample.after Sample.delta 2).1 = .error e ∧ e.name = "log" ∧
      Dangling Sample.withoutLog Sample.after Sample.delta e) ∧
    References Sample.before Sample.after Sample.delta ∧
    ∃ (ix : Side → RuleIndex) (c : Classifier), (∀ side, RuleIndex.Builds
        (.ofDelta Sample.before Sample.after Sample.delta) .te side 2 (ix side)) ∧
      Classifier.make (ix .base) (ix .modified)
        (.ofDelta Sample.before Sample.after Sample.delta) Sample.delta = .ok c ∧ c.Answers := by
  obtain ⟨s, hs, -⟩ := Sample.exists_session
  have hgood : References Sample.before Sample.after Sample.delta :=
    (build_references _ _ _ 2).1.1 ⟨s, hs⟩
  have hname : (match (build Sample.withoutLog Sample.after Sample.delta 2).1 with
      | .error e => e.name
      | .ok _ => "") = "log" := by
    decide +kernel
  refine ⟨?_, hgood, ?_⟩
  · cases he : (build Sample.withoutLog Sample.after Sample.delta 2).1 with
    | error e =>
      rw [he] at hname
      exact ⟨e, rfl, hname, (build_references _ _ _ 2).2.1 e he⟩
    | ok s =>
      rw [he] at hname
      exact absurd (show "" = "log" from hname) (by decide)
  · obtain ⟨ix, hix⟩ := Classical.axiomOfChoice fun side => exists_builds hgood .te side 2
    obtain ⟨c, hc, hanswers⟩ := (build_references _ _ _ 2).2.2 .te ix hix
    exact ⟨ix, c, hix, hc, hanswers⟩

end PolicyDelta
