import PolicyDelta.Proofs.Alike

/-! Identities of policies. Look-ups mention the identity of a policy in their failures only, so two
comparisons of policies that differ in nothing else go side by side: each step has the same answer
in both, or it fails in both at the same name of the same side. An identity that both policies share
does not mix them up either, for what is remembered on a side is always of its own policy. -/

namespace PolicyDelta

namespace Equivalence

/-- Two failures report one name in one role, each in its policy of the same side. -/
inductive Counterparts (eq eq' : Equivalence) : UnknownIdentifier → UnknownIdentifier → Prop where
  | report (side : Side) (name : String) (role : NameRole) :
    Counterparts eq eq' ⟨name, role, (eq.scope side).id⟩ ⟨name, role, (eq'.scope side).id⟩

/-- Both comparisons look up the same names on each side. -/
def SameLookups (eq eq' : Equivalence) : Prop := ∀ side, SameNames eq side eq' side

variable {eq eq' : Equivalence} {side : Side}

/-! ## Looking up names -/

theorem SameLookups.kindOf (h : SameLookups eq eq') (n : String) :
    SameUpTo (Counterparts eq eq') ((eq.scope side).kindOf n) ((eq'.scope side).kindOf n) := by
  simp only [Scope.kindOf, (h side).types, (h side).aliases, (h side).attributes]
  split
  · exact .ok _
  split
  · exact .ok _
  split
  · exact .ok _
  · exact .error (.report side n .typeOrAttribute)

theorem SameLookups.lookupType (h : SameLookups eq eq') (n : String) :
    SameUpTo (Counterparts eq eq') ((eq.scope side).lookupType n)
      ((eq'.scope side).lookupType n) := by
  simp only [Scope.lookupType, (h side).types, (h side).aliases]
  split
  · exact .ok n
  split
  · split
    · exact .ok _
    · exact .error (.report side n .type)
  · exact .error (.report side n .type)

theorem SameLookups.checkClass (h : SameLookups eq eq') (rule : Rule) :
    SameUpTo (Counterparts eq eq') (RuleIndex.checkClass (eq.scope side) rule)
      (RuleIndex.checkClass (eq'.scope side) rule) := by
  simp only [RuleIndex.checkClass, Scope.lookupClass, (h side).classes]
  split
  · exact .ok ()
  split
  · exact .ok ()
  · exact .error (.report side rule.head.objectClass .objectClass)

theorem SameLookups.typesOf (h : SameLookups eq eq') (n : String) :
    SameUpTo (Counterparts eq eq') ((eq.scope side).typesOf n) ((eq'.scope side).typesOf n) := by
  refine (h.kindOf n).bind fun kind => ?_
  cases kind with
  | typeName => exact (h.lookupType n).bind fun t => .ok {t}
  | aliasName => exact (h.lookupType n).bind fun t => .ok {t}
  | attributeName =>
    simp only [(h side).types, (h side).attributes]
    split
    · exact .error (.report side _ .type)
    · exact .ok _

theorem SameLookups.pairsOf (h : SameLookups eq eq') (source target : String) :
    SameUpTo (Counterparts eq eq') ((eq.scope side).pairsOf source target)
      ((eq'.scope side).pairsOf source target) := by
  refine (h.typesOf source).bind fun sources => ?_
  split
  · exact .ok _
  · exact (h.typesOf target).bind fun targets => .ok _

/-! ## Canonical names -/

theorem canonicalType_eq (eq : Equivalence) (side : Side) (t : String) :
    eq.canonicalType side t = if t ∈ (eq.scope side).policy.types
      then .ok (eq.canonicalName side t) else .error ⟨t, .type, (eq.scope side).id⟩ := by
  cases side <;> rfl

theorem SameLookups.canonicalType (h : SameLookups eq eq') (t : String) :
    SameUpTo (Counterparts eq eq') (eq.canonicalType side t) (eq'.canonicalType side t) := by
  rw [canonicalType_eq, canonicalType_eq, (h side).types, (h side).canonicalName]
  split
  · exact .ok _
  · exact .error (.report side t .type)

theorem SameLookups.canonicalEndpoint (h : SameLookups eq eq') (n : String) :
    SameUpTo (Counterparts eq eq') (eq.canonicalEndpoint side n)
      (eq'.canonicalEndpoint side n) := by
  unfold Equivalence.canonicalEndpoint
  split
  · exact .ok selfTarget
  refine (h.kindOf n).bind fun kind => ?_
  cases kind with
  | typeName => exact (h.lookupType n).bind h.canonicalType
  | aliasName => exact (h.lookupType n).bind h.canonicalType
  | attributeName => exact .ok ("@" ++ n)

theorem SameLookups.resolvedDefault (h : SameLookups eq eq') (rule : Rule) :
    SameUpTo (Counterparts eq eq') (RuleIndex.resolvedDefault eq side rule)
      (RuleIndex.resolvedDefault eq' side rule) := by
  unfold RuleIndex.resolvedDefault
  split
  · exact .ok none
  · exact (h.lookupType _).bind fun t => (h.canonicalType t).map some

theorem SameLookups.coverageOf (h : SameLookups eq eq') (rule : Rule) :
    SameUpTo (Counterparts eq eq') (eq.coverageOf side rule) (eq'.coverageOf side rule) := by
  unfold Equivalence.coverageOf
  rw [(h side).canonicalCond]
  refine (h.canonicalEndpoint _).bind fun source => ?_
  exact (h.canonicalEndpoint _).bind fun target => .ok _

theorem SameLookups.keyOf (h : SameLookups eq eq') (rule : Rule) (source target : String) :
    SameUpTo (Counterparts eq eq') (eq.keyOf side rule source target)
      (eq'.keyOf side rule source target) := by
  unfold Equivalence.keyOf
  rw [(h side).canonicalCond]
  exact (h.canonicalType source).bind fun _ => (h.canonicalType target).bind fun _ => .ok _

/-! ## Rules and indexes -/

theorem SameLookups.readRule (h : SameLookups eq eq') (rule : Rule) :
    SameUpTo (Counterparts eq eq') (eq.readRule side rule) (eq'.readRule side rule) := by
  refine (h.checkClass rule).bind fun _ => (h.resolvedDefault rule).bind fun default => ?_
  refine (h.coverageOf rule).bind fun coverage => (h.pairsOf _ _).bind fun pairs => ?_
  exact (SameUpTo.mapM (fun p => h.keyOf rule p.1 p.2) pairs).bind fun keys => .ok _

theorem SameLookups.read (h : SameLookups eq eq')
    (hrules : ∀ family side, eq.rules family side = eq'.rules family side) (family : RuleFamily) :
    SameUpTo (Counterparts eq eq') (RuleIndex.read eq family side)
      (RuleIndex.read eq' family side) := by
  unfold RuleIndex.read
  rw [hrules]
  exact (SameUpTo.mapM h.readRule _).map _

end Equivalence

/-! ## Classification -/

namespace Classifier

open PolicyDelta.Equivalence

variable {ix ix' : RuleIndex} {eq eq' : Equivalence} {d : TypeDelta}

theorem freshness_same (h : SameLookups eq eq') (side : Side) (n t : String) :
    SameUpTo (Counterparts eq eq') (freshness ⟨ix, ix', eq, d⟩ side n t)
      (freshness ⟨ix, ix', eq', d⟩ side n t) := by
  have hfresh : freshTypes ⟨ix, ix', eq, d⟩ side = freshTypes ⟨ix, ix', eq', d⟩ side := by
    cases side <;> rfl
  have hmembers : freshMembers ⟨ix, ix', eq, d⟩ n side = freshMembers ⟨ix, ix', eq', d⟩ n side := by
    cases side <;> rfl
  unfold freshness
  rw [hfresh]
  split
  · exact .ok _
  refine (h.kindOf n).bind fun kind => ?_
  cases kind with
  | typeName => exact .ok _
  | aliasName => exact .ok _
  | attributeName =>
    rw [hmembers]
    exact .ok _

theorem membershipTypes_same (h : SameLookups eq eq') (side : Side) (rule : Rule) (k : RuleKey) :
    SameUpTo (Counterparts eq eq') (membershipTypes ⟨ix, ix', eq, d⟩ side rule k)
      (membershipTypes ⟨ix, ix', eq', d⟩ side rule k) := by
  unfold membershipTypes
  refine SameUpTo.bind (.mapM (fun p => ?_) _) fun found => ?_
  · exact (freshness_same h side p.1 p.2).bind fun f => .ok (p.2, f)
  dsimp only
  split
  · exact .ok _
  split
  · exact .ok _
  · exact (h.coverageOf rule).bind fun coverage => .ok _

theorem typesOfEvery_same (h : SameLookups eq eq') (side : Side) (k : RuleKey)
    (rules : List Rule) :
    SameUpTo (Counterparts eq eq') (typesOfEvery ⟨ix, ix', eq, d⟩ side k rules)
      (typesOfEvery ⟨ix, ix', eq', d⟩ side k rules) := by
  induction rules with
  | nil => exact .ok _
  | cons rule rules ih =>
    refine (membershipTypes_same h side rule k).bind fun types => ?_
    split
    · exact .ok none
    · exact ih.bind fun rest => .ok _

theorem typesOfSome_same (h : SameLookups eq eq') (side : Side) (k : RuleKey)
    (rules : List Rule) :
    SameUpTo (Counterparts eq eq') (typesOfSome ⟨ix, ix', eq, d⟩ side k rules)
      (typesOfSome ⟨ix, ix', eq', d⟩ side k rules) := by
  induction rules with
  | nil => exact .ok _
  | cons rule rules ih =>
    exact (membershipTypes_same h side rule k).bind fun types => ih.bind fun rest => .ok _

theorem changeAt_same (h : SameLookups eq eq') (k : RuleKey) :
    SameUpTo (Counterparts eq eq') (changeAt ⟨ix, ix', eq, d⟩ k)
      (changeAt ⟨ix, ix', eq', d⟩ k) := by
  have hevery (side : Side) (e : IndexEntry) :
      SameUpTo (Counterparts eq eq') (membershipOfEvery ⟨ix, ix', eq, d⟩ side e)
        (membershipOfEvery ⟨ix, ix', eq', d⟩ side e) :=
    (typesOfEvery_same h side e.key _).bind fun types => .ok _
  unfold changeAt
  cases ix.get? k with
  | none =>
    cases ix'.get? k with
    | none => exact .ok none
    | some m => exact (hevery .modified m).bind fun types => .ok _
  | some b =>
    cases ix'.get? k with
    | none => exact (hevery .base b).bind fun types => .ok _
    | some m =>
      refine .ite (.ok _) ((typesOfSome_same h .modified m.key _).bind fun gained => ?_)
      exact .ite (.ok _) ((typesOfSome_same h .base b.key _).bind fun lost => .ite (.ok _) (.ok _))

theorem changes_same (h : SameLookups eq eq') :
    SameUpTo (Counterparts eq eq') (changes ⟨ix, ix', eq, d⟩) (changes ⟨ix, ix', eq', d⟩) :=
  (SameUpTo.mapM (changeAt_same h) _).bind fun _ => .ok _

end Classifier

/-! ## Sessions -/

namespace Session

open PolicyDelta.Equivalence

theorem differencesOf_same {eq eq' : Equivalence} (h : SameLookups eq eq')
    (hrules : ∀ family side, eq.rules family side = eq'.rules family side) (d : TypeDelta) :
    SameUpTo (Counterparts eq eq') (differencesOf eq d) (differencesOf eq' d) := by
  refine (h.read hrules .av).bind fun avBase => (h.read hrules .av).bind fun avModified => ?_
  refine (h.read hrules .te).bind fun teBase => (h.read hrules .te).bind fun teModified => ?_
  exact (Classifier.changes_same h).bind fun _ => (Classifier.changes_same h).bind fun _ => .ok _

end Session

/-- The policy with another identity, or with none. -/
def Policy.withIdentity (p : Policy) (identity : Option String) : Policy :=
  { p with identity }

namespace Session

open PolicyDelta.Equivalence

variable {base modified : Policy} {d : TypeDelta} {i j : Option String}

theorem sameLookups_withIdentity : SameLookups (.ofDelta base modified d)
    (.ofDelta (base.withIdentity i) (modified.withIdentity j) d) := by
  intro side
  cases side <;> exact ⟨rfl, rfl, rfl, rfl, rfl, rfl⟩

theorem rules_withIdentity (family : RuleFamily) (side : Side) :
    (ofDelta base modified d).rules family side =
      (ofDelta (base.withIdentity i) (modified.withIdentity j) d).rules family side := by
  cases side <;> cases family <;> rfl

theorem checkRenames_same (ps : List (String × String)) :
    SameUpTo (Counterparts (.ofDelta base modified d)
        (.ofDelta (base.withIdentity i) (modified.withIdentity j) d))
      (checkRenames base.scope modified.scope ps)
      (checkRenames (base.withIdentity i).scope (modified.withIdentity j).scope ps) := by
  induction ps with
  | nil => exact .ok ()
  | cons p ps ih =>
    rw [checkRenames, checkRenames]
    refine .ite (.error (.report .base p.1 .type)) ?_
    exact .ite (.error (.report .modified p.2 .type)) ih

theorem compared_same :
    SameUpTo (Counterparts (.ofDelta base modified d)
        (.ofDelta (base.withIdentity i) (modified.withIdentity j) d))
      (compared base modified d)
      (compared (base.withIdentity i) (modified.withIdentity j) d) := by
  simp only [compared, Equivalence.make, bind_assoc, pure_bind]
  exact (checkRenames_same _).bind fun _ =>
    differencesOf_same sameLookups_withIdentity rules_withIdentity d

/-- Identities do not show in the outcome. With other identities of the policies, equal or not, a
session is built with the same differences, or building fails at the same name in the same role; and
whatever is remembered on a side while it is built is what the policy of this side says. -/
theorem build_withIdentity (base modified : Policy) (d : TypeDelta) (i j : Option String)
    (workers workers' : Int) :
    (∀ s, (build base modified d workers).1 = .ok s → ∃ s',
      (build (base.withIdentity i) (modified.withIdentity j) d workers').1 = .ok s' ∧
        s'.result? = s.result?) ∧
    (∀ e, (build base modified d workers).1 = .error e → ∃ e',
      (build (base.withIdentity i) (modified.withIdentity j) d workers').1 = .error e' ∧
        Counterparts (.ofDelta base modified d)
          (.ofDelta (base.withIdentity i) (modified.withIdentity j) d) e e') ∧
    Workspace.Faithful (Equivalence.ofDelta (base.withIdentity i) (modified.withIdentity j) d).scope
      ((differences (base.withIdentity i).scope (modified.withIdentity j).scope d
        workers').run.run {}).2 := by
  refine ⟨fun s hs => ?_, fun e he => ?_, ?_⟩
  · rw [build_eq_compared] at hs ⊢
    obtain ⟨found, hfound, rfl⟩ := map_eq_ok.1 hs
    rw [compared_same.eq_ok hfound]
    exact ⟨_, rfl, rfl⟩
  · rw [build_eq_compared] at he ⊢
    obtain ⟨e', he', hreport⟩ := compared_same.exists_error (map_eq_error.1 he)
    rw [he']
    exact ⟨e', rfl, hreport⟩
  · obtain ⟨w, hrun, hfaithful⟩ := differences_yields (base.withIdentity i)
      (modified.withIdentity j) d workers' {} (Workspace.faithful_empty _)
    rw [hrun]
    exact hfaithful

/-- Two different policies of one identity are compared like policies of two. -/
theorem build_withIdentity_sample : ∃ s s',
    (build Sample.before Sample.after Sample.delta 2).1 = .ok s ∧
    (build (Sample.before.withIdentity (some "policy")) (Sample.after.withIdentity (some "policy"))
      Sample.delta 2).1 = .ok s' ∧
    s'.result? = s.result? ∧ s.isOpen := by
  obtain ⟨s, hs, -⟩ := Sample.exists_session
  obtain ⟨hagree, -⟩ := build_withIdentity Sample.before Sample.after Sample.delta
    (some "policy") (some "policy") 2 2
  obtain ⟨s', hs', hresult⟩ := hagree s hs
  refine ⟨s, s', hs, hs', hresult, ?_⟩
  rw [build_eq_compared] at hs
  obtain ⟨found, -, rfl⟩ := map_eq_ok.1 hs
  rfl

end Session

end PolicyDelta
