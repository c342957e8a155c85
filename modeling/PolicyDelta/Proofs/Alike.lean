import PolicyDelta.Proofs.Verdict

/-! Rules that say the same. Rules of two sides, of one comparison or of two, are alike if their
names have the same meanings and all else but the permissions is the same in canonical form. A side
matches another if every rule has its like there and back, and so has each of its permissions; then
both have the same standings (`Equivalence.Matches.stands`). Comparisons whose sides match are both
built, and the sessions agree (`Session.exists_agreeing`). -/

namespace PolicyDelta

theorem Classifier.mem_endpoints {rule : Rule} {k : RuleKey} {n t : String} :
    (n, t) ∈ endpoints rule k ↔ n = rule.head.source ∧ t = k.source ∨
      rule.head.target ≠ selfTarget ∧ n = rule.head.target ∧ t = k.target := by
  by_cases hself : rule.head.target = selfTarget
  · simp [endpoints, hself]
  · simp [endpoints, hself]

namespace Equivalence

/-- Two names of sides have one meaning. -/
structure SameName (eq : Equivalence) (side : Side) (n : String) (eq' : Equivalence)
    (side' : Side) (n' : String) : Prop where
  self_iff : n = selfTarget ↔ n' = selfTarget
  means : ∃ m, eq.Means side n m ∧ eq'.Means side' n' m

/-- Two rules of sides say the same, up to the permissions. -/
structure Alike (eq : Equivalence) (side : Side) (rule : Rule) (eq' : Equivalence) (side' : Side)
    (rule' : Rule) : Prop where
  checked : RuleIndex.checkClass (eq.scope side) rule = .ok ()
  checked' : RuleIndex.checkClass (eq'.scope side') rule' = .ok ()
  default : ∃ t, RuleIndex.resolvedDefault eq side rule = .ok t ∧
    RuleIndex.resolvedDefault eq' side' rule' = .ok t
  frame : eq.frameOf side rule = eq'.frameOf side' rule'
  source : SameName eq side rule.head.source eq' side' rule'.head.source
  target : rule.head.target = selfTarget ∧ rule'.head.target = selfTarget ∨
    rule.head.target ≠ selfTarget ∧ SameName eq side rule.head.target eq' side' rule'.head.target

variable {eq eq' eq'' : Equivalence} {d d' : TypeDelta} {side side' side'' : Side}
  {n n' n'' t : String} {rule rule' rule'' : Rule} {k : RuleKey} {family : RuleFamily}

/-! ## Names of one meaning -/

theorem SameName.symm (h : SameName eq side n eq' side' n') : SameName eq' side' n' eq side n := by
  obtain ⟨m, hm, hm'⟩ := h.means
  exact ⟨h.self_iff.symm, m, hm', hm⟩

theorem SameName.trans (h : SameName eq side n eq' side' n')
    (h' : SameName eq' side' n' eq'' side'' n'') : SameName eq side n eq'' side'' n'' := by
  obtain ⟨m, hm, hm'⟩ := h.means
  obtain ⟨m', hm'', hm'''⟩ := h'.means
  obtain rfl := hm'.unique hm''
  exact ⟨h.self_iff.trans h'.self_iff, m, hm, hm'''⟩

theorem SameName.reaches (h : SameName eq side n eq' side' n') :
    eq.Reaches side n t ↔ eq'.Reaches side' n' t := by
  obtain ⟨m, hm, hm'⟩ := h.means
  rw [hm.reaches, hm'.reaches]

theorem SameName.canonicalEndpoint (h : SameName eq side n eq' side' n') :
    eq.canonicalEndpoint side n = eq'.canonicalEndpoint side' n' := by
  obtain ⟨m, hm, hm'⟩ := h.means
  rw [hm.endpoint, hm'.endpoint]
  simp only [h.self_iff]

theorem SameName.attribute (h : SameName eq side n eq' side' n')
    (hkind : (eq.scope side).kindOf n = .ok .attributeName) :
    (eq'.scope side').kindOf n' = .ok .attributeName ∧ n' = n := by
  obtain ⟨m, hm, hm'⟩ := h.means
  obtain ⟨ms, rfl⟩ := hm.kindOf_eq_attribute.1 hkind
  obtain rfl := hm'.eq_of_attribute
  exact ⟨hm'.kindOf_eq_attribute.2 ⟨ms, rfl⟩, rfl⟩

/-! ## Alike rules -/

theorem Alike.symm (h : Alike eq side rule eq' side' rule') :
    Alike eq' side' rule' eq side rule where
  checked := h.checked'
  checked' := h.checked
  default := by
    obtain ⟨t, ht, ht'⟩ := h.default
    exact ⟨t, ht', ht⟩
  frame := h.frame.symm
  source := h.source.symm
  target := by
    rcases h.target with ⟨hself, hself'⟩ | ⟨hself, hname⟩
    · exact .inl ⟨hself', hself⟩
    · exact .inr ⟨mt hname.self_iff.2 hself, hname.symm⟩

theorem Alike.trans (h : Alike eq side rule eq' side' rule')
    (h' : Alike eq' side' rule' eq'' side'' rule'') : Alike eq side rule eq'' side'' rule'' where
  checked := h.checked
  checked' := h'.checked'
  default := by
    obtain ⟨t, ht, ht'⟩ := h.default
    obtain ⟨u, hu, hu'⟩ := h'.default
    obtain rfl := Except.ok.inj (ht'.symm.trans hu)
    exact ⟨t, ht, hu'⟩
  frame := h.frame.trans h'.frame
  source := h.source.trans h'.source
  target := by
    rcases h.target with ⟨hself, hself'⟩ | ⟨hself, hname⟩
    · rcases h'.target with ⟨-, hself''⟩ | ⟨hne, -⟩
      · exact .inl ⟨hself, hself''⟩
      · exact absurd hself' hne
    · rcases h'.target with ⟨hself', -⟩ | ⟨-, hname'⟩
      · exact absurd (hname.self_iff.2 hself') hself
      · exact .inr ⟨hself, hname.trans hname'⟩

theorem Alike.readable (h : Alike eq side rule eq' side' rule') : eq.Readable side rule where
  checked := h.checked
  default := by
    obtain ⟨t, ht, -⟩ := h.default
    exact ⟨t, ht⟩
  source := by
    obtain ⟨m, hm, -⟩ := h.source.means
    exact ⟨m, hm⟩
  target hne := by
    rcases h.target with ⟨hself, -⟩ | ⟨-, hname⟩
    · exact absurd hself hne
    · obtain ⟨m, hm, -⟩ := hname.means
      exact ⟨m, hm⟩

theorem Alike.covers (h : Alike eq side rule eq' side' rule') :
    eq.Covers side rule k ↔ eq'.Covers side' rule' k := by
  rw [covers_iff, covers_iff, h.source.reaches, h.frame]
  rcases h.target with ⟨hself, hself'⟩ | ⟨hself, hname⟩
  · rw [if_pos hself, if_pos hself']
  · rw [if_neg hself, if_neg (mt hname.self_iff.2 hself), hname.reaches]

theorem coverageOf_eq : eq.coverageOf side rule = (do
    let source ← eq.canonicalEndpoint side rule.head.source
    let target ← eq.canonicalEndpoint side rule.head.target
    let f := eq.frameOf side rule
    pure ⟨f.kind, source, target, f.objectClass, f.cond, f.branch, f.name⟩) := rfl

theorem Alike.coverageOf (h : Alike eq side rule eq' side' rule') :
    eq.coverageOf side rule = eq'.coverageOf side' rule' := by
  have htarget : eq.canonicalEndpoint side rule.head.target =
      eq'.canonicalEndpoint side' rule'.head.target := by
    rcases h.target with ⟨hself, hself'⟩ | ⟨-, hname⟩
    · rw [hself, hself', canonicalEndpoint_self, canonicalEndpoint_self]
    · exact hname.canonicalEndpoint
  rw [coverageOf_eq, coverageOf_eq, h.source.canonicalEndpoint, htarget, h.frame]

theorem Alike.resolvedDefault (h : Alike eq side rule eq' side' rule') :
    RuleIndex.resolvedDefault eq side rule = RuleIndex.resolvedDefault eq' side' rule' := by
  obtain ⟨t, ht, ht'⟩ := h.default
  rw [ht, ht']

theorem Alike.exists_endpoint (h : Alike eq side rule eq' side' rule')
    (hn : (n, t) ∈ Classifier.endpoints rule k) :
    ∃ n', SameName eq side n eq' side' n' ∧ (n', t) ∈ Classifier.endpoints rule' k := by
  rcases Classifier.mem_endpoints.1 hn with ⟨rfl, ht⟩ | ⟨hself, rfl, ht⟩
  · exact ⟨_, h.source, Classifier.mem_endpoints.2 (.inl ⟨rfl, ht⟩)⟩
  · rcases h.target with ⟨hself', -⟩ | ⟨-, hname⟩
    · exact absurd hself' hself
    · have hself' := mt hname.self_iff.2 hself
      exact ⟨_, hname, Classifier.mem_endpoints.2 (.inr ⟨hself', rfl, ht⟩)⟩

theorem Alike.newType (h : Alike eq side rule eq' side' rule')
    (htypes : d.ownTypes side = d'.ownTypes side') (ht : d.NewType side rule k t) :
    d'.NewType side' rule' k t := by
  obtain ⟨hown, n, hn⟩ := ht
  obtain ⟨n', -, hn'⟩ := h.exists_endpoint hn
  exact ⟨htypes ▸ hown, n', hn'⟩

theorem Alike.newMember (h : Alike eq side rule eq' side' rule')
    (htypes : d.ownTypes side = d'.ownTypes side')
    (hmembers : ∀ a, d.ownMembers a side = d'.ownMembers a side')
    (ht : eq.NewMember d side rule k t) : eq'.NewMember d' side' rule' k t := by
  obtain ⟨hold, n, hn, hkind, hmember⟩ := ht
  obtain ⟨n', hname, hn'⟩ := h.exists_endpoint hn
  -- An attribute of the same meaning has the same name.
  obtain ⟨hkind', rfl⟩ := hname.attribute hkind
  exact ⟨htypes ▸ hold, n', hn', hkind', hmembers n' ▸ hmember⟩

/-! ## Sides that say the same -/

/-- Every rule of a list has an alike rule in another list, and so has each of its permissions. -/
structure Echoed (eq : Equivalence) (side : Side) (rules : List Rule) (eq' : Equivalence)
    (side' : Side) (rules' : List Rule) : Prop where
  rule : ∀ rule ∈ rules, ∃ rule' ∈ rules', Alike eq side rule eq' side' rule'
  perm : ∀ rule ∈ rules, ∀ p ∈ rule.perms,
    ∃ rule' ∈ rules', Alike eq side rule eq' side' rule' ∧ p ∈ rule'.perms

/-- Two sides say the same, and what only they have is the same. -/
structure Matches (eq : Equivalence) (d : TypeDelta) (side : Side) (eq' : Equivalence)
    (d' : TypeDelta) (side' : Side) : Prop where
  types : d.ownTypes side = d'.ownTypes side'
  members : ∀ a, d.ownMembers a side = d'.ownMembers a side'
  there : ∀ family, Echoed eq side (eq.rules family side) eq' side' (eq'.rules family side')
  back : ∀ family, Echoed eq' side' (eq'.rules family side') eq side (eq.rules family side)

variable {rules rules' rules'' : List Rule} {p : String} {o : Option Standing}

theorem Echoed.trans (h : Echoed eq side rules eq' side' rules')
    (h' : Echoed eq' side' rules' eq'' side'' rules'') :
    Echoed eq side rules eq'' side'' rules'' where
  rule r hr := by
    obtain ⟨r', hr', halike⟩ := h.rule r hr
    obtain ⟨r'', hr'', halike'⟩ := h'.rule r' hr'
    exact ⟨r'', hr'', halike.trans halike'⟩
  perm r hr p hp := by
    obtain ⟨r', hr', halike, hp'⟩ := h.perm r hr p hp
    obtain ⟨r'', hr'', halike', hp''⟩ := h'.perm r' hr' p hp'
    exact ⟨r'', hr'', halike.trans halike', hp''⟩

theorem Matches.symm (h : Matches eq d side eq' d' side') : Matches eq' d' side' eq d side :=
  ⟨h.types.symm, fun a => (h.members a).symm, h.back, h.there⟩

theorem Matches.readable (h : Matches eq d side eq' d' side')
    (hrule : rule ∈ eq'.rules family side') : eq'.Readable side' rule := by
  obtain ⟨rule', -, halike⟩ := (h.back family).rule rule hrule
  exact halike.readable

/-- What holds of a rule as of its like holds of some rules of both sides or of none. -/
theorem Matches.exists_iff (h : Matches eq d side eq' d' side') {P P' : Rule → Prop}
    (hP : ∀ rule rule', Alike eq side rule eq' side' rule' → (P rule ↔ P' rule')) :
    (∃ rule ∈ eq.rules family side, P rule) ↔ ∃ rule ∈ eq'.rules family side', P' rule := by
  constructor
  · rintro ⟨rule, hrule, hrule'⟩
    obtain ⟨r, hr, halike⟩ := (h.there family).rule rule hrule
    exact ⟨r, hr, (hP rule r halike).1 hrule'⟩
  · rintro ⟨rule, hrule, hrule'⟩
    obtain ⟨r, hr, halike⟩ := (h.back family).rule rule hrule
    exact ⟨r, hr, (hP r rule halike.symm).2 hrule'⟩

theorem Matches.forall_iff (h : Matches eq d side eq' d' side') {P P' : Rule → Prop}
    (hP : ∀ rule rule', Alike eq side rule eq' side' rule' → (P rule ↔ P' rule')) :
    (∀ rule ∈ eq.rules family side, P rule) ↔ ∀ rule ∈ eq'.rules family side', P' rule := by
  have hnot : (∃ rule ∈ eq.rules family side, ¬P rule) ↔
      ∃ rule ∈ eq'.rules family side', ¬P' rule :=
    h.exists_iff fun rule rule' halike => not_congr (hP rule rule' halike)
  simpa using not_congr hnot

theorem Matches.perms_iff (h : Matches eq d side eq' d' side') :
    (∃ rule ∈ eq.rules family side, eq.Covers side rule k ∧ p ∈ rule.perms) ↔
      ∃ rule ∈ eq'.rules family side', eq'.Covers side' rule k ∧ p ∈ rule.perms := by
  constructor
  · rintro ⟨rule, hrule, hk, hp⟩
    obtain ⟨r, hr, halike, hp'⟩ := (h.there family).perm rule hrule p hp
    exact ⟨r, hr, halike.covers.1 hk, hp'⟩
  · rintro ⟨rule, hrule, hk, hp⟩
    obtain ⟨r, hr, halike, hp'⟩ := (h.back family).perm rule hrule p hp
    exact ⟨r, hr, halike.covers.1 hk, hp'⟩

theorem Matches.saidByOther (hother : Matches eq d side.other eq' d' side'.other)
    (h : Alike eq side rule eq' side' rule') :
    eq.SaidByOther side rule ↔ eq'.SaidByOther side' rule' := by
  unfold SaidByOther
  refine exists_congr fun family => hother.exists_iff fun r r' halike => ?_
  rw [h.coverageOf, halike.coverageOf]

theorem Matches.through (h : Matches eq d side eq' d' side')
    (hother : Matches eq d side.other eq' d' side'.other)
    (halike : Alike eq side rule eq' side' rule') :
    eq.Through d side rule k t ↔ eq'.Through d' side' rule' k t := by
  have hnew (u : String) : d.NewType side rule k u ↔ d'.NewType side' rule' k u :=
    ⟨halike.newType h.types, halike.symm.newType h.symm.types⟩
  have hmember : eq.NewMember d side rule k t ↔ eq'.NewMember d' side' rule' k t :=
    ⟨halike.newMember h.types h.members, halike.symm.newMember h.symm.types h.symm.members⟩
  unfold Through
  rw [hnew t, hmember, exists_congr hnew, hother.saidByOther halike]

theorem Matches.covered (h : Matches eq d side eq' d' side') :
    eq.Covered family side k ↔ eq'.Covered family side' k :=
  h.exists_iff fun _ _ halike => halike.covers

/-- Sides that match have the same standings. -/
theorem Matches.stands (h : Matches eq d side eq' d' side')
    (hother : Matches eq d side.other eq' d' side'.other) (ho : eq.Stands d family side k o) :
    eq'.Stands d' family side' k o := by
  have hthrough (t : String) :
      eq.SomeThrough d family side k t ↔ eq'.SomeThrough d' family side' k t :=
    h.exists_iff fun _ _ halike => and_congr halike.covers (h.through hother halike)
  -- Each part of a standing speaks of rules by what alike rules have in common.
  cases ho with
  | silent huncovered => exact .silent (mt h.covered.2 huncovered)
  | speaks hcovered hperms hdefaults hevery hsome =>
    refine .speaks (h.covered.1 hcovered) (fun p => (hperms p).trans h.perms_iff) (fun t => ?_)
      (fun t => ?_) fun t => (hsome t).trans (hthrough t)
    · rw [hdefaults t]
      exact h.exists_iff fun _ _ halike => by rw [halike.covers, halike.resolvedDefault]
    · rw [hevery t, hthrough t]
      refine and_congr_left' (h.forall_iff fun _ _ halike => ?_)
      exact imp_congr halike.covers (exists_congr fun u => h.through hother halike)

/-! ## Sides with the same names -/

/-- Two sides look up the same names. -/
structure SameNames (eq : Equivalence) (side : Side) (eq' : Equivalence) (side' : Side) : Prop where
  types : (eq.scope side).policy.types = (eq'.scope side').policy.types
  aliases : (eq.scope side).policy.aliases = (eq'.scope side').policy.aliases
  attributes : (eq.scope side).policy.attributes = (eq'.scope side').policy.attributes
  classes : (eq.scope side).policy.classes = (eq'.scope side').policy.classes
  canonicalName : eq.canonicalName side = eq'.canonicalName side'
  canonicalCond : eq.canonicalCond side = eq'.canonicalCond side'

theorem SameNames.means {m : Meaning} (h : SameNames eq side eq' side') (hm : eq.Means side n m) :
    eq'.Means side' n m := by
  cases hm with
  | typeName hn =>
    rw [h.canonicalName]
    exact .typeName (h.types ▸ hn)
  | aliasName hn ha ht =>
    rw [h.canonicalName]
    exact .aliasName (h.types ▸ hn) (h.aliases ▸ ha) (h.types ▸ ht)
  | attributeName hn ha hms hmem =>
    rw [h.canonicalName]
    exact .attributeName (h.types ▸ hn) (h.aliases ▸ ha) (h.attributes ▸ hms) (h.types ▸ hmem)

theorem SameNames.sameName (h : SameNames eq side eq' side') (hn : ∃ m, eq.Means side n m) :
    SameName eq side n eq' side' n := by
  obtain ⟨m, hm⟩ := hn
  exact ⟨Iff.rfl, m, hm, h.means hm⟩

/-- A rule that can be read is alike to a rule whose names have the same meanings. -/
theorem Readable.alike (h : eq.Readable side rule)
    (hclasses : (eq.scope side).policy.classes = (eq'.scope side').policy.classes)
    (hframe : eq.frameOf side rule = eq'.frameOf side' rule')
    (hdefault : Option.Rel (SameName eq side · eq' side' ·) rule.default? rule'.default?)
    (hsource : SameName eq side rule.head.source eq' side' rule'.head.source)
    (htarget : rule.head.target = selfTarget ∧ rule'.head.target = selfTarget ∨
      rule.head.target ≠ selfTarget ∧
        SameName eq side rule.head.target eq' side' rule'.head.target) :
    Alike eq side rule eq' side' rule' where
  checked := h.checked
  checked' := by
    have hclass : rule.head.objectClass = rule'.head.objectClass := congrArg (·.objectClass) hframe
    have hchecked := checkClass_eq_ok.1 h.checked
    rw [hclass, hclasses] at hchecked
    exact checkClass_eq_ok.2 hchecked
  default := by
    obtain ⟨t, ht⟩ := h.default
    refine ⟨t, ht, ?_⟩
    rw [resolvedDefault_eq_ok] at ht ⊢
    generalize rule.default? = o, rule'.default? = o' at ht hdefault
    cases hdefault with
    | none =>
      cases ht
      exact .none
    | some hname =>
      cases ht with
      | some ht =>
        obtain ⟨m, hm, hm'⟩ := hname.means
        obtain rfl := hm.unique ht
        exact .some hm'
  frame := hframe
  source := hsource
  target := htarget

theorem SameNames.alike (h : SameNames eq side eq' side') (hread : eq.Readable side rule) :
    Alike eq side rule eq' side' rule := by
  refine hread.alike h.classes ?_ ?_ (h.sameName hread.source) ?_
  · unfold frameOf
    rw [h.canonicalCond]
  · obtain ⟨t, ht⟩ := hread.default
    rw [resolvedDefault_eq_ok] at ht
    generalize rule.default? = o at ht
    cases ht with
    | none => exact .none
    | some ht => exact .some (h.sameName ⟨_, ht⟩)
  · by_cases hself : rule.head.target = selfTarget
    · exact .inl ⟨hself, hself⟩
    · exact .inr ⟨hself, h.sameName (hread.target hself)⟩

theorem SameNames.symm (h : SameNames eq side eq' side') : SameNames eq' side' eq side :=
  ⟨h.types.symm, h.aliases.symm, h.attributes.symm, h.classes.symm, h.canonicalName.symm,
    h.canonicalCond.symm⟩

theorem SameNames.readable (h : SameNames eq side eq' side') (hread : eq.Readable side rule) :
    eq'.Readable side' rule :=
  (h.alike hread).symm.readable

/-- The rules of a list are echoed in every list that has them, if the names are the same. -/
theorem SameNames.echoed (h : SameNames eq side eq' side')
    (hread : ∀ rule ∈ rules, eq.Readable side rule) (hsub : ∀ rule ∈ rules, rule ∈ rules') :
    Echoed eq side rules eq' side' rules' where
  rule r hr := ⟨r, hsub r hr, h.alike (hread r hr)⟩
  perm r hr _ hp := ⟨r, hsub r hr, h.alike (hread r hr), hp⟩

theorem SameNames.echoed_symm (h : SameNames eq side eq' side')
    (hread : ∀ rule ∈ rules, eq.Readable side rule) (hsub : ∀ rule ∈ rules, rule ∈ rules') :
    Echoed eq' side' rules eq side rules' where
  rule r hr := ⟨r, hsub r hr, (h.alike (hread r hr)).symm⟩
  perm r hr _ hp := ⟨r, hsub r hr, (h.alike (hread r hr)).symm, hp⟩

/-- Sides match if the rules of one are made of those of the other, each alike. -/
theorem matches_of_map (f : Rule → Rule) (htypes : d.ownTypes side = d'.ownTypes side')
    (hmembers : ∀ a, d.ownMembers a side = d'.ownMembers a side')
    (hrules : ∀ family, eq'.rules family side' = (eq.rules family side).map f)
    (halike : ∀ family, ∀ rule ∈ eq.rules family side, Alike eq side rule eq' side' (f rule))
    (hperms : ∀ rule, (f rule).perms = rule.perms) : Matches eq d side eq' d' side' where
  types := htypes
  members := hmembers
  there family := by
    rw [hrules]
    exact {
      rule := fun rule hrule => ⟨f rule, List.mem_map_of_mem hrule, halike family rule hrule⟩
      perm := fun rule hrule p hp => ⟨f rule, List.mem_map_of_mem hrule, halike family rule hrule,
        (hperms rule).symm ▸ hp⟩ }
  back family := by
    rw [hrules]
    refine ⟨fun rule' hrule' => ?_, fun rule' hrule' p hp => ?_⟩
    · obtain ⟨rule, hrule, rfl⟩ := List.mem_map.1 hrule'
      exact ⟨rule, hrule, (halike family rule hrule).symm⟩
    · obtain ⟨rule, hrule, rfl⟩ := List.mem_map.1 hrule'
      exact ⟨rule, hrule, (halike family rule hrule).symm, hperms rule ▸ hp⟩

/-- Sides with the same names and the same rules match. -/
theorem SameNames.matches (h : SameNames eq side eq' side')
    (htypes : d.ownTypes side = d'.ownTypes side')
    (hmembers : ∀ a, d.ownMembers a side = d'.ownMembers a side')
    (hread : ∀ family, ∀ rule ∈ eq.rules family side, eq.Readable side rule)
    (hrules : ∀ family, eq'.rules family side' = eq.rules family side) :
    Matches eq d side eq' d' side' :=
  matches_of_map id htypes hmembers (fun family => by rw [hrules, List.map_id])
    (fun family rule hrule => h.alike (hread family rule hrule)) fun _ => rfl

end Equivalence

namespace Session

variable {base modified base' modified' : Policy} {d d' : TypeDelta} {workers : Int} {s : Session}

/-- A comparison whose sides match those of a session succeeds as well, and its session agrees. -/
theorem exists_agreeing (h : (build base modified d workers).1 = .ok s)
    (hrenames : Equivalence.checkRenames base'.scope modified'.scope d'.renames.pairs = .ok ())
    (hmatch : ∀ side, Equivalence.Matches (.ofDelta base modified d) d side
      (.ofDelta base' modified' d') d' side) (workers' : Int) :
    ∃ s', (build base' modified' d' workers').1 = .ok s' ∧ s.Agree s' := by
  have hread (family : RuleFamily) (side : Side) :
      ∀ rule ∈ (Equivalence.ofDelta base' modified' d').rules family side,
        (Equivalence.ofDelta base' modified' d').Readable side rule :=
    fun rule hrule => (hmatch side).readable hrule
  obtain ⟨s', hs'⟩ : ∃ s', (build base' modified' d' workers').1 = .ok s' :=
    exists_build_iff.2 ⟨hrenames, hread⟩
  refine ⟨s', hs', agree_of_stands h hs' fun family side k o ho => ?_⟩
  exact (hmatch side).stands (hmatch side.other) ho

end Session

end PolicyDelta
