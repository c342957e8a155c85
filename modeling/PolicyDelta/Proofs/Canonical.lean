import PolicyDelta.Proofs.Reading

/-! Canonical names. `Equivalence.Reaches` says for which types a name stands, by canonical names;
rules cover keys by what their names reach (`Equivalence.covers_iff`). The canonical form of a
source or target tells how the name reaches types, if names are plain
(`Equivalence.Plain.endpoint`). -/

namespace PolicyDelta

/-- Names are plain if none is mistaken for the target `self` or for the canonical form of an
attribute: no type, alias or attribute is called `self`, and no name of a type starts with an at
sign. -/
structure Policy.PlainNames (p : Policy) : Prop where
  types_self : selfTarget ∉ p.types
  aliases_self : selfTarget ∉ p.aliases
  attributes_self : selfTarget ∉ p.attributes
  types_unmarked : ∀ t ∈ p.types, t.toList.head? ≠ some '@'

instance (p : Policy) : Decidable p.PlainNames :=
  decidable_of_iff (selfTarget ∉ p.types ∧ selfTarget ∉ p.aliases ∧ selfTarget ∉ p.attributes ∧
      ∀ t ∈ p.types.toList, t.toList.head? ≠ some '@')
    ⟨fun ⟨ht, ha, hm, hat⟩ => ⟨ht, ha, hm, fun t h => hat t (Std.ExtTreeSet.mem_toList.2 h)⟩,
      fun ⟨ht, ha, hm, hat⟩ => ⟨ht, ha, hm, fun t h => hat t (Std.ExtTreeSet.mem_toList.1 h)⟩⟩

theorem Policy.PlainNames.kindOf_self {s : Scope} (h : s.policy.PlainNames) {kind : NameKind} :
    s.kindOf selfTarget ≠ .ok kind := by
  intro hkind
  rcases Scope.kindOf_cases hkind with ⟨-, ht⟩ | ⟨-, -, ha⟩ | ⟨-, -, -, hm⟩
  · exact h.types_self ht
  · exact h.aliases_self ha
  · exact h.attributes_self hm

/-- Renamings that pass the check are renamings of types. -/
theorem Equivalence.types_of_checkRenames {base modified : Scope} {ps : List (String × String)}
    (h : checkRenames base modified ps = .ok ()) :
    ∀ p ∈ ps, p.1 ∈ base.policy.types ∧ p.2 ∈ modified.policy.types := by
  induction ps with
  | nil => exact fun p hp => absurd hp List.not_mem_nil
  | cons q ps ih =>
    obtain ⟨old, new⟩ := q
    rw [checkRenames] at h
    split at h
    · cases h
    split at h
    · cases h
    rename_i hold hnew
    refine List.forall_mem_cons.2 ⟨⟨?_, ?_⟩, ih h⟩
    · exact Classical.not_not.1 hold
    · exact Classical.not_not.1 hnew

theorem Renames.canonical_cases (renames : Renames) (n : String) :
    renames.canonical n = n ∨ (n, renames.canonical n) ∈ renames.pairs := by
  unfold Renames.canonical
  cases hget : renames.get? n with
  | none => exact .inl rfl
  | some new =>
    obtain ⟨p, hp, rfl⟩ := Option.map_eq_some_iff.1 hget
    have hname : p.1 = n := by simpa using List.find?_some hp
    exact .inr (hname ▸ List.mem_of_find?_eq_some hp)

namespace Equivalence

variable {eq : Equivalence} {side : Side} {rule : Rule} {n t w : String} {k : RuleKey}

/-- The canonical name of a type of a side. -/
def canonicalName (eq : Equivalence) : Side → String → String
  | .base => eq.renames.canonical
  | .modified => id

theorem canonicalType_eq_ok : eq.canonicalType side n = .ok t ↔
    n ∈ (eq.scope side).policy.types ∧ eq.canonicalName side n = t := by
  unfold canonicalType
  by_cases hn : n ∈ (eq.scope side).policy.types
  · cases side <;> simp [hn, canonicalName]
  · simp [hn]

/-- With renamings into the modified policy a canonical name is the name of a type of one of the
policies. -/
theorem exists_type_of_canonicalType
    (hrenames : ∀ p ∈ eq.renames.pairs, p.2 ∈ eq.modified.policy.types)
    (ht : eq.canonicalType side n = .ok t) : ∃ side, t ∈ (eq.scope side).policy.types := by
  obtain ⟨hn, rfl⟩ := canonicalType_eq_ok.1 ht
  cases side with
  | modified => exact ⟨.modified, hn⟩
  | base =>
    change ∃ side, (eq.renames.get? n).getD n ∈ (eq.scope side).policy.types
    cases hget : eq.renames.get? n with
    | none => exact ⟨.base, hn⟩
    | some new =>
      obtain ⟨p, hp, rfl⟩ := Option.map_eq_some_iff.1 hget
      exact ⟨.modified, hrenames p (List.mem_of_find?_eq_some hp)⟩

/-- A name stands for a type of a canonical name. -/
def Reaches (eq : Equivalence) (side : Side) (n t : String) : Prop :=
  ∃ u, (eq.scope side).policy.Denotes n u ∧ eq.canonicalType side u = .ok t

/-- What a rule, a key and a coverage have besides their types. -/
structure Frame where
  kind : String
  objectClass : String
  cond : Option String
  branch : Option Bool
  name : Option String

/-- The frame of a key. -/
def frameOfKey (k : RuleKey) : Frame := ⟨k.kind, k.objectClass, k.cond, k.branch, k.name⟩

/-- The frame of a coverage. -/
def frameOfCoverage (v : Coverage) : Frame := ⟨v.kind, v.objectClass, v.cond, v.branch, v.name⟩

/-- The frame of a rule of a side. -/
def frameOf (eq : Equivalence) (side : Side) (rule : Rule) : Frame :=
  let cond := eq.canonicalCond side rule.head.cond
  ⟨rule.kind, rule.head.objectClass, cond, branchUnder cond rule.head.branch, rule.fileName⟩

theorem keyOf_eq_ok {source target : String} : eq.keyOf side rule source target = .ok k ↔
    eq.canonicalType side source = .ok k.source ∧ eq.canonicalType side target = .ok k.target ∧
      eq.frameOf side rule = frameOfKey k := by
  unfold keyOf
  simp only [bind_eq_ok]
  constructor
  · rintro ⟨a, ha, b, hb, h⟩
    cases h
    exact ⟨ha, hb, rfl⟩
  · rintro ⟨ha, hb, h⟩
    obtain ⟨hkind, hclass, hcond, hbranch, hname⟩ := Frame.mk.inj h
    refine ⟨_, ha, _, hb, ?_⟩
    rw [hkind, hclass, hbranch, hcond, hname]
    rfl

theorem coverageOf_eq_ok {v : Coverage} (h : eq.coverageOf side rule = .ok v) :
    eq.canonicalEndpoint side rule.head.source = .ok v.source ∧
      eq.canonicalEndpoint side rule.head.target = .ok v.target ∧
      eq.frameOf side rule = frameOfCoverage v := by
  obtain ⟨source, hsource, h⟩ := bind_eq_ok.1 h
  obtain ⟨target, htarget, h⟩ := bind_eq_ok.1 h
  cases h
  exact ⟨hsource, htarget, rfl⟩

/-- A rule covers the keys whose types its names reach. -/
theorem covers_iff : eq.Covers side rule k ↔ eq.Reaches side rule.head.source k.source ∧
    (if rule.head.target = selfTarget then k.target = k.source
      else eq.Reaches side rule.head.target k.target) ∧
    eq.frameOf side rule = frameOfKey k := by
  unfold Covers Rule.Expands
  simp only [keyOf_eq_ok]
  split
  · constructor
    · rintro ⟨a, _, ⟨ha, rfl⟩, hsource, htarget, hframe⟩
      exact ⟨⟨_, ha, hsource⟩, Except.ok.inj (htarget.symm.trans hsource), hframe⟩
    · rintro ⟨⟨a, ha, hsource⟩, htarget, hframe⟩
      exact ⟨a, a, ⟨ha, rfl⟩, hsource, htarget ▸ hsource, hframe⟩
  · constructor
    · rintro ⟨a, b, ⟨ha, hb⟩, hsource, htarget, hframe⟩
      exact ⟨⟨a, ha, hsource⟩, ⟨b, hb, htarget⟩, hframe⟩
    · rintro ⟨⟨a, ha, hsource⟩, ⟨b, hb, htarget⟩, hframe⟩
      exact ⟨a, b, ⟨ha, hb⟩, hsource, htarget, hframe⟩

/-! ## Plain names -/

/-- The names of both policies are plain and the renamings are into the modified policy. -/
structure Plain (eq : Equivalence) : Prop where
  names : ∀ side, (eq.scope side).policy.PlainNames
  renames : ∀ p ∈ eq.renames.pairs, p.2 ∈ eq.modified.policy.types

/-- A canonical name is the name of a type of one of the policies. -/
theorem Plain.exists_type (h : eq.Plain) (ht : eq.canonicalType side n = .ok t) :
    ∃ side, t ∈ (eq.scope side).policy.types :=
  exists_type_of_canonicalType h.renames ht

/-! The canonical form of an attribute -/

theorem head?_marked (n : String) : ("@" ++ n).toList.head? = some '@' := by
  simp [String.toList_append]

theorem marked_ne_self (n : String) : "@" ++ n ≠ selfTarget := by
  intro h
  have hhead := head?_marked n
  rw [h] at hhead
  exact absurd hhead (by decide)

theorem marked_injective {m n : String} (h : "@" ++ m = "@" ++ n) : m = n := by
  simpa [String.toList_append, ← String.toList_inj] using h

/-- How a source or target is written in canonical form. -/
inductive Endpoint (eq : Equivalence) (side : Side) (n w : String) : Prop where
  | ofSelf (hn : n = selfTarget) (hw : w = selfTarget)
  | ofAttribute (hkind : (eq.scope side).kindOf n = .ok .attributeName) (hw : w = "@" ++ n)
  | ofType (hreaches : ∀ t, eq.Reaches side n t ↔ t = w) (hself : w ≠ selfTarget)
    (hunmarked : w.toList.head? ≠ some '@')

theorem Plain.endpoint (h : eq.Plain) (hw : eq.canonicalEndpoint side n = .ok w) :
    eq.Endpoint side n w := by
  unfold canonicalEndpoint at hw
  split at hw
  · rename_i hn
    exact .ofSelf hn (Except.ok.inj hw).symm
  obtain ⟨kind, hkind, hw⟩ := bind_eq_ok.1 hw
  by_cases hattribute : kind = .attributeName
  · subst hattribute
    exact .ofAttribute hkind (Except.ok.inj hw).symm
  have hlookup : ∃ u, (eq.scope side).lookupType n = .ok u ∧ eq.canonicalType side u = .ok w := by
    cases kind with
    | typeName | aliasName => exact bind_eq_ok.1 hw
    | attributeName => exact absurd rfl hattribute
  obtain ⟨u, hu, hw⟩ := hlookup
  obtain ⟨side', hmem⟩ := h.exists_type hw
  refine .ofType (fun t => ?_) (fun hself => ?_) ((h.names side').types_unmarked w hmem)
  · simp [Reaches, Scope.denotes_of_not_attribute hkind hattribute, hu, hw, eq_comm]
  · exact (h.names side').types_self (hself ▸ hmem)

/-- The canonical members of an attribute. -/
def members (eq : Equivalence) (side : Side) (a : String) : NameSet :=
  ((eq.scope side).policy.attributes.getD a ∅).map (eq.canonicalName side)

theorem reaches_of_attribute (hkind : (eq.scope side).kindOf n = .ok .attributeName)
    (hknows : (eq.scope side).Knows n) : eq.Reaches side n t ↔ t ∈ eq.members side n := by
  unfold Reaches members
  simp only [NameSet.mem_map, canonicalType_eq_ok, Scope.denotes_of_attribute hkind]
  constructor
  · rintro ⟨u, hu, -, rfl⟩
    exact ⟨u, hu, rfl⟩
  · rintro ⟨u, hu, rfl⟩
    exact ⟨u, hu, hknows.types u ((Scope.denotes_of_attribute hkind).2 hu), rfl⟩

/-- Names of both sides that are written alike reach the same types, up to the members that an
attribute has on one side only. -/
theorem Endpoint.reaches_other {n' : String} (h : eq.Endpoint side n w)
    (h' : eq.Endpoint side.other n' w) (hknows : (eq.scope side.other).Knows n')
    (hn : n ≠ selfTarget) (ht : eq.Reaches side n t)
    (hmember : (eq.scope side).kindOf n = .ok .attributeName → t ∈ eq.members side.other n) :
    eq.Reaches side.other n' t := by
  cases h with
  | ofSelf hself => exact absurd hself hn
  | ofAttribute hkind hw =>
    subst hw
    cases h' with
    | ofSelf _ hw => exact absurd hw (marked_ne_self n)
    | ofAttribute hkind' hw =>
      obtain rfl := marked_injective hw
      exact (reaches_of_attribute hkind' hknows).2 (hmember hkind)
    | ofType _ _ hunmarked => exact absurd (head?_marked n) hunmarked
  | ofType hreaches hself hunmarked =>
    cases h' with
    | ofSelf _ hw => exact absurd hw hself
    | ofAttribute _ hw => exact absurd (hw ▸ head?_marked n') hunmarked
    | ofType hreaches' => exact (hreaches' t).2 ((hreaches t).1 ht)

/-- A name that is written as `self` is `self`. -/
theorem Endpoint.eq_self (h : eq.Endpoint side n selfTarget) : n = selfTarget := by
  cases h with
  | ofSelf hn => exact hn
  | ofAttribute _ hw => exact absurd hw.symm (marked_ne_self n)
  | ofType _ hself => exact absurd rfl hself

theorem canonicalEndpoint_self : eq.canonicalEndpoint side selfTarget = .ok selfTarget := rfl

/-- The targets of rules with one coverage are both `self` or both names. -/
theorem Plain.target_eq_self {side' : Side} {rule' : Rule} (h : eq.Plain)
    (hw : eq.canonicalEndpoint side rule.head.target = .ok w)
    (hw' : eq.canonicalEndpoint side' rule'.head.target = .ok w)
    (hself : rule.head.target = selfTarget) : rule'.head.target = selfTarget := by
  rw [hself, canonicalEndpoint_self] at hw
  cases hw
  exact (h.endpoint hw').eq_self

/-- A rule of the other side with the coverage of a rule covers a key of this rule too, unless the
key is of a member that an attribute has on one side only. -/
theorem Covers.other {rule' : Rule} {r r' : RuleReading} {v : Coverage} (hplain : eq.Plain)
    (hread : eq.Read side rule r) (hread' : eq.Read side.other rule' r')
    (hv : eq.coverageOf side rule = .ok v) (hv' : eq.coverageOf side.other rule' = .ok v)
    (h : eq.Covers side rule k)
    (hsource : (eq.scope side).kindOf rule.head.source = .ok .attributeName →
      k.source ∈ eq.members side.other rule.head.source)
    (htarget : rule.head.target ≠ selfTarget →
      (eq.scope side).kindOf rule.head.target = .ok .attributeName →
        k.target ∈ eq.members side.other rule.head.target) :
    eq.Covers side.other rule' k := by
  obtain ⟨hs, ht, hframe⟩ := coverageOf_eq_ok hv
  obtain ⟨hs', ht', hframe'⟩ := coverageOf_eq_ok hv'
  obtain ⟨hreaches, hreaches', hkey⟩ := covers_iff.1 h
  have hne : rule.head.source ≠ selfTarget := by
    intro hself
    obtain ⟨kind, hkind⟩ := hread.source_known.kind
    exact (hplain.names side).kindOf_self (hself ▸ hkind)
  refine covers_iff.2 ⟨?_, ?_, (hframe'.trans hframe.symm).trans hkey⟩
  · exact (hplain.endpoint hs).reaches_other (hplain.endpoint hs') hread'.source_known hne hreaches
      hsource
  by_cases hself : rule.head.target = selfTarget
  · rw [if_pos hself] at hreaches'
    rw [if_pos (hplain.target_eq_self ht ht' hself)]
    exact hreaches'
  · have hself' : rule'.head.target ≠ selfTarget := mt (hplain.target_eq_self ht' ht) hself
    rw [if_neg hself] at hreaches'
    rw [if_neg hself']
    exact (hplain.endpoint ht).reaches_other (hplain.endpoint ht') (hread'.target_known hself')
      hself hreaches' (htarget hself)

end Equivalence

end PolicyDelta
