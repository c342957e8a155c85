import PolicyDelta.Proofs.Permissions
import PolicyDelta.Proofs.Defaults
import PolicyDelta.Proofs.Provenance

/-! Where a side stands at a key: the permissions and the default types of all rules that cover the
key, and the types through which they cover it on this side only. The rules of both policies settle
the standing of a side at every key (`Equivalence.Stands.unique`), and the entries of indexes have
it (`Classifier.Ready.exists_stands`). -/

namespace PolicyDelta

/-- The members of an attribute that only a side has. -/
def TypeDelta.ownMembers (d : TypeDelta) (a : String) : Side → NameSet
  | .base => d.attributeRemoved a
  | .modified => d.attributeAdded a

/-- A rule covers a type of a key that only its side has. -/
def TypeDelta.NewType (d : TypeDelta) (side : Side) (rule : Rule) (k : RuleKey) (t : String) :
    Prop :=
  t ∈ d.ownTypes side ∧ ∃ n, (n, t) ∈ Classifier.endpoints rule k

/-- What the rules of a family and a side say together at a key. -/
@[ext]
structure Standing where
  perms : NameSet
  defaults : NameSet
  /-- The types through which the rules cover the key on this side only, if every rule has some. -/
  typesOfEvery : NameSet
  /-- The types through which some rule covers the key on this side only. -/
  typesOfSome : NameSet

/-- What the rules grant or determine. -/
def Standing.said (family : RuleFamily) (st : Standing) : NameSet :=
  match family with
  | .av => st.perms
  | .te => st.defaults

namespace Equivalence

/-- A rule covers a type of a key through an attribute that has it as a member on this side only. -/
def NewMember (eq : Equivalence) (d : TypeDelta) (side : Side) (rule : Rule) (k : RuleKey)
    (t : String) : Prop :=
  t ∉ d.ownTypes side ∧ ∃ n, (n, t) ∈ Classifier.endpoints rule k ∧
    (eq.scope side).kindOf n = .ok .attributeName ∧ t ∈ d.ownMembers n side

/-- A rule covers a key on its side only through a type. A new member counts beside a new type, or
if some rule of the other side has the same coverage. -/
def Through (eq : Equivalence) (d : TypeDelta) (side : Side) (rule : Rule) (k : RuleKey)
    (t : String) : Prop :=
  d.NewType side rule k t ∨ eq.NewMember d side rule k t ∧
    ((∃ u, d.NewType side rule k u) ∨ eq.SaidByOther side rule)

/-- Some rule of a family covers a key on its side only through a type. -/
def SomeThrough (eq : Equivalence) (d : TypeDelta) (family : RuleFamily) (side : Side) (k : RuleKey)
    (t : String) : Prop :=
  ∃ rule ∈ eq.rules family side, eq.Covers side rule k ∧ eq.Through d side rule k t

/-- A side has a standing at a key, unless no rule covers it. -/
inductive Stands (eq : Equivalence) (d : TypeDelta) (family : RuleFamily) (side : Side)
    (k : RuleKey) : Option Standing → Prop where
  | silent (huncovered : ¬eq.Covered family side k) : Stands eq d family side k none
  | speaks (hcovered : eq.Covered family side k)
    (hperms : ∀ p, p ∈ st.perms ↔
      ∃ rule ∈ eq.rules family side, eq.Covers side rule k ∧ p ∈ rule.perms)
    (hdefaults : ∀ t, t ∈ st.defaults ↔ ∃ rule ∈ eq.rules family side,
      eq.Covers side rule k ∧ RuleIndex.resolvedDefault eq side rule = .ok (some t))
    (hevery : ∀ t, t ∈ st.typesOfEvery ↔
      (∀ rule ∈ eq.rules family side, eq.Covers side rule k → ∃ u, eq.Through d side rule k u) ∧
        eq.SomeThrough d family side k t)
    (hsome : ∀ t, t ∈ st.typesOfSome ↔ eq.SomeThrough d family side k t) :
    Stands eq d family side k (some st)

variable {eq : Equivalence} {d : TypeDelta} {family : RuleFamily} {side : Side} {k : RuleKey}
  {o o' : Option Standing}

section

variable {st : Standing} {p t : String}

theorem Stands.mem_perms (h : eq.Stands d family side k (some st)) : p ∈ st.perms ↔
    ∃ rule ∈ eq.rules family side, eq.Covers side rule k ∧ p ∈ rule.perms := by
  cases h with
  | speaks _ hperms => exact hperms p

theorem Stands.mem_defaults (h : eq.Stands d family side k (some st)) : t ∈ st.defaults ↔
    ∃ rule ∈ eq.rules family side, eq.Covers side rule k ∧
      RuleIndex.resolvedDefault eq side rule = .ok (some t) := by
  cases h with
  | speaks _ _ hdefaults => exact hdefaults t

theorem Stands.mem_typesOfEvery (h : eq.Stands d family side k (some st)) :
    t ∈ st.typesOfEvery ↔
      (∀ rule ∈ eq.rules family side, eq.Covers side rule k → ∃ u, eq.Through d side rule k u) ∧
        eq.SomeThrough d family side k t := by
  cases h with
  | speaks _ _ _ hevery => exact hevery t

theorem Stands.mem_typesOfSome (h : eq.Stands d family side k (some st)) :
    t ∈ st.typesOfSome ↔ eq.SomeThrough d family side k t := by
  cases h with
  | speaks _ _ _ _ hsome => exact hsome t

theorem Stands.typesOfSome_ne_empty_iff (h : eq.Stands d family side k (some st)) :
    st.typesOfSome ≠ ∅ ↔ ∃ t, eq.SomeThrough d family side k t := by
  rw [ne_eq, Std.ExtTreeSet.eq_empty_iff_forall_not_mem]
  simp only [Classical.not_forall, Classical.not_not, h.mem_typesOfSome]

theorem Stands.isSome_iff (h : eq.Stands d family side k o) :
    o.isSome ↔ eq.Covered family side k := by
  cases h with
  | silent huncovered => simpa using huncovered
  | speaks hcovered => simpa using hcovered

end

/-- The rules settle the standing. -/
theorem Stands.unique (h : eq.Stands d family side k o) (h' : eq.Stands d family side k o') :
    o = o' := by
  have hcovered := h.isSome_iff.trans h'.isSome_iff.symm
  cases o with
  | none =>
    have hnone : o' = none := by simpa using hcovered
    exact hnone.symm
  | some st =>
    obtain ⟨st', rfl⟩ := Option.isSome_iff_exists.1 (hcovered.1 rfl)
    have hp : st.perms = st'.perms :=
      Std.ExtTreeSet.ext_mem fun p => h.mem_perms.trans h'.mem_perms.symm
    have hd : st.defaults = st'.defaults :=
      Std.ExtTreeSet.ext_mem fun t => h.mem_defaults.trans h'.mem_defaults.symm
    have he : st.typesOfEvery = st'.typesOfEvery :=
      Std.ExtTreeSet.ext_mem fun t => h.mem_typesOfEvery.trans h'.mem_typesOfEvery.symm
    have hs : st.typesOfSome = st'.typesOfSome :=
      Std.ExtTreeSet.ext_mem fun t => h.mem_typesOfSome.trans h'.mem_typesOfSome.symm
    exact congrArg some (Standing.ext hp hd he hs)

/-- What the rules of a family and a side grant or determine at a key. -/
def Says (eq : Equivalence) (family : RuleFamily) (side : Side) (k : RuleKey) :
    Option NameSet → Prop :=
  match family with
  | .av => eq.Grants side k
  | .te => eq.Determines side k

/-- The rules of both sides grant or determine the same at a key. -/
def Agreed (eq : Equivalence) (family : RuleFamily) (k : RuleKey) : Prop :=
  ∃ said, ∀ side, eq.Says family side k (some said)

theorem Says.unique {x x' : Option NameSet} (h : eq.Says family side k x)
    (h' : eq.Says family side k x') : x = x' := by
  cases family with
  | av => exact Together.unique h h'
  | te => exact Together.unique h h'

theorem Stands.said (h : eq.Stands d family side k o) :
    eq.Says family side k (o.map (·.said family)) := by
  cases h with
  | silent huncovered =>
    cases family with
    | av => exact .silent huncovered
    | te => exact .silent huncovered
  | speaks hcovered hperms hdefaults =>
    cases family with
    | av => exact .all hcovered hperms
    | te => exact .all hcovered hdefaults

end Equivalence

/-! ## Entries of indexes -/

namespace Classifier

variable {c : Classifier} {family : RuleFamily} {side : Side} {rule : Rule} {k : RuleKey}

/-- An entry of an index has a standing. -/
inductive EntryStands (c : Classifier) (side : Side) (k : RuleKey) :
    Option IndexEntry → Option Standing → Prop where
  | silent : EntryStands c side k none none
  | speaks (hkey : e.key = k) (hperms : e.perms = st.perms) (hdefaults : e.defaults = st.defaults)
    (hevery : c.EveryThrough side e st.typesOfEvery)
    (hsome : c.SomeThrough side e st.typesOfSome) : EntryStands c side k (some e) (some st)

theorem freshMembers_eq (c : Classifier) (a : String) (side : Side) :
    c.freshMembers a side = c.typeDelta.ownMembers a side := by
  cases side <;> rfl

theorem finds_newType {t : String} :
    c.Finds side rule k .newType t ↔ c.typeDelta.NewType side rule k t := by
  unfold Finds TypeDelta.NewType
  simp only [freshness_newType, freshTypes_eq, Prod.exists]
  constructor
  · rintro ⟨n, _, hp, rfl, ht⟩
    exact ⟨ht, n, hp⟩
  · rintro ⟨ht, n, hp⟩
    exact ⟨n, t, hp, rfl, ht⟩

theorem finds_newMember {t : String} :
    c.Finds side rule k .newMember t ↔ c.equivalence.NewMember c.typeDelta side rule k t := by
  unfold Finds Equivalence.NewMember
  simp only [freshness_newMember, freshTypes_eq, freshMembers_eq, Prod.exists]
  constructor
  · rintro ⟨n, _, hp, rfl, ht, hkind, hmember⟩
    exact ⟨ht, n, hp, hkind, hmember⟩
  · rintro ⟨ht, n, hp, hkind, hmember⟩
    exact ⟨n, t, hp, rfl, ht, hkind, hmember⟩

/-- A rule finds its coverage in the index of the other side if a rule there has it. -/
theorem Ready.mem_coverage_iff (h : c.Ready family)
    (hrule : rule ∈ c.equivalence.rules family side) :
    (∃ v ∈ (c.index side.other).coverage, c.equivalence.coverageOf side rule = .ok v) ↔
      c.equivalence.SaidByOther side rule := by
  constructor
  · rintro ⟨v, hmem, hv⟩
    obtain ⟨rule', hrule', hv'⟩ := ((h.index side.other).coverage v).1 hmem
    exact ⟨family, rule', hrule', v, hv, hv'⟩
  · intro hsaid
    obtain ⟨rule', hrule', v, hv, hv'⟩ := hsaid.exists_rule hrule
    exact ⟨v, ((h.index side.other).coverage v).2 ⟨rule', hrule', hv'⟩, hv⟩

theorem Ready.through_iff (h : c.Ready family) (hrule : rule ∈ c.equivalence.rules family side)
    {t : String} :
    c.Through side rule k t ↔ c.equivalence.Through c.typeDelta side rule k t := by
  unfold Through Equivalence.Through
  rw [h.mem_coverage_iff hrule]
  simp only [finds_newType, finds_newMember]

theorem Ready.someThrough_iff (h : c.Ready family) {e : IndexEntry}
    (he : (c.index side).get? k = some e) {t : String} :
    (∃ rule ∈ e.rules, c.Through side rule k t) ↔
      c.equivalence.SomeThrough c.typeDelta family side k t := by
  have hrules := (h.index side).rules k e he
  constructor
  · rintro ⟨rule, hrule, ht⟩
    obtain ⟨hmem, hk⟩ := (hrules rule).1 hrule
    exact ⟨rule, hmem, hk, (h.through_iff hmem).1 ht⟩
  · rintro ⟨rule, hmem, hk, ht⟩
    exact ⟨rule, (hrules rule).2 ⟨hmem, hk⟩, (h.through_iff hmem).2 ht⟩

theorem Ready.forall_through_iff (h : c.Ready family) {e : IndexEntry}
    (he : (c.index side).get? k = some e) :
    (∀ rule ∈ e.rules, ∃ u, c.Through side rule k u) ↔
      ∀ rule ∈ c.equivalence.rules family side, c.equivalence.Covers side rule k →
        ∃ u, c.equivalence.Through c.typeDelta side rule k u := by
  have hrules := (h.index side).rules k e he
  constructor
  · intro hall rule hmem hk
    obtain ⟨u, hu⟩ := hall rule ((hrules rule).2 ⟨hmem, hk⟩)
    exact ⟨u, (h.through_iff hmem).1 hu⟩
  · intro hall rule hrule
    obtain ⟨hmem, hk⟩ := (hrules rule).1 hrule
    obtain ⟨u, hu⟩ := hall rule hmem hk
    exact ⟨u, (h.through_iff hmem).2 hu⟩

/-- The entries of the indexes have the standings of the sides. -/
theorem Ready.exists_stands (h : c.Ready family) (side : Side) (k : RuleKey) :
    ∃ o, c.equivalence.Stands c.typeDelta family side k o ∧
      EntryStands c side k ((c.index side).get? k) o := by
  have hindexes := h.index side
  have hcovered := hindexes.covered k
  cases he : (c.index side).get? k with
  | none =>
    rw [he] at hcovered
    exact ⟨none, .silent fun hk => Bool.false_ne_true (hcovered.2 hk), .silent⟩
  | some e =>
    rw [he] at hcovered
    have hkey := hindexes.key k e he
    have hread : ∀ rule ∈ e.rules, ∃ r, c.equivalence.Read side rule r := fun rule hrule =>
      hindexes.readable rule ((hindexes.rules k e he rule).1 hrule).1
    obtain ⟨typesOfEvery, -, hevery⟩ := membershipOfEvery_spec hread
    obtain ⟨typesOfSome, -, hsome⟩ := membershipOfSome_spec hread
    refine ⟨some ⟨e.perms, e.defaults, typesOfEvery, typesOfSome⟩, ?_,
      .speaks hkey rfl rfl hevery hsome⟩
    -- The rules of the entry are those that cover the key.
    simp only [hkey] at hevery hsome
    refine .speaks (hcovered.1 rfl) (hindexes.perms k e he) (hindexes.defaults k e he)
      (fun t => ?_) fun t => (hsome t).trans (h.someThrough_iff he)
    rw [hevery t, h.forall_through_iff he, h.someThrough_iff he]

end Classifier

end PolicyDelta
