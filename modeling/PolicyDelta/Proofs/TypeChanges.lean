import PolicyDelta.Proofs.Alike
import PolicyDelta.Proofs.Lines

/-! Changes of types are truthful. The types that a change lists come from what a side has only: a
type of its own, or a type that an attribute of a rule has as a member there and not on the other
side (`Equivalence.Justifies`). A new member counts if the rule is known on the other side or if the
type at the other end of the key is new, and at a key of both sides in the first case only. -/

namespace PolicyDelta

/-- A rule names `n` at the end of a key where the type `t` stands; at its other end stands `u`. A
target `self` names nothing. -/
inductive Rule.Names (rule : Rule) (k : RuleKey) : String → String → String → Prop where
  | source : Names rule k rule.head.source k.source k.target
  | target (hself : rule.head.target ≠ selfTarget) :
    Names rule k rule.head.target k.target k.source

namespace Equivalence

/-- The canonical names of the types of a side. -/
def canonicalTypes (eq : Equivalence) (side : Side) : NameSet :=
  (eq.scope side).policy.types.map (eq.canonicalName side)

/-- Only one side has a type of a canonical name. -/
def OnlyType (eq : Equivalence) (side : Side) (t : String) : Prop :=
  t ∈ eq.canonicalTypes side ∧ t ∉ eq.canonicalTypes side.other

/-- A rule that covers a key names an attribute at one of its ends, and the attribute has the type
there as a member on this side only. -/
structure Gains (eq : Equivalence) (family : RuleFamily) (side : Side) (rule : Rule) (k : RuleKey)
    (t u : String) : Prop where
  rule_mem : rule ∈ eq.rules family side
  covers : eq.Covers side rule k
  member : ∃ a, rule.Names k a t u ∧ (eq.scope side).kindOf a = .ok .attributeName ∧
    t ∈ eq.members side a ∧ t ∉ eq.members side.other a

/-- Why a side has a key through a type. -/
inductive Justifies (eq : Equivalence) (family : RuleFamily) (side : Side) (k : RuleKey)
    (t : String) : Prop where
  | newType (ht : eq.OnlyType side t)
  | newMember (hgains : eq.Gains family side rule k t u)
    (hwhy : eq.SaidByOther side rule ∨ eq.OnlyType side u)

end Equivalence

/-- A change lists types exactly if it is a change of types; they stand in its key, in order, and
each has its reason. At a key of both sides no type is new, and the rule is known on the other
side. -/
structure Change.Truthful (c : Change) (eq : Equivalence) (family : RuleFamily) : Prop where
  types_iff : c.head.membershipTypes ≠ [] ↔ c.form = .addType ∨ c.form = .removeType
  ordered : Ordered c.head.membershipTypes
  ends : ∀ t ∈ c.head.membershipTypes, t = c.key.source ∨ t = c.key.target
  justified : ∀ side, c.form = side.typeForm → ∀ t ∈ c.head.membershipTypes,
    eq.Justifies family side c.key t
  shared : (∀ side, eq.Covered family side c.key) → ∀ t ∈ c.head.membershipTypes,
    (∀ side, ¬eq.OnlyType side t) ∧ ∀ side, c.form = side.typeForm →
      ∃ rule u, eq.Gains family side rule c.key t u ∧ eq.SaidByOther side rule

/-! ## Types and members of one side -/

section

variable {base modified : Policy} {renames : Renames} {side : Side} {a t : String}

theorem TypeDelta.mem_ownTypes : t ∈ (between base modified renames).ownTypes side ↔
    (Equivalence.derived base modified renames).OnlyType side t := by
  have hbase : t ∈ (Equivalence.derived base modified renames).canonicalTypes .base ↔
      t ∈ base.types.map renames.canonical := Iff.rfl
  have hmodified : t ∈ (Equivalence.derived base modified renames).canonicalTypes .modified ↔
      t ∈ modified.types := by
    simp only [Equivalence.canonicalTypes, NameSet.mem_map, Equivalence.canonicalName, id,
      exists_eq_right]
    rfl
  rw [Equivalence.OnlyType]
  cases side with
  | base =>
    rw [Side.other, hbase, hmodified]
    exact Std.ExtTreeSet.mem_diff_iff
  | modified =>
    rw [Side.other, hbase, hmodified]
    exact Std.ExtTreeSet.mem_diff_iff

theorem TypeDelta.mem_ownMembers : t ∈ (between base modified renames).ownMembers a side ↔
    t ∈ (Equivalence.derived base modified renames).members side a ∧
      t ∉ (Equivalence.derived base modified renames).members side.other a := by
  cases side with
  | base =>
    rw [Equivalence.members_base, Side.other, Equivalence.members_modified]
    exact mem_attributeRemoved
  | modified =>
    rw [Equivalence.members_modified, Side.other, Equivalence.members_base]
    exact mem_attributeAdded

end

/-! ## Reasons of a rule -/

variable {eq : Equivalence} {d : TypeDelta} {family : RuleFamily} {side : Side} {rule : Rule}
  {k : RuleKey} {n m t u v w : String}

theorem Rule.mem_endpoints_iff :
    (n, t) ∈ Classifier.endpoints rule k ↔ ∃ u, rule.Names k n t u := by
  rw [Classifier.mem_endpoints]
  constructor
  · rintro (⟨rfl, rfl⟩ | ⟨hself, rfl, rfl⟩)
    · exact ⟨_, .source⟩
    · exact ⟨_, .target hself⟩
  · rintro ⟨u, h⟩
    cases h with
    | source => exact .inl ⟨rfl, rfl⟩
    | target hself => exact .inr ⟨hself, rfl, rfl⟩

theorem Rule.Names.ends (h : rule.Names k n t u) :
    (t = k.source ∨ t = k.target) ∧ (u = k.source ∨ u = k.target) := by
  cases h <;> simp

/-- There is no third type in a key. -/
theorem Rule.Names.eq_or_eq (h : rule.Names k n t u) (h' : rule.Names k m v w) :
    v = t ∨ v = u := by
  cases h <;> cases h' <;> simp

namespace Equivalence

/-- The types of a key that a rule of a side covers are types of this side. -/
theorem Covered.mem_canonicalTypes (h : eq.Covered family side k) :
    k.source ∈ eq.canonicalTypes side ∧ k.target ∈ eq.canonicalTypes side := by
  have htype {n t : String} (ht : eq.canonicalType side n = .ok t) :
      t ∈ eq.canonicalTypes side := by
    obtain ⟨hn, rfl⟩ := canonicalType_eq_ok.1 ht
    exact NameSet.mem_map.2 ⟨n, hn, rfl⟩
  obtain ⟨rule, -, source, target, -, hk⟩ := h
  obtain ⟨hsource, htarget, -⟩ := keyOf_eq_ok.1 hk
  exact ⟨htype hsource, htype htarget⟩

theorem Through.ends (h : eq.Through d side rule k t) : t = k.source ∨ t = k.target := by
  have hnames : ∃ n, (n, t) ∈ Classifier.endpoints rule k := by
    rcases h with ⟨-, hn⟩ | ⟨⟨-, n, hn, -⟩, -⟩
    · exact hn
    · exact ⟨n, hn⟩
  obtain ⟨n, hn⟩ := hnames
  obtain ⟨u, hnames⟩ := Rule.mem_endpoints_iff.1 hn
  exact hnames.ends.1

/-- No type of a key of both sides is on one side only. -/
theorem not_onlyType (hcovered : ∀ side, eq.Covered family side k)
    (ht : t = k.source ∨ t = k.target) : ¬eq.OnlyType side t := by
  obtain ⟨hsource, htarget⟩ := (hcovered side.other).mem_canonicalTypes
  rintro ⟨-, hother⟩
  rcases ht with rfl | rfl
  · exact hother hsource
  · exact hother htarget

variable {base modified : Policy} {renames : Renames}

/-- A type through which a rule covers a key on its side only is new, or a new member of an
attribute beside a type that is new or in a rule that the other side knows. -/
theorem Through.cases_reason
    (h : (derived base modified renames).Through (.between base modified renames) side rule k t)
    (hrule : rule ∈ (derived base modified renames).rules family side)
    (hk : (derived base modified renames).Covers side rule k) :
    (derived base modified renames).OnlyType side t ∨
      ∃ u, (derived base modified renames).Gains family side rule k t u ∧
        ((derived base modified renames).SaidByOther side rule ∨
          (derived base modified renames).OnlyType side u) := by
  rcases h with ⟨ht, -⟩ | ⟨⟨ht, n, hn, hkind, hmember⟩, hwhy⟩
  · exact .inl (TypeDelta.mem_ownTypes.1 ht)
  obtain ⟨u, hnames⟩ := Rule.mem_endpoints_iff.1 hn
  have hgains : (derived base modified renames).Gains family side rule k t u :=
    ⟨hrule, hk, n, hnames, hkind, TypeDelta.mem_ownMembers.1 hmember⟩
  rcases hwhy with ⟨v, hv, m, hm⟩ | hsaid
  · -- The member itself is not new as a type, so the new type stands at the other end.
    obtain ⟨w, hnames'⟩ := Rule.mem_endpoints_iff.1 hm
    obtain rfl : v = u := (hnames.eq_or_eq hnames').resolve_left fun heq => ht (heq ▸ hv)
    exact .inr ⟨v, hgains, .inr (TypeDelta.mem_ownTypes.1 hv)⟩
  · exact .inr ⟨u, hgains, .inl hsaid⟩

end Equivalence

/-! ## Reasons of a change -/

theorem Side.exists_typeForm_iff {form : ChangeForm} :
    (∃ side : Side, form = side.typeForm) ↔ form = .addType ∨ form = .removeType := by
  constructor
  · rintro ⟨_ | _, rfl⟩
    · exact .inr rfl
    · exact .inl rfl
  · rintro (rfl | rfl)
    · exact ⟨.modified, rfl⟩
    · exact ⟨.base, rfl⟩

theorem Side.typeForm_injective {x y : Side} (h : x.typeForm = y.typeForm) : x = y := by
  cases x <;> cases y <;> first | rfl | exact absurd h (by decide)

namespace Classifier

variable {c : Classifier} {b m : Option IndexEntry} {ch : Change}

/-- What there is to know of the types of a change: it is no change of types and has none, or it is
due to an entry of its side, and each of its types to a rule of this entry. -/
inductive TypesFrom (c : Classifier) (b m : Option IndexEntry) (ch : Change) : Prop where
  | nowhere (htypes : ch.head.membershipTypes = [])
    (hform : ∀ side : Side, ch.form ≠ side.typeForm)
  | entry {side : Side} (hform : ch.form = side.typeForm) (hentry : entryOf b m side = some e)
    (htypes : ch.head.membershipTypes ≠ []) (hordered : Ordered ch.head.membershipTypes)
    (hthrough : ∀ t ∈ ch.head.membershipTypes, ∃ rule ∈ e.rules, c.Through side rule e.key t)

theorem typesFrom_change (side : Side) {form : ChangeForm} {key : RuleKey} {types : NameSet}
    {e : IndexEntry} (hform : form = side.typeForm) (hentry : entryOf b m side = some e)
    (hne : types ≠ ∅)
    (hthrough : ∀ t ∈ types, ∃ rule ∈ e.rules, c.Through side rule e.key t) :
    c.TypesFrom b m (c.change form key b m types) := by
  have htypes : (c.change form key b m types).head.membershipTypes = types.toList :=
    change_types form types
  refine .entry ((change_form ..).trans hform) hentry ?_ ?_ ?_
  · rw [htypes]
    exact NameSet.toList_ne_nil hne
  · rw [htypes]
    exact NameSet.ordered_toList types
  · intro t ht
    rw [htypes, Std.ExtTreeSet.mem_toList] at ht
    exact hthrough t ht

theorem Row.typesFrom (h : c.Row k b m (some ch)) : c.TypesFrom b m ch := by
  cases h with
  | added | removed | modified =>
    refine .nowhere (by rw [change_types]; rfl) fun side => ?_
    rw [change_form]
    cases side <;> decide
  | addType hevery hne =>
    exact typesFrom_change .modified rfl rfl hne fun t ht => ((hevery t).1 ht).2
  | removeType hevery hne =>
    exact typesFrom_change .base rfl rfl hne fun t ht => ((hevery t).1 ht).2
  | gained _ hgained hne =>
    exact typesFrom_change .modified rfl rfl hne fun t ht => (hgained t).1 ht
  | lost _ _ hlost hne =>
    exact typesFrom_change .base rfl rfl hne fun t ht => (hlost t).1 ht

/-- In indexes of policies each type of a change is due to a rule of its side that covers the
key. -/
theorem Ready.exists_rule (h : c.Ready family) {e : IndexEntry}
    (he : entryOf (c.base.get? k) (c.modified.get? k) side = some e)
    (ht : ∃ rule ∈ e.rules, c.Through side rule e.key t) :
    ∃ rule ∈ c.equivalence.rules family side, c.equivalence.Covers side rule k ∧
      c.equivalence.Through c.typeDelta side rule k t := by
  rw [entryOf_get?] at he
  rw [(h.index side).key k e he, h.someThrough_iff he] at ht
  exact ht

end Classifier

namespace Session

variable {base modified : Policy} {renames : Renames} {workers : Int} {s : Session}

theorem Built.truthful {index : RuleFamily → Side → RuleIndex}
    (h : Built base modified (.between base modified renames) s index) {family : RuleFamily}
    {changes : List Change} (hchanges : s.changes family = .ok changes) {c : Change}
    (hc : c ∈ changes) : c.Truthful (.derived base modified renames) family := by
  cases (h.row_of_mem hchanges hc).typesFrom with
  | nowhere hnil hform =>
    have hnone : ¬∃ side : Side, c.form = side.typeForm := not_exists.2 hform
    exact {
      types_iff := by simp [hnil, ← Side.exists_typeForm_iff, hnone]
      ordered := hnil ▸ .nil
      ends := by simp [hnil]
      justified := by simp [hnil]
      shared := by simp [hnil] }
  | @entry e side hform hentry htypes hordered hthrough =>
    have hready := classifierOf_ready h.indexes family
    have hrule t ht := hready.exists_rule hentry (hthrough t ht)
    refine {
      types_iff := by simp [htypes, ← Side.exists_typeForm_iff, hform]
      ordered := hordered
      ends := fun t ht => ?_
      justified := fun side' hform' t ht => ?_
      shared := fun hcovered t ht => ?_ }
    · obtain ⟨rule, -, -, hthrough⟩ := hrule t ht
      exact hthrough.ends
    · obtain rfl := Side.typeForm_injective (hform.symm.trans hform')
      obtain ⟨rule, hmem, hk, hthrough⟩ := hrule t ht
      rcases hthrough.cases_reason hmem hk with hnew | ⟨u, hgains, hwhy⟩
      · exact .newType hnew
      · exact .newMember hgains hwhy
    · obtain ⟨rule, hmem, hk, hthrough⟩ := hrule t ht
      have hold (side : Side) : ¬Equivalence.OnlyType _ side t :=
        Equivalence.not_onlyType hcovered hthrough.ends
      refine ⟨hold, fun side' hform' => ?_⟩
      obtain rfl := Side.typeForm_injective (hform.symm.trans hform')
      obtain ⟨u, hgains, hwhy⟩ := (hthrough.cases_reason hmem hk).resolve_left (hold side)
      obtain ⟨a, hnames, -⟩ := hgains.member
      exact ⟨rule, u, hgains,
        hwhy.resolve_right (Equivalence.not_onlyType hcovered hnames.ends.2)⟩

/-- With the difference of types that two policies have themselves, the changes of a session are
truthful about types. -/
theorem changes_truthful
    (h : (build base modified (.between base modified renames) workers).1 = .ok s)
    (family : RuleFamily) : ∃ changes, s.changes family = .ok changes ∧
      ∀ c ∈ changes, c.Truthful (.derived base modified renames) family := by
  obtain ⟨index, hbuilt⟩ := exists_built h
  obtain ⟨changes, hchanges, -⟩ := hbuilt.changes family
  exact ⟨changes, hchanges, fun c hc => hbuilt.truthful hchanges hc⟩

/-- The log is listed where it was before too, since it is data now. -/
theorem changes_truthful_sample : ∃ s changes,
    (build Sample.logInFile Sample.logInData Sample.moveDelta 1).1 = .ok s ∧
      s.changes .av = .ok changes ∧
      changes.map (fun c => (c.form, c.head.membershipTypes)) =
        [(.removed, []), (.addType, ["log"])] ∧
      ∀ c ∈ changes, c.Truthful (.derived Sample.logInFile Sample.logInData ∅) .av := by
  have hlisted : (build Sample.logInFile Sample.logInData Sample.moveDelta 1).1.toOption.map
      (fun s => (s.changes .av).toOption.map fun changes =>
        changes.map fun c => (c.form, c.head.membershipTypes)) =
      some (some [(.removed, []), (.addType, ["log"])]) := by
    decide +kernel
  obtain ⟨s, hs, hlisted⟩ := exists_ok_of_map hlisted
  obtain ⟨changes, hchanges, htruthful⟩ := changes_truthful hs .av
  refine ⟨s, changes, hs, hchanges, ?_, htruthful⟩
  rw [hchanges] at hlisted
  exact Option.some.inj hlisted

end Session

end PolicyDelta
