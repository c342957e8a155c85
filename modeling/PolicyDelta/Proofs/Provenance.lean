import PolicyDelta.Proofs.Derived

/-! Where a key comes from that only one side has. If the difference of types is that of the two
policies themselves, such a key comes from types exactly if each rule that covers it is inherited: a
type of the key is one that only this side has, or a rule of the other side has the same coverage.
In the second case the key is of a member that an attribute has on this side only, for otherwise
the rule of the other side would cover it there (`Classifier.Derived.covered_other`). -/

namespace PolicyDelta

/-- The types that only a side has. -/
def TypeDelta.ownTypes (d : TypeDelta) : Side → NameSet
  | .base => d.removedTypes
  | .modified => d.addedTypes

namespace Side

/-- The form of a change of types by which a side has a key that the other has not. -/
def typeForm : Side → ChangeForm
  | base => .removeType
  | modified => .addType

/-- The form of a change of rules by which a side has a key that the other has not. -/
def ruleForm : Side → ChangeForm
  | base => .removed
  | modified => .added

theorem typeForm_ne_ruleForm (side : Side) : side.typeForm ≠ side.ruleForm := by
  cases side <;> decide

end Side

/-- Rules of one kind are of one family. -/
theorem Rule.family_eq_of_kind {r r' : Rule} (h : r.kind = r'.kind) : r.family = r'.family := by
  have hdisjoint (x : AvFlavor) (y : TeFlavor) : x.name ≠ y.name := by
    cases x <;> cases y <;> decide
  cases r <;> cases r'
  · rfl
  · exact absurd h (hdisjoint _ _)
  · exact absurd h.symm (hdisjoint _ _)
  · rfl

namespace Equivalence

/-- Some rule of the other side has the same coverage. -/
def SaidByOther (eq : Equivalence) (side : Side) (rule : Rule) : Prop :=
  ∃ family, ∃ rule' ∈ eq.rules family side.other, ∃ v,
    eq.coverageOf side rule = .ok v ∧ eq.coverageOf side.other rule' = .ok v

/-- A rule that covers a key is inherited there if only its side has a type of the key or if some
rule of the other side has the same coverage. -/
def Inherited (eq : Equivalence) (d : TypeDelta) (side : Side) (rule : Rule) (k : RuleKey) : Prop :=
  k.source ∈ d.ownTypes side ∨ k.target ∈ d.ownTypes side ∨ eq.SaidByOther side rule

/-- The form of a change at a key that only one side has tells where the key comes from: from types
if every rule that covers it is inherited, otherwise from rules. -/
structure TellsOrigin (eq : Equivalence) (d : TypeDelta) (family : RuleFamily) (side : Side)
    (k : RuleKey) (form : ChangeForm) : Prop where
  form_eq : form = side.typeForm ∨ form = side.ruleForm
  typeForm_iff : form = side.typeForm ↔
    ∀ rule ∈ eq.rules family side, eq.Covers side rule k → eq.Inherited d side rule k

theorem family_of_mem {eq : Equivalence} {family : RuleFamily} {side : Side} {rule : Rule}
    (h : rule ∈ eq.rules family side) : rule.family = family := by
  cases family <;> obtain ⟨r, -, rfl⟩ := List.mem_map.1 h <;> rfl

/-- A rule with the same coverage is of the same family. -/
theorem SaidByOther.exists_rule {eq : Equivalence} {family : RuleFamily} {side : Side} {rule : Rule}
    (h : eq.SaidByOther side rule) (hrule : rule ∈ eq.rules family side) :
    ∃ rule' ∈ eq.rules family side.other, ∃ v,
      eq.coverageOf side rule = .ok v ∧ eq.coverageOf side.other rule' = .ok v := by
  obtain ⟨family', rule', hrule', v, hv, hv'⟩ := h
  have hkind : rule'.kind = rule.kind := by
    obtain ⟨-, -, hframe⟩ := coverageOf_eq_ok hv
    obtain ⟨-, -, hframe'⟩ := coverageOf_eq_ok hv'
    exact congrArg Frame.kind (hframe'.trans hframe.symm)
  obtain rfl : family' = family := by
    rw [← family_of_mem hrule', ← family_of_mem hrule]
    exact Rule.family_eq_of_kind hkind
  exact ⟨rule', hrule', v, hv, hv'⟩

end Equivalence

namespace Classifier

variable {c : Classifier} {side : Side} {rule : Rule} {key : RuleKey}

theorem freshTypes_eq (c : Classifier) (side : Side) :
    c.freshTypes side = c.typeDelta.ownTypes side := by
  cases side <;> rfl

theorem exists_newType : (∃ u, c.Finds side rule key .newType u) ↔
    key.source ∈ c.freshTypes side ∨
      rule.head.target ≠ selfTarget ∧ key.target ∈ c.freshTypes side := by
  simp only [Finds, freshness_newType, endpoints]
  by_cases hself : rule.head.target = selfTarget
  · simp [hself]
  · simp [hself, or_and_right, exists_or]

theorem exists_through : (∃ u, c.Through side rule key u) ↔
    (∃ u, c.Finds side rule key .newType u) ∨ (∃ u, c.Finds side rule key .newMember u) ∧
      ∃ v ∈ (c.index side.other).coverage, c.equivalence.coverageOf side rule = .ok v := by
  unfold Through
  constructor
  · rintro ⟨u, hu | ⟨hu, hnew | hv⟩⟩
    · exact .inl ⟨u, hu⟩
    · exact .inl hnew
    · exact .inr ⟨⟨u, hu⟩, hv⟩
  · rintro (⟨u, hu⟩ | ⟨⟨u, hu⟩, hv⟩)
    · exact ⟨u, .inl hu⟩
    · exact ⟨u, .inr ⟨hu, .inr hv⟩⟩

/-! ## Inherited rules -/

/-- The classifier of a family whose difference of types is that of the two policies themselves. -/
structure Derived (c : Classifier) (family : RuleFamily) : Prop extends c.Ready family where
  plain : c.equivalence.Plain
  mem_freshMembers : ∀ a side t, t ∈ c.freshMembers a side ↔
    t ∈ c.equivalence.members side a ∧ t ∉ c.equivalence.members side.other a

variable {family : RuleFamily}

theorem Ready.index (h : c.Ready family) (side : Side) :
    (c.index side).Indexes c.equivalence family side := by
  cases side with
  | base => exact h.base
  | modified => exact h.modified

/-- An attribute through which a rule covers a key has the type of the key on both sides, unless the
type or the member is new. -/
theorem Derived.mem_members_other (h : c.Derived family) {r : RuleReading} {n t : String}
    (hread : c.equivalence.Read side rule r) (hp : (n, t) ∈ endpoints rule key)
    (hkind : (c.equivalence.scope side).kindOf n = .ok .attributeName)
    (hreaches : c.equivalence.Reaches side n t)
    (hnoType : ¬∃ u, c.Finds side rule key .newType u)
    (hnoMember : ¬∃ u, c.Finds side rule key .newMember u) :
    t ∈ c.equivalence.members side.other n := by
  have hmember := (Equivalence.reaches_of_attribute hkind (endpoints_known hread hp)).1 hreaches
  refine Classical.byContradiction fun hother => hnoMember ?_
  have hfresh := (h.mem_freshMembers n side t).2 ⟨hmember, hother⟩
  have hold : t ∉ c.freshTypes side := fun hnew =>
    hnoType ⟨t, (n, t), hp, rfl, freshness_newType.2 hnew⟩
  exact ⟨t, (n, t), hp, rfl, freshness_newMember.2 ⟨hold, hkind, hfresh⟩⟩

/-- A rule of the other side with the coverage of a rule covers the keys of this rule too, unless
this rule covers them through a type or a member that only its side has. -/
theorem Derived.covered_other (h : c.Derived family)
    (hrule : rule ∈ c.equivalence.rules family side) (hk : c.equivalence.Covers side rule key)
    (hsaid : c.equivalence.SaidByOther side rule)
    (hnoType : ¬∃ u, c.Finds side rule key .newType u)
    (hnoMember : ¬∃ u, c.Finds side rule key .newMember u) :
    c.equivalence.Covered family side.other key := by
  obtain ⟨rule', hrule', v, hv, hv'⟩ := hsaid.exists_rule hrule
  obtain ⟨r, hread⟩ := (h.index side).readable rule hrule
  obtain ⟨r', hread'⟩ := (h.index side.other).readable rule' hrule'
  obtain ⟨hsource, htarget, -⟩ := Equivalence.covers_iff.1 hk
  -- Both rules are written alike, so only a new type or member could keep them apart.
  refine ⟨rule', hrule', hk.other h.plain hread hread' hv hv' (fun hattribute => ?_)
    fun hself hattribute => ?_⟩
  · have hp : (rule.head.source, key.source) ∈ endpoints rule key := List.mem_cons_self
    exact h.mem_members_other hread hp hattribute hsource hnoType hnoMember
  · have hp : (rule.head.target, key.target) ∈ endpoints rule key := by simp [endpoints, hself]
    rw [if_neg hself] at htarget
    exact h.mem_members_other hread hp hattribute htarget hnoType hnoMember

/-- A rule covers a key of its side only through types exactly if it is inherited there. -/
theorem Derived.exists_through_iff (h : c.Derived family)
    (hrule : rule ∈ c.equivalence.rules family side) (hk : c.equivalence.Covers side rule key)
    (hother : ¬c.equivalence.Covered family side.other key) :
    (∃ u, c.Through side rule key u) ↔ c.equivalence.Inherited c.typeDelta side rule key := by
  rw [exists_through]
  constructor
  · rintro (hnew | ⟨-, v, hmem, hv⟩)
    · rw [exists_newType, freshTypes_eq] at hnew
      exact hnew.imp id fun htarget => .inl htarget.2
    · obtain ⟨rule', hrule', hv'⟩ := ((h.index side.other).coverage v).1 hmem
      exact .inr (.inr ⟨family, rule', hrule', v, hv, hv'⟩)
  · intro hinherited
    by_cases hnew : ∃ u, c.Finds side rule key .newType u
    · exact .inl hnew
    have hsaid : c.equivalence.SaidByOther side rule := by
      rw [exists_newType, freshTypes_eq, not_or, not_and] at hnew
      obtain ⟨-, htarget, -⟩ := Equivalence.covers_iff.1 hk
      refine (hinherited.resolve_left hnew.1).resolve_left fun hmem => ?_
      by_cases hself : rule.head.target = selfTarget
      · rw [if_pos hself] at htarget
        exact hnew.1 (htarget ▸ hmem)
      · exact hnew.2 hself hmem
    -- Without a new member either, the rule of the other side would cover the key there.
    refine .inr ⟨Classical.byContradiction fun hnoMember => ?_, ?_⟩
    · exact hother (h.covered_other hrule hk hsaid hnew hnoMember)
    · obtain ⟨rule', hrule', v, hv, hv'⟩ := hsaid.exists_rule hrule
      exact ⟨v, ((h.index side.other).coverage v).2 ⟨rule', hrule', hv'⟩, hv⟩

/-! ## Keys of one side -/

theorem EveryThrough.ne_empty_iff {e : IndexEntry} {types : NameSet}
    (h : c.EveryThrough side e types) (hne : ∃ rule, rule ∈ e.rules) :
    types ≠ ∅ ↔ ∀ rule ∈ e.rules, ∃ u, c.Through side rule e.key u := by
  rw [ne_eq, Std.ExtTreeSet.eq_empty_iff_forall_not_mem, Classical.not_forall_not]
  constructor
  · rintro ⟨t, ht⟩
    exact ((h t).1 ht).1
  · intro hevery
    obtain ⟨rule, hrule⟩ := hne
    obtain ⟨u, hu⟩ := hevery rule hrule
    exact ⟨u, (h u).2 ⟨hevery, rule, hrule, hu⟩⟩

variable {b m : Option IndexEntry} {found : Option Change}

/-- The row of a key that one side has only. -/
theorem Row.oneSided {e : IndexEntry} (h : c.Row key b m found) (he : entryOf b m side = some e)
    (hother : entryOf b m side.other = none) :
    ∃ ch types, found = some ch ∧ c.EveryThrough side e types ∧
      (types = ∅ ∧ ch.form = side.ruleForm ∨ types ≠ ∅ ∧ ch.form = side.typeForm) := by
  cases side with
  | base =>
    change b = some e at he
    change m = none at hother
    subst he hother
    cases h with
    | removed hevery => exact ⟨_, _, rfl, hevery, .inl ⟨rfl, change_form ..⟩⟩
    | removeType hevery hne => exact ⟨_, _, rfl, hevery, .inr ⟨hne, change_form ..⟩⟩
  | modified =>
    change m = some e at he
    change b = none at hother
    subst he hother
    cases h with
    | added hevery => exact ⟨_, _, rfl, hevery, .inl ⟨rfl, change_form ..⟩⟩
    | addType hevery hne => exact ⟨_, _, rfl, hevery, .inr ⟨hne, change_form ..⟩⟩

/-- Only a key of one side is added or removed. -/
theorem Row.entries_of_ruleForm {ch : Change} (h : c.Row key b m (some ch))
    (hform : ch.form = side.ruleForm) :
    (entryOf b m side).isSome ∧ entryOf b m side.other = none := by
  cases h <;> cases side <;>
    simp [change_form, Side.ruleForm, Side.other, entryOf] at hform ⊢

theorem entryOf_get? (c : Classifier) (side : Side) (key : RuleKey) :
    entryOf (c.base.get? key) (c.modified.get? key) side = (c.index side).get? key := by
  cases side <;> rfl

/-- The form of the change at a key that only one side has tells where the key comes from. -/
theorem Derived.oneSided (h : c.Derived family)
    (hrow : c.Row key (c.base.get? key) (c.modified.get? key) found)
    (hk : c.equivalence.Covered family side key)
    (hother : ¬c.equivalence.Covered family side.other key) : ∃ ch, found = some ch ∧
      c.equivalence.TellsOrigin c.typeDelta family side key ch.form := by
  obtain ⟨e, he⟩ := Option.isSome_iff_exists.1 (((h.index side).covered key).2 hk)
  have hnone : (c.index side.other).get? key = none :=
    Option.not_isSome_iff_eq_none.1 (mt ((h.index side.other).covered key).1 hother)
  obtain ⟨ch, types, rfl, hevery, hform⟩ := hrow.oneSided ((c.entryOf_get? side key).trans he)
    ((c.entryOf_get? side.other key).trans hnone)
  have hrules := (h.index side).rules key e he
  obtain ⟨rule, hrule, hcovers⟩ := hk
  have hne := hevery.ne_empty_iff ⟨rule, (hrules rule).2 ⟨hrule, hcovers⟩⟩
  rw [(h.index side).key key e he] at hne
  have hinherited : types ≠ ∅ ↔ ∀ rule ∈ c.equivalence.rules family side,
      c.equivalence.Covers side rule key → c.equivalence.Inherited c.typeDelta side rule key := by
    rw [hne]
    constructor
    · intro hall rule hrule hcovers
      have hthrough := hall rule ((hrules rule).2 ⟨hrule, hcovers⟩)
      exact (h.exists_through_iff hrule hcovers hother).1 hthrough
    · intro hall rule hmem
      obtain ⟨hrule, hcovers⟩ := (hrules rule).1 hmem
      exact (h.exists_through_iff hrule hcovers hother).2 (hall rule hrule hcovers)
  refine ⟨ch, rfl, hform.symm.imp And.right And.right, ?_⟩
  rw [← hinherited]
  rcases hform with ⟨hempty, hform⟩ | ⟨hne, hform⟩
  · rw [hform]
    exact ⟨fun h => absurd h.symm side.typeForm_ne_ruleForm, fun h => absurd hempty h⟩
  · exact ⟨fun _ => hne, fun _ => hform⟩

/-- If the coverage of every rule of a side occurs on the other side, no change of rules arises from
this side alone. -/
theorem Derived.form_ne_ruleForm (h : c.Derived family) {ch : Change}
    (hsaid : ∀ rule ∈ c.equivalence.rules family side, c.equivalence.SaidByOther side rule)
    (hrow : c.Row key (c.base.get? key) (c.modified.get? key) (some ch)) :
    ch.form ≠ side.ruleForm := by
  intro hform
  obtain ⟨hsome, hnone⟩ := hrow.entries_of_ruleForm hform
  rw [entryOf_get?] at hsome hnone
  have hother : ¬c.equivalence.Covered family side.other key := by
    rw [← (h.index side.other).covered, hnone]
    exact Bool.false_ne_true
  obtain ⟨ch', hch, horigin⟩ := h.oneSided hrow (((h.index side).covered key).1 hsome) hother
  cases hch
  have htype := horigin.typeForm_iff.2 fun rule hrule _ => .inr (.inr (hsaid rule hrule))
  exact side.typeForm_ne_ruleForm (htype.symm.trans hform)

end Classifier

namespace Session

variable {base modified : Policy} {renames : Renames} {workers : Int} {s : Session}

theorem Built.derived {index : RuleFamily → Side → RuleIndex}
    (h : Built base modified (.between base modified renames) s index)
    (hbase : base.PlainNames) (hmodified : modified.PlainNames) (family : RuleFamily) :
    (classifierOf (.derived base modified renames) (.between base modified renames) index
      family).Derived family where
  toReady := classifierOf_ready h.indexes family
  plain := by
    refine ⟨fun side => ?_, fun p hp => ?_⟩
    · cases side with
      | base => exact hbase
      | modified => exact hmodified
    · exact (Equivalence.types_of_checkRenames h.renames p hp).2
  mem_freshMembers a side t := Classifier.mem_freshMembers

/-- With the difference of types that two policies have themselves, and plain names, the form of the
change at a key that only one side has tells where the key comes from. So if the coverage of every
rule occurs on both sides, no rule is added or removed. -/
theorem changes_tell_origin (hbase : base.PlainNames) (hmodified : modified.PlainNames)
    (h : (build base modified (.between base modified renames) workers).1 = .ok s) :
    (∀ family, ∃ changes, s.changes family = .ok changes ∧ ∀ side k,
      (Equivalence.derived base modified renames).Covered family side k →
      ¬(Equivalence.derived base modified renames).Covered family side.other k →
      ∃ ch, changes.filter (·.key = k) = [ch] ∧
        (Equivalence.derived base modified renames).TellsOrigin (.between base modified renames)
          family side k ch.form) ∧
    ((∀ family side, ∀ rule ∈ (Equivalence.derived base modified renames).rules family side,
        (Equivalence.derived base modified renames).SaidByOther side rule) →
      ∀ family changes, s.changes family = .ok changes →
        ∀ ch ∈ changes, ch.form ≠ .added ∧ ch.form ≠ .removed) := by
  obtain ⟨index, hbuilt⟩ := exists_built h
  have hderived := hbuilt.derived hbase hmodified
  refine ⟨fun family => ?_, fun hsaid family changes hchanges ch hch => ?_⟩
  · obtain ⟨changes, hchanges, hrow⟩ := hbuilt.changes family
    refine ⟨changes, hchanges, fun side k hk hother => ?_⟩
    obtain ⟨found, hfound, hrow⟩ := hrow k
    obtain ⟨ch, rfl, horigin⟩ := (hderived family).oneSided hrow hk hother
    exact ⟨ch, hfound, horigin⟩
  · obtain ⟨changes', hchanges', hrow⟩ := hbuilt.changes family
    obtain rfl : changes = changes' := Except.ok.inj (hchanges.symm.trans hchanges')
    obtain ⟨found, hfound, hrow⟩ := hrow ch.key
    have hmem : ch ∈ found.toList := by
      rw [← hfound]
      simpa using hch
    obtain rfl := Option.mem_toList.1 hmem
    exact ⟨(hderived family).form_ne_ruleForm (hsaid family .modified) hrow,
      (hderived family).form_ne_ruleForm (hsaid family .base) hrow⟩

theorem changes_tell_origin_sample :
    ∃ s, (build Sample.before Sample.after Sample.delta 2).1 = .ok s ∧
      Sample.forms .av s = some [.addType, .modified, .added] ∧
      ∀ family, ∃ changes, s.changes family = .ok changes ∧ ∀ side k,
        (Equivalence.derived Sample.before Sample.after ∅).Covered family side k →
        ¬(Equivalence.derived Sample.before Sample.after ∅).Covered family side.other k →
        ∃ ch, changes.filter (·.key = k) = [ch] ∧
          (Equivalence.derived Sample.before Sample.after ∅).TellsOrigin Sample.delta family side k
            ch.form := by
  obtain ⟨s, hs, hforms, -⟩ := Sample.exists_session
  have hbefore : Sample.before.PlainNames := by decide +kernel
  have hafter : Sample.after.PlainNames := by decide +kernel
  exact ⟨s, hs, hforms, (changes_tell_origin hbefore hafter hs).1⟩

end Session

end PolicyDelta
