import PolicyDelta.Proofs.Alike

/-! Adding a rule has a local effect (`Session.build_append`). At a key that the rule does not cover
its own side stands as before. The other side may only gain types through which it covers the key,
for rules that had no like may have one now (`Equivalence.Stands.grows`). So of the changes at such
keys only those of the other side's types may come or grow. -/

namespace PolicyDelta

/-- The policy with one more rule. -/
def Policy.append (p : Policy) : Rule → Policy
  | .av r => { p with avRules := p.avRules ++ [r] }
  | .te r => { p with teRules := p.teRules ++ [r] }

theorem Policy.mem_rules_append {p : Policy} {r rule : Rule} {family : RuleFamily} :
    rule ∈ (p.append r).rules family ↔ rule ∈ p.rules family ∨ family = r.family ∧ rule = r := by
  cases r <;> cases family <;>
    simp [append, rules, Rule.family, List.mem_append, eq_comm]

/-! ## Standings that grow -/

/-- A standing with the same content gains types; those of every rule stay if there were any. -/
structure Standing.Grows (st st' : Standing) : Prop where
  perms : st.perms = st'.perms
  defaults : st.defaults = st'.defaults
  ofEvery : st.typesOfEvery = ∅ ∨ st.typesOfEvery = st'.typesOfEvery
  ofSome : ∀ t ∈ st.typesOfSome, t ∈ st'.typesOfSome

theorem Standing.Grows.antisymm {st st' : Standing} (h : st.Grows st') (h' : st'.Grows st) :
    st = st' := by
  have hevery : st.typesOfEvery = st'.typesOfEvery := by
    rcases h.ofEvery with hempty | hsame
    · rcases h'.ofEvery with hempty' | hsame'
      · rw [hempty, hempty']
      · exact hsame'.symm
    · exact hsame
  have hsome : st.typesOfSome = st'.typesOfSome :=
    Std.ExtTreeSet.ext_mem fun t => ⟨h.ofSome t, h'.ofSome t⟩
  exact Standing.ext h.perms h.defaults hevery hsome

namespace Standing

variable {family : RuleFamily} {k : RuleKey} {st st' : Standing}

theorem Grows.said (h : st.Grows st') (family : RuleFamily) : st'.said family = st.said family := by
  cases family with
  | av => exact h.perms.symm
  | te => exact h.defaults.symm

theorem Grows.entry (h : st.Grows st') (k : RuleKey) : st'.entry k = st.entry k := by
  unfold Standing.entry
  rw [h.perms, h.defaults]

theorem Grows.change_base (h : st.Grows st') (form : ChangeForm) (m : Option Standing)
    (types : NameSet) :
    change family form k (some st') m types = change family form k (some st) m types := by
  simp only [change, Option.map_some, h.entry]

theorem Grows.change_modified (h : st.Grows st') (form : ChangeForm) (b : Option Standing)
    (types : NameSet) :
    change family form k b (some st') types = change family form k b (some st) types := by
  simp only [change, Option.map_some, h.entry]

end Standing

namespace Equivalence

/-- At a key a side has the same rules as in another correspondence, in which there are more rules
on the other side. -/
structure ExtendedAt (eq eq' : Equivalence) (family : RuleFamily) (side : Side) (k : RuleKey) :
    Prop where
  names : ∀ side, SameNames eq side eq' side
  readable : ∀ side, ∀ rule ∈ eq.rules family side, eq.Readable side rule
  covering : ∀ rule, rule ∈ eq.rules family side ∧ eq.Covers side rule k ↔
    rule ∈ eq'.rules family side ∧ eq'.Covers side rule k
  more : ∀ rule ∈ eq.rules family side.other, rule ∈ eq'.rules family side.other

variable {eq eq' : Equivalence} {d : TypeDelta} {family : RuleFamily} {side : Side} {k : RuleKey}
  {rule : Rule} {t : String} {o o' : Option Standing} {st st' : Standing}

theorem ExtendedAt.alike (h : ExtendedAt eq eq' family side k)
    (hrule : rule ∈ eq.rules family side) : Alike eq side rule eq' side rule :=
  (h.names side).alike (h.readable side rule hrule)

theorem ExtendedAt.exists_iff (h : ExtendedAt eq eq' family side k) {P P' : Rule → Prop}
    (hP : ∀ rule ∈ eq.rules family side, P rule ↔ P' rule) :
    (∃ rule ∈ eq.rules family side, eq.Covers side rule k ∧ P rule) ↔
      ∃ rule ∈ eq'.rules family side, eq'.Covers side rule k ∧ P' rule := by
  constructor
  · rintro ⟨rule, hrule, hk, hP'⟩
    obtain ⟨hrule', hk'⟩ := (h.covering rule).1 ⟨hrule, hk⟩
    exact ⟨rule, hrule', hk', (hP rule hrule).1 hP'⟩
  · rintro ⟨rule, hrule', hk', hP'⟩
    obtain ⟨hrule, hk⟩ := (h.covering rule).2 ⟨hrule', hk'⟩
    exact ⟨rule, hrule, hk, (hP rule hrule).2 hP'⟩

theorem ExtendedAt.saidByOther (h : ExtendedAt eq eq' family side k)
    (hrule : rule ∈ eq.rules family side) (hsaid : eq.SaidByOther side rule) :
    eq'.SaidByOther side rule := by
  obtain ⟨rule', hrule', v, hv, hv'⟩ := hsaid.exists_rule hrule
  have halike := (h.names side.other).alike (h.readable side.other rule' hrule')
  exact ⟨family, rule', h.more rule' hrule', v, (h.alike hrule).coverageOf ▸ hv,
    halike.coverageOf ▸ hv'⟩

theorem ExtendedAt.through (h : ExtendedAt eq eq' family side k)
    (hrule : rule ∈ eq.rules family side) (ht : eq.Through d side rule k t) :
    eq'.Through d side rule k t := by
  rcases ht with hnew | ⟨hmember, hwhy⟩
  · exact .inl hnew
  · have hmember' := (h.alike hrule).newMember rfl (fun _ => rfl) hmember
    exact .inr ⟨hmember', hwhy.imp_right (h.saidByOther hrule)⟩

/-- A rule that covers the key through some types covers it through no more of them. -/
theorem ExtendedAt.through_iff (h : ExtendedAt eq eq' family side k)
    (hrule : rule ∈ eq.rules family side) (hsome : ∃ u, eq.Through d side rule k u) :
    eq.Through d side rule k t ↔ eq'.Through d side rule k t := by
  refine ⟨h.through hrule, fun ht => ?_⟩
  have hwhy : (∃ u, d.NewType side rule k u) ∨ eq.SaidByOther side rule := by
    obtain ⟨u, hnew | ⟨-, hwhy⟩⟩ := hsome
    · exact .inl ⟨u, hnew⟩
    · exact hwhy
  rcases ht with hnew | ⟨hmember, -⟩
  · exact .inl hnew
  · exact .inr ⟨(h.alike hrule).symm.newMember rfl (fun _ => rfl) hmember, hwhy⟩

theorem ExtendedAt.someThrough (h : ExtendedAt eq eq' family side k)
    (ht : eq.SomeThrough d family side k t) : eq'.SomeThrough d family side k t := by
  obtain ⟨rule, hrule, hk, ht⟩ := ht
  obtain ⟨hrule', hk'⟩ := (h.covering rule).1 ⟨hrule, hk⟩
  exact ⟨rule, hrule', hk', h.through hrule ht⟩

/-- The types of every rule stay, unless there were none. -/
theorem ExtendedAt.typesOfEvery (h : ExtendedAt eq eq' family side k)
    (ho : eq.Stands d family side k (some st)) (ho' : eq'.Stands d family side k (some st')) :
    st.typesOfEvery = ∅ ∨ st.typesOfEvery = st'.typesOfEvery := by
  by_cases hall : ∀ rule ∈ eq.rules family side, eq.Covers side rule k →
      ∃ u, eq.Through d side rule k u
  · have hall' : ∀ rule ∈ eq'.rules family side, eq'.Covers side rule k →
        ∃ u, eq'.Through d side rule k u := by
      intro rule hrule' hk'
      obtain ⟨hrule, hk⟩ := (h.covering rule).2 ⟨hrule', hk'⟩
      obtain ⟨u, hu⟩ := hall rule hrule hk
      exact ⟨u, h.through hrule hu⟩
    have hback (t : String) (ht : eq'.SomeThrough d family side k t) :
        eq.SomeThrough d family side k t := by
      obtain ⟨rule, hrule', hk', ht⟩ := ht
      obtain ⟨hrule, hk⟩ := (h.covering rule).2 ⟨hrule', hk'⟩
      exact ⟨rule, hrule, hk, (h.through_iff hrule (hall rule hrule hk)).2 ht⟩
    -- Every rule has types already, and so no more of them among more rules.
    refine .inr (Std.ExtTreeSet.ext_mem fun t => ?_)
    rw [ho.mem_typesOfEvery, ho'.mem_typesOfEvery]
    exact and_congr (iff_of_true hall hall') ⟨h.someThrough, hback t⟩
  · refine .inl (Std.ExtTreeSet.eq_empty_iff_forall_not_mem.2 fun t ht => ?_)
    exact hall (ho.mem_typesOfEvery.1 ht).1

/-- Among more rules of the other side a standing grows. -/
theorem Stands.grows (h : ExtendedAt eq eq' family side k) (ho : eq.Stands d family side k o)
    (ho' : eq'.Stands d family side k o') : Option.Rel Standing.Grows o o' := by
  have hcovered : eq.Covered family side k ↔ eq'.Covered family side k :=
    exists_congr h.covering
  cases o with
  | none =>
    cases o' with
    | none => exact .none
    | some st' => exact absurd (ho.isSome_iff.2 (hcovered.2 (ho'.isSome_iff.1 rfl))) (by simp)
  | some st =>
    obtain ⟨st', rfl⟩ := Option.isSome_iff_exists.1
      (ho'.isSome_iff.2 (hcovered.1 (ho.isSome_iff.1 rfl)))
    refine .some ⟨Std.ExtTreeSet.ext_mem fun p => ?_, Std.ExtTreeSet.ext_mem fun t => ?_,
      h.typesOfEvery ho ho', fun t ht => ?_⟩
    · rw [ho.mem_perms, ho'.mem_perms]
      exact h.exists_iff fun _ _ => Iff.rfl
    · rw [ho.mem_defaults, ho'.mem_defaults]
      exact h.exists_iff fun rule hrule => by rw [(h.alike hrule).resolvedDefault]
    · exact ho'.mem_typesOfSome.2 (h.someThrough (ho.mem_typesOfSome.1 ht))

/-- With the same rules on both sides a standing is the same. -/
theorem Stands.eq_of_extended (h : ExtendedAt eq eq' family side k)
    (h' : ExtendedAt eq' eq family side k) (ho : eq.Stands d family side k o)
    (ho' : eq'.Stands d family side k o') : o = o' := by
  have hback := ho'.grows h' ho
  cases ho.grows h ho' with
  | none => rfl
  | some hgrows =>
    cases hback with
    | some hgrows' => exact congrArg some (hgrows.antisymm hgrows')

/-! ## Changes that widen -/

/-- What may become of the change at a key if a side has more types through which it covers the
key. -/
inductive Widened (eq : Equivalence) (family : RuleFamily) (side : Side) (k : RuleKey) :
    Option Change → Option Change → Prop where
  | unchanged : Widened eq family side k found found
  /-- A change of rules at a key of this side only becomes one of types. -/
  | inherited {c : Change} (hform : c.form = side.ruleForm) (hne : types ≠ ∅) :
    Widened eq family side k (some c) (some (c.retyped side.typeForm types))
  | appeared {c : Change} (hagreed : eq.Agreed family k) (hform : c.form = side.typeForm) :
    Widened eq family side k none (some c)
  | grown {c : Change} (hagreed : eq.Agreed family k) (hform : c.form = side.typeForm)
    (hmore : ∀ t ∈ c.head.membershipTypes, t ∈ types) :
    Widened eq family side k (some c) (some (c.retyped side.typeForm types))
  /-- The modified side goes first, also if the change was of the other side's types. -/
  | taken {c : Change} (hside : side = .modified) (hagreed : eq.Agreed family k)
    (hform : c.form = .removeType) (hne : types ≠ ∅) :
    Widened eq family side k (some c) (some (c.retyped .addType types))

variable {b b' m m' : Option Standing} {types types' : NameSet}

/-- At a key of one side only. -/
theorem widened_oneSided (hevery : types = ∅ ∨ types = types') :
    Widened eq family side k
      (some (Standing.change family (if types.isEmpty then side.ruleForm else side.typeForm) k b m
        types))
      (some (Standing.change family (if types'.isEmpty then side.ruleForm else side.typeForm) k b m
        types')) := by
  rcases hevery with rfl | rfl
  · by_cases hne : types' = ∅
    · rw [hne]
      exact .unchanged
    · have h : Widened eq family side k (some (Standing.change family side.ruleForm k b m ∅)) _ :=
        .inherited (Standing.form_change ..) hne
      rw [Standing.retyped_change] at h
      simpa [Classifier.isEmpty_eq_false hne] using h
  · exact .unchanged

/-- At a key of both sides with equal content. -/
theorem widened_both (hagreed : eq.Agreed family k) (hmore : ∀ t ∈ types, t ∈ types')
    {rest : Option Change} (hrest : rest = none ∨ side = .modified ∧ ∃ lost,
      rest = some (Standing.change family .removeType k b m lost)) :
    Widened eq family side k
      (if !types.isEmpty then some (Standing.change family side.typeForm k b m types) else rest)
      (if !types'.isEmpty then some (Standing.change family side.typeForm k b m types')
        else rest) := by
  by_cases hne' : types' = ∅
  · have hne : types = ∅ := by
      refine Std.ExtTreeSet.eq_empty_iff_forall_not_mem.2 fun t ht => ?_
      exact Std.ExtTreeSet.not_mem_empty (hne' ▸ hmore t ht)
    rw [hne, hne']
    exact .unchanged
  · by_cases hne : types = ∅
    · -- These are the first types, so there was no change or one of the other side's types.
      rw [hne, Classifier.isEmpty_eq_false hne']
      rcases hrest with rfl | ⟨rfl, lost, rfl⟩
      · exact .appeared hagreed (Standing.form_change ..)
      · have h : Widened eq family .modified k
            (some (Standing.change family .removeType k b m lost)) _ :=
          .taken rfl hagreed (Standing.form_change ..) hne'
        rw [Standing.retyped_change] at h
        exact h
    · rw [Classifier.isEmpty_eq_false hne, Classifier.isEmpty_eq_false hne']
      have hgrown : ∀ t ∈ (Standing.change family side.typeForm k b m types).head.membershipTypes,
          t ∈ types' := fun t ht => by
        rw [Standing.types_change, Std.ExtTreeSet.mem_toList] at ht
        exact hmore t ht
      have h : Widened eq family side k
          (some (Standing.change family side.typeForm k b m types)) _ :=
        .grown hagreed (Standing.form_change ..) hgrown
      rw [Standing.retyped_change] at h
      exact h

theorem Stands.widened_base (hb : eq.Stands d family .base k b)
    (hm : eq.Stands d family .modified k m) (h : Option.Rel Standing.Grows b b') :
    Widened eq family .base k (Standing.verdict family k b m) (Standing.verdict family k b' m) := by
  cases h with
  | none => exact .unchanged
  | @some sb sb' hgrows =>
    cases m with
    | none =>
      simp only [Standing.verdict, hgrows.change_base]
      exact widened_oneSided hgrows.ofEvery
    | some sm =>
      have hcontent : Standing.sameContent family sb' sm = Standing.sameContent family sb sm := by
        simp only [Standing.sameContent, hgrows.said]
      simp only [Standing.verdict, hgrows.change_base, hcontent]
      cases hagree : Standing.sameContent family sb sm with
      | false => exact .unchanged
      | true =>
        have hagreed := (hb.sameContent_iff hm).1 hagree
        cases hgained : sm.typesOfSome.isEmpty with
        | true => exact widened_both hagreed hgrows.ofSome (.inl rfl)
        | false => exact .unchanged

theorem Stands.widened_modified (hb : eq.Stands d family .base k b)
    (hm : eq.Stands d family .modified k m) (h : Option.Rel Standing.Grows m m') :
    Widened eq family .modified k (Standing.verdict family k b m)
      (Standing.verdict family k b m') := by
  cases h with
  | none => exact .unchanged
  | @some sm sm' hgrows =>
    cases b with
    | none =>
      simp only [Standing.verdict, hgrows.change_modified]
      exact widened_oneSided hgrows.ofEvery
    | some sb =>
      have hcontent : Standing.sameContent family sb sm' = Standing.sameContent family sb sm := by
        simp only [Standing.sameContent, hgrows.said]
      simp only [Standing.verdict, hgrows.change_modified, hcontent]
      cases hagree : Standing.sameContent family sb sm with
      | false => exact .unchanged
      | true =>
        have hagreed := (hb.sameContent_iff hm).1 hagree
        refine widened_both hagreed hgrows.ofSome ?_
        cases sb.typesOfSome.isEmpty with
        | true => exact .inl rfl
        | false => exact .inr ⟨rfl, _, rfl⟩

end Equivalence

/-! ## One more rule -/

namespace Equivalence

/-- A correspondence arises from another by one more rule on a side. -/
structure Appends (eq eq' : Equivalence) (side : Side) (r : Rule) : Prop where
  names : ∀ side', SameNames eq side' eq' side'
  readable : ∀ family side', ∀ rule ∈ eq.rules family side', eq.Readable side' rule
  readable' : ∀ family side', ∀ rule ∈ eq'.rules family side', eq'.Readable side' rule
  mem_rules : ∀ family side' rule, rule ∈ eq'.rules family side' ↔
    rule ∈ eq.rules family side' ∨ side' = side ∧ family = r.family ∧ rule = r

variable {eq eq' : Equivalence} {d : TypeDelta} {family : RuleFamily} {side side' : Side}
  {r rule : Rule} {k : RuleKey} {o o' : Option Standing}

/-- Where the new rule does not count, the same rules cover a key. -/
theorem Appends.covering (h : Appends eq eq' side r)
    (hk : side' = side → family = r.family → ¬eq.Covers side r k) :
    rule ∈ eq.rules family side' ∧ eq.Covers side' rule k ↔
      rule ∈ eq'.rules family side' ∧ eq'.Covers side' rule k := by
  constructor
  · rintro ⟨hrule, hcovers⟩
    have halike := (h.names side').alike (h.readable family side' rule hrule)
    exact ⟨(h.mem_rules ..).2 (.inl hrule), halike.covers.1 hcovers⟩
  · rintro ⟨hrule', hcovers'⟩
    have halike := (h.names side').symm.alike (h.readable' family side' rule hrule')
    have hcovers := halike.covers.1 hcovers'
    rcases (h.mem_rules ..).1 hrule' with hrule | ⟨rfl, hfamily, rfl⟩
    · exact ⟨hrule, hcovers⟩
    · exact absurd hcovers (hk rfl hfamily)

theorem Appends.extendedAt (h : Appends eq eq' side r)
    (hk : side' = side → family = r.family → ¬eq.Covers side r k) :
    ExtendedAt eq eq' family side' k where
  names := h.names
  readable := h.readable family
  covering _ := h.covering hk
  more _ hrule := (h.mem_rules ..).2 (.inl hrule)

/-- Where the new rule does not count and is not one of the other side, a standing is the same. -/
theorem Appends.stands_eq (h : Appends eq eq' side r)
    (hk : side' = side → family = r.family → ¬eq.Covers side r k)
    (hother : side'.other = side → family ≠ r.family) (ho : eq.Stands d family side' k o)
    (ho' : eq'.Stands d family side' k o') : o = o' := by
  have hback : ExtendedAt eq' eq family side' k := by
    refine ⟨fun side => (h.names side).symm, h.readable' family, fun _ => (h.covering hk).symm,
      fun rule hrule' => ?_⟩
    rcases (h.mem_rules ..).1 hrule' with hrule | ⟨hside, hfamily, -⟩
    · exact hrule
    · exact absurd hfamily (hother hside)
  exact ho.eq_of_extended (h.extendedAt hk) hback ho'

/-- At a key that the new rule does not cover the verdict may only widen on the other side. -/
theorem Appends.widened {b b' m m' : Option Standing} (h : Appends eq eq' side r)
    (hk : ¬eq.Covers side r k) (hb : eq.Stands d r.family .base k b)
    (hm : eq.Stands d r.family .modified k m) (hb' : eq'.Stands d r.family .base k b')
    (hm' : eq'.Stands d r.family .modified k m') :
    Widened eq r.family side.other k (Standing.verdict r.family k b m)
      (Standing.verdict r.family k b' m') := by
  cases side with
  | base =>
    obtain rfl := h.stands_eq (fun _ _ => hk) (fun hside => by cases hside) hb hb'
    have hextended : ExtendedAt eq eq' r.family .modified k :=
      h.extendedAt fun hside => by cases hside
    exact hb.widened_modified hm (hm.grows hextended hm')
  | modified =>
    obtain rfl := h.stands_eq (fun _ _ => hk) (fun hside => by cases hside) hm hm'
    have hextended : ExtendedAt eq eq' r.family .base k :=
      h.extendedAt fun hside => by cases hside
    exact hb.widened_base hm (hb.grows hextended hb')

end Equivalence

namespace Session

variable {base modified base' modified' : Policy} {d : TypeDelta} {workers workers' : Int}
  {s s' : Session} {side : Side} {r : Rule}

/-- Two sessions have the same changes, but for those at the keys of a rule of a side and for those
that widen on the other side. -/
structure Widens (s s' : Session) (eq : Equivalence) (side : Side) (r : Rule) : Prop where
  elsewhere : ∀ family, family ≠ r.family → s.changes family = s'.changes family
  uncovered : ∃ changes changes',
    s.changes r.family = .ok changes ∧ s'.changes r.family = .ok changes' ∧
    ∀ k, ¬eq.Covers side r k → ∃ found found',
      changes.filter (·.key = k) = found.toList ∧ changes'.filter (·.key = k) = found'.toList ∧
      eq.Widened r.family side.other k found found'

theorem widens_of_appends (h : (build base modified d workers).1 = .ok s)
    (h' : (build base' modified' d workers').1 = .ok s')
    (happends : Equivalence.Appends (.ofDelta base modified d) (.ofDelta base' modified' d) side
      r) : s.Widens s' (.ofDelta base modified d) side r where
  elsewhere family hfamily := by
    refine changes_eq_of_stands h h' family fun side' k o ho => ?_
    obtain ⟨o', ho'⟩ := exists_stands h' family side' k
    obtain rfl := happends.stands_eq (fun _ heq => absurd heq hfamily) (fun _ => hfamily) ho ho'
    exact ho'
  uncovered := by
    obtain ⟨changes, hchanges, -, hverdict⟩ := exists_verdicts h r.family
    obtain ⟨changes', hchanges', -, hverdict'⟩ := exists_verdicts h' r.family
    refine ⟨changes, changes', hchanges, hchanges', fun k hk => ?_⟩
    obtain ⟨b, hb⟩ := exists_stands h r.family .base k
    obtain ⟨m, hm⟩ := exists_stands h r.family .modified k
    obtain ⟨b', hb'⟩ := exists_stands h' r.family .base k
    obtain ⟨m', hm'⟩ := exists_stands h' r.family .modified k
    exact ⟨_, _, hverdict k b m hb hm, hverdict' k b' m' hb' hm',
      happends.widened hk hb hm hb' hm'⟩

/-- One policy or the other has one more rule, if its sessions are built with it and without. -/
theorem appends_of_builds (h : (build base modified d workers).1 = .ok s)
    (h' : (build base' modified' d workers').1 = .ok s')
    (hpolicies : side = .base ∧ base' = base.append r ∧ modified' = modified ∨
      side = .modified ∧ base' = base ∧ modified' = modified.append r) :
    Equivalence.Appends (.ofDelta base modified d) (.ofDelta base' modified' d) side r := by
  obtain ⟨-, hread⟩ := exists_build_iff.1 ⟨s, h⟩
  obtain ⟨-, hread'⟩ := exists_build_iff.1 ⟨s', h'⟩
  refine ⟨fun side' => ?_, hread, hread', fun family side' rule => ?_⟩
  · rcases hpolicies with ⟨rfl, rfl, rfl⟩ | ⟨rfl, rfl, rfl⟩
    · cases r <;> cases side' <;> exact ⟨rfl, rfl, rfl, rfl, rfl, rfl⟩
    · cases r <;> cases side' <;> exact ⟨rfl, rfl, rfl, rfl, rfl, rfl⟩
  · rcases hpolicies with ⟨rfl, rfl, rfl⟩ | ⟨rfl, rfl, rfl⟩
    · cases side' with
      | base =>
        refine Policy.mem_rules_append.trans (or_congr Iff.rfl ?_)
        simp
      | modified => exact ⟨.inl, fun h => h.resolve_right fun h => by cases h.1⟩
    · cases side' with
      | base => exact ⟨.inl, fun h => h.resolve_right fun h => by cases h.1⟩
      | modified =>
        refine Policy.mem_rules_append.trans (or_congr Iff.rfl ?_)
        simp

/-- Adding a rule to a policy has a local effect. -/
theorem build_append (h : (build base modified d workers).1 = .ok s) (r : Rule) (workers' : Int) :
    (∀ s', (build base (modified.append r) d workers').1 = .ok s' →
      s.Widens s' (.ofDelta base modified d) .modified r) ∧
    ∀ s', (build (base.append r) modified d workers').1 = .ok s' →
      s.Widens s' (.ofDelta base modified d) .base r := by
  refine ⟨fun s' h' => widens_of_appends h h' ?_, fun s' h' => widens_of_appends h h' ?_⟩
  · exact appends_of_builds h h' (.inr ⟨rfl, rfl, rfl⟩)
  · exact appends_of_builds h h' (.inl ⟨rfl, rfl, rfl⟩)

end Session

namespace Sample

/-- The program may read the log as a file. -/
def readsFile : Policy := { logInFile with avRules := [allowApp "file" ["read"]] }

/-- The program may read the log as data. -/
def readsData : Policy := { logInData with avRules := [allowApp "data" ["read"]] }

end Sample

/-- Without change at first, a key comes to be one of types by the rule of the other side. -/
theorem Session.build_append_sample :
    ∃ s s₁ s₂, (build Sample.readsFile Sample.readsData Sample.moveDelta 2).1 = .ok s ∧
      (build Sample.readsFile (Sample.readsData.append (.av (Sample.allowApp "file" ["read"])))
        Sample.moveDelta 1).1 = .ok s₁ ∧
      (build (Sample.readsFile.append (.av (Sample.allowApp "data" ["read"]))) Sample.readsData
        Sample.moveDelta 1).1 = .ok s₂ ∧
      Sample.forms .av s = some [] ∧ Sample.forms .av s₁ = some [.removeType] ∧
      Sample.forms .av s₂ = some [.addType] ∧
      s.Widens s₁ (.ofDelta Sample.readsFile Sample.readsData Sample.moveDelta) .modified
        (.av (Sample.allowApp "file" ["read"])) ∧
      s.Widens s₂ (.ofDelta Sample.readsFile Sample.readsData Sample.moveDelta) .base
        (.av (Sample.allowApp "data" ["read"])) := by
  have hforms : (build Sample.readsFile Sample.readsData Sample.moveDelta 2).1.toOption.map
      (Sample.forms .av) = some (some []) := by
    decide +kernel
  have hforms₁ : (build Sample.readsFile
      (Sample.readsData.append (.av (Sample.allowApp "file" ["read"])))
      Sample.moveDelta 1).1.toOption.map (Sample.forms .av) = some (some [.removeType]) := by
    decide +kernel
  have hforms₂ : (build (Sample.readsFile.append (.av (Sample.allowApp "data" ["read"])))
      Sample.readsData Sample.moveDelta 1).1.toOption.map (Sample.forms .av) =
        some (some [.addType]) := by
    decide +kernel
  obtain ⟨s, hs, hforms⟩ := exists_ok_of_map hforms
  obtain ⟨s₁, hs₁, hforms₁⟩ := exists_ok_of_map hforms₁
  obtain ⟨s₂, hs₂, hforms₂⟩ := exists_ok_of_map hforms₂
  exact ⟨s, s₁, s₂, hs, hs₁, hs₂, hforms, hforms₁, hforms₂, (build_append hs _ 1).1 s₁ hs₁,
    (build_append hs _ 1).2 s₂ hs₂⟩

end PolicyDelta
