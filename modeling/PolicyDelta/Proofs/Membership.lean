import PolicyDelta.Classification
import PolicyDelta.Proofs.Reading

/-! The types through which rules cover a key on one side only, said as a relation
(`Classifier.Through`). For rules that have been read the classifier finds exactly these types, so
nothing that it looks up can be unknown. -/

namespace PolicyDelta.Classifier

variable (c : Classifier)

/-- A rule covers a type at its source or at its target in a certain way. -/
def Finds (side : Side) (rule : Rule) (key : RuleKey) (f : Freshness) (t : String) : Prop :=
  ∃ p ∈ endpoints rule key, p.2 = t ∧ c.freshness side p.1 p.2 = .ok f

/-- A rule covers a key on its side only through a type. A new member counts beside a new type, or
if some rule of the other side says the same. -/
def Through (side : Side) (rule : Rule) (key : RuleKey) (t : String) : Prop :=
  c.Finds side rule key .newType t ∨ c.Finds side rule key .newMember t ∧
    ((∃ u, c.Finds side rule key .newType u) ∨
      ∃ v ∈ (c.index side.other).coverage, c.equivalence.coverageOf side rule = .ok v)

variable {c} {side : Side} {rule : Rule} {key : RuleKey} {r : RuleReading} {t n : String}

theorem freshness_newType : c.freshness side n t = .ok .newType ↔ t ∈ c.freshTypes side := by
  unfold freshness
  by_cases ht : t ∈ c.freshTypes side
  · simp [ht]
  simp only [ht, if_false, iff_false]
  intro h
  obtain ⟨kind, -, h⟩ := bind_eq_ok.1 h
  cases kind with
  | typeName | aliasName => cases h
  | attributeName =>
    simp only at h
    split at h <;> cases h

theorem freshness_newMember : c.freshness side n t = .ok .newMember ↔
    t ∉ c.freshTypes side ∧ (c.equivalence.scope side).kindOf n = .ok .attributeName ∧
      t ∈ c.freshMembers n side := by
  unfold freshness
  by_cases ht : t ∈ c.freshTypes side
  · simp [ht]
  simp only [ht, if_false, not_false_eq_true, true_and, bind_eq_ok]
  constructor
  · rintro ⟨kind, hkind, h⟩
    cases kind with
    | typeName | aliasName => cases h
    | attributeName =>
      simp only at h
      split at h
      · rename_i hmem
        exact ⟨hkind, hmem⟩
      · cases h
  · rintro ⟨hkind, hmem⟩
    exact ⟨_, hkind, by simp [hmem]; rfl⟩

theorem exists_freshness (h : ∃ kind, (c.equivalence.scope side).kindOf n = .ok kind) :
    ∃ f, c.freshness side n t = .ok f := by
  obtain ⟨kind, hkind⟩ := h
  unfold freshness
  split
  · exact ⟨_, rfl⟩
  · rw [hkind]
    cases kind <;> exact ⟨_, rfl⟩

/-- The names of a rule that has been read are known. -/
theorem endpoints_known (h : c.equivalence.Read side rule r) {p : String × String}
    (hp : p ∈ endpoints rule key) : (c.equivalence.scope side).Knows p.1 := by
  unfold endpoints at hp
  rcases List.mem_cons.1 hp with rfl | hp
  · exact h.source_known
  · split at hp
    · cases hp
    · rename_i hne
      obtain rfl := List.mem_singleton.1 hp
      exact h.target_known hne

/-- The choice between the types that were found. -/
theorem through_of_found (h : c.equivalence.Read side rule r) {newTypes newMembers : NameSet}
    (hnew : ∀ t, t ∈ newTypes ↔ c.Finds side rule key .newType t)
    (hmember : ∀ t, t ∈ newMembers ↔ c.Finds side rule key .newMember t) :
    ∃ types, (if !newTypes.isEmpty then pure (newTypes ∪ newMembers)
        else if newMembers.isEmpty then pure ∅
        else do
          let coverage ← c.equivalence.coverageOf side rule
          pure (if coverage ∈ (c.index side.other).coverage then newMembers else ∅)) =
        Except.ok types ∧ ∀ t, t ∈ types ↔ c.Through side rule key t := by
  have hempty {s : NameSet} : s.isEmpty = true ↔ ∀ t, t ∉ s := by
    rw [Std.ExtTreeSet.isEmpty_iff, Std.ExtTreeSet.eq_empty_iff_forall_not_mem]
  unfold Through
  by_cases hN : newTypes.isEmpty
  · have hnone : ∀ t, ¬c.Finds side rule key .newType t := fun t ht =>
      hempty.1 hN t ((hnew t).2 ht)
    simp only [hN, Bool.not_true, Bool.false_eq_true, if_false, hnone, exists_false, false_or]
    by_cases hM : newMembers.isEmpty
    · refine ⟨∅, by rw [if_pos hM]; rfl, fun t => ?_⟩
      have ht : ¬c.Finds side rule key .newMember t := fun ht => hempty.1 hM t ((hmember t).2 ht)
      simp [ht]
    · refine ⟨_, by rw [if_neg hM, h.coverage_eq]; rfl, fun t => ?_⟩
      simp only [h.coverage_eq, Except.ok.injEq, exists_eq_right']
      split
      · rename_i hv
        simp [hv, hmember]
      · rename_i hv
        simp [hv]
  · obtain ⟨u, hu⟩ : ∃ u, u ∈ newTypes := by
      rw [hempty] at hN
      exact Classical.not_forall_not.1 hN
    refine ⟨newTypes ∪ newMembers, by simp [hN]; rfl, fun t => ?_⟩
    have hsome : ∃ u, c.Finds side rule key .newType u := ⟨u, (hnew u).1 hu⟩
    rw [Std.ExtTreeSet.mem_union_iff, hnew, hmember]
    simp only [hsome, true_or, and_true]

/-- A rule that has been read gives the types through which it covers the key on its side only. -/
theorem membershipTypes_spec (h : c.equivalence.Read side rule r) (key : RuleKey) :
    ∃ types, c.membershipTypes side rule key = .ok types ∧
      ∀ t, t ∈ types ↔ c.Through side rule key t := by
  obtain ⟨found, hfound⟩ : ∃ found, ((endpoints rule key).mapM fun p => do
      let f ← c.freshness side p.1 p.2
      pure (p.2, f)) = Except.ok found := by
    refine exists_mapM_eq_ok fun p hp => ?_
    obtain ⟨f, hf⟩ := exists_freshness (endpoints_known h hp).kind
    exact ⟨(p.2, f), by rw [hf]; rfl⟩
  have hmem (f : Freshness) (t : String) : t ∈ Std.ExtTreeSet.ofList
      ((found.filter (·.2 = f)).map Prod.fst) ↔ c.Finds side rule key f t := by
    simp only [Std.ExtTreeSet.mem_ofList, List.contains_iff_mem, List.mem_map, List.mem_filter,
      mem_of_mapM_eq_ok hfound, decide_eq_true_eq, Finds, bind_eq_ok]
    constructor
    · rintro ⟨_, ⟨⟨p, hp, f', hf, heq⟩, rfl⟩, rfl⟩
      cases heq
      exact ⟨p, hp, rfl, hf⟩
    · rintro ⟨p, hp, rfl, hf⟩
      exact ⟨_, ⟨⟨p, hp, f, hf, rfl⟩, rfl⟩, rfl⟩
  unfold membershipTypes
  rw [hfound]
  exact through_of_found h (hmem .newType) (hmem .newMember)

theorem isEmpty_types {types : NameSet} (hmem : ∀ t, t ∈ types ↔ c.Through side rule key t) :
    types.isEmpty = true ↔ ¬∃ u, c.Through side rule key u := by
  rw [Std.ExtTreeSet.isEmpty_iff, Std.ExtTreeSet.eq_empty_iff_forall_not_mem, not_exists]
  exact forall_congr' fun t => not_congr (hmem t)

/-- There is an answer for rules that all have types, and then it is all their types. -/
theorem typesOfEvery_spec {rules : List Rule}
    (h : ∀ rule ∈ rules, ∃ r, c.equivalence.Read side rule r) (key : RuleKey) :
    ∃ answer, c.typesOfEvery side key rules = .ok answer ∧
      (answer.isSome ↔ ∀ rule ∈ rules, ∃ u, c.Through side rule key u) ∧
      ∀ types ∈ answer, ∀ t, t ∈ types ↔ ∃ rule ∈ rules, c.Through side rule key t := by
  induction rules with
  | nil => exact ⟨some ∅, rfl, by simp, by simp⟩
  | cons rule rules ih =>
    obtain ⟨r, hr⟩ := h rule List.mem_cons_self
    obtain ⟨types, htypes, hmem⟩ := membershipTypes_spec hr key
    obtain ⟨rest, hrest, hsome, hall⟩ := ih fun rule hrule => h rule (List.mem_cons_of_mem _ hrule)
    rw [typesOfEvery, htypes]
    by_cases hempty : types.isEmpty
    · have hnone := (isEmpty_types hmem).1 hempty
      exact ⟨none, by simp [bind, Except.bind, hempty]; rfl, by simp [hnone], by simp⟩
    · have hu := Classical.not_not.1 fun hnone => hempty ((isEmpty_types hmem).2 hnone)
      refine ⟨rest.map (types ∪ ·), by simp [bind, Except.bind, hempty, hrest]; rfl, ?_, ?_⟩
      · simp [hsome, hu]
      · intro all hmem' t
        obtain ⟨others, hothers, rfl⟩ := Option.map_eq_some_iff.1 hmem'
        simp [Std.ExtTreeSet.mem_union_iff, hmem, hall others hothers]

theorem typesOfSome_spec {rules : List Rule}
    (h : ∀ rule ∈ rules, ∃ r, c.equivalence.Read side rule r) (key : RuleKey) :
    ∃ types, c.typesOfSome side key rules = .ok types ∧
      ∀ t, t ∈ types ↔ ∃ rule ∈ rules, c.Through side rule key t := by
  induction rules with
  | nil => exact ⟨∅, rfl, by simp⟩
  | cons rule rules ih =>
    obtain ⟨r, hr⟩ := h rule List.mem_cons_self
    obtain ⟨types, htypes, hmem⟩ := membershipTypes_spec hr key
    obtain ⟨rest, hrest, hmem'⟩ := ih fun rule hrule => h rule (List.mem_cons_of_mem _ hrule)
    refine ⟨types ∪ rest, by rw [typesOfSome, htypes, hrest]; rfl, fun t => ?_⟩
    simp [Std.ExtTreeSet.mem_union_iff, hmem, hmem']

variable {e : IndexEntry}

/-- The types of an entry all of whose rules have types; there are none if a rule has none. -/
theorem membershipOfEvery_spec (h : ∀ rule ∈ e.rules, ∃ r, c.equivalence.Read side rule r) :
    ∃ types, c.membershipOfEvery side e = .ok types ∧
      ∀ t, t ∈ types ↔ (∀ rule ∈ e.rules, ∃ u, c.Through side rule e.key u) ∧
        ∃ rule ∈ e.rules, c.Through side rule e.key t := by
  have hread : ∀ rule ∈ e.rules.toList, ∃ r, c.equivalence.Read side rule r := fun rule hrule =>
    h rule (Std.ExtTreeSet.mem_toList.1 hrule)
  obtain ⟨answer, hanswer, hsome, hall⟩ := typesOfEvery_spec hread e.key
  simp only [Std.ExtTreeSet.mem_toList] at hsome hall
  refine ⟨answer.getD ∅, by rw [membershipOfEvery, hanswer]; rfl, fun t => ?_⟩
  rw [← hsome]
  cases answer with
  | none => simp
  | some types => simp [hall types rfl t]

/-- The types of the rules of an entry. -/
theorem membershipOfSome_spec (h : ∀ rule ∈ e.rules, ∃ r, c.equivalence.Read side rule r) :
    ∃ types, c.membershipOfSome side e = .ok types ∧
      ∀ t, t ∈ types ↔ ∃ rule ∈ e.rules, c.Through side rule e.key t := by
  have hread : ∀ rule ∈ e.rules.toList, ∃ r, c.equivalence.Read side rule r := fun rule hrule =>
    h rule (Std.ExtTreeSet.mem_toList.1 hrule)
  obtain ⟨types, htypes, hmem⟩ := typesOfSome_spec hread e.key
  simp only [Std.ExtTreeSet.mem_toList] at hmem
  exact ⟨types, htypes, hmem⟩

end PolicyDelta.Classifier
