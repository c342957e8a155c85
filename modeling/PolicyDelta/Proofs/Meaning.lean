import PolicyDelta.Proofs.Canonical

/-! What a name of a side means: one type, or an attribute with its members, all by canonical names.
A name has a meaning exactly if its types are looked up with success
(`Equivalence.exists_means_iff`). Everything that a comparison asks about a name follows from its
meaning: the types that it reaches, its canonical form, and whether it is an attribute. -/

namespace PolicyDelta

/-- What a name may mean. -/
inductive Meaning where
  | ofType (t : String)
  | ofAttribute (a : String) (members : NameSet)

namespace Meaning

def types : Meaning → NameSet
  | ofType t => {t}
  | ofAttribute _ members => members

/-- How the meaning is written in a coverage. -/
def text : Meaning → String
  | ofType t => t
  | ofAttribute a _ => "@" ++ a

end Meaning

namespace Equivalence

/-- A name of a side has a meaning: a type, an alias of a type, or an attribute whose members are
types. -/
inductive Means (eq : Equivalence) (side : Side) : String → Meaning → Prop where
  | typeName (hn : n ∈ (eq.scope side).policy.types) :
    Means eq side n (.ofType (eq.canonicalName side n))
  | aliasName (hn : n ∉ (eq.scope side).policy.types)
    (ha : (eq.scope side).policy.aliases[n]? = some t) (ht : t ∈ (eq.scope side).policy.types) :
    Means eq side n (.ofType (eq.canonicalName side t))
  | attributeName (hn : n ∉ (eq.scope side).policy.types)
    (ha : n ∉ (eq.scope side).policy.aliases)
    (hm : (eq.scope side).policy.attributes[n]? = some ms)
    (hms : ∀ t ∈ ms, t ∈ (eq.scope side).policy.types) :
    Means eq side n (.ofAttribute n (ms.map (eq.canonicalName side)))

variable {eq : Equivalence} {side : Side} {n t : String} {m m' : Meaning}

theorem mem_aliases_of_getElem? {s : Scope} (h : s.policy.aliases[n]? = some t) :
    n ∈ s.policy.aliases :=
  Std.ExtTreeMap.mem_iff_isSome_getElem?.2 (by rw [h]; rfl)

theorem mem_attributes_of_getElem? {s : Scope} {ms : NameSet}
    (h : s.policy.attributes[n]? = some ms) : n ∈ s.policy.attributes :=
  Std.ExtTreeMap.mem_iff_isSome_getElem?.2 (by rw [h]; rfl)

theorem Means.unique (h : eq.Means side n m) (h' : eq.Means side n m') : m = m' := by
  cases h with
  | typeName hn =>
    cases h' with
    | typeName => rfl
    | aliasName hn' | attributeName hn' => exact absurd hn hn'
  | aliasName hn ha =>
    cases h' with
    | typeName hn' => exact absurd hn' hn
    | aliasName _ ha' =>
      cases ha.symm.trans ha'
      rfl
    | attributeName _ ha' => exact absurd (mem_aliases_of_getElem? ha) ha'
  | attributeName hn ha hm =>
    cases h' with
    | typeName hn' => exact absurd hn' hn
    | aliasName _ ha' => exact absurd (mem_aliases_of_getElem? ha') ha
    | attributeName _ _ hm' =>
      cases hm.symm.trans hm'
      rfl

theorem Means.kindOf (h : eq.Means side n m) :
    (∃ t, m = .ofType t) ∧ ((eq.scope side).kindOf n = .ok .typeName ∨
      (eq.scope side).kindOf n = .ok .aliasName) ∨
    (∃ ms, m = .ofAttribute n ms) ∧ (eq.scope side).kindOf n = .ok .attributeName := by
  cases h with
  | typeName hn => exact .inl ⟨⟨_, rfl⟩, .inl (by simp [Scope.kindOf, hn])⟩
  | aliasName hn ha =>
    exact .inl ⟨⟨_, rfl⟩, .inr (by simp [Scope.kindOf, hn, mem_aliases_of_getElem? ha])⟩
  | attributeName hn ha hm =>
    exact .inr ⟨⟨_, rfl⟩, by simp [Scope.kindOf, hn, ha, mem_attributes_of_getElem? hm]⟩

theorem Means.kindOf_eq_attribute (h : eq.Means side n m) :
    (eq.scope side).kindOf n = .ok .attributeName ↔ ∃ ms, m = .ofAttribute n ms := by
  rcases h.kindOf with ⟨⟨t, rfl⟩, hkind | hkind⟩ | ⟨hm, hkind⟩
  · simp [hkind]
  · simp [hkind]
  · exact iff_of_true hkind hm

theorem Means.eq_of_attribute {a : String} {ms : NameSet}
    (h : eq.Means side n (.ofAttribute a ms)) : a = n := by
  cases h
  rfl

theorem Means.reaches (h : eq.Means side n m) : eq.Reaches side n t ↔ t ∈ m.types := by
  unfold Reaches
  simp only [canonicalType_eq_ok]
  cases h with
  | typeName hn =>
    simp [Meaning.types, Policy.denotes_typeName hn, hn]
  | @aliasName actual hn ha ht =>
    have hdenotes (u : String) : (eq.scope side).policy.Denotes n u ↔ u = actual := by
      constructor
      · intro hu
        cases hu with
        | typeName hn' => exact absurd hn' hn
        | aliasName _ ha' => exact Option.some.inj (ha'.symm.trans ha)
        | attributeName _ ha' => exact absurd (mem_aliases_of_getElem? ha) ha'
      · rintro rfl
        exact .aliasName hn ha ht
    simp [Meaning.types, hdenotes, ht]
  | attributeName hn ha hm hms =>
    rw [Meaning.types, NameSet.mem_map]
    constructor
    · rintro ⟨u, hu, -, rfl⟩
      cases hu with
      | typeName hn' => exact absurd hn' hn
      | aliasName _ ha' => exact absurd (mem_aliases_of_getElem? ha') ha
      | attributeName _ _ hm' hu =>
        cases hm.symm.trans hm'
        exact ⟨u, hu, rfl⟩
    · rintro ⟨u, hu, rfl⟩
      exact ⟨u, .attributeName hn ha hm hu, hms u hu, rfl⟩

/-- The canonical form of a name is how its meaning is written; only `self` stands for itself. -/
theorem Means.endpoint (h : eq.Means side n m) : eq.canonicalEndpoint side n =
    .ok (if n = selfTarget then selfTarget else m.text) := by
  unfold canonicalEndpoint
  by_cases hself : n = selfTarget
  · simp [hself]
  simp only [hself, if_false]
  cases h with
  | typeName hn =>
    have hlookup := Scope.lookupType_eq_ok.2 (.inl ⟨hn, rfl⟩)
    have htype : eq.canonicalType side n = .ok (eq.canonicalName side n) :=
      canonicalType_eq_ok.2 ⟨hn, rfl⟩
    simp [Scope.kindOf, hn, hlookup, htype, bind, Except.bind, Meaning.text]
  | @aliasName actual hn ha ht =>
    have hlookup := Scope.lookupType_eq_ok.2 (.inr ⟨hn, ha, ht⟩)
    have htype : eq.canonicalType side actual = .ok (eq.canonicalName side actual) :=
      canonicalType_eq_ok.2 ⟨ht, rfl⟩
    simp [Scope.kindOf, hn, mem_aliases_of_getElem? ha, hlookup, htype, bind, Except.bind,
      Meaning.text]
  | attributeName hn ha hm =>
    simp [Scope.kindOf, hn, ha, mem_attributes_of_getElem? hm, bind, Except.bind, Meaning.text]
    rfl

theorem exists_means_iff :
    (∃ m, eq.Means side n m) ↔ ∃ types, (eq.scope side).typesOf n = .ok types := by
  constructor
  · rintro ⟨m, h⟩
    unfold Scope.typesOf
    cases h with
    | typeName hn =>
      have hlookup := Scope.lookupType_eq_ok.2 (.inl ⟨hn, rfl⟩)
      exact ⟨{n}, by simp [Scope.kindOf, hn, hlookup, bind, Except.bind]; rfl⟩
    | @aliasName t hn ha ht =>
      have hlookup := Scope.lookupType_eq_ok.2 (.inr ⟨hn, ha, ht⟩)
      exact ⟨{t}, by
        simp [Scope.kindOf, hn, mem_aliases_of_getElem? ha, hlookup, bind, Except.bind]; rfl⟩
    | @attributeName ms hn ha hm hms =>
      have hfind : ms.toList.find? (fun t => t ∉ (eq.scope side).policy.types) = none := by
        simpa using fun t ht => hms t (Std.ExtTreeSet.mem_toList.1 ht)
      refine ⟨ms, ?_⟩
      simp only [Scope.kindOf, hn, ha, mem_attributes_of_getElem? hm, if_true, if_false, bind,
        Except.bind, Std.ExtTreeMap.getD_eq_getD_getElem?, hm, Option.getD_some, hfind]
      rfl
  · rintro ⟨types, h⟩
    obtain ⟨kind, hkind, hfound⟩ := bind_eq_ok.1 h
    rcases Scope.kindOf_cases hkind with ⟨rfl, hn⟩ | ⟨rfl, hn, ha⟩ | ⟨rfl, hn, ha, hm⟩
    · exact ⟨_, .typeName hn⟩
    · obtain ⟨t, ht, -⟩ := bind_eq_ok.1 hfound
      rcases Scope.lookupType_eq_ok.1 ht with ⟨hn', -⟩ | ⟨-, ha, ht⟩
      · exact absurd hn' hn
      · exact ⟨_, .aliasName hn ha ht⟩
    · obtain ⟨ms, hms⟩ := Option.isSome_iff_exists.1
        (Std.ExtTreeMap.mem_iff_isSome_getElem?.1 hm)
      exact ⟨_, .attributeName hn ha hms fun t ht =>
        (Scope.knows_of_typesOf h).types t (.attributeName hn ha hms ht)⟩

theorem resolvedDefault_eq_ok {rule : Rule} {o : Option String} :
    RuleIndex.resolvedDefault eq side rule = .ok o ↔
      Option.Rel (fun n t => eq.Means side n (.ofType t)) rule.default? o := by
  have hmeans (n t : String) : eq.Means side n (.ofType t) ↔
      ∃ u, (eq.scope side).lookupType n = .ok u ∧ eq.canonicalType side u = .ok t := by
    simp only [Scope.lookupType_eq_ok, canonicalType_eq_ok]
    constructor
    · intro h
      cases h with
      | typeName hn => exact ⟨n, .inl ⟨hn, rfl⟩, hn, rfl⟩
      | aliasName hn ha ht => exact ⟨_, .inr ⟨hn, ha, ht⟩, ht, rfl⟩
    · rintro ⟨u, ⟨hn, rfl⟩ | ⟨hn, ha, -⟩, hu, rfl⟩
      · exact .typeName hn
      · exact .aliasName hn ha hu
  unfold RuleIndex.resolvedDefault
  cases rule.default? with
  | none => cases o <;> simp
  | some n =>
    simp only [bind_eq_ok, map_eq_ok]
    constructor
    · rintro ⟨u, hu, t, ht, rfl⟩
      exact .some ((hmeans n t).2 ⟨u, hu, ht⟩)
    · rintro ⟨hm⟩
      obtain ⟨u, hu, ht⟩ := (hmeans n _).1 hm
      exact ⟨u, hu, _, ht, rfl⟩

end Equivalence

end PolicyDelta
