import PolicyDelta.Proofs.Collecting
import PolicyDelta.Proofs.Remembering
import PolicyDelta.Proofs.Shards

/-! Building an index is reading its rules one after another. `Equivalence.readRule` reads a rule
with nothing remembered; `RuleIndex.build_yields` says that building yields the index of all
readings, however the rules are split among workers, or the failure of the first rule that cannot be
read. `RuleIndex.Indexes` says what this index holds in terms of the rules of the policy. -/

namespace PolicyDelta

/-- What an index takes from a rule. -/
structure RuleReading where
  rule : Rule
  default : Option String
  coverage : Coverage
  /-- The keys of the pairs that the rule stands for. -/
  keys : List RuleKey

/-- What a reading contributes to an index. -/
def RuleReading.contributions (r : RuleReading) : List Contribution :=
  r.keys.map fun k => ⟨k, r.rule, r.default⟩

namespace Equivalence

/-- Reads a rule: its class, its default type, its source and target by themselves, and the keys of
its pairs are looked up in this order. -/
def readRule (eq : Equivalence) (side : Side) (rule : Rule) :
    Except UnknownIdentifier RuleReading := do
  RuleIndex.checkClass (eq.scope side) rule
  let default ← RuleIndex.resolvedDefault eq side rule
  let coverage ← eq.coverageOf side rule
  let pairs ← (eq.scope side).pairsOf rule.head.source rule.head.target
  let keys ← pairs.mapM fun p => eq.keyOf side rule p.1 p.2
  pure ⟨rule, default, coverage, keys⟩

/-- A rule of a side covers a key: the key is that of a pair that the rule stands for. -/
def Covers (eq : Equivalence) (side : Side) (rule : Rule) (k : RuleKey) : Prop :=
  ∃ source target, rule.Expands (eq.scope side).policy source target ∧
    eq.keyOf side rule source target = .ok k

/-- The rules of a family on a side. -/
def rules (eq : Equivalence) (family : RuleFamily) (side : Side) : List Rule :=
  (eq.scope side).policy.rules family

/-- Some rule of a family covers a key. -/
def Covered (eq : Equivalence) (family : RuleFamily) (side : Side) (k : RuleKey) : Prop :=
  ∃ rule ∈ eq.rules family side, eq.Covers side rule k

/-- What the rules of a family say at a key on a side: nothing if no rule covers the key, otherwise
all that one of the rules which cover it says. -/
inductive Together (eq : Equivalence) (family : RuleFamily) (side : Side)
    (content : Rule → String → Prop) (k : RuleKey) : Option NameSet → Prop where
  | silent (huncovered : ¬eq.Covered family side k) : Together eq family side content k none
  | all (hcovered : eq.Covered family side k) (hall : ∀ x, x ∈ said ↔
      ∃ rule ∈ eq.rules family side, eq.Covers side rule k ∧ content rule x) :
    Together eq family side content k (some said)

/-- What is said at a key is settled by the rules. -/
theorem Together.unique {eq : Equivalence} {family : RuleFamily} {side : Side}
    {content : Rule → String → Prop} {k : RuleKey} {o o' : Option NameSet}
    (h : eq.Together family side content k o) (h' : eq.Together family side content k o') :
    o = o' := by
  cases h with
  | silent huncovered =>
    cases h' with
    | silent => rfl
    | all hcovered => exact absurd hcovered huncovered
  | all hcovered hall =>
    cases h' with
    | silent huncovered => exact absurd hcovered huncovered
    | all _ hall' =>
      exact congrArg some (Std.ExtTreeSet.ext_mem fun x => (hall x).trans (hall' x).symm)

variable {eq : Equivalence} {side : Side} {rule : Rule} {r : RuleReading}

/-- A rule that has been read: all its names are known and the reading is exact. -/
structure Read (eq : Equivalence) (side : Side) (rule : Rule) (r : RuleReading) : Prop where
  rule_eq : r.rule = rule
  default_eq : RuleIndex.resolvedDefault eq side rule = .ok r.default
  coverage_eq : eq.coverageOf side rule = .ok r.coverage
  mem_keys : ∀ k, k ∈ r.keys ↔ eq.Covers side rule k
  source_known : (eq.scope side).Knows rule.head.source
  target_known : rule.head.target ≠ selfTarget → (eq.scope side).Knows rule.head.target

theorem read_of_readRule (h : eq.readRule side rule = .ok r) : eq.Read side rule r := by
  unfold readRule at h
  obtain ⟨-, -, h⟩ := bind_eq_ok.1 h
  obtain ⟨default, hdefault, h⟩ := bind_eq_ok.1 h
  obtain ⟨coverage, hcoverage, h⟩ := bind_eq_ok.1 h
  obtain ⟨pairs, hpairs, h⟩ := bind_eq_ok.1 h
  obtain ⟨keys, hkeys, h⟩ := bind_eq_ok.1 h
  cases h
  obtain ⟨hsource, htarget⟩ := Scope.knows_of_pairsOf hpairs
  refine ⟨rfl, hdefault, hcoverage, fun k => ?_, hsource, htarget⟩
  rw [mem_of_mapM_eq_ok hkeys, Covers]
  constructor
  · rintro ⟨⟨a, b⟩, hp, hk⟩
    exact ⟨a, b, (Scope.mem_pairsOf hpairs).1 hp, hk⟩
  · rintro ⟨a, b, hp, hk⟩
    exact ⟨(a, b), (Scope.mem_pairsOf hpairs).2 hp, hk⟩

end Equivalence

namespace RuleIndex

variable {eq : Equivalence} {family : RuleFamily} {side : Side}

/-- The index with a reading added. -/
def addReading (ix : RuleIndex) (r : RuleReading) : RuleIndex :=
  r.keys.foldl (fun ix k => ix.insert k r.rule r.default)
    { ix with coverage := ix.coverage.insert r.coverage }

/-- The index of readings. -/
def ofReadings (family : RuleFamily) (side : Side) (rs : List RuleReading) : RuleIndex :=
  rs.foldl addReading { family, side }

/-- The index of a family on a side: the readings of its rules, unless one of them fails. -/
def read (eq : Equivalence) (family : RuleFamily) (side : Side) :
    Except UnknownIdentifier RuleIndex :=
  ofReadings family side <$> (eq.rules family side).mapM (eq.readRule side)

/-! ## The content of the index of readings -/

theorem foldl_insert_family (ks : List RuleKey) (ix : RuleIndex) (rule : Rule)
    (default : Option String) :
    (ks.foldl (fun ix k => ix.insert k rule default) ix).family = ix.family ∧
      (ks.foldl (fun ix k => ix.insert k rule default) ix).side = ix.side := by
  induction ks generalizing ix with
  | nil => exact ⟨rfl, rfl⟩
  | cons k ks ih => exact ih (ix.insert k rule default)

theorem addReading_family (ix : RuleIndex) (r : RuleReading) :
    (ix.addReading r).family = ix.family ∧ (ix.addReading r).side = ix.side :=
  foldl_insert_family ..

theorem foldl_addReading_family (ix : RuleIndex) (rs : List RuleReading) :
    (rs.foldl addReading ix).family = ix.family ∧ (rs.foldl addReading ix).side = ix.side := by
  induction rs generalizing ix with
  | nil => exact ⟨rfl, rfl⟩
  | cons r rs ih =>
    obtain ⟨hfamily, hside⟩ := ih (ix.addReading r)
    exact ⟨hfamily.trans (addReading_family ix r).1, hside.trans (addReading_family ix r).2⟩

variable {ix : RuleIndex} {cs : List Contribution} {vs : List Coverage}

theorem Collects.foldl_insert (h : ix.Collects cs vs) (ks : List RuleKey) (rule : Rule)
    (default : Option String) : (ks.foldl (fun ix k => ix.insert k rule default) ix).Collects
      (ks.map (fun k => ⟨k, rule, default⟩) ++ cs) vs := by
  induction ks generalizing ix cs with
  | nil => exact h
  | cons k ks ih =>
    refine (ih (h.insert k rule default)).congr (fun c => ?_) fun v => Iff.rfl
    simp only [List.map_cons, List.cons_append, List.mem_append, List.mem_cons]
    exact or_left_comm

theorem Collects.addReading (h : ix.Collects cs vs) (r : RuleReading) :
    (ix.addReading r).Collects (r.contributions ++ cs) (r.coverage :: vs) :=
  (h.cover r.coverage).foldl_insert r.keys r.rule r.default

theorem Collects.foldl_addReading (h : ix.Collects cs vs) (rs : List RuleReading) :
    (rs.foldl RuleIndex.addReading ix).Collects (rs.flatMap (·.contributions) ++ cs)
      (rs.map (·.coverage) ++ vs) := by
  induction rs generalizing ix cs vs with
  | nil => exact h
  | cons r rs ih =>
    refine (ih (h.addReading r)).congr (fun c => ?_) fun v => ?_
    · simp only [List.flatMap_cons, List.mem_append]
      exact or_left_comm.trans or_assoc.symm
    · simp only [List.map_cons, List.cons_append, List.mem_append, List.mem_cons]
      exact or_left_comm

theorem collects_ofReadings (family : RuleFamily) (side : Side) (rs : List RuleReading) :
    (ofReadings family side rs).Collects (rs.flatMap (·.contributions)) (rs.map (·.coverage)) := by
  simpa [ofReadings] using (collects_empty family side).foldl_addReading rs

/-- Joining the indexes of two lists of readings makes the index of both lists. -/
theorem ofReadings_join (family : RuleFamily) (side : Side) (rs rs' : List RuleReading) :
    (ofReadings family side rs).join (ofReadings family side rs') =
      ofReadings family side (rs ++ rs') := by
  have hboth := collects_ofReadings family side (rs ++ rs')
  rw [List.flatMap_append, List.map_append] at hboth
  -- Both indexes collect the same contributions, which settle an index.
  refine ((collects_ofReadings family side rs).join
    (collects_ofReadings family side rs')).unique hboth ?_ ?_
  · exact (foldl_addReading_family _ rs).1.trans (foldl_addReading_family _ (rs ++ rs')).1.symm
  · exact (foldl_addReading_family _ rs).2.trans (foldl_addReading_family _ (rs ++ rs')).2.symm

theorem foldl_join_ofReadings (family : RuleFamily) (side : Side) (rs : List RuleReading)
    (parts : List (List RuleReading)) :
    (parts.map (ofReadings family side)).foldl join (ofReadings family side rs) =
      ofReadings family side (rs ++ parts.flatten) := by
  induction parts generalizing rs with
  | nil => simp
  | cons part parts ih =>
    rw [List.map_cons, List.foldl_cons, ofReadings_join, ih, List.flatten_cons, List.append_assoc]

/-! ## Building yields the index of the readings -/

theorem addPairs_eq {ix : RuleIndex} (rule : Rule) (default : Option String)
    (pairs : List TypePair) (hside : ix.side = side) : addPairs eq rule default ix pairs =
      List.foldl (fun ix k => ix.insert k rule default) ix <$>
        pairs.mapM fun p => eq.keyOf side rule p.1 p.2 := by
  refine foldlM_eq_mapM (fun ix : RuleIndex => ix.side = side)
    (fun p : TypePair => eq.keyOf side rule p.1 p.2)
    (fun ix k => ix.insert k rule default) (fun ix p h => ?_) (fun _ _ h => h) hside pairs
  rw [h]
  cases eq.keyOf side rule p.1 p.2 <;> rfl

theorem addRule_yields (ix : RuleIndex) (rule : Rule) :
    Scan.Yields eq.scope (addRule eq ix rule) (ix.addReading <$> eq.readRule ix.side rule) := by
  have hread : ix.addReading <$> eq.readRule ix.side rule = (do
      checkClass (eq.scope ix.side) rule
      let default ← resolvedDefault eq ix.side rule
      let coverage ← eq.coverageOf ix.side rule
      let pairs ← (eq.scope ix.side).pairsOf rule.head.source rule.head.target
      if pairs.isEmpty then pure ()
      addPairs eq rule default { ix with coverage := ix.coverage.insert coverage } pairs) := by
    simp [Equivalence.readRule, addPairs_eq, addReading]
  rw [hread]
  unfold addRule
  refine (Scan.Yields.ofExcept _).bind fun _ => ?_
  refine (Scan.Yields.ofExcept _).bind fun default => ?_
  refine (Scan.Yields.ofExcept _).bind fun coverage => ?_
  refine (Scan.Yields.pairs ix.side _ _).bind fun pairs => ?_
  split
  · exact (Scan.Yields.tell _).bind fun _ => .ofExcept _
  · exact (Scan.Yields.pure ()).bind fun _ => .ofExcept _

theorem ofRules_yields (rules : List Rule) :
    Scan.Yields eq.scope (ofRules eq family side rules)
      (ofReadings family side <$> rules.mapM (eq.readRule side)) := by
  have hfold := foldlM_eq_mapM (fun ix : RuleIndex => ix.side = side) (eq.readRule side) addReading
    (f := fun ix rule => ix.addReading <$> eq.readRule ix.side rule)
    (fun ix rule h => by rw [h]) (fun ix r h => (addReading_family ix r).2.trans h)
    (b := { family, side }) rfl rules
  unfold ofReadings ofRules
  rw [← hfold]
  exact .foldlM addRule_yields _ rules

/-- Joining the indexes of parts is indexing the readings of all parts. -/
theorem join_parts (parts : List (List RuleReading)) :
    (parts.map (ofReadings family side)).tail.foldl join
      ((parts.map (ofReadings family side)).headD { family, side }) =
        ofReadings family side parts.flatten := by
  cases parts with
  | nil => rfl
  | cons part parts => exact foldl_join_ofReadings family side part parts

/-- However the rules are split into parts, indexing the parts and joining the indexes yields the
index of all the rules. -/
theorem parts_yields (eq : Equivalence) (family : RuleFamily) (side : Side)
    (parts : List (List Rule)) :
    Scan.Yields eq.scope (do
      let indexes ← parts.mapM (ofRules eq family side)
      let ix := indexes.tail.foldl join (indexes.headD { family, side })
      Scan.tell (.indexBuilt side family ix.size)
      pure ix)
      (ofReadings family side <$> parts.flatten.mapM (eq.readRule side)) := by
  have hsplit : ofReadings family side <$> parts.flatten.mapM (eq.readRule side) = (do
      let indexes ← parts.mapM fun rules =>
        ofReadings family side <$> rules.mapM (eq.readRule side)
      let _ ← pure ()
      pure (indexes.tail.foldl join (indexes.headD { family, side }))) := by
    rw [mapM_map_eq, mapM_flatten]
    simp only [Functor.map_map, join_parts, bind_pure_comp]
  rw [hsplit]
  refine (Scan.Yields.mapM (fun rules => ofRules_yields rules) parts).bind fun indexes => ?_
  exact (Scan.Yields.tell _).bind fun _ => .pure _

theorem build_yields (eq : Equivalence) (family : RuleFamily) (side : Side) (workers : Int) :
    Scan.Yields eq.scope (build eq family side workers) (read eq family side) := by
  have hparts := parts_yields eq family side (shards (eq.rules family side) workers)
  rw [shards_flatten] at hparts
  exact hparts

/-! ## The index of a policy's rules -/

/-- An index holds exactly the rules of a family and a side, all of which have been read. -/
structure Indexes (ix : RuleIndex) (eq : Equivalence) (family : RuleFamily) (side : Side) :
    Prop where
  family_eq : ix.family = family
  side_eq : ix.side = side
  readable : ∀ rule ∈ eq.rules family side, ∃ r, eq.Read side rule r
  covered : ∀ k, (ix.get? k).isSome ↔ eq.Covered family side k
  key : ∀ k e, ix.get? k = some e → e.key = k
  rules : ∀ k e, ix.get? k = some e →
    ∀ rule, rule ∈ e.rules ↔ rule ∈ eq.rules family side ∧ eq.Covers side rule k
  perms : ∀ k e, ix.get? k = some e → ∀ p, p ∈ e.perms ↔
    ∃ rule ∈ eq.rules family side, eq.Covers side rule k ∧ p ∈ rule.perms
  defaults : ∀ k e, ix.get? k = some e → ∀ d, d ∈ e.defaults ↔
    ∃ rule ∈ eq.rules family side, eq.Covers side rule k ∧
      resolvedDefault eq side rule = .ok (some d)
  coverage : ∀ v, v ∈ ix.coverage ↔
    ∃ rule ∈ eq.rules family side, eq.coverageOf side rule = .ok v

/-- A part of the entries that collects what the rules say is what they say at each key. -/
theorem Indexes.together {ix : RuleIndex} (h : ix.Indexes eq family side)
    {content : Rule → String → Prop} {part : IndexEntry → NameSet}
    (hpart : ∀ k e, ix.get? k = some e → ∀ x, x ∈ part e ↔
      ∃ rule ∈ eq.rules family side, eq.Covers side rule k ∧ content rule x) (k : RuleKey) :
    eq.Together family side content k ((ix.get? k).map part) := by
  have hcovered := h.covered k
  cases hget : ix.get? k with
  | none =>
    rw [hget] at hcovered
    exact .silent fun hk => Bool.false_ne_true (hcovered.2 hk)
  | some e =>
    rw [hget] at hcovered
    exact .all (hcovered.1 rfl) (hpart k e hget)

theorem resolvedDefault_family {rule : Rule} {d : String}
    (h : resolvedDefault eq side rule = .ok (some d)) : rule.family = .te := by
  cases rule with
  | av r => cases h
  | te r => rfl

/-- Readings of the rules of a family, in any order. -/
structure Readings (eq : Equivalence) (family : RuleFamily) (side : Side)
    (rs : List RuleReading) : Prop where
  exists_reading : ∀ rule ∈ eq.rules family side, ∃ r ∈ rs, eq.Read side rule r
  exists_rule : ∀ r ∈ rs, ∃ rule ∈ eq.rules family side, eq.Read side rule r

theorem readings_of_mapM {rs : List RuleReading}
    (h : (eq.rules family side).mapM (eq.readRule side) = .ok rs) :
    Readings eq family side rs where
  exists_reading rule hrule := by
    obtain ⟨r, hr⟩ := eq_ok_of_mapM_eq_ok h hrule
    exact ⟨r, (mem_of_mapM_eq_ok h).2 ⟨rule, hrule, hr⟩, Equivalence.read_of_readRule hr⟩
  exists_rule r hr := by
    obtain ⟨rule, hrule, hread⟩ := (mem_of_mapM_eq_ok h).1 hr
    exact ⟨rule, hrule, Equivalence.read_of_readRule hread⟩

variable {rs : List RuleReading}

/-- The contributions of the readings of all rules. -/
theorem Readings.mem_contributions (h : Readings eq family side rs) (c : Contribution) :
    c ∈ rs.flatMap (·.contributions) ↔ c.rule ∈ eq.rules family side ∧
      eq.Covers side c.rule c.key ∧ resolvedDefault eq side c.rule = .ok c.default := by
  simp only [List.mem_flatMap, RuleReading.contributions, List.mem_map]
  constructor
  · rintro ⟨r, hr, k, hk, rfl⟩
    obtain ⟨rule, hrule, hread⟩ := h.exists_rule r hr
    simp only [hread.rule_eq]
    exact ⟨hrule, (hread.mem_keys k).1 hk, hread.default_eq⟩
  · rintro ⟨hrule, hk, hdefault⟩
    obtain ⟨r, hr, hread⟩ := h.exists_reading c.rule hrule
    refine ⟨r, hr, c.key, (hread.mem_keys c.key).2 hk, ?_⟩
    rw [hread.rule_eq, Except.ok.inj (hread.default_eq.symm.trans hdefault)]

/-- The rules that contribute at a key are those that cover it. -/
theorem Readings.exists_contribution_iff (h : Readings eq family side rs) (k : RuleKey)
    (P : Rule → Prop) : (∃ c ∈ rs.flatMap (·.contributions), c.key = k ∧ P c.rule) ↔
      ∃ rule ∈ eq.rules family side, eq.Covers side rule k ∧ P rule := by
  constructor
  · rintro ⟨c, hc, rfl, hP⟩
    obtain ⟨hrule, hk, -⟩ := (h.mem_contributions c).1 hc
    exact ⟨c.rule, hrule, hk, hP⟩
  · rintro ⟨rule, hrule, hk, hP⟩
    obtain ⟨r, -, hread⟩ := h.exists_reading rule hrule
    exact ⟨⟨k, rule, r.default⟩, (h.mem_contributions _).2 ⟨hrule, hk, hread.default_eq⟩, rfl, hP⟩

/-- The default types that are contributed at a key. -/
theorem Readings.exists_default_iff (h : Readings eq family side rs) (k : RuleKey) (d : String) :
    (∃ c ∈ rs.flatMap (·.contributions), c.key = k ∧ c.rule.family = .te ∧ c.default = some d) ↔
      ∃ rule ∈ eq.rules family side, eq.Covers side rule k ∧
        resolvedDefault eq side rule = .ok (some d) := by
  constructor
  · rintro ⟨c, hc, rfl, -, hd⟩
    obtain ⟨hrule, hk, hdefault⟩ := (h.mem_contributions c).1 hc
    exact ⟨c.rule, hrule, hk, hd ▸ hdefault⟩
  · rintro ⟨rule, hrule, hk, hd⟩
    have hc := (h.mem_contributions ⟨k, rule, some d⟩).2 ⟨hrule, hk, hd⟩
    exact ⟨_, hc, rfl, resolvedDefault_family hd, rfl⟩

/-- The coverages of the readings are those of the rules. -/
theorem Readings.mem_coverages (h : Readings eq family side rs) (v : Coverage) :
    v ∈ rs.map (·.coverage) ↔ ∃ rule ∈ eq.rules family side, eq.coverageOf side rule = .ok v := by
  rw [List.mem_map]
  constructor
  · rintro ⟨r, hr, rfl⟩
    obtain ⟨rule, hrule, hread⟩ := h.exists_rule r hr
    exact ⟨rule, hrule, hread.coverage_eq⟩
  · rintro ⟨rule, hrule, hv⟩
    obtain ⟨r, hr, hread⟩ := h.exists_reading rule hrule
    exact ⟨r, hr, Except.ok.inj (hread.coverage_eq.symm.trans hv)⟩

theorem Readings.indexes (h : Readings eq family side rs) :
    (ofReadings family side rs).Indexes eq family side := by
  have hcollects := collects_ofReadings family side rs
  obtain ⟨hfamily, hside⟩ := foldl_addReading_family { family, side } rs
  exact {
    family_eq := hfamily
    side_eq := hside
    readable := fun rule hrule => by
      obtain ⟨r, -, hread⟩ := h.exists_reading rule hrule
      exact ⟨r, hread⟩
    covered := fun k => by
      rw [hcollects.isSome_get?]
      simpa [Equivalence.Covered] using h.exists_contribution_iff k fun _ => True
    key := fun k e he => (hcollects.present k e he).2.key
    rules := fun k e he rule => by
      rw [(hcollects.present k e he).2.rules, h.exists_contribution_iff k (· = rule)]
      simp
    perms := fun k e he p =>
      ((hcollects.present k e he).2.perms p).trans (h.exists_contribution_iff k (p ∈ ·.perms))
    defaults := fun k e he d =>
      ((hcollects.present k e he).2.defaults d).trans (h.exists_default_iff k d)
    coverage := fun v => (hcollects.coverage v).trans (h.mem_coverages v) }

theorem indexes_of_read {ix : RuleIndex} (h : read eq family side = .ok ix) :
    ix.Indexes eq family side := by
  obtain ⟨rs, hrs, rfl⟩ := map_eq_ok.1 h
  exact (readings_of_mapM hrs).indexes

end RuleIndex

end PolicyDelta
