import PolicyDelta.Proofs.Remembering
import PolicyDelta.Proofs.Sets

/-! The answers of an expander. Each call is answered as by an expander that was asked nothing
before, whoever asked what in between (`Expander.answers_alone`). That needs policies of one
identity to agree in their names, since what was found for one of them is given to all. The
invariant is that an expander is faithful to all these policies at once; a single call keeps it,
whether the call succeeds or not, and the rest is by induction on the calls. -/

namespace PolicyDelta

theorem selfPairs_nodup (ss : NameSet) : (selfPairs ss).Nodup :=
  List.pairwise_map.2 (ss.nodup_toList.imp fun hne heq => hne (Prod.mk.inj heq).1)

theorem typePairs_nodup (ss ts : NameSet) : (typePairs ss ts).Nodup := by
  refine List.pairwise_flatMap.2 ⟨fun a _ => ?_, ?_⟩
  · exact List.pairwise_map.2 (ts.nodup_toList.imp fun hne heq => hne (Prod.mk.inj heq).2)
  · refine ss.nodup_toList.imp fun hne p hp q hq heq => ?_
    obtain ⟨b, -, rfl⟩ := List.mem_map.1 hp
    obtain ⟨c, -, rfl⟩ := List.mem_map.1 hq
    exact hne (Prod.mk.inj heq).1

/-! ## What names stand for -/

namespace Policy

/-- Two policies have the same types, aliases and attributes. -/
structure NamesAlike (p q : Policy) : Prop where
  types : p.types = q.types
  aliases : p.aliases = q.aliases
  attributes : p.attributes = q.attributes

theorem lawfulBEq_nameSet : LawfulBEq NameSet := inferInstance

instance (p q : Policy) : Decidable (p.NamesAlike q) :=
  haveI := lawfulBEq_nameSet
  decidable_of_iff (p.types = q.types ∧ p.aliases = q.aliases ∧ p.attributes = q.attributes)
    ⟨fun ⟨ht, ha, hm⟩ => ⟨ht, ha, hm⟩, fun ⟨ht, ha, hm⟩ => ⟨ht, ha, hm⟩⟩

/-- What there is to find for a name. A type or an alias stands for the one type it is looked up to,
an attribute for its members if all of them are types. -/
inductive Yields (p : Policy) (n : String) : Except UnknownIdentifier NameSet → Prop where
  | type (hkind : n ∈ p.types ∨ n ∈ p.aliases) (ht : p.scope.lookupType n = .ok t) :
    Yields p n (.ok {t})
  | dangling (hkind : n ∈ p.types ∨ n ∈ p.aliases) (he : p.scope.lookupType n = .error e) :
    Yields p n (.error e)
  | members (ht : n ∉ p.types) (ha : n ∉ p.aliases) (hms : p.attributes[n]? = some ms)
    (hall : ∀ m ∈ ms, m ∈ p.types) : Yields p n (.ok ms)
  | stranger (ht : n ∉ p.types) (ha : n ∉ p.aliases) (hms : p.attributes[n]? = some ms)
    (hm : m ∈ ms) (hout : m ∉ p.types) : Yields p n (.error ⟨m, .type, p.id⟩)
  | unknown (ht : n ∉ p.types) (ha : n ∉ p.aliases) (hm : n ∉ p.attributes) :
    Yields p n (.error ⟨n, .typeOrAttribute, p.id⟩)

/-- What there is to find for a source and a target: every pair of a type of the one and a type of
the other, once. The target `self` is the source of the pair. The source is looked up first. -/
inductive YieldsPairs (p : Policy) (source target : String) :
    Except UnknownIdentifier (List TypePair) → Prop where
  | noSource (hs : p.Yields source (.error e)) : YieldsPairs p source target (.error e)
  | diagonal (hself : target = selfTarget) (hs : p.Yields source (.ok ss)) (hnodup : pairs.Nodup)
    (hmem : ∀ a b, (a, b) ∈ pairs ↔ a ∈ ss ∧ b = a) : YieldsPairs p source target (.ok pairs)
  | noTarget (hself : target ≠ selfTarget) (hs : p.Yields source (.ok ss))
    (ht : p.Yields target (.error e)) : YieldsPairs p source target (.error e)
  | product (hself : target ≠ selfTarget) (hs : p.Yields source (.ok ss))
    (ht : p.Yields target (.ok ts)) (hnodup : pairs.Nodup)
    (hmem : ∀ a b, (a, b) ∈ pairs ↔ a ∈ ss ∧ b ∈ ts) : YieldsPairs p source target (.ok pairs)

variable {p q : Policy} {n : String}

theorem NamesAlike.typesOf (h : p.NamesAlike q) (hid : p.id = q.id) (n : String) :
    p.scope.typesOf n = q.scope.typesOf n := by
  obtain ⟨ht, ha, hm⟩ := h
  cases p
  cases q
  cases ht
  cases ha
  cases hm
  simp only [Scope.typesOf, Scope.kindOf, Scope.lookupType, scope, hid]
  rfl

theorem typesOf_of_attribute {p : Policy} {n : String} {ms : NameSet} (ht : n ∉ p.types)
    (ha : n ∉ p.aliases) (hms : p.attributes[n]? = some ms) :
    p.scope.typesOf n = match ms.toList.find? (· ∉ p.types) with
      | some m => .error ⟨m, .type, p.id⟩
      | none => .ok ms := by
  have hm : n ∈ p.attributes := by
    simp [Std.ExtTreeMap.mem_iff_isSome_getElem?, hms]
  have hkindOf : p.scope.kindOf n = .ok .attributeName := by
    simp [Scope.kindOf, scope, ht, ha, hm]
  have hmembers : p.attributes.getD n ∅ = ms := by
    simp [Std.ExtTreeMap.getD_eq_getD_getElem?, hms]
  rw [Scope.typesOf, hkindOf]
  simp only [bind, Except.bind, scope, hmembers]
  rfl

theorem typesOf_yields (p : Policy) (n : String) : p.Yields n (p.scope.typesOf n) := by
  by_cases hkind : n ∈ p.types ∨ n ∈ p.aliases
  · have hone : p.scope.typesOf n = (p.scope.lookupType n).map fun t => {t} := by
      by_cases ht : n ∈ p.types
      · simp [Scope.typesOf, Scope.kindOf, scope, ht]
        rfl
      · simp [Scope.typesOf, Scope.kindOf, scope, ht, hkind.resolve_left ht]
        rfl
    rw [hone]
    cases hlookup : p.scope.lookupType n with
    | ok t => exact .type hkind hlookup
    | error e => exact .dangling hkind hlookup
  obtain ⟨ht, ha⟩ := not_or.1 hkind
  cases hms : p.attributes[n]? with
  | none =>
    have hm : n ∉ p.attributes := by
      simp [Std.ExtTreeMap.mem_iff_isSome_getElem?, hms]
    have hnone : p.scope.typesOf n = .error ⟨n, .typeOrAttribute, p.id⟩ := by
      simp [Scope.typesOf, Scope.kindOf, scope, ht, ha, hm]
      rfl
    rw [hnone]
    exact .unknown ht ha hm
  | some ms =>
    rw [typesOf_of_attribute ht ha hms]
    split
    · rename_i m hfind
      refine .stranger ht ha hms (Std.ExtTreeSet.mem_toList.1 (List.mem_of_find?_eq_some hfind)) ?_
      simpa using List.find?_some hfind
    · rename_i hfind
      refine .members ht ha hms fun m hmem => ?_
      simpa using List.find?_eq_none.1 hfind m (Std.ExtTreeSet.mem_toList.2 hmem)

theorem pairsOf_yields (p : Policy) (source target : String) :
    p.YieldsPairs source target (p.scope.pairsOf source target) := by
  have hs := p.typesOf_yields source
  have ht := p.typesOf_yields target
  unfold Scope.pairsOf
  cases hsource : p.scope.typesOf source with
  | error e =>
    rw [hsource] at hs
    exact .noSource hs
  | ok ss =>
    rw [hsource] at hs
    by_cases hself : target = selfTarget
    · simp only [bind, Except.bind, hself, if_true]
      exact .diagonal rfl hs (selfPairs_nodup ss) fun a b => mem_selfPairs
    simp only [bind, Except.bind, hself, if_false]
    cases htarget : p.scope.typesOf target with
    | error e =>
      rw [htarget] at ht
      exact .noTarget hself hs ht
    | ok ts =>
      rw [htarget] at ht
      exact .product hself hs ht (typePairs_nodup ss ts) fun a b => mem_typePairs

end Policy

/-! ## Calls -/

namespace Expander

/-- What may be asked of an expander. -/
inductive Call where
  | types (p : Policy) (name : String)
  | pairs (p : Policy) (source target : String)
  | clear

/-- What is answered. -/
inductive Answer where
  | types (found : Except UnknownIdentifier NameSet)
  | pairs (found : Except UnknownIdentifier (List TypePair))
  | done

/-- The policy that a call is about. -/
def Call.policy? : Call → Option Policy
  | types p _ | pairs p _ _ => some p
  | clear => none

/-- The answer says what there is to find. -/
inductive Call.Yields : Call → Answer → Prop where
  | types (h : p.Yields n found) : (types p n).Yields (.types found)
  | pairs (h : p.YieldsPairs source target found) : (pairs p source target).Yields (.pairs found)
  | clear : clear.Yields .done

/-- The answer to a call. -/
def answer (x : Expander) : Call → Answer
  | .types p n => .types (x.types p.scope n).1
  | .pairs p source target => .pairs (x.pairs p.scope source target).1
  | .clear => .done

/-- The expander after a call. -/
def next (x : Expander) : Call → Expander
  | .types p n => (x.types p.scope n).2.1
  | .pairs p source target => (x.pairs p.scope source target).2.1
  | .clear => x.clear

/-- The expander after calls, each with the number of the worker that makes it. -/
def after (x : Expander) (calls : List (Nat × Call)) : Expander :=
  calls.foldl (fun x c => x.next c.2) x

/-- The answers to calls that are made one after another, each with the number of its worker. -/
def answers (x : Expander) : List (Nat × Call) → List (Nat × Answer)
  | [] => []
  | c :: calls => (c.1, x.answer c.2) :: (x.next c.2).answers calls

/-- The failure that is answered. -/
def Answer.failure? : Answer → Option UnknownIdentifier
  | types (.error e) | pairs (.error e) => some e
  | _ => none

/-- A call fails at a name. -/
inductive Call.FailsAt : Call → Policy → String → UnknownIdentifier → Prop where
  | types (he : p.scope.typesOf n = .error e) : (types p n).FailsAt p n e
  | source (he : p.scope.typesOf source = .error e) : (pairs p source target).FailsAt p source e
  | target (hself : target ≠ selfTarget) (hs : p.scope.typesOf source = .ok ss)
    (he : p.scope.typesOf target = .error e) : (pairs p source target).FailsAt p target e

/-- Policies of one identity have the same names. -/
def Agreeing (policies : List Policy) : Prop :=
  ∀ p ∈ policies, ∀ q ∈ policies, p.id = q.id → p.NamesAlike q

instance (policies : List Policy) : Decidable (Agreeing policies) :=
  inferInstanceAs (Decidable (∀ p ∈ policies, ∀ q ∈ policies, p.id = q.id → p.NamesAlike q))

/-- The policies that calls are about. -/
def policiesOf (calls : List (Nat × Call)) : List Policy :=
  calls.filterMap (·.2.policy?)

/-- An expander is faithful to policies. -/
def FaithfulTo (x : Expander) (policies : List Policy) : Prop :=
  ∀ p ∈ policies, x.Faithful p.scope

variable {x : Expander} {policies : List Policy} {p : Policy} {c : Call} {n : String}
  {e : UnknownIdentifier}

/-! ## A single call -/

theorem answer_yields (c : Call) : c.Yields (({} : Expander).answer c) := by
  cases c with
  | types p n =>
    rw [answer, ((faithful_empty p.scope).types n).1]
    exact .types (p.typesOf_yields n)
  | pairs p source target =>
    rw [answer, ((faithful_empty p.scope).pairs source target).1]
    exact .pairs (p.pairsOf_yields source target)
  | clear => exact .clear

theorem FaithfulTo.answer (h : x.FaithfulTo policies) (hc : ∀ p ∈ c.policy?, p ∈ policies) :
    x.answer c = ({} : Expander).answer c := by
  cases c with
  | types p n =>
    have hp := h p (hc p rfl)
    rw [Expander.answer, Expander.answer, (hp.types n).1, ((faithful_empty p.scope).types n).1]
  | pairs p source target =>
    have hp := h p (hc p rfl)
    rw [Expander.answer, Expander.answer, (hp.pairs source target).1,
      ((faithful_empty p.scope).pairs source target).1]
  | clear => rfl

theorem FaithfulTo.types (h : x.FaithfulTo policies) (hpolicies : Agreeing policies)
    (hp : p ∈ policies) (n : String) : (x.types p.scope n).2.1.FaithfulTo policies := by
  intro q hq
  unfold Expander.types
  cases x.known[(p.scope.id, n)]? with
  | some ts => exact h q hq
  | none =>
    cases hts : p.scope.typesOf n with
    | error e => exact h q hq
    | ok ts =>
      -- What was found for one policy is what there is to find in another of its identity.
      refine (h q hq).remember fun hid => ?_
      rw [← (hpolicies p hp q hq hid).typesOf hid, hts]

/-- Pairs are found by looking up the source and, unless this fails, a target that is not `self`. -/
theorem next_pairs (x : Expander) (p : Policy) (source target : String) :
    x.next (.pairs p source target) = x.next (.types p source) ∨
      x.next (.pairs p source target) = (x.next (.types p source)).next (.types p target) := by
  simp only [next]
  unfold Expander.pairs
  obtain ⟨_ | ss, x', told⟩ := x.types p.scope source
  · exact .inl rfl
  by_cases hself : target = selfTarget
  · simp only [hself, if_true, true_or]
  simp only [hself, if_false]
  obtain ⟨_ | ts, x'', more⟩ := x'.types p.scope target
  · exact .inr rfl
  · exact .inr rfl

theorem FaithfulTo.next (h : x.FaithfulTo policies) (hpolicies : Agreeing policies)
    (hc : ∀ p ∈ c.policy?, p ∈ policies) : (x.next c).FaithfulTo policies := by
  cases c with
  | types p n => exact h.types hpolicies (hc p rfl) n
  | pairs p source target =>
    have hsource := h.types hpolicies (hc p rfl) source
    rcases next_pairs x p source target with heq | heq
    · rw [heq]
      exact hsource
    · rw [heq]
      exact hsource.types hpolicies (hc p rfl) target
  | clear => exact fun p _ => faithful_empty p.scope

/-! ## Failures -/

theorem Call.FailsAt.typesOf (h : c.FailsAt p n e) :
    p ∈ c.policy? ∧ p.scope.typesOf n = .error e := by
  cases h with
  | types he | source he | target _ _ he => exact ⟨rfl, he⟩

theorem exists_failsAt (h : (({} : Expander).answer c).failure? = some e) :
    ∃ p n, c.FailsAt p n e := by
  cases c with
  | types p n =>
    rw [answer, ((faithful_empty p.scope).types n).1] at h
    cases htypes : p.scope.typesOf n with
    | ok ts => simp [htypes, Answer.failure?] at h
    | error e' =>
      obtain rfl : e' = e := by simpa [htypes, Answer.failure?] using h
      exact ⟨p, n, .types htypes⟩
  | pairs p source target =>
    rw [answer, ((faithful_empty p.scope).pairs source target).1] at h
    cases hpairs : p.scope.pairsOf source target with
    | ok pairs => simp [hpairs, Answer.failure?] at h
    | error e' =>
      obtain rfl : e' = e := by simpa [hpairs, Answer.failure?] using h
      rcases bind_eq_error.1 hpairs with he | ⟨ss, hs, he⟩
      · exact ⟨p, source, .source he⟩
      by_cases hself : target = selfTarget
      · simp [hself, pure, Except.pure] at he
      · rw [if_neg hself] at he
        rcases bind_eq_error.1 he with he | ⟨ts, -, he⟩
        · exact ⟨p, target, .target hself hs he⟩
        · cases he
  | clear => cases h

/-- Nothing is remembered for a name whose look-up fails. -/
theorem Faithful.known_eq_none (h : x.Faithful p.scope) (he : p.scope.typesOf n = .error e) :
    x.known[(p.id, n)]? = none := by
  cases hknown : x.known[(p.id, n)]? with
  | none => rfl
  | some ts =>
    have hts := h n ts hknown
    rw [he] at hts
    cases hts

/-! ## Calls one after another -/

theorem FaithfulTo.after (h : x.FaithfulTo policies) (hpolicies : Agreeing policies)
    {calls : List (Nat × Call)} (hcalls : ∀ p ∈ policiesOf calls, p ∈ policies) :
    (x.after calls).FaithfulTo policies := by
  induction calls generalizing x with
  | nil => exact h
  | cons c calls ih =>
    refine ih (h.next hpolicies fun p hp => ?_) fun p hp => ?_
    · exact hcalls p (List.mem_filterMap.2 ⟨c, List.mem_cons_self, hp⟩)
    · obtain ⟨d, hd, hp⟩ := List.mem_filterMap.1 hp
      exact hcalls p (List.mem_filterMap.2 ⟨d, List.mem_cons_of_mem _ hd, hp⟩)

theorem FaithfulTo.answers (h : x.FaithfulTo policies) (hpolicies : Agreeing policies)
    {calls : List (Nat × Call)} (hcalls : ∀ p ∈ policiesOf calls, p ∈ policies) :
    x.answers calls = calls.map fun c => (c.1, ({} : Expander).answer c.2) := by
  induction calls generalizing x with
  | nil => rfl
  | cons c calls ih =>
    have hc : ∀ p ∈ c.2.policy?, p ∈ policies := fun p hp =>
      hcalls p (List.mem_filterMap.2 ⟨c, List.mem_cons_self, hp⟩)
    rw [Expander.answers, h.answer hc, List.map_cons, ih (h.next hpolicies hc) fun p hp => ?_]
    obtain ⟨d, hd, hp⟩ := List.mem_filterMap.1 hp
    exact hcalls p (List.mem_filterMap.2 ⟨d, List.mem_cons_of_mem _ hd, hp⟩)

/-- Each call is answered as by an expander that was asked nothing before, with what there is to
find; so a worker gets the answers that it would get alone. A call that fails at a name leaves
nothing remembered for it, and it makes no difference to the calls that follow. -/
theorem answers_alone (calls : List (Nat × Call)) (h : Agreeing (policiesOf calls)) :
    ({} : Expander).answers calls = calls.map (fun c => (c.1, ({} : Expander).answer c.2)) ∧
    (∀ c ∈ calls, c.2.Yields (({} : Expander).answer c.2)) ∧
    (∀ worker, (({} : Expander).answers calls).filter (·.1 = worker) =
      ({} : Expander).answers (calls.filter (·.1 = worker))) ∧
    ∀ before c later, calls = before ++ c :: later →
      ∀ e, ((({} : Expander).after before).answer c.2).failure? = some e →
        (∃ p n, c.2.FailsAt p n e ∧
          ((({} : Expander).after before).next c.2).known[(p.id, n)]? = none) ∧
        ((({} : Expander).after before).next c.2).answers later =
          (({} : Expander).after before).answers later := by
  have hempty : ({} : Expander).FaithfulTo (policiesOf calls) := fun p _ => faithful_empty p.scope
  have hall {part : List (Nat × Call)} (hpart : ∀ c ∈ part, c ∈ calls) :
      ∀ p ∈ policiesOf part, p ∈ policiesOf calls := fun p hp => by
    obtain ⟨c, hc, hp⟩ := List.mem_filterMap.1 hp
    exact List.mem_filterMap.2 ⟨c, hpart c hc, hp⟩
  have hanswers := hempty.answers h fun _ hp => hp
  refine ⟨hanswers, fun c _ => answer_yields c.2, fun worker => ?_, ?_⟩
  · rw [hanswers, List.filter_map, hempty.answers h (hall fun c hc => (List.mem_filter.1 hc).1)]
    rfl
  rintro before c later rfl e he
  have hbefore := hempty.after h (hall fun d hd => List.mem_append_left _ hd)
  have hc : ∀ p ∈ c.2.policy?, p ∈ policiesOf (before ++ c :: later) := fun p hp =>
    List.mem_filterMap.2 ⟨c, by simp, hp⟩
  have hnext := hbefore.next h hc
  have hlater : ∀ p ∈ policiesOf later, p ∈ policiesOf (before ++ c :: later) :=
    hall fun d hd => by simp [hd]
  rw [hbefore.answer hc] at he
  obtain ⟨p, n, hfails⟩ := exists_failsAt he
  refine ⟨⟨p, n, hfails, ?_⟩, ?_⟩
  · obtain ⟨hp, hname⟩ := hfails.typesOf
    exact (hnext p (hc p hp)).known_eq_none hname
  · rw [hnext.answers h hlater, hbefore.answers h hlater]

end Expander

namespace Sample

/-- An attribute has a member that is not a type. -/
def dangling : Policy where
  identity := some "dangling"
  types := .ofList ["app", "log", "tmp"]
  aliases := .ofList [("journal", "log")]
  attributes := .ofList [("file", (.ofList ["log", "tmp"] : NameSet)), ("old", .ofList ["gone"])]

/-- A policy of the same identity, with a rule. -/
def danglingWithRule : Policy :=
  { dangling with avRules := [{ source := "app", target := "file", objectClass := "file"
                                flavor := .allow, perms := .ofList ["read"] }] }

/-- The files are other types here. -/
def foreign : Policy where
  identity := some "foreign"
  types := .ofList ["app", "cache"]
  attributes := .ofList [("file", (.ofList ["cache"] : NameSet))]

/-- The calls before one that finds its source and fails at its target. -/
def callsBefore : List (Nat × Expander.Call) :=
  [(0, .types dangling "file"), (1, .types foreign "file"),
    (0, .pairs danglingWithRule "file" "self")]

def failingCall : Nat × Expander.Call :=
  (1, .pairs dangling "journal" "old")

def callsLater : List (Nat × Expander.Call) :=
  [(0, .types danglingWithRule "journal"), (1, .clear), (1, .pairs foreign "app" "file")]

def calls : List (Nat × Expander.Call) :=
  callsBefore ++ failingCall :: callsLater

end Sample

namespace Expander

theorem answers_alone_sample :
    Agreeing (policiesOf Sample.calls) ∧
    ({} : Expander).answers Sample.calls =
      Sample.calls.map (fun c => (c.1, ({} : Expander).answer c.2)) ∧
    ((({} : Expander).after Sample.callsBefore).answer Sample.failingCall.2).failure? =
      some ⟨"gone", .type, "dangling"⟩ ∧
    ((({} : Expander).after Sample.callsBefore).next Sample.failingCall.2).answers
        Sample.callsLater =
      (({} : Expander).after Sample.callsBefore).answers Sample.callsLater := by
  have hagree : Agreeing (policiesOf Sample.calls) := by decide +kernel
  have hfailure :
      ((({} : Expander).after Sample.callsBefore).answer Sample.failingCall.2).failure? =
        some ⟨"gone", .type, "dangling"⟩ := by
    decide +kernel
  obtain ⟨hanswers, -, -, hfails⟩ := answers_alone Sample.calls hagree
  exact ⟨hagree, hanswers, hfailure, (hfails _ _ _ rfl _ hfailure).2⟩

end Expander

end PolicyDelta
