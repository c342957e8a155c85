import Mathlib.Logic.Relation
import PolicyDelta.Proofs.Alike

/-! Rules may be written in many ways. Rules may be permuted, repeated, spelled in another way and
split by their permissions; whatever is done to the rules of both policies, the answers stay
(`Session.agree_of_rewrites`). One step keeps what a list of rules echoes (`Rewriting.echoed`), and
so does every number of steps. -/

namespace PolicyDelta

/-- A name in another spelling: an alias may be written as its type. A name is looked up among the
types first, so no type is an alias. -/
inductive Policy.Spells (p : Policy) (n : String) : String → Prop where
  | same : Spells p n n
  | byType (hn : n ∉ p.types) (ha : p.aliases[n]? = some t) : Spells p n t

/-- A rule in another spelling. Its line is free, and so is its branch without a condition. -/
structure Rule.Respells (p : Policy) (rule rule' : Rule) : Prop where
  kind : rule.kind = rule'.kind
  objectClass : rule.head.objectClass = rule'.head.objectClass
  cond : rule.head.cond = rule'.head.cond
  branch : rule.head.cond ≠ none → rule.head.branch = rule'.head.branch
  fileName : rule.fileName = rule'.fileName
  perms : rule.perms = rule'.perms
  source : p.Spells rule.head.source rule'.head.source
  target : p.Spells rule.head.target rule'.head.target
  default : Option.Rel p.Spells rule.default? rule'.default?

/-- One step of writing rules in another way. Rules may be permuted, so the other steps are taken at
the head of the list. -/
inductive Rewriting (p : Policy) : List Rule → List Rule → Prop where
  | permute (h : rules.Perm rules') : Rewriting p rules rules'
  | duplicate : Rewriting p (rule :: rules) (rule :: rule :: rules)
  | respell (h : Rule.Respells p rule rule') : Rewriting p (rule :: rules) (rule' :: rules)
  | split {r : AvRule} (hne : parts ≠ []) (hparts : ∀ x, x ∈ r.perms ↔ ∃ part ∈ parts, x ∈ part) :
    Rewriting p (.av r :: rules) (parts.map (fun part => .av { r with perms := part }) ++ rules)

/-- A policy with the same names and with rules that are written in another way. -/
structure Policy.Rewrites (p p' : Policy) : Prop where
  types : p.types = p'.types
  aliases : p.aliases = p'.aliases
  attributes : p.attributes = p'.attributes
  classes : p.classes = p'.classes
  rules : ∀ family, Relation.ReflTransGen (Rewriting p) (p.rules family) (p'.rules family)

theorem Policy.Rewrites.refl (p : Policy) : p.Rewrites p :=
  ⟨rfl, rfl, rfl, rfl, fun _ => .refl⟩

namespace Equivalence

variable {eq eq' : Equivalence} {side : Side} {n n' : String} {rule rule' : Rule}
  {rules rules' : List Rule}

theorem SameNames.refl (eq : Equivalence) (side : Side) : SameNames eq side eq side :=
  ⟨rfl, rfl, rfl, rfl, rfl, rfl⟩

/-- Another spelling has the same meaning, if `self` is neither a type nor an alias. -/
theorem Means.spells {m : Meaning} (hm : eq.Means side n m)
    (hself : selfTarget ∉ (eq.scope side).policy.types ∧
      selfTarget ∉ (eq.scope side).policy.aliases)
    (h : (eq.scope side).policy.Spells n n') : SameName eq side n eq side n' := by
  cases h with
  | same => exact ⟨Iff.rfl, m, hm, hm⟩
  | byType hn ha =>
    have hne : n ≠ selfTarget := by
      rintro rfl
      exact hself.2 (mem_aliases_of_getElem? ha)
    cases hm with
    | typeName hn' => exact absurd hn' hn
    | attributeName _ ha' => exact absurd (mem_aliases_of_getElem? ha) ha'
    | aliasName _ ha' ht =>
      -- The alias has a meaning, so what it stands for is a type.
      cases ha.symm.trans ha'
      have hne' : n' ≠ selfTarget := by
        rintro rfl
        exact hself.1 ht
      exact ⟨iff_of_false hne hne', _, .aliasName hn ha ht, .typeName ht⟩

theorem Readable.respells (hread : eq.Readable side rule)
    (hself : selfTarget ∉ (eq.scope side).policy.types ∧
      selfTarget ∉ (eq.scope side).policy.aliases)
    (h : Rule.Respells (eq.scope side).policy rule rule') : Alike eq side rule eq side rule' := by
  have hframe : eq.frameOf side rule = eq.frameOf side rule' := by
    have hbranch : branchUnder (eq.canonicalCond side rule.head.cond) rule.head.branch =
        branchUnder (eq.canonicalCond side rule'.head.cond) rule'.head.branch := by
      rw [← h.cond]
      cases hcond : rule.head.cond with
      | none => cases side <;> rfl
      | some cond => rw [h.branch (by simp [hcond])]
    unfold frameOf
    simp only [h.kind, h.objectClass, h.fileName, hbranch]
    rw [h.cond]
  have hdefault : Option.Rel (SameName eq side · eq side ·) rule.default? rule'.default? := by
    obtain ⟨o, ho⟩ := hread.default
    rw [resolvedDefault_eq_ok] at ho
    have hspells := h.default
    generalize rule.default? = n, rule'.default? = n' at ho hspells
    cases hspells with
    | none => exact .none
    | some hspells =>
      cases ho with
      | some hm => exact .some (hm.spells hself hspells)
  obtain ⟨m, hm⟩ := hread.source
  refine hread.alike rfl hframe hdefault (hm.spells hself h.source) ?_
  by_cases htarget : rule.head.target = selfTarget
  · have hspells := h.target
    rw [htarget] at hspells
    generalize rule'.head.target = n' at hspells ⊢
    cases hspells with
    | same => exact .inl ⟨htarget, rfl⟩
    | byType _ ha => exact absurd (mem_aliases_of_getElem? ha) hself.2
  · obtain ⟨m', hm'⟩ := hread.target htarget
    exact .inr ⟨htarget, hm'.spells hself h.target⟩

/-! ## Rewriting steps -/

theorem Echoed.append {rest rest' : List Rule} (h : Echoed eq side rules eq side rules')
    (hrest : Echoed eq side rest eq side rest') :
    Echoed eq side (rules ++ rest) eq side (rules' ++ rest') where
  rule r hr := by
    rcases List.mem_append.1 hr with hr | hr
    · obtain ⟨r', hr', halike⟩ := h.rule r hr
      exact ⟨r', List.mem_append_left _ hr', halike⟩
    · obtain ⟨r', hr', halike⟩ := hrest.rule r hr
      exact ⟨r', List.mem_append_right _ hr', halike⟩
  perm r hr p hp := by
    rcases List.mem_append.1 hr with hr | hr
    · obtain ⟨r', hr', halike⟩ := h.perm r hr p hp
      exact ⟨r', List.mem_append_left _ hr', halike⟩
    · obtain ⟨r', hr', halike⟩ := hrest.perm r hr p hp
      exact ⟨r', List.mem_append_right _ hr', halike⟩

theorem Alike.echoed (h : Alike eq side rule eq side rule') (hperms : rule.perms = rule'.perms) :
    Echoed eq side [rule] eq side [rule'] where
  rule r hr := by
    obtain rfl := List.mem_singleton.1 hr
    exact ⟨rule', List.mem_singleton_self _, h⟩
  perm r hr p hp := by
    obtain rfl := List.mem_singleton.1 hr
    exact ⟨rule', List.mem_singleton_self _, h, hperms ▸ hp⟩

/-- An access vector rule is alike to every part of it. -/
theorem Readable.alike_part {r : AvRule} (hread : eq.Readable side (.av r)) (part : NameSet) :
    Alike eq side (.av r) eq side (.av { r with perms := part }) := by
  have halike := (SameNames.refl eq side).alike hread
  exact ⟨halike.checked, halike.checked', halike.default, halike.frame, halike.source,
    halike.target⟩

theorem Readable.echoed_split {r : AvRule} {parts : List NameSet} (hread : eq.Readable side (.av r))
    (hne : parts ≠ []) (hparts : ∀ x, x ∈ r.perms ↔ ∃ part ∈ parts, x ∈ part) :
    Echoed eq side [.av r] eq side (parts.map fun part => .av { r with perms := part }) ∧
      Echoed eq side (parts.map fun part => .av { r with perms := part }) eq side [.av r] := by
  have hmem {part : NameSet} (hpart : part ∈ parts) :
      Rule.av { r with perms := part } ∈
        parts.map fun part => Rule.av { r with perms := part } :=
    List.mem_map_of_mem hpart
  refine ⟨⟨fun rule hrule => ?_, fun rule hrule x hx => ?_⟩,
    ⟨fun rule hrule => ?_, fun rule hrule x hx => ?_⟩⟩
  · obtain rfl := List.mem_singleton.1 hrule
    obtain ⟨part, hpart⟩ := List.exists_mem_of_ne_nil parts hne
    exact ⟨_, hmem hpart, hread.alike_part part⟩
  · obtain rfl := List.mem_singleton.1 hrule
    obtain ⟨part, hpart, hx⟩ := (hparts x).1 hx
    exact ⟨_, hmem hpart, hread.alike_part part, hx⟩
  · obtain ⟨part, -, rfl⟩ := List.mem_map.1 hrule
    exact ⟨_, List.mem_singleton_self _, (hread.alike_part part).symm⟩
  · obtain ⟨part, hpart, rfl⟩ := List.mem_map.1 hrule
    have hx' := (hparts x).2 ⟨part, hpart, hx⟩
    exact ⟨_, List.mem_singleton_self _, (hread.alike_part part).symm, hx'⟩

theorem echoed_of_subset (hread : ∀ rule ∈ rules, eq.Readable side rule)
    (hsub : ∀ rule ∈ rules, rule ∈ rules') : Echoed eq side rules eq side rules' :=
  (SameNames.refl eq side).echoed hread hsub

/-- After one step of rewriting the rules say the same. -/
theorem echoed_of_rewriting (hself : selfTarget ∉ (eq.scope side).policy.types ∧
      selfTarget ∉ (eq.scope side).policy.aliases)
    (hread : ∀ rule ∈ rules, eq.Readable side rule)
    (h : Rewriting (eq.scope side).policy rules rules') :
    Echoed eq side rules eq side rules' ∧ Echoed eq side rules' eq side rules := by
  cases h with
  | permute hperm =>
    have hread' : ∀ rule ∈ rules', eq.Readable side rule := fun rule hrule =>
      hread rule (hperm.mem_iff.2 hrule)
    exact ⟨echoed_of_subset hread fun _ => hperm.mem_iff.1,
      echoed_of_subset hread' fun _ => hperm.mem_iff.2⟩
  | @duplicate rule rules =>
    have hmem (r : Rule) : r ∈ rule :: rule :: rules ↔ r ∈ rule :: rules := by simp
    have hread' : ∀ r ∈ rule :: rule :: rules, eq.Readable side r := fun r hr =>
      hread r ((hmem r).1 hr)
    exact ⟨echoed_of_subset hread fun r => (hmem r).2, echoed_of_subset hread' fun r => (hmem r).1⟩
  | @respell rule rule' rules h =>
    obtain ⟨hrule, hrules⟩ := List.forall_mem_cons.1 hread
    have halike := hrule.respells hself h
    have hrest := echoed_of_subset hrules fun _ => id
    exact ⟨(halike.echoed h.perms).append hrest, (halike.symm.echoed h.perms.symm).append hrest⟩
  | @split parts rules r hne hparts =>
    obtain ⟨hrule, hrules⟩ := List.forall_mem_cons.1 hread
    obtain ⟨hthere, hback⟩ := hrule.echoed_split hne hparts
    have hrest := echoed_of_subset hrules fun _ => id
    exact ⟨hthere.append hrest, hback.append hrest⟩

/-- After any number of steps the rules say the same. -/
theorem echoed_of_rewritings (hself : selfTarget ∉ (eq.scope side).policy.types ∧
      selfTarget ∉ (eq.scope side).policy.aliases)
    (hread : ∀ rule ∈ rules, eq.Readable side rule)
    (h : Relation.ReflTransGen (Rewriting (eq.scope side).policy) rules rules') :
    Echoed eq side rules eq side rules' ∧ Echoed eq side rules' eq side rules := by
  induction h with
  | refl =>
    have hsame := echoed_of_subset hread fun _ => id
    exact ⟨hsame, hsame⟩
  | tail _ hstep ih =>
    obtain ⟨hthere, hback⟩ := ih
    -- The rules can still be read, for each is alike to one of the first.
    have hread' : ∀ rule ∈ _, eq.Readable side rule := fun rule hrule => by
      obtain ⟨_, -, halike⟩ := hback.rule rule hrule
      exact halike.readable
    obtain ⟨hthere', hback'⟩ := echoed_of_rewriting hself hread' hstep
    exact ⟨hthere.trans hthere', hback'.trans hback⟩

/-- Sides whose policies are the same but for the writing match. -/
theorem matches_of_rewrites {d : TypeDelta}
    (hself : selfTarget ∉ (eq.scope side).policy.types ∧
      selfTarget ∉ (eq.scope side).policy.aliases)
    (hread : ∀ family, ∀ rule ∈ eq.rules family side, eq.Readable side rule)
    (hnames : SameNames eq side eq' side)
    (hrules : ∀ family, Relation.ReflTransGen (Rewriting (eq.scope side).policy)
      (eq.rules family side) (eq'.rules family side)) :
    Matches eq d side eq' d side := by
  have hechoed (family : RuleFamily) := echoed_of_rewritings hself (hread family) (hrules family)
  have hread' (family : RuleFamily) : ∀ rule ∈ eq'.rules family side, eq.Readable side rule := by
    intro rule hrule
    obtain ⟨_, -, halike⟩ := (hechoed family).2.rule rule hrule
    exact halike.readable
  refine ⟨rfl, fun _ => rfl, fun family => ?_, fun family => ?_⟩
  · exact (hechoed family).1.trans (hnames.echoed (hread' family) fun _ => id)
  · exact (hnames.echoed_symm (hread' family) fun _ => id).trans (hechoed family).2

end Equivalence

/-- The answers do not depend on how the rules of both policies are written. -/
theorem Session.agree_of_rewrites {base modified base' modified' : Policy} {d : TypeDelta}
    {workers : Int} {s : Session} (h : (build base modified d workers).1 = .ok s)
    (hself : ∀ p ∈ [base, modified], selfTarget ∉ p.types ∧ selfTarget ∉ p.aliases)
    (hbase : base.Rewrites base') (hmodified : modified.Rewrites modified') (workers' : Int) :
    ∃ s', (build base' modified' d workers').1 = .ok s' ∧ s.Agree s' := by
  obtain ⟨hrenames, hread⟩ := exists_build_iff.1 ⟨s, h⟩
  have hrenames' :
      Equivalence.checkRenames base'.scope modified'.scope d.renames.pairs = .ok () := by
    rw [Equivalence.checkRenames_eq_ok] at hrenames ⊢
    simpa only [Policy.scope, hbase.types, hmodified.types] using hrenames
  refine exists_agreeing h hrenames' (fun side => ?_) workers'
  cases side with
  | base =>
    exact Equivalence.matches_of_rewrites (hself base (by simp)) (fun family => hread family .base)
      ⟨hbase.types, hbase.aliases, hbase.attributes, hbase.classes, rfl, rfl⟩ hbase.rules
  | modified =>
    exact Equivalence.matches_of_rewrites (hself modified (by simp))
      (fun family => hread family .modified)
      ⟨hmodified.types, hmodified.aliases, hmodified.attributes, hmodified.classes, rfl, rfl⟩
      hmodified.rules

/-! ## Two ways to write a policy -/

namespace Sample

/-- One rule grants two permissions on the log. -/
def terse : Policy :=
  { before with
    avRules := [allowApp "journal" ["append", "read"]], teRules := [defaultOfLog "journal"] }

/-- The permissions are granted one by one, one of them twice. -/
def verbose : Policy :=
  { before with
    avRules := [allowApp "journal" ["read"], { allowApp "log" ["append"] with branch := false },
      { allowApp "log" ["append"] with branch := false }]
    teRules := [{ defaultOfLog "log" with line := some 4 }] }

theorem spells_journal : terse.Spells "journal" "log" :=
  .byType (by decide) (by decide)

theorem terse_rewrites : terse.Rewrites verbose where
  types := rfl
  aliases := rfl
  attributes := rfl
  classes := rfl
  rules family := by
    cases family with
    | av =>
      have hparts (x : String) : x ∈ (allowApp "journal" ["append", "read"]).perms ↔
          ∃ part ∈ [(.ofList ["append"] : NameSet), .ofList ["read"]], x ∈ part := by
        simpa [allowApp, Std.ExtTreeSet.mem_ofList] using or_congr eq_comm eq_comm
      have hsplit : Rewriting terse [.av (allowApp "journal" ["append", "read"])] _ :=
        .split (by simp) hparts
      have hrespell : Rule.Respells terse (.av (allowApp "journal" ["append"]))
          (.av { allowApp "log" ["append"] with branch := false }) :=
        ⟨rfl, rfl, rfl, fun h => absurd rfl h, rfl, rfl, .same, spells_journal, .none⟩
      exact .head hsplit <| .head (.respell hrespell) <| .head .duplicate <|
        .single (.permute (List.perm_append_singleton _ [_, _]))
    | te =>
      exact .single <| .respell
        ⟨rfl, rfl, rfl, fun _ => rfl, rfl, rfl, .same, .same, .some spells_journal⟩

end Sample

theorem Session.agree_of_rewrites_sample :
    (∀ p ∈ [Sample.terse, Sample.after], selfTarget ∉ p.types ∧ selfTarget ∉ p.aliases) ∧
    Sample.terse.Rewrites Sample.verbose ∧ Sample.after.Rewrites Sample.after ∧
    ∃ s, (build Sample.terse Sample.after Sample.delta 2).1 = .ok s ∧
      Sample.forms .av s = some [.addType, .modified, .added, .added] ∧
      ∃ s', (build Sample.verbose Sample.after Sample.delta 0).1 = .ok s' ∧ s.Agree s' := by
  have hself : ∀ p ∈ [Sample.terse, Sample.after],
      selfTarget ∉ p.types ∧ selfTarget ∉ p.aliases := by
    decide
  have hforms : (build Sample.terse Sample.after Sample.delta 2).1.toOption.map
      (Sample.forms .av) = some (some [.addType, .modified, .added, .added]) := by
    decide +kernel
  obtain ⟨s, hs, hforms⟩ := exists_ok_of_map hforms
  exact ⟨hself, Sample.terse_rewrites, .refl _, s, hs, hforms,
    agree_of_rewrites hs hself Sample.terse_rewrites (.refl _) 0⟩

end PolicyDelta
