import PolicyDelta.Proofs.Defaults
import PolicyDelta.Proofs.Meaning

/-! The contents of an index. `RuleIndex.Exact` describes the index of the rules of a side by a
comprehension over the rules and the pairs of types that they stand for; it leaves nothing open
(`RuleIndex.Exact.unique`). Building an index yields exactly this, whatever correct expansions are
remembered beforehand and however the rules are split (`RuleIndex.build_exact`). -/

namespace PolicyDelta

variable {eq : Equivalence} {family : RuleFamily} {side : Side} {k : RuleKey}

/-- An entry holds the rules that cover its key, and what they say together: their permissions and
the canonical names of their default types. -/
structure IndexEntry.Exact (e : IndexEntry) (eq : Equivalence) (family : RuleFamily) (side : Side)
    (k : RuleKey) : Prop where
  key : e.key = k
  rules : ∀ rule, rule ∈ e.rules ↔ rule ∈ eq.rules family side ∧ eq.Covers side rule k
  perms : ∀ p, p ∈ e.perms ↔ ∃ rule ∈ e.rules, p ∈ rule.perms
  perms_te : family = .te → e.perms = ∅
  defaults : ∀ d, d ∈ e.defaults ↔
    ∃ rule ∈ e.rules, ∃ n, rule.default? = some n ∧ eq.Means side n (.ofType d)
  resolved : ∀ rule ∈ e.rules, ∀ n, rule.default? = some n →
    ∃ d ∈ e.defaults, eq.Means side n (.ofType d)
  defaults_te : family = .te → e.defaults ≠ ∅
  defaults_av : family = .av → e.defaults = ∅

/-- The parts of a key that depend on others or on the family: there is a branch exactly beside a
condition, and a file name in type enforcement rules only. -/
structure RuleKey.Fits (k : RuleKey) (family : RuleFamily) : Prop where
  branch : k.branch = none ↔ k.cond = none
  name : family = .av → k.name = none

/-- An index has an exact entry at each key that rules of the family cover and no other entry. Its
coverage is that of all rules, whether they stand for pairs of types or not. -/
structure RuleIndex.Exact (ix : RuleIndex) (eq : Equivalence) (family : RuleFamily)
    (side : Side) : Prop where
  family_eq : ix.family = family
  side_eq : ix.side = side
  keys : ∀ k, k ∈ ix.keys ↔ eq.Covered family side k
  fits : ∀ k ∈ ix.keys, k.Fits family
  entries : ∀ k ∈ ix.keys, ∃ e, ix.get? k = some e ∧ e.Exact eq family side k
  coverage : ∀ v, v ∈ ix.coverage ↔
    ∃ rule ∈ eq.rules family side, eq.coverageOf side rule = .ok v
  covered : ∀ rule ∈ eq.rules family side, ∃ v ∈ ix.coverage, eq.coverageOf side rule = .ok v

/-! ## An exact index is settled -/

theorem IndexEntry.Exact.unique {e f : IndexEntry} (he : e.Exact eq family side k)
    (hf : f.Exact eq family side k) : e = f := by
  have hrules : e.rules = f.rules :=
    Std.ExtTreeSet.ext_mem fun r => (he.rules r).trans (hf.rules r).symm
  have hperms : e.perms = f.perms :=
    Std.ExtTreeSet.ext_mem fun p => (he.perms p).trans (hrules ▸ (hf.perms p).symm)
  have hdefaults : e.defaults = f.defaults :=
    Std.ExtTreeSet.ext_mem fun d => (he.defaults d).trans (hrules ▸ (hf.defaults d).symm)
  have hkey := he.key.trans hf.key.symm
  cases e
  cases f
  simp_all

namespace RuleIndex

variable {ix : RuleIndex} {e : IndexEntry} {workers : Int}

theorem mem_keys_iff_isSome : k ∈ ix.keys ↔ (ix.get? k).isSome := by
  simp [keys, get?]

theorem Exact.unique {a b : RuleIndex} (ha : a.Exact eq family side)
    (hb : b.Exact eq family side) : a = b := by
  have hentries : a.entries = b.entries := by
    refine Std.ExtTreeMap.ext_getElem? fun k => ?_
    change a.get? k = b.get? k
    by_cases hk : eq.Covered family side k
    · obtain ⟨e, hea, he⟩ := ha.entries k ((ha.keys k).2 hk)
      obtain ⟨f, hfb, hf⟩ := hb.entries k ((hb.keys k).2 hk)
      rw [hea, hfb, he.unique hf]
    · rw [Option.not_isSome_iff_eq_none.1 fun h => hk ((ha.keys k).1 (mem_keys_iff_isSome.2 h)),
        Option.not_isSome_iff_eq_none.1 fun h => hk ((hb.keys k).1 (mem_keys_iff_isSome.2 h))]
  have hcoverage : a.coverage = b.coverage :=
    Std.ExtTreeSet.ext_mem fun v => (ha.coverage v).trans (hb.coverage v).symm
  have hfamily := ha.family_eq.trans hb.family_eq.symm
  have hside := ha.side_eq.trans hb.side_eq.symm
  cases a
  cases b
  simp_all

end RuleIndex

/-! ## The index of a policy's rules is exact -/

theorem Equivalence.Covered.fits (h : eq.Covered family side k) : k.Fits family := by
  obtain ⟨rule, hrule, hk⟩ := h
  obtain ⟨-, -, hframe⟩ := covers_iff.1 hk
  have hcond : eq.canonicalCond side rule.head.cond = k.cond := congrArg Frame.cond hframe
  have hbranch : branchUnder (eq.canonicalCond side rule.head.cond) rule.head.branch = k.branch :=
    congrArg Frame.branch hframe
  have hname : rule.fileName = k.name := congrArg Frame.name hframe
  constructor
  · rw [← hbranch, ← hcond, branchUnder, Option.map_eq_none_iff]
  · rintro rfl
    obtain ⟨r, -, rfl⟩ := List.mem_map.1 hrule
    exact hname.symm

namespace RuleIndex

variable {ix : RuleIndex} {e : IndexEntry} {workers : Int}

theorem Indexes.exact_entry (h : ix.Indexes eq family side) (he : ix.get? k = some e) :
    e.Exact eq family side k where
  key := h.key k e he
  rules := h.rules k e he
  perms p := by
    rw [h.perms k e he]
    simp only [h.rules k e he, and_assoc]
  perms_te := by
    rintro rfl
    refine Std.ExtTreeSet.eq_empty_iff_forall_not_mem.2 fun p hp => ?_
    obtain ⟨rule, hrule, -, hp⟩ := (h.perms k e he p).1 hp
    obtain ⟨r, -, rfl⟩ := List.mem_map.1 hrule
    exact Std.ExtTreeSet.not_mem_empty hp
  defaults d := by
    have hresolved (rule : Rule) : resolvedDefault eq side rule = .ok (some d) ↔
        ∃ n, rule.default? = some n ∧ eq.Means side n (.ofType d) := by
      rw [Equivalence.resolvedDefault_eq_ok]
      cases rule.default? <;> simp
    rw [h.defaults k e he]
    simp only [h.rules k e he, hresolved, and_assoc]
  resolved rule hmem n hn := by
    obtain ⟨hrule, hk⟩ := (h.rules k e he rule).1 hmem
    obtain ⟨r, hread⟩ := h.readable rule hrule
    have hdefault := hread.default_eq
    have hrel := Equivalence.resolvedDefault_eq_ok.1 hdefault
    rw [hn] at hrel
    generalize r.default = o at hrel hdefault
    cases hrel with
    | some hmeans => exact ⟨_, (h.defaults k e he _).2 ⟨rule, hrule, hk, hdefault⟩, hmeans⟩
  defaults_te := by
    rintro rfl
    exact (h.determined he).2
  defaults_av := by
    rintro rfl
    exact h.defaults_av he

theorem Indexes.exact (h : ix.Indexes eq family side) : ix.Exact eq family side where
  family_eq := h.family_eq
  side_eq := h.side_eq
  keys k := mem_keys_iff_isSome.trans (h.covered k)
  fits k hk := ((h.covered k).1 (mem_keys_iff_isSome.1 hk)).fits
  entries k hk := by
    obtain ⟨e, he⟩ := Option.isSome_iff_exists.1 (mem_keys_iff_isSome.1 hk)
    exact ⟨e, he, h.exact_entry he⟩
  coverage := h.coverage
  covered rule hrule := by
    obtain ⟨r, hread⟩ := h.readable rule hrule
    exact ⟨r.coverage, (h.coverage _).2 ⟨rule, hrule, hread.coverage_eq⟩, hread.coverage_eq⟩

/-- An index that is built with an expander which remembers nothing wrong is exact. -/
theorem build_exact {x : Expander} (hx : x.Faithful (eq.scope side))
    (h : ((build eq family side workers).run.run (Workspace.withExpander {} x side)).1 = .ok ix) :
    ix.Exact eq family side := by
  have hfaithful := (Workspace.faithful_empty eq.scope).withExpander hx
  obtain ⟨w, hrun, -⟩ := build_yields eq family side workers _ hfaithful
  rw [hrun] at h
  exact (indexes_of_read h).exact

end RuleIndex

namespace Sample

/-- The log and other files will have one name, the latter are allowed more, and an attribute is
empty. -/
def gathered : Policy where
  identity := some "gathered"
  types := .ofList ["app", "log", "tmp"]
  attributes := .ofList [("file", (.ofList ["log", "tmp"] : NameSet)), ("nothing", ∅)]
  avRules := [allowApp "file" ["read"], allowApp "tmp" ["append"], allowApp "nothing" ["write"]]

/-- The log is renamed to another type that exists already. -/
def gathering : Equivalence :=
  .ofDelta gathered gathered { renames := .ofList [("log", "tmp")] }

/-- What an expander remembers that was asked for the files. -/
def remembering : Expander := (({} : Expander).types gathered.scope "file").2.1

theorem remembering_faithful : remembering.Faithful gathered.scope :=
  ((Expander.faithful_empty _).types "file").2

end Sample

/-- Three pairs of types are at one key, and a rule without pairs is covered. -/
theorem RuleIndex.build_exact_sample : Sample.remembering.Faithful (Sample.gathering.scope .base) ∧
    ∃ ix, ((build Sample.gathering .av .base 2).run.run
        (Workspace.withExpander {} Sample.remembering .base)).1 = .ok ix ∧
      ix.Exact Sample.gathering .av .base ∧ ix.size = 1 ∧ ix.coverage.size = 3 := by
  have hsizes : ((build Sample.gathering .av .base 2).run.run
      (Workspace.withExpander {} Sample.remembering .base)).1.toOption.map
        (fun ix => (ix.size, ix.coverage.size)) = some (1, 3) := by
    decide +kernel
  obtain ⟨ix, hix, hsizes⟩ := exists_ok_of_map hsizes
  obtain ⟨hsize, hcoverage⟩ := Prod.mk.inj hsizes
  exact ⟨Sample.remembering_faithful, ix, hix, build_exact Sample.remembering_faithful hix, hsize,
    hcoverage⟩

end PolicyDelta
