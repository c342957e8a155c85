import PolicyDelta.RuleIndex.Basic

/-! What an index holds, by the contributions that it was made of. A contribution is a rule at a
key, with its default type. `RuleIndex.Collects` says which entries belong to given contributions;
it settles an index of a family and a side (`RuleIndex.Collects.unique`) and depends on the members
of the lists only, so neither the order of insertions nor the way of joining shows. -/

namespace PolicyDelta

/-- A rule at a key, with the canonical name of its default type. -/
structure Contribution where
  key : RuleKey
  rule : Rule
  default : Option String

/-- An entry holds what the contributions at a key say together. -/
structure IndexEntry.Collects (e : IndexEntry) (k : RuleKey) (cs : List Contribution) : Prop where
  key : e.key = k
  rules : ∀ r, r ∈ e.rules ↔ ∃ c ∈ cs, c.key = k ∧ c.rule = r
  perms : ∀ p, p ∈ e.perms ↔ ∃ c ∈ cs, c.key = k ∧ p ∈ c.rule.perms
  defaults : ∀ d, d ∈ e.defaults ↔
    ∃ c ∈ cs, c.key = k ∧ c.rule.family = .te ∧ c.default = some d

namespace IndexEntry

variable {e f : IndexEntry} {k : RuleKey} {cs ds : List Contribution}

/-- Contributions at other keys do not matter. -/
theorem Collects.congr (h : e.Collects k cs) (hcs : ∀ c, c.key = k → (c ∈ cs ↔ c ∈ ds)) :
    e.Collects k ds := by
  have swap : ∀ P : Contribution → Prop,
      (∃ c ∈ cs, c.key = k ∧ P c) ↔ ∃ c ∈ ds, c.key = k ∧ P c := fun P =>
    ⟨fun ⟨c, hc, hk, hP⟩ => ⟨c, (hcs c hk).1 hc, hk, hP⟩,
      fun ⟨c, hc, hk, hP⟩ => ⟨c, (hcs c hk).2 hc, hk, hP⟩⟩
  exact ⟨h.key, fun r => (h.rules r).trans (swap _), fun p => (h.perms p).trans (swap _),
    fun d => (h.defaults d).trans (swap _)⟩

theorem Collects.unique (he : e.Collects k cs) (hf : f.Collects k cs) : e = f := by
  have hrules : e.rules = f.rules :=
    Std.ExtTreeSet.ext_mem fun r => (he.rules r).trans (hf.rules r).symm
  have hperms : e.perms = f.perms :=
    Std.ExtTreeSet.ext_mem fun p => (he.perms p).trans (hf.perms p).symm
  have hdefaults : e.defaults = f.defaults :=
    Std.ExtTreeSet.ext_mem fun d => (he.defaults d).trans (hf.defaults d).symm
  have hkey := he.key.trans hf.key.symm
  cases e
  cases f
  simp_all

theorem collects_nil (k : RuleKey) : ({ key := k } : IndexEntry).Collects k [] where
  key := rfl
  rules := by simp
  perms := by simp
  defaults := by simp

theorem Collects.add (h : e.Collects k cs) (rule : Rule) (default : Option String) :
    (e.add rule default).Collects k (⟨k, rule, default⟩ :: cs) where
  key := by
    rw [← h.key]
    cases rule <;> cases default <;> rfl
  rules r := by
    have hrules : (e.add rule default).rules = e.rules.insert rule := by
      cases rule <;> cases default <;> rfl
    simp [hrules, Std.ExtTreeSet.mem_insert, h.rules]
  perms p := by
    cases rule with
    | av r => simp [IndexEntry.add, Rule.perms, h.perms, Std.ExtTreeSet.mem_union_iff, or_comm]
    | te r => cases default <;> simp [IndexEntry.add, h.perms, Rule.perms]
  defaults d := by
    cases rule with
    | av r => simp [IndexEntry.add, h.defaults, Rule.family]
    | te r =>
      cases default <;> simp [IndexEntry.add, h.defaults, Rule.family, Std.ExtTreeSet.mem_insert]

theorem Collects.join (he : e.Collects k cs) (hf : f.Collects k ds) :
    (e.join f).Collects k (cs ++ ds) where
  key := he.key
  rules r := by
    simp [IndexEntry.join, he.rules, hf.rules, Std.ExtTreeSet.mem_union_iff, or_and_right,
      exists_or]
  perms p := by
    simp [IndexEntry.join, he.perms, hf.perms, Std.ExtTreeSet.mem_union_iff, or_and_right,
      exists_or]
  defaults d := by
    simp [IndexEntry.join, he.defaults, hf.defaults, Std.ExtTreeSet.mem_union_iff, or_and_right,
      exists_or]

end IndexEntry

namespace RuleIndex

/-- An index holds exactly what contributions and coverages say: an entry at each key that has a
contribution and no other. -/
structure Collects (ix : RuleIndex) (cs : List Contribution) (vs : List Coverage) : Prop where
  absent : ∀ k, ix.get? k = none → ∀ c ∈ cs, c.key ≠ k
  present : ∀ k e, ix.get? k = some e → (∃ c ∈ cs, c.key = k) ∧ e.Collects k cs
  coverage : ∀ v, v ∈ ix.coverage ↔ v ∈ vs

variable {a b ix : RuleIndex} {cs ds : List Contribution} {vs ws : List Coverage}

theorem collects_empty (family : RuleFamily) (side : Side) :
    ({ family, side } : RuleIndex).Collects [] [] where
  absent := by simp
  present k e h := by simp [get?] at h
  coverage := by simp

theorem Collects.congr (h : ix.Collects cs vs) (hcs : ∀ c, c ∈ cs ↔ c ∈ ds)
    (hvs : ∀ v, v ∈ vs ↔ v ∈ ws) : ix.Collects ds ws where
  absent k hk c hc := h.absent k hk c ((hcs c).2 hc)
  present k e he := by
    obtain ⟨⟨c, hc, hk⟩, hcollects⟩ := h.present k e he
    exact ⟨⟨c, (hcs c).1 hc, hk⟩, hcollects.congr fun c _ => hcs c⟩
  coverage v := (h.coverage v).trans (hvs v)

theorem Collects.isSome_get? (h : ix.Collects cs vs) (k : RuleKey) :
    (ix.get? k).isSome ↔ ∃ c ∈ cs, c.key = k := by
  cases hget : ix.get? k with
  | none => simpa using h.absent k hget
  | some e => simpa using (h.present k e hget).1

/-- The contributions and coverages settle the index. -/
theorem Collects.unique (ha : a.Collects cs vs) (hb : b.Collects cs vs)
    (hfamily : a.family = b.family) (hside : a.side = b.side) : a = b := by
  have hentries : a.entries = b.entries := by
    refine Std.ExtTreeMap.ext_getElem? fun k => ?_
    change a.get? k = b.get? k
    cases hea : a.get? k with
    | none =>
      cases heb : b.get? k with
      | none => rfl
      | some f =>
        obtain ⟨⟨c, hc, hk⟩, -⟩ := hb.present k f heb
        exact absurd hk (ha.absent k hea c hc)
    | some e =>
      cases heb : b.get? k with
      | none =>
        obtain ⟨⟨c, hc, hk⟩, -⟩ := ha.present k e hea
        exact absurd hk (hb.absent k heb c hc)
      | some f => rw [(ha.present k e hea).2.unique (hb.present k f heb).2]
  have hcoverage : a.coverage = b.coverage :=
    Std.ExtTreeSet.ext_mem fun v => (ha.coverage v).trans (hb.coverage v).symm
  cases a
  cases b
  simp_all

theorem Collects.cover (h : ix.Collects cs vs) (v : Coverage) :
    { ix with coverage := ix.coverage.insert v : RuleIndex }.Collects cs (v :: vs) where
  absent := h.absent
  present := h.present
  coverage w := by simp [Std.ExtTreeSet.mem_insert, h.coverage, eq_comm (a := w)]

theorem get?_insert (ix : RuleIndex) (k : RuleKey) (rule : Rule) (default : Option String)
    (k' : RuleKey) : (ix.insert k rule default).get? k' =
      if k = k' then some (((ix.get? k).getD { key := k }).add rule default) else ix.get? k' := by
  simp [get?, insert, entryWith, Std.ExtTreeMap.getElem?_insert,
    Std.ExtTreeMap.getD_eq_getD_getElem?]

theorem Collects.insert (h : ix.Collects cs vs) (k : RuleKey) (rule : Rule)
    (default : Option String) :
    (ix.insert k rule default).Collects (⟨k, rule, default⟩ :: cs) vs where
  absent k' hk' := by
    rw [get?_insert] at hk'
    split at hk'
    · cases hk'
    · rename_i hne
      exact List.forall_mem_cons.2 ⟨hne, h.absent k' hk'⟩
  present k' e he := by
    rw [get?_insert] at he
    split at he
    · rename_i heq
      subst heq
      cases he
      refine ⟨⟨_, List.mem_cons_self, rfl⟩, ?_⟩
      apply IndexEntry.Collects.add
      cases hold : ix.get? k with
      | none =>
        refine (IndexEntry.collects_nil k).congr fun c hc => ?_
        simpa using fun hmem => h.absent k hold c hmem hc
      | some e => exact (h.present k e hold).2
    · rename_i hne
      obtain ⟨⟨c, hc, hk⟩, hcollects⟩ := h.present k' e he
      refine ⟨⟨c, List.mem_cons_of_mem _ hc, hk⟩, hcollects.congr fun c hc => ?_⟩
      simp only [List.mem_cons, iff_or_self]
      rintro rfl
      exact absurd hc hne
  coverage := h.coverage

section Join

variable {entries : Std.ExtTreeMap RuleKey IndexEntry} {l : List (RuleKey × IndexEntry)}
  (put : RuleKey → IndexEntry → IndexEntry) {k : RuleKey} {e : IndexEntry}

theorem getElem?_foldl_insert_of_not_mem (h : ∀ e, (k, e) ∉ l) :
    (l.foldl (fun m p => m.insert p.1 (put p.1 p.2)) entries)[k]? = entries[k]? := by
  induction l generalizing entries with
  | nil => rfl
  | cons p l ih =>
    rw [List.foldl_cons, ih fun e he => h e (List.mem_cons_of_mem _ he),
      Std.ExtTreeMap.getElem?_insert, if_neg]
    intro hk
    obtain rfl := Std.LawfulEqCmp.eq_of_compare hk
    exact h p.2 List.mem_cons_self

theorem getElem?_foldl_insert_of_mem (hl : l.Pairwise fun p q => compare p.1 q.1 ≠ .eq)
    (h : (k, e) ∈ l) :
    (l.foldl (fun m p => m.insert p.1 (put p.1 p.2)) entries)[k]? = some (put k e) := by
  induction l generalizing entries with
  | nil => cases h
  | cons p l ih =>
    rw [List.pairwise_cons] at hl
    rw [List.foldl_cons]
    rcases List.mem_cons.1 h with rfl | h
    · rw [getElem?_foldl_insert_of_not_mem put fun e he => hl.1 _ he Std.ReflCmp.compare_self,
        Std.ExtTreeMap.getElem?_insert_self]
    · exact ih hl.2 h

/-- The entry of a joined index: entries at a key of both are joined, others are kept. -/
theorem get?_join (a b : RuleIndex) (k : RuleKey) :
    (a.join b).get? k = (a.get? k).merge IndexEntry.join (b.get? k) := by
  let put (k : RuleKey) (e : IndexEntry) : IndexEntry := a.entries[k]?.elim e (·.join e)
  have hput : joinEntries a.entries b.entries =
      b.entries.foldl (fun m k e => m.insert k (put k e)) a.entries := by
    unfold joinEntries
    congr 1
    funext m k e
    cases hk : a.entries[k]? <;> simp [put, hk]
  change (joinEntries a.entries b.entries)[k]? =
    a.entries[k]?.merge IndexEntry.join b.entries[k]?
  rw [hput, Std.ExtTreeMap.foldl_eq_foldl_toList]
  cases hb : b.entries[k]? with
  | none =>
    rw [getElem?_foldl_insert_of_not_mem put, Option.merge_none_right]
    intro e he
    rw [Std.ExtTreeMap.mem_toList_iff_getElem?_eq_some, hb] at he
    cases he
  | some f =>
    rw [getElem?_foldl_insert_of_mem put Std.ExtTreeMap.distinct_keys_toList
      (Std.ExtTreeMap.mem_toList_iff_getElem?_eq_some.2 hb)]
    cases ha : a.entries[k]? <;> simp [put, ha]

end Join

theorem Collects.join (ha : a.Collects cs vs) (hb : b.Collects ds ws) :
    (a.join b).Collects (cs ++ ds) (vs ++ ws) where
  absent k hk := by
    rw [get?_join] at hk
    cases hea : a.get? k with
    | some e => cases heb : b.get? k <;> simp [hea, heb] at hk
    | none =>
      cases heb : b.get? k with
      | some f => simp [hea, heb] at hk
      | none =>
        intro c hc
        rcases List.mem_append.1 hc with hc | hc
        · exact ha.absent k hea c hc
        · exact hb.absent k heb c hc
  present k e he := by
    rw [get?_join] at he
    cases hea : a.get? k with
    | none =>
      cases heb : b.get? k with
      | none => simp [hea, heb] at he
      | some f =>
        obtain rfl : f = e := by simpa [hea, heb] using he
        obtain ⟨⟨c, hc, hk⟩, hcollects⟩ := hb.present k f heb
        refine ⟨⟨c, List.mem_append_right _ hc, hk⟩, hcollects.congr fun c hc => ?_⟩
        simpa using fun hmem => absurd hc (ha.absent k hea c hmem)
    | some e' =>
      obtain ⟨⟨c, hc, hk⟩, hcollects⟩ := ha.present k e' hea
      refine ⟨⟨c, List.mem_append_left _ hc, hk⟩, ?_⟩
      cases heb : b.get? k with
      | none =>
        obtain rfl : e' = e := by simpa [hea, heb] using he
        refine hcollects.congr fun c hc => ?_
        simpa using fun hmem => absurd hc (hb.absent k heb c hmem)
      | some f =>
        obtain rfl : e'.join f = e := by simpa [hea, heb] using he
        exact hcollects.join (hb.present k f heb).2
  coverage v := by
    simp [RuleIndex.join, Std.ExtTreeSet.mem_union_iff, ha.coverage, hb.coverage]

end RuleIndex

end PolicyDelta
