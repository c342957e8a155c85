import PolicyDelta.Proofs.Defaults
import PolicyDelta.Proofs.Sharing

/-! The entries of indexes. An entry accumulates permissions and default types beside the rules that
they come from. In every index that creating, building, inserting and merging lead to, also where
indexes share entries, each entry stays coherent with its rules, and the diagnostics of the index
are those of its entries (`IndexStore.coherent_after`). -/

namespace PolicyDelta

/-- An entry of a key says what its rules say. -/
structure IndexEntry.Coherent (e : IndexEntry) (k : RuleKey) : Prop where
  key : e.key = k
  exists_rule : ∃ rule, rule ∈ e.rules
  perms : ∀ p, p ∈ e.perms ↔ ∃ r, .av r ∈ e.rules ∧ p ∈ r.perms
  exists_te : e.defaults ≠ ∅ → ∃ r, .te r ∈ e.rules
  isSome_default? : e.default?.isSome ↔ e.defaults.size = 1
  default? : ∀ d, e.default? = some d ↔ e.defaults = {d}

/-- The entries of an index are coherent, each at its own key, and there is one diagnostic for each
key with more than one default type, in the order of the keys. -/
structure RuleIndex.Coherent (ix : RuleIndex) : Prop where
  entry : ∀ k e, ix.get? k = some e → e.Coherent k
  conflicts : ix.conflicts = ix.disputed.map fun p => ix.side.diagnostic p.1 p.2
  ordered : ix.disputed.Pairwise fun p q => compare p.1 q.1 = .lt
  disputed : ∀ k defaults, (k, defaults) ∈ ix.disputed ↔
    ∃ e, ix.get? k = some e ∧ e.defaults = defaults ∧ 2 ≤ e.defaults.size

namespace IndexEntry

variable {e : IndexEntry} {k : RuleKey} {cs : List Contribution}

theorem isSome_default?_iff (e : IndexEntry) : e.default?.isSome ↔ e.defaults.size = 1 := by
  rw [IndexEntry.default?, ← Std.ExtTreeSet.length_toList]
  rcases e.defaults.toList with - | ⟨d, - | ⟨d', ds⟩⟩ <;> simp

theorem default?_eq_some_iff (e : IndexEntry) (d : String) :
    e.default? = some d ↔ e.defaults = {d} := by
  rw [IndexEntry.default?]
  constructor
  · intro hd
    rw [← NameSet.ofList_toList e.defaults]
    rcases hlist : e.defaults.toList with - | ⟨d', - | ⟨d'', ds⟩⟩
    · simp [hlist] at hd
    · rw [hlist] at hd
      cases hd
      rfl
    · simp [hlist] at hd
  · intro hdefaults
    rw [hdefaults]
    rfl

theorem Collects.coherent (h : e.Collects k cs) (hcs : ∃ c ∈ cs, c.key = k) : e.Coherent k where
  key := h.key
  exists_rule := by
    obtain ⟨c, hc, hk⟩ := hcs
    exact ⟨c.rule, (h.rules c.rule).2 ⟨c, hc, hk, rfl⟩⟩
  perms p := by
    rw [h.perms]
    constructor
    · rintro ⟨c, hc, hk, hp⟩
      cases hrule : c.rule with
      | av r =>
        rw [hrule] at hp
        exact ⟨r, (h.rules _).2 ⟨c, hc, hk, hrule⟩, hp⟩
      | te r =>
        rw [hrule] at hp
        exact absurd hp Std.ExtTreeSet.not_mem_empty
    · rintro ⟨r, hr, hp⟩
      obtain ⟨c, hc, hk, hrule⟩ := (h.rules _).1 hr
      refine ⟨c, hc, hk, ?_⟩
      rw [hrule]
      exact hp
  exists_te hne := by
    rw [ne_eq, Std.ExtTreeSet.eq_empty_iff_forall_not_mem, Classical.not_forall_not] at hne
    obtain ⟨d, hd⟩ := hne
    obtain ⟨c, hc, hk, hte, -⟩ := (h.defaults d).1 hd
    cases hrule : c.rule with
    | av r =>
      rw [hrule] at hte
      cases hte
    | te r => exact ⟨r, (h.rules _).2 ⟨c, hc, hk, hrule⟩⟩
  isSome_default? := e.isSome_default?_iff
  default? := e.default?_eq_some_iff

end IndexEntry

theorem RuleIndex.Regular.coherent {ix : RuleIndex} (h : ix.Regular) : ix.Coherent where
  entry k e he := by
    obtain ⟨cs, vs, h⟩ := h
    obtain ⟨hcs, hcollects⟩ := h.present k e he
    exact hcollects.coherent hcs
  conflicts := conflicts_eq fun k e he => h.key he
  ordered := ix.disputed_ordered
  disputed k defaults := by
    rw [mem_disputed]
    exact exists_congr fun e => and_congr_right fun _ => and_congr_right fun hdefaults => by
      rw [hdefaults]
      rfl

namespace IndexStore

/-- Every index that operations lead to is coherent. -/
theorem coherent_after (ops : List Operation) {n : Nat} {x : RuleIndex}
    (h : (after ops).get? n = some x) : x.Coherent :=
  ((sound_after ops).regular n x h).coherent

end IndexStore

namespace Sample

/-- Permissions and two default types come together at one key. -/
def mixed : List IndexStore.Operation :=
  operands ++ [.insert 0 logKey (.te (defaultOfLog "log")) (some "log"),
    .insert 1 logKey (.te (defaultOfLog "tmp")) (some "tmp"), .merge 0 1]

/-- What an index holds at the key, and the default types of its diagnostics. -/
def held (x : RuleIndex) : Option (List String × List String) × List (List String) :=
  ((x.get? logKey).map fun e => (e.perms.toList, e.defaults.toList),
    x.conflicts.map (·.defaults))

end Sample

namespace IndexStore

theorem coherent_after_sample : ∃ x, (after Sample.mixed).get? 2 = some x ∧ x.Coherent ∧
    Sample.held x = (some (["read"], ["log", "tmp"]), [["log", "tmp"]]) := by
  have hheld : ((after Sample.mixed).get? 2).map Sample.held =
      some (some (["read"], ["log", "tmp"]), [["log", "tmp"]]) := by
    decide +kernel
  obtain ⟨x, hx, hheld⟩ := Option.map_eq_some_iff.1 hheld
  exact ⟨x, hx, coherent_after Sample.mixed hx, hheld⟩

end IndexStore

end PolicyDelta
