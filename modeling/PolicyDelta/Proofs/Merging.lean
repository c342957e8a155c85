import PolicyDelta.Proofs.Sharing

/-! Merges within merges. What merges give depends on the indexes that are merged only, not on their
order, their nesting or their number (`Merging.agree`): the result holds what the contributions of
all of them say together. So merging is a semilattice on what stored indexes hold
(`IndexStore.merge_semilattice`). -/

namespace PolicyDelta

open IndexStore (Operation after)

namespace Merging

/-- The indexes that are merged. -/
def leaves : Merging → List Nat
  | .index i => [i]
  | .merge l r => l.leaves ++ r.leaves

/-- The join of indexes with these contents. -/
def content (contents : Nat → RuleIndex) : Merging → RuleIndex
  | .index i => contents i
  | .merge l r => (l.content contents).join (r.content contents)

/-- Merges succeed, give an index with this content and leave every other content. -/
def Gives (st : IndexStore) (t : Merging) (x : RuleIndex) : Prop :=
  ∃ st' n, t.run st = some (.ok (st', n)) ∧ st'.get? n = some x ∧
    ∀ m y, st.get? m = some y → st'.get? m = some y

/-- Two ways of merging give the same content. -/
def Agree (st : IndexStore) (t u : Merging) : Prop :=
  ∃ x, t.Gives st x ∧ u.Gives st x

/-- The merged indexes have these contents, and are of one family and one side. -/
structure Fits (st : IndexStore) (contents : Nat → RuleIndex) (family : RuleFamily) (side : Side)
    (t : Merging) : Prop where
  get? : ∀ i ∈ t.leaves, st.get? i = some (contents i)
  family : ∀ i ∈ t.leaves, (contents i).family = family
  side : ∀ i ∈ t.leaves, (contents i).side = side

variable {st : IndexStore} {contents : Nat → RuleIndex} {family : RuleFamily} {side : Side}
  {t u l r : Merging} {i j : Nat}

/-- An index of the store is of a family and a side. -/
def Has (st : IndexStore) (family : RuleFamily) (side : Side) (i : Nat) : Prop :=
  ∃ x, st.get? i = some x ∧ x.family = family ∧ x.side = side

/-- What an index of the store holds; nothing if there is no such index. -/
def contentAt (st : IndexStore) (family : RuleFamily) (side : Side) (i : Nat) : RuleIndex :=
  (st.get? i).getD { family, side }

theorem fits_contentAt (h : ∀ i ∈ t.leaves, Has st family side i) :
    Fits st (contentAt st family side) family side t where
  get? i hi := by
    obtain ⟨x, hx, -⟩ := h i hi
    simp [contentAt, hx]
  family i hi := by
    obtain ⟨x, hx, hfamily, -⟩ := h i hi
    simp [contentAt, hx, hfamily]
  side i hi := by
    obtain ⟨x, hx, -, hside⟩ := h i hi
    simp [contentAt, hx, hside]

theorem Fits.left (h : Fits st contents family side (.merge l r)) :
    Fits st contents family side l :=
  ⟨fun i hi => h.get? i (List.mem_append_left _ hi),
    fun i hi => h.family i (List.mem_append_left _ hi),
    fun i hi => h.side i (List.mem_append_left _ hi)⟩

theorem Fits.right (h : Fits st contents family side (.merge l r)) :
    Fits st contents family side r :=
  ⟨fun i hi => h.get? i (List.mem_append_right _ hi),
    fun i hi => h.family i (List.mem_append_right _ hi),
    fun i hi => h.side i (List.mem_append_right _ hi)⟩

theorem Fits.mono {st' : IndexStore} (h : Fits st contents family side t)
    (hst' : ∀ m y, st.get? m = some y → st'.get? m = some y) : Fits st' contents family side t :=
  ⟨fun i hi => hst' i _ (h.get? i hi), h.family, h.side⟩

theorem Fits.content (h : Fits st contents family side t) :
    (t.content contents).family = family ∧ (t.content contents).side = side := by
  induction t with
  | index i => exact ⟨h.family i (List.mem_singleton_self i), h.side i (List.mem_singleton_self i)⟩
  | merge l r ihl _ => exact ihl h.left

/-- Merging stored indexes of one family and one side gives the join of their contents. -/
theorem exists_mergeAt (hst : st.Sound) {a b : RuleIndex} (ha : st.get? i = some a)
    (hb : st.get? j = some b) (hfamily : a.family = b.family) (hside : a.side = b.side) :
    ∃ st' n, st.mergeAt i j = some (.ok (st', n)) ∧ st'.Sound ∧ st'.get? n = some (a.join b) ∧
      ∀ m y, st.get? m = some y → st'.get? m = some y := by
  obtain ⟨a', ha', rfl⟩ := Option.map_eq_some_iff.1 ha
  obtain ⟨b', hb', rfl⟩ := Option.map_eq_some_iff.1 hb
  obtain ⟨st', ix, hmerge, hmerged⟩ :=
    IndexStore.exists_merged (hst.holds i a' ha') (hst.holds j b' hb') hfamily hside
  refine ⟨st', st.indexes.size, ?_, hmerged.sound hst ha' hb', ?_, fun m y hy => ?_⟩
  · rw [IndexStore.mergeAt_eq ha' hb', hmerge]
  · rw [hmerged.get? hst ha' hb', if_pos rfl]
  · rw [hmerged.get? hst ha' hb', if_neg, hy]
    rintro rfl
    simp [IndexStore.get?] at hy

theorem gives_index {a : RuleIndex} (ha : st.get? i = some a) : (index i).Gives st a :=
  ⟨st, i, rfl, ha, fun _ _ => id⟩

theorem gives_merge (hst : st.Sound) {a b : RuleIndex} (ha : st.get? i = some a)
    (hb : st.get? j = some b) (hfamily : a.family = b.family) (hside : a.side = b.side) :
    (merge (index i) (index j)).Gives st (a.join b) := by
  obtain ⟨st', n, hmerge, -, hn, hkept⟩ := exists_mergeAt hst ha hb hfamily hside
  exact ⟨st', n, hmerge, hn, hkept⟩

/-- An index without content is neutral. -/
theorem agree_empty (hst : st.Sound) {a : RuleIndex} (ha : st.get? i = some a)
    (hempty : st.get? j = some { family := a.family, side := a.side }) :
    Agree st (merge (index i) (index j)) (index i) ∧
      Agree st (merge (index j) (index i)) (index i) := by
  have hregular := hst.regular i a ha
  have hright : a.join { family := a.family, side := a.side } = a :=
    RuleIndex.join_empty hregular a.family a.side
  have hleft : ({ family := a.family, side := a.side } : RuleIndex).join a = a := by
    rw [RuleIndex.join_comm (RuleIndex.regular_empty _ _) hregular rfl rfl, hright]
  refine ⟨⟨a, ?_, gives_index ha⟩, a, ?_, gives_index ha⟩
  · simpa only [hright] using gives_merge hst ha hempty rfl rfl
  · simpa only [hleft] using gives_merge hst hempty ha rfl rfl

/-- Merges of indexes of one family and one side succeed. -/
theorem Fits.run (h : Fits st contents family side t) (hst : st.Sound) :
    ∃ st' n, t.run st = some (.ok (st', n)) ∧ st'.Sound ∧
      st'.get? n = some (t.content contents) ∧ ∀ m y, st.get? m = some y → st'.get? m = some y := by
  induction t generalizing st with
  | index i => exact ⟨st, i, rfl, hst, h.get? i (List.mem_singleton_self i), fun _ _ => id⟩
  | merge l r ihl ihr =>
    obtain ⟨st₁, i, hl, hst₁, hi, hkept₁⟩ := ihl h.left hst
    obtain ⟨st₂, j, hr, hst₂, hj, hkept₂⟩ := ihr (h.right.mono hkept₁) hst₁
    obtain ⟨hfamily, hside⟩ := h.left.content
    obtain ⟨hfamily', hside'⟩ := h.right.content
    obtain ⟨st₃, n, hmerge, hst₃, hn, hkept₃⟩ := exists_mergeAt hst₂ (hkept₂ i _ hi) hj
      (hfamily.trans hfamily'.symm) (hside.trans hside'.symm)
    refine ⟨st₃, n, ?_, hst₃, hn, fun m y hy => hkept₃ m y (hkept₂ m y (hkept₁ m y hy))⟩
    simp only [Merging.run, hl, hr, hmerge]

/-- Merges hold what the contributions to all merged indexes say together. -/
theorem content_collects {cs : Nat → List Contribution} {vs : Nat → List Coverage}
    (h : ∀ i ∈ t.leaves, (contents i).Collects (cs i) (vs i)) :
    (t.content contents).Collects (t.leaves.flatMap cs) (t.leaves.flatMap vs) := by
  induction t with
  | index i => simpa [leaves, Merging.content] using h i (List.mem_singleton_self i)
  | merge l r ihl ihr =>
    have hl := ihl fun i hi => h i (List.mem_append_left _ hi)
    have hr := ihr fun i hi => h i (List.mem_append_right _ hi)
    simpa [leaves, Merging.content] using hl.join hr

theorem gives_content (hst : st.Sound) (ht : ∀ i ∈ t.leaves, Has st family side i) :
    t.Gives st (t.content (contentAt st family side)) := by
  obtain ⟨st', n, hrun, -, hn, hkept⟩ := (fits_contentAt ht).run hst
  exact ⟨st', n, hrun, hn, hkept⟩

/-- What merges give depends on which indexes are merged only. -/
theorem agree (hst : st.Sound) (ht : ∀ i ∈ t.leaves, Has st family side i)
    (hleaves : ∀ i, i ∈ t.leaves ↔ i ∈ u.leaves) : Agree st t u := by
  have hu : ∀ i ∈ u.leaves, Has st family side i := fun i hi => ht i ((hleaves i).2 hi)
  have hcollects : ∀ i, ∃ cs vs, i ∈ t.leaves → (contentAt st family side i).Collects cs vs := by
    intro i
    by_cases hi : i ∈ t.leaves
    · obtain ⟨cs, vs, hcollects⟩ := hst.regular i _ ((fits_contentAt ht).get? i hi)
      exact ⟨cs, vs, fun _ => hcollects⟩
    · exact ⟨[], [], fun hi' => absurd hi' hi⟩
  obtain ⟨cs, hcollects⟩ := Classical.skolem.1 hcollects
  obtain ⟨vs, hcollects⟩ := Classical.skolem.1 hcollects
  have htcollects := content_collects hcollects
  have hucollects := content_collects fun i hi => hcollects i ((hleaves i).2 hi)
  obtain ⟨htfamily, htside⟩ := (fits_contentAt ht).content
  obtain ⟨hufamily, huside⟩ := (fits_contentAt hu).content
  have hsame : t.content (contentAt st family side) = u.content (contentAt st family side) := by
    refine htcollects.unique (hucollects.congr ?_ ?_) (htfamily.trans hufamily.symm)
      (htside.trans huside.symm)
    · simp [hleaves]
    · simp [hleaves]
  exact ⟨_, gives_content hst ht, hsame ▸ gives_content hst hu⟩

end Merging

namespace IndexStore

open Merging (index Agree Gives Has)

/-- Merging is commutative, associative and idempotent on what the indexes of one family and one
side hold; an index without content is neutral. A merged index has the keys of both indexes, each
with all that either of them holds there. Indexes of different families or sides are not merged, and
no merge changes what there was before. -/
theorem merge_semilattice (ops : List Operation) {i j l : Nat} {a b c : RuleIndex}
    (ha : (after ops).get? i = some a) (hb : (after ops).get? j = some b)
    (hc : (after ops).get? l = some c) (hfamily : b.family = a.family ∧ c.family = a.family)
    (hside : b.side = a.side ∧ c.side = a.side) :
    Agree (after ops) (.merge (index i) (index j)) (.merge (index j) (index i)) ∧
    Agree (after ops) (.merge (.merge (index i) (index j)) (index l))
      (.merge (index i) (.merge (index j) (index l))) ∧
    Agree (after ops) (.merge (index i) (index i)) (index i) ∧
    (∀ n, (after ops).get? n = some { family := a.family, side := a.side } →
      Agree (after ops) (.merge (index i) (index n)) (index i) ∧
      Agree (after ops) (.merge (index n) (index i)) (index i)) ∧
    Gives (after ops) (.merge (index i) (index j)) (a.join b) ∧
    (∀ k, ((a.join b).get? k).isSome ↔ (a.get? k).isSome ∨ (b.get? k).isSome) ∧
    (∀ k e, a.get? k = some e → ∃ f, (a.join b).get? k = some f ∧ e.Within f) ∧
    (∀ k e, b.get? k = some e → ∃ f, (a.join b).get? k = some f ∧ e.Within f) ∧
    ∀ n d, (after ops).get? n = some d → ¬ (d.family = a.family ∧ d.side = a.side) →
      (after ops).mergeAt i n = some (.error ⟨a.side, a.family, d.side, d.family⟩) ∧
      (after ops).apply (.merge i n) = after ops := by
  have hst := sound_after ops
  have hi : Has (after ops) a.family a.side i := ⟨a, ha, rfl, rfl⟩
  have hj : Has (after ops) a.family a.side j := ⟨b, hb, hfamily.1, hside.1⟩
  have hl : Has (after ops) a.family a.side l := ⟨c, hc, hfamily.2, hside.2⟩
  have hself : ∀ m ∈ (Merging.merge (index i) (index i)).leaves,
      Has (after ops) a.family a.side m := by
    simpa [Merging.leaves] using hi
  have hboth : ∀ m ∈ (Merging.merge (index i) (index j)).leaves,
      Has (after ops) a.family a.side m := by
    simpa [Merging.leaves] using ⟨hi, hj⟩
  have hall : ∀ m ∈ (Merging.merge (.merge (index i) (index j)) (index l)).leaves,
      Has (after ops) a.family a.side m := by
    simpa [Merging.leaves] using ⟨hi, hj, hl⟩
  refine ⟨Merging.agree hst hboth (by simp [Merging.leaves, or_comm]),
    Merging.agree hst hall (by simp [Merging.leaves]),
    Merging.agree hst hself (by simp [Merging.leaves]),
    fun n hn => Merging.agree_empty hst ha hn,
    Merging.gives_merge hst ha hb hfamily.1.symm hside.1.symm, RuleIndex.isSome_get?_join a b,
    fun k e he => RuleIndex.within_join_left b he,
    fun k e he => RuleIndex.within_join_right (hst.regular i a ha) (hst.regular j b hb) he, ?_⟩
  intro n d hd hdiffer
  obtain ⟨a', ha', rfl⟩ := Option.map_eq_some_iff.1 ha
  obtain ⟨d', hd', rfl⟩ := Option.map_eq_some_iff.1 hd
  have hmerge : (after ops).mergeAt i n =
      some (.error ⟨a'.side, a'.family, d'.side, d'.family⟩) := by
    rw [mergeAt_eq ha' hd', merge, if_neg]
    exact fun halike => hdiffer ⟨halike.1.symm, halike.2.symm⟩
  exact ⟨hmerge, by simp only [apply, hmerge]⟩

end IndexStore

namespace Sample

/-- Two indexes with different rules at one key, and an index of another family. -/
def threeIndexes : List Operation :=
  operands ++ [.insert 1 logKey (logRule "append") none, .create .te .base]

/-- One more index, without content. -/
def fourIndexes : List Operation :=
  threeIndexes ++ [.create .av .base]

/-- What an index of them is about, and what it grants at the key. -/
def about (n : Nat) : Option (RuleFamily × Side × Option (List String)) :=
  ((after fourIndexes).get? n).map fun a =>
    (a.family, a.side, (a.get? logKey).map (·.perms.toList))

theorem get?_fourIndexes : (after fourIndexes).get? 3 = some { family := .av, side := .base } := by
  have hsize : (after threeIndexes).indexes.size = 3 := by decide +kernel
  have hafter : after fourIndexes =
      ((after threeIndexes).add { family := .av, side := .base }).1 := by
    rw [after, fourIndexes, List.foldl_append]
    rfl
  obtain ⟨-, ix, hadded⟩ :=
    IndexStore.exists_added (after threeIndexes) { family := .av, side := .base }
  rw [hafter, hadded.get? (IndexStore.sound_after threeIndexes), hsize, if_pos rfl]

end Sample

namespace IndexStore

open Merging (index Agree)

theorem merge_semilattice_sample :
    ∃ a b, (after Sample.fourIndexes).get? 0 = some a ∧
      (after Sample.fourIndexes).get? 1 = some b ∧
      Agree (after Sample.fourIndexes) (.merge (index 0) (index 1)) (.merge (index 1) (index 0)) ∧
      Agree (after Sample.fourIndexes) (.merge (index 0) (index 3)) (index 0) ∧
      (∃ e, (a.join b).get? Sample.logKey = some e ∧ "append" ∈ e.perms ∧ "read" ∈ e.perms) ∧
      (after Sample.fourIndexes).apply (.merge 0 2) = after Sample.fourIndexes := by
  have hfirst : Sample.about 0 = some (.av, .base, some ["read"]) := by decide +kernel
  have hsecond : Sample.about 1 = some (.av, .base, some ["append"]) := by decide +kernel
  have hother : Sample.about 2 = some (.te, .base, none) := by decide +kernel
  obtain ⟨a, ha, habout⟩ := Option.map_eq_some_iff.1 hfirst
  obtain ⟨b, hb, hbbout⟩ := Option.map_eq_some_iff.1 hsecond
  obtain ⟨d, hd, hdbout⟩ := Option.map_eq_some_iff.1 hother
  simp only [Prod.mk.injEq, Option.map_eq_some_iff] at habout hbbout hdbout
  obtain ⟨hfamily, hside, e, he, hread⟩ := habout
  obtain ⟨hfamily', hside', f, hf, happend⟩ := hbbout
  have hempty := Sample.get?_fourIndexes
  obtain ⟨hcomm, -, -, hneutral, -, -, hleft, hright, hmismatch⟩ :=
    merge_semilattice Sample.fourIndexes ha hb hempty ⟨hfamily'.trans hfamily.symm, hfamily.symm⟩
      ⟨hside'.trans hside.symm, hside.symm⟩
  obtain ⟨g, hg, hwithin⟩ := hleft _ e he
  obtain ⟨g', hg', hwithin'⟩ := hright _ f hf
  cases hg.symm.trans hg'
  refine ⟨a, b, ha, hb, hcomm, (hneutral 3 ?_).1, ⟨g, hg, ?_, ?_⟩, (hmismatch 2 d hd ?_).2⟩
  · rw [hempty, hfamily, hside]
  · exact hwithin'.perms _ (Std.ExtTreeSet.mem_toList.1 (happend ▸ List.mem_singleton_self _))
  · exact hwithin.perms _ (Std.ExtTreeSet.mem_toList.1 (hread ▸ List.mem_singleton_self _))
  · rw [hdbout.1, hfamily]
    simp

end IndexStore

end PolicyDelta
