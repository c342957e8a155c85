import PolicyDelta.Proofs.Places

/-! Indexes that share entries. Two indexes share a key if both hold the same entry there, at one
place. An insertion at a key is seen through the indexes that share it and through no other
(`get?_insert`), and only merging makes indexes share: the merged index shares the keys that one
index only has (`Merged.shares`). So each index has a content of its own as long as nothing is
inserted at a shared key (`contents_after`). -/

namespace PolicyDelta

namespace IndexStore

variable {st st' : IndexStore} {ix jx a b : StoredIndex} {k k' : RuleKey} {e : IndexEntry}
  {i m n n' : Nat} {rule : Rule} {default : Option String}

/-- The place of the entry at a key of an index. -/
def placeAt (st : IndexStore) (n : Nat) (k : RuleKey) : Option Nat :=
  st.indexes[n]?.bind fun ix => ix.places[k]?

/-- Two indexes hold one and the same entry at a key. -/
def Shares (st : IndexStore) (m n : Nat) (k : RuleKey) : Prop :=
  ∃ i, st.placeAt m k = some i ∧ st.placeAt n k = some i

instance (st : IndexStore) (m n : Nat) (k : RuleKey) : Decidable (st.Shares m n k) :=
  decidable_of_iff ((st.placeAt m k).isSome ∧ st.placeAt m k = st.placeAt n k) <| by
    cases h : st.placeAt m k <;> simp [Shares, h, eq_comm]

/-- All places have entries, and every index holds what some contributions say. -/
structure Sound (st : IndexStore) : Prop where
  holds : ∀ (n : Nat) (ix : StoredIndex), st.indexes[n]? = some ix → st.Holds ix
  regular : ∀ (n : Nat) (x : RuleIndex), st.get? n = some x → x.Regular

theorem placeAt_of_getElem? (h : st.indexes[n]? = some ix) (k : RuleKey) :
    st.placeAt n k = ix.places[k]? := by
  rw [placeAt, h]
  rfl

theorem get?_of_getElem? (h : st.indexes[n]? = some ix) : st.get? n = some (st.view ix) := by
  rw [get?, h]
  rfl

theorem Shares.symm (h : st.Shares m n k) : st.Shares n m k := by
  obtain ⟨i, hm, hn⟩ := h
  exact ⟨i, hn, hm⟩

theorem shares_comm : st.Shares m n k ↔ st.Shares n m k :=
  ⟨Shares.symm, Shares.symm⟩

theorem shares_self : st.Shares n n k ↔ st.placeAt n k ≠ none := by
  simp [Shares, Option.ne_none_iff_exists']

theorem sound_empty : ({} : IndexStore).Sound where
  holds n ix h := by simp at h
  regular n x h := by simp [get?] at h

theorem Sound.exists_entry (hst : st.Sound) (h : st.placeAt n k = some i) :
    ∃ e, st.entries[i]? = some e ∧ e.key = k := by
  obtain ⟨ix, hix, hi⟩ := Option.bind_eq_some_iff.1 h
  obtain ⟨e, he⟩ := hst.holds n ix hix k i hi
  refine ⟨e, he, (hst.regular n _ (get?_of_getElem? hix)).key (k := k) ?_⟩
  rw [get?_view, hi]
  exact he

theorem Sound.lt_size (hst : st.Sound) (h : st.placeAt n k = some i) : i < st.entries.size := by
  obtain ⟨e, he, -⟩ := hst.exists_entry h
  exact (Array.getElem?_eq_some_iff.1 he).1

theorem Sound.placeAt_eq_none (hst : st.Sound) {x : RuleIndex} (hx : st.get? n = some x) :
    st.placeAt n k = none ↔ x.get? k = none := by
  obtain ⟨ix, hix, rfl⟩ := Option.map_eq_some_iff.1 hx
  rw [placeAt_of_getElem? hix, get?_view]
  cases hi : ix.places[k]? with
  | none => simp
  | some i =>
    obtain ⟨e, he⟩ := hst.holds n ix hix k i hi
    simp [he]

/-- An entry is held at its own key only. -/
theorem Sound.key_unique (hst : st.Sound) (h : st.placeAt m k = some i)
    (h' : st.placeAt n k' = some i) : k = k' := by
  obtain ⟨e, he, hk⟩ := hst.exists_entry h
  obtain ⟨e', he', hk'⟩ := hst.exists_entry h'
  cases he.symm.trans he'
  exact hk.symm.trans hk'

/-! ## A further index -/

theorem Grown.getElem?_indexes (h : st.Grown st' ix) (n : Nat) :
    st'.indexes[n]? = if n = st.indexes.size then some ix else st.indexes[n]? := by
  rw [h.indexes, Array.getElem?_push]

theorem Grown.placeAt (h : st.Grown st' ix) (n : Nat) (k : RuleKey) :
    st'.placeAt n k = if n = st.indexes.size then ix.places[k]? else st.placeAt n k := by
  rw [IndexStore.placeAt, h.getElem?_indexes]
  split <;> rfl

theorem Grown.get? (h : st.Grown st' ix) (hst : st.Sound) (n : Nat) :
    st'.get? n = if n = st.indexes.size then some (st'.view ix) else st.get? n := by
  rw [IndexStore.get?, h.getElem?_indexes]
  split
  · rfl
  · cases hjx : st.indexes[n]? with
    | none => simp [IndexStore.get?, hjx]
    | some jx => simp [IndexStore.get?, hjx, h.entries.view (hst.holds n jx hjx)]

theorem Grown.sound (h : st.Grown st' ix) (hst : st.Sound) (hix : st'.Holds ix)
    (hregular : (st'.view ix).Regular) : st'.Sound where
  holds n jx hjx := by
    rw [h.getElem?_indexes] at hjx
    split at hjx
    · cases hjx
      exact hix
    · exact h.entries.holds (hst.holds n jx hjx)
  regular n x hx := by
    rw [h.get? hst] at hx
    split at hx
    · cases hx
      exact hregular
    · exact hst.regular n x hx

theorem Grown.shares (h : st.Grown st' ix) (hm : m ≠ st.indexes.size) (hn : n ≠ st.indexes.size) :
    st'.Shares m n k ↔ st.Shares m n k := by
  simp only [Shares, h.placeAt, hm, hn, if_false]

theorem placeAt_size (st : IndexStore) (k : RuleKey) : st.placeAt st.indexes.size k = none := by
  simp [placeAt]

/-- An index with new entries shares nothing. -/
theorem Added.shares {x : RuleIndex} (h : st.Added x st' ix) (hst : st.Sound) (hne : m ≠ n) :
    st'.Shares m n k ↔ st.Shares m n k := by
  have hnew {n : Nat} (hn : n ≠ st.indexes.size) :
      ¬ st'.Shares st.indexes.size n k ∧ ¬ st.Shares st.indexes.size n k := by
    refine ⟨fun ⟨i, hi, hi'⟩ => ?_, fun ⟨i, hi, _⟩ => ?_⟩
    · rw [h.placeAt, if_pos rfl] at hi
      rw [h.placeAt, if_neg hn] at hi'
      exact absurd (hst.lt_size hi') (Nat.not_lt.2 (h.fresh k i hi))
    · rw [placeAt_size] at hi
      cases hi
  by_cases hm : m = st.indexes.size
  · subst hm
    exact iff_of_false (hnew hne.symm).1 (hnew hne.symm).2
  by_cases hn : n = st.indexes.size
  · subst hn
    exact iff_of_false (fun hs => (hnew hm).1 hs.symm) fun hs => (hnew hm).2 hs.symm
  · exact h.toGrown.shares hm hn

theorem Added.sound {x : RuleIndex} (h : st.Added x st' ix) (hst : st.Sound) (hx : x.Regular) :
    st'.Sound :=
  h.toGrown.sound hst h.holds (h.view.symm ▸ hx)

theorem Added.get? {x : RuleIndex} (h : st.Added x st' ix) (hst : st.Sound) (n : Nat) :
    st'.get? n = if n = st.indexes.size then some x else st.get? n := by
  rw [h.toGrown.get? hst, h.view]

/-! ## A merged index -/

theorem Merged.sound (h : st.Merged a b st' ix) (hst : st.Sound) (ha : st.indexes[m]? = some a)
    (hb : st.indexes[n]? = some b) : st'.Sound := by
  have hholds := h.holds (hst.holds m a ha) (hst.holds n b hb)
  refine h.toGrown.sound hst hholds ?_
  rw [h.view (hst.holds m a ha) (hst.holds n b hb)]
  exact (hst.regular m _ (get?_of_getElem? ha)).join (hst.regular n _ (get?_of_getElem? hb))

theorem Merged.get? (h : st.Merged a b st' ix) (hst : st.Sound) (ha : st.indexes[m]? = some a)
    (hb : st.indexes[n]? = some b) (l : Nat) : st'.get? l =
      if l = st.indexes.size then some ((st.view a).join (st.view b)) else st.get? l := by
  rw [h.toGrown.get? hst, h.view (hst.holds m a ha) (hst.holds n b hb)]

/-- A merged index shares what one index shares at the keys that the other one does not have. -/
theorem Merged.shares (h : st.Merged a b st' ix) (hst : st.Sound) (ha : st.indexes[m]? = some a)
    (hb : st.indexes[n]? = some b) {l : Nat} (hl : l ≠ st.indexes.size) :
    st'.Shares st.indexes.size l k ↔ st.Shares m l k ∧ st.placeAt n k = none ∨
      st.placeAt m k = none ∧ st.Shares n l k := by
  have hplace := h.places k
  rw [← placeAt_of_getElem? ha, ← placeAt_of_getElem? hb] at hplace
  simp only [Shares, h.placeAt, hl, if_true, if_false]
  generalize st.placeAt m k = x at hplace
  generalize st.placeAt n k = y at hplace
  generalize ix.places[k]? = z at hplace
  cases hplace with
  | neither | left | right => simp
  | both _ _ hfresh _ =>
    simp only [Option.some.injEq, reduceCtorEq, and_false, false_and, or_false, iff_false]
    rintro ⟨i, rfl, hi⟩
    exact absurd (hst.lt_size hi) (Nat.not_lt.2 hfresh)

theorem Merged.shares_left (h : st.Merged a b st' ix) (hst : st.Sound)
    (ha : st.indexes[m]? = some a) (hb : st.indexes[n]? = some b) :
    st'.Shares st.indexes.size m k ↔ st.placeAt m k ≠ none ∧ st.placeAt n k = none := by
  have hm := Nat.ne_of_lt (Array.getElem?_eq_some_iff.1 ha).1
  rw [h.shares hst ha hb hm, shares_self]
  refine or_iff_left ?_
  rintro ⟨hnone, i, -, hi⟩
  simp [hnone] at hi

theorem Merged.shares_right (h : st.Merged a b st' ix) (hst : st.Sound)
    (ha : st.indexes[m]? = some a) (hb : st.indexes[n]? = some b) :
    st'.Shares st.indexes.size n k ↔ st.placeAt m k = none ∧ st.placeAt n k ≠ none := by
  have hn := Nat.ne_of_lt (Array.getElem?_eq_some_iff.1 hb).1
  rw [h.shares hst ha hb hn, shares_self]
  refine or_iff_right ?_
  rintro ⟨⟨i, -, hi⟩, hnone⟩
  simp [hnone] at hi

/-! ## An insertion -/

theorem insert_of_none (h : st.indexes[m]? = none) (k : RuleKey) (rule : Rule)
    (default : Option String) : st.insert m k rule default = st := by
  rw [insert, h]

theorem insert_of_place (h : st.placeAt m k = some i) (rule : Rule) (default : Option String) :
    st.insert m k rule default =
      { st with entries := st.entries.modify i (·.add rule default) } := by
  obtain ⟨ix, hix, hi⟩ := Option.bind_eq_some_iff.1 h
  rw [insert, hix]
  simp only [hi]

theorem insert_of_no_place (h : st.indexes[m]? = some ix) (hi : ix.places[k]? = none) (rule : Rule)
    (default : Option String) : st.insert m k rule default =
      { entries := st.entries.push (({ key := k } : IndexEntry).add rule default)
        indexes := st.indexes.setIfInBounds m
          { ix with places := ix.places.insert k st.entries.size } } := by
  rw [insert, h]
  simp only [hi]
  rfl

/-- A change of an entry is seen through every index that holds it. -/
theorem Sound.view_modify (hst : st.Sound) (hi : st.placeAt m k = some i)
    (hjx : st.indexes[n]? = some jx) (rule : Rule) (default : Option String) :
    ({ st with entries := st.entries.modify i (·.add rule default) } : IndexStore).view jx =
      if jx.places[k]? = some i then (st.view jx).insert k rule default else st.view jx := by
  have hget (k' : RuleKey) : (({ st with entries := st.entries.modify i (·.add rule default) } :
      IndexStore).view jx).get? k' =
        if jx.places[k']? = some i then (st.entries[i]?).map (·.add rule default)
        else (st.view jx).get? k' := by
    rw [get?_view, get?_view]
    cases hj : jx.places[k']? with
    | none => simp
    | some j =>
      by_cases hne : j = i
      · simp [hne, Array.getElem?_modify]
      · simp [hne, Array.getElem?_modify, Ne.symm hne]
  split
  · rename_i hshared
    refine view_eq rfl rfl rfl fun k' => ?_
    rw [hget, RuleIndex.get?_insert]
    by_cases hk : k = k'
    · subst hk
      obtain ⟨e, he, -⟩ := hst.exists_entry hi
      simp [hshared, get?_view, he]
    · rw [if_neg hk, if_neg fun hi' => hk ?_]
      exact hst.key_unique hi ((placeAt_of_getElem? hjx k').trans hi')
  · rename_i hapart
    refine view_eq rfl rfl rfl fun k' => ?_
    rw [hget, if_neg fun hi' => hapart ?_]
    obtain rfl := hst.key_unique hi ((placeAt_of_getElem? hjx k').trans hi')
    exact hi'

/-- A new entry changes the index that gets it and no other. -/
theorem Sound.get?_insert_new (hst : st.Sound) (hix : st.indexes[m]? = some ix)
    (hnone : ix.places[k]? = none) (rule : Rule) (default : Option String) (n : Nat) :
    (st.insert m k rule default).get? n =
      if n = m then (st.get? n).map (·.insert k rule default) else st.get? n := by
  have hm : m < st.indexes.size := (Array.getElem?_eq_some_iff.1 hix).1
  let e : IndexEntry := ({ key := k } : IndexEntry).add rule default
  rw [insert_of_no_place hix hnone, get?, Array.getElem?_setIfInBounds]
  split
  · rename_i hn
    subst hn
    rw [if_pos rfl, get?_of_getElem? hix, Option.map_some, Option.map_some]
    refine congrArg some (view_eq rfl rfl rfl fun k' => ?_)
    rw [get?_view, RuleIndex.get?_insert]
    by_cases hk : k = k'
    · subst hk
      simp [get?_view, hnone]
    · rw [if_neg hk, ← (keeps_push st e).view (hst.holds m ix hix), get?_view]
      simp [Std.ExtTreeMap.getElem?_insert, hk, e]
  · rename_i hn
    rw [if_neg (Ne.symm hn)]
    cases hjx : st.indexes[n]? with
    | none => simp [get?, hjx]
    | some jx =>
      rw [get?_of_getElem? hjx, ← (keeps_push st e).view (hst.holds n jx hjx)]
      rfl

/-- What an insertion changes: the index that it goes to and those that share the key with it. -/
theorem Sound.get?_insert (hst : st.Sound) (m : Nat) (k : RuleKey) (rule : Rule)
    (default : Option String) (n : Nat) :
    (st.insert m k rule default).get? n =
      if n = m ∨ st.Shares m n k then (st.get? n).map (·.insert k rule default)
      else st.get? n := by
  cases hix : st.indexes[m]? with
  | none =>
    rw [insert_of_none hix]
    split
    · rename_i h
      obtain rfl | ⟨i, hi, -⟩ := h
      · simp [get?, hix]
      · simp [placeAt, hix] at hi
    · rfl
  | some ix =>
    have hplace := placeAt_of_getElem? hix k
    cases hi : ix.places[k]? with
    | none =>
      have hapart : ¬ st.Shares m n k := by simp [Shares, hplace, hi]
      simp only [hst.get?_insert_new hix hi, hapart, or_false]
    | some i =>
      rw [hi] at hplace
      rw [insert_of_place hplace, get?]
      cases hjx : st.indexes[n]? with
      | none => simp [get?, hjx]
      | some jx =>
        have hshares : n = m ∨ st.Shares m n k ↔ jx.places[k]? = some i := by
          rw [← placeAt_of_getElem? hjx, Shares, hplace]
          constructor
          · rintro (rfl | ⟨j, hj, hj'⟩)
            · exact hplace
            · rw [hj', hj]
          · exact fun hj => .inr ⟨i, rfl, hj⟩
        rw [Option.map_some, hst.view_modify hplace hjx, get?_of_getElem? hjx]
        simp only [hshares]
        split <;> rfl

theorem placeAt_insert (st : IndexStore) (m : Nat) (k : RuleKey) (rule : Rule)
    (default : Option String) (n : Nat) (k' : RuleKey) :
    (st.insert m k rule default).placeAt n k' = st.placeAt n k' ∨
      n = m ∧ k' = k ∧ st.placeAt m k = none ∧
        (st.insert m k rule default).placeAt n k' = some st.entries.size := by
  cases hix : st.indexes[m]? with
  | none =>
    rw [insert_of_none hix]
    exact .inl rfl
  | some ix =>
    have hplace := placeAt_of_getElem? hix k
    cases hi : ix.places[k]? with
    | some i =>
      rw [insert_of_place (hplace.trans hi)]
      exact .inl rfl
    | none =>
      have hm : m < st.indexes.size := (Array.getElem?_eq_some_iff.1 hix).1
      rw [insert_of_no_place hix hi]
      by_cases hn : m = n
      · subst hn
        by_cases hk : k = k'
        · subst hk
          exact .inr ⟨rfl, rfl, hplace.trans hi, by simp [placeAt, hm]⟩
        · refine .inl ?_
          rw [placeAt_of_getElem? hix]
          simp [placeAt, hm, Std.ExtTreeMap.getElem?_insert, hk]
      · exact .inl (by simp [placeAt, hn])

/-- An insertion makes no two indexes share a key, nor does it end their sharing. -/
theorem Sound.shares_insert (hst : st.Sound) (hne : n ≠ n') :
    (st.insert m k rule default).Shares n n' k' ↔ st.Shares n n' k' := by
  have hother {l : Nat} (hl : l ≠ m) :
      (st.insert m k rule default).placeAt l k' = st.placeAt l k' := by
    rcases placeAt_insert st m k rule default l k' with hsame | ⟨rfl, -⟩
    · exact hsame
    · exact absurd rfl hl
  have hself {l : Nat} (hl : l ≠ m) :
      (st.insert m k rule default).Shares m l k' ↔ st.Shares m l k' := by
    rcases placeAt_insert st m k rule default m k' with hsame | ⟨-, rfl, hnone, hfresh⟩
    · simp only [Shares, hsame, hother hl]
    · simp only [Shares, hfresh, hother hl, hnone, reduceCtorEq, false_and, exists_false, iff_false]
      rintro ⟨i, hi, hi'⟩
      cases hi
      exact absurd (hst.lt_size hi') (Nat.lt_irrefl _)
  by_cases hn : n = m
  · subst hn
    exact hself hne.symm
  by_cases hn' : n' = m
  · subst hn'
    rw [shares_comm, hself hn, shares_comm]
  · simp only [Shares, hother hn, hother hn']

theorem Sound.holds_insert (hst : st.Sound)
    (hjx : (st.insert m k rule default).indexes[n]? = some jx) :
    (st.insert m k rule default).Holds jx := by
  cases hix : st.indexes[m]? with
  | none =>
    rw [insert_of_none hix] at hjx ⊢
    exact hst.holds n jx hjx
  | some ix =>
    cases hi : ix.places[k]? with
    | some i =>
      rw [insert_of_place ((placeAt_of_getElem? hix k).trans hi)] at hjx ⊢
      intro k' j hj
      obtain ⟨e, he⟩ := hst.holds n jx hjx k' j hj
      refine ⟨if i = j then e.add rule default else e, ?_⟩
      rw [Array.getElem?_modify, he]
      split <;> rfl
    | none =>
      have hkeeps := keeps_push st (({ key := k } : IndexEntry).add rule default)
      rw [insert_of_no_place hix hi] at hjx ⊢
      rw [Array.getElem?_setIfInBounds] at hjx
      split at hjx
      · split at hjx
        · cases hjx
          intro k' j hj
          rw [Std.ExtTreeMap.getElem?_insert] at hj
          split at hj
          · cases hj
            exact ⟨_, Array.getElem?_push_size⟩
          · exact hkeeps.holds (hst.holds m ix hix) k' j hj
        · cases hjx
      · exact hkeeps.holds (hst.holds n jx hjx)

theorem Sound.insert (hst : st.Sound) (m : Nat) (k : RuleKey) (rule : Rule)
    (default : Option String) : (st.insert m k rule default).Sound where
  holds n ix hix := hst.holds_insert hix
  regular n x hx := by
    rw [hst.get?_insert] at hx
    split at hx
    · obtain ⟨y, hy, rfl⟩ := Option.map_eq_some_iff.1 hx
      exact (hst.regular n y hy).insert k rule default
    · exact hst.regular n x hx

/-! ## Operations -/

theorem mergeAt_eq (ha : st.indexes[m]? = some a) (hb : st.indexes[n]? = some b) :
    st.mergeAt m n = some (st.merge a b) := by
  simp [mergeAt, ha, hb]

theorem exists_of_mergeAt {r : Except MergeMismatch (IndexStore × Nat)}
    (h : st.mergeAt m n = some r) : ∃ a b, st.indexes[m]? = some a ∧ st.indexes[n]? = some b ∧
      st.merge a b = r := by
  obtain ⟨a, ha, h⟩ := Option.bind_eq_some_iff.1 h
  obtain ⟨b, hb, h⟩ := Option.bind_eq_some_iff.1 h
  exact ⟨a, b, ha, hb, Option.some.inj h⟩

theorem Sound.merged (hst : st.Sound) {c : Nat} (h : st.mergeAt m n = some (.ok (st', c))) :
    c = st.indexes.size ∧ ∃ a b ix, st.indexes[m]? = some a ∧ st.indexes[n]? = some b ∧
      st.Merged a b st' ix := by
  obtain ⟨a, b, ha, hb, hmerge⟩ := exists_of_mergeAt h
  by_cases halike : a.family = b.family ∧ a.side = b.side
  · obtain ⟨st'', ix, hmerge', hmerged⟩ := exists_merged (hst.holds m a ha) (hst.holds n b hb)
      halike.1 halike.2
    cases hmerge.symm.trans hmerge'
    exact ⟨rfl, a, b, ix, ha, hb, hmerged⟩
  · rw [merge, if_neg halike] at hmerge
    cases hmerge

/-- What an operation does to a store. -/
inductive Effect (st : IndexStore) : Operation → IndexStore → Prop where
  | none {op : Operation} (hop : ∀ m n merged, op = .merge m n →
      st.mergeAt m n ≠ some (.ok merged)) : Effect st op st
  | added {op : Operation} {x : RuleIndex} {st' : IndexStore} {ix : StoredIndex}
    (hop : ∀ m n, op ≠ .merge m n) (hx : x.Regular) (h : st.Added x st' ix) : Effect st op st'
  | inserted (m : Nat) (k : RuleKey) (rule : Rule) (default : Option String) :
    Effect st (.insert m k rule default) (st.insert m k rule default)
  | merged {m n : Nat} {a b ix : StoredIndex} {st' : IndexStore}
    (hmerge : st.mergeAt m n = some (.ok (st', st.indexes.size)))
    (ha : st.indexes[m]? = some a) (hb : st.indexes[n]? = some b) (h : st.Merged a b st' ix) :
    Effect st (.merge m n) st'

theorem Sound.effect (hst : st.Sound) (op : Operation) : st.Effect op (st.apply op) := by
  cases op with
  | create family side =>
    obtain ⟨-, ix, hadded⟩ := exists_added st { family, side }
    exact .added (by simp) (RuleIndex.regular_empty family side) hadded
  | build eq family side workers w =>
    cases hbuild : (RuleIndex.build eq family side workers).run.run w with
    | mk r w' =>
      cases r with
      | error e => simpa only [apply, hbuild] using Effect.none (by simp)
      | ok x =>
        obtain ⟨-, ix, hadded⟩ := exists_added st x
        have hx := RuleIndex.build_regular eq family side workers w x w' hbuild
        simpa only [apply, hbuild] using Effect.added (by simp) hx hadded
  | insert m k rule default => exact .inserted m k rule default
  | merge m n =>
    simp only [apply]
    split
    · rename_i merged hmerge
      obtain ⟨st', c⟩ := merged
      obtain ⟨rfl, a, b, ix, ha, hb, hmerged⟩ := hst.merged hmerge
      exact .merged hmerge ha hb hmerged
    · rename_i hfails
      refine .none fun i j merged hop => ?_
      cases hop
      exact hfails merged

theorem Effect.sound {op : Operation} (h : st.Effect op st') (hst : st.Sound) : st'.Sound := by
  cases h with
  | none => exact hst
  | added _ hx h => exact h.sound hst hx
  | inserted m k rule default => exact hst.insert m k rule default
  | merged _ ha hb h => exact h.sound hst ha hb

theorem Sound.foldl_apply (hst : st.Sound) (ops : List Operation) :
    (ops.foldl apply st).Sound := by
  induction ops generalizing st with
  | nil => exact hst
  | cons op ops ih => exact ih ((hst.effect op).sound hst)

theorem sound_after (ops : List Operation) : (after ops).Sound :=
  sound_empty.foldl_apply ops

/-! ## What makes indexes share -/

/-- An operation makes a new index share a key with an index: it merges two, one of which shares the
key with it, while the other one does not have the key. -/
inductive Operation.Ties (st : IndexStore) : Operation → Nat → Nat → RuleKey → Prop where
  | left {i j n : Nat} {k : RuleKey} {st' : IndexStore}
    (hmerge : st.mergeAt i j = some (.ok (st', st.indexes.size))) (hi : st.Shares i n k)
    (hj : st.placeAt j k = none) : Ties st (.merge i j) st.indexes.size n k
  | right {i j n : Nat} {k : RuleKey} {st' : IndexStore}
    (hmerge : st.mergeAt i j = some (.ok (st', st.indexes.size))) (hi : st.placeAt i k = none)
    (hj : st.Shares j n k) : Ties st (.merge i j) st.indexes.size n k

theorem Operation.Ties.exists_mergeAt {op : Operation} (h : op.Ties st m n k) :
    ∃ i j merged, op = .merge i j ∧ st.mergeAt i j = some (.ok merged) := by
  cases h with
  | left hmerge | right hmerge => exact ⟨_, _, _, rfl, hmerge⟩

theorem ties_merge_iff {j : Nat} (h : st.mergeAt i j = some (.ok (st', st.indexes.size))) :
    (Operation.merge i j).Ties st m n k ↔ m = st.indexes.size ∧
      (st.Shares i n k ∧ st.placeAt j k = none ∨ st.placeAt i k = none ∧ st.Shares j n k) := by
  constructor
  · intro hties
    cases hties with
    | left _ hi hj => exact ⟨rfl, .inl ⟨hi, hj⟩⟩
    | right _ hi hj => exact ⟨rfl, .inr ⟨hi, hj⟩⟩
  · rintro ⟨rfl, ⟨hi, hj⟩ | ⟨hi, hj⟩⟩
    · exact .left h hi hj
    · exact .right h hi hj

theorem not_shares_size (st : IndexStore) (n : Nat) (k : RuleKey) :
    ¬ st.Shares st.indexes.size n k := by
  rintro ⟨i, hi, -⟩
  rw [placeAt_size] at hi
  cases hi

/-- Indexes share a key after an operation exactly if they did before or it makes them share. -/
theorem Effect.shares {op : Operation} (h : st.Effect op st') (hst : st.Sound) (hne : m ≠ n) :
    st'.Shares m n k ↔ st.Shares m n k ∨ op.Ties st m n k ∨ op.Ties st n m k := by
  have huntied {m n : Nat} (hop : ∀ i j merged, op = .merge i j →
      st.mergeAt i j ≠ some (.ok merged)) : ¬ op.Ties st m n k := fun hties => by
    obtain ⟨i, j, merged, rfl, hmerge⟩ := hties.exists_mergeAt
    exact hop i j merged rfl hmerge
  cases h with
  | none hop => simp [huntied hop]
  | added hop hx h => simp [huntied fun i j _ heq => absurd heq (hop i j), h.shares hst hne]
  | inserted => simp [huntied (by simp), hst.shares_insert hne]
  | merged hmerge ha hb h =>
    have hnew {l : Nat} (hl : l ≠ st.indexes.size) := h.shares hst ha hb (k := k) hl
    simp only [ties_merge_iff hmerge]
    by_cases hm : m = st.indexes.size
    · subst hm
      simp [hnew hne.symm, not_shares_size, hne.symm]
    by_cases hn : n = st.indexes.size
    · subst hn
      have hold : ¬ st.Shares m st.indexes.size k := fun hs => not_shares_size st m k hs.symm
      rw [shares_comm, hnew hm]
      simp [hold, hm]
    · simp [h.toGrown.shares hm hn, hm, hn]

/-! ## Indexes with contents of their own -/

/-- What the indexes hold. -/
def contents (st : IndexStore) : Array RuleIndex :=
  st.indexes.map st.view

theorem getElem?_contents (st : IndexStore) (n : Nat) : st.contents[n]? = st.get? n := by
  simp [contents, get?]

/-- The contents of indexes after an operation, if each index has its own. -/
def Operation.onContents (xs : Array RuleIndex) : Operation → Array RuleIndex
  | .create family side => xs.push { family, side }
  | .build eq family side workers w =>
    match ((RuleIndex.build eq family side workers).run.run w).1 with
    | .ok x => xs.push x
    | .error _ => xs
  | .insert n k rule default => xs.modify n (·.insert k rule default)
  | .merge m n =>
    match xs[m]?, xs[n]? with
    | some a, some b =>
      match a.merge b with
      | .ok x => xs.push x
      | .error _ => xs
    | _, _ => xs

/-- An operation does not insert at a shared key. -/
def Operation.Alone (st : IndexStore) : Operation → Prop
  | .insert m k _ _ => ∀ n < st.indexes.size, n ≠ m → ¬ st.Shares m n k
  | _ => True

instance (st : IndexStore) : (op : Operation) → Decidable (op.Alone st)
  | .insert m k _ _ =>
    inferInstanceAs (Decidable (∀ n < st.indexes.size, n ≠ m → ¬ st.Shares m n k))
  | .create .. | .build .. | .merge .. => isTrue trivial

/-- No operation inserts at a shared key. -/
def Apart (st : IndexStore) : List Operation → Prop
  | [] => True
  | op :: ops => op.Alone st ∧ (st.apply op).Apart ops

instance decidableApart (st : IndexStore) : (ops : List Operation) → Decidable (st.Apart ops)
  | [] => isTrue trivial
  | op :: ops =>
    have := decidableApart (st.apply op) ops
    inferInstanceAs (Decidable (op.Alone st ∧ (st.apply op).Apart ops))

@[simp] theorem contents_empty : ({} : IndexStore).contents = #[] := by
  simp [contents]

theorem contents_ext {xs : Array RuleIndex} (h : ∀ n, st.get? n = xs[n]?) : st.contents = xs :=
  Array.ext_getElem? fun n => (getElem?_contents st n).trans (h n)

@[simp] theorem size_contents (st : IndexStore) : st.contents.size = st.indexes.size := by
  simp [contents]

theorem Added.contents {x : RuleIndex} (h : st.Added x st' ix) (hst : st.Sound) :
    st'.contents = st.contents.push x := by
  refine contents_ext fun n => ?_
  rw [h.get? hst, Array.getElem?_push, size_contents, getElem?_contents]

theorem Merged.contents (h : st.Merged a b st' ix) (hst : st.Sound) (ha : st.indexes[m]? = some a)
    (hb : st.indexes[n]? = some b) :
    st'.contents = st.contents.push ((st.view a).join (st.view b)) := by
  refine contents_ext fun l => ?_
  rw [h.get? hst ha hb, Array.getElem?_push, size_contents, getElem?_contents]

theorem Shares.lt_size (h : st.Shares m n k) : n < st.indexes.size := by
  obtain ⟨i, -, hi⟩ := h
  obtain ⟨ix, hix, -⟩ := Option.bind_eq_some_iff.1 hi
  exact (Array.getElem?_eq_some_iff.1 hix).1

theorem Sound.contents_insert (hst : st.Sound)
    (halone : (Operation.insert m k rule default).Alone st) :
    (st.insert m k rule default).contents = st.contents.modify m (·.insert k rule default) := by
  refine contents_ext fun n => ?_
  rw [hst.get?_insert, Array.getElem?_modify, getElem?_contents]
  by_cases hn : n = m
  · simp [hn]
  · have hapart : ¬ st.Shares m n k := fun hs => halone n hs.lt_size hn hs
    simp [hn, hapart, Ne.symm hn]

theorem Sound.contents_merge (hst : st.Sound) (m n : Nat) :
    (st.apply (.merge m n)).contents = (Operation.merge m n).onContents st.contents := by
  simp only [apply, Operation.onContents, getElem?_contents]
  cases ha : st.indexes[m]? with
  | none => simp [mergeAt, get?, ha]
  | some a =>
    cases hb : st.indexes[n]? with
    | none => simp [mergeAt, get?, ha, hb]
    | some b =>
      rw [mergeAt_eq ha hb, get?_of_getElem? ha, get?_of_getElem? hb]
      by_cases halike : a.family = b.family ∧ a.side = b.side
      · obtain ⟨st', ix, hmerge, hmerged⟩ := exists_merged (hst.holds m a ha) (hst.holds n b hb)
          halike.1 halike.2
        have hjoin : (st.view a).merge (st.view b) = .ok ((st.view a).join (st.view b)) :=
          if_pos halike
        simp only [hmerge, hjoin, hmerged.contents hst ha hb]
      · have hmerge : st.merge a b = .error ⟨a.side, a.family, b.side, b.family⟩ := if_neg halike
        have hjoin : (st.view a).merge (st.view b) =
          .error ⟨a.side, a.family, b.side, b.family⟩ := if_neg halike
        simp only [hmerge, hjoin]

/-- An operation that does not insert at a shared key leaves to each index a content of its own. -/
theorem Sound.contents_apply (hst : st.Sound) {op : Operation} (halone : op.Alone st) :
    (st.apply op).contents = op.onContents st.contents := by
  cases op with
  | create family side =>
    obtain ⟨-, ix, hadded⟩ := exists_added st { family, side }
    exact hadded.contents hst
  | build eq family side workers w =>
    cases hbuild : (RuleIndex.build eq family side workers).run.run w with
    | mk r w' =>
      simp only [apply, Operation.onContents, hbuild]
      cases r with
      | error e => rfl
      | ok x =>
        obtain ⟨-, ix, hadded⟩ := exists_added st x
        exact hadded.contents hst
  | insert m k rule default => exact hst.contents_insert halone
  | merge m n => exact hst.contents_merge m n

theorem Sound.contents_foldl (hst : st.Sound) {ops : List Operation} (h : st.Apart ops) :
    (ops.foldl apply st).contents = ops.foldl Operation.onContents st.contents := by
  induction ops generalizing st with
  | nil => rfl
  | cons op ops ih =>
    obtain ⟨halone, hops⟩ := h
    rw [List.foldl_cons, List.foldl_cons, ← hst.contents_apply halone]
    exact ih ((hst.effect op).sound hst) hops

/-- An insertion is seen through the index that it goes to, through those that hold the very entry
at its key, and through no other. Merging makes indexes hold one entry, and nothing else does: a
merged index shares with each of both the keys that the other one does not have. So each index has a
content of its own as long as nothing is inserted at a shared key. -/
theorem insertions_seen (ops : List Operation) :
    (∀ m k rule default n, ((after ops).insert m k rule default).get? n =
      if n = m ∨ (after ops).Shares m n k then ((after ops).get? n).map (·.insert k rule default)
      else (after ops).get? n) ∧
    (∀ op m n k, m ≠ n → (((after ops).apply op).Shares m n k ↔ (after ops).Shares m n k ∨
      op.Ties (after ops) m n k ∨ op.Ties (after ops) n m k)) ∧
    (∀ m n a b st' c, (after ops).get? m = some a → (after ops).get? n = some b →
      (after ops).mergeAt m n = some (.ok (st', c)) → ∀ k,
        (st'.Shares c m k ↔ a.get? k ≠ none ∧ b.get? k = none) ∧
        (st'.Shares c n k ↔ a.get? k = none ∧ b.get? k ≠ none)) ∧
    (({} : IndexStore).Apart ops →
      (after ops).contents = ops.foldl Operation.onContents #[]) := by
  have hst := sound_after ops
  refine ⟨hst.get?_insert, fun op m n k hne => (hst.effect op).shares hst hne, ?_,
    fun h => contents_empty ▸ sound_empty.contents_foldl h⟩
  intro m n a b st' c ha hb hmerge k
  obtain ⟨rfl, a', b', ix, ha', hb', hmerged⟩ := hst.merged hmerge
  rw [hmerged.shares_left hst ha' hb', hmerged.shares_right hst ha' hb']
  simp only [ne_eq, hst.placeAt_eq_none ha, hst.placeAt_eq_none hb, and_self]

end IndexStore

namespace Sample

/-- Something that a program is allowed on its log. -/
def logRule (perm : String) : Rule :=
  .av { source := "app", target := "log", objectClass := "file", flavor := .allow
        perms := .ofList [perm] }

/-- The key of what a program is allowed on its log. -/
def logKey : RuleKey := ⟨"allow", "file", "app", "log", none, none, none⟩

/-- An index with one key, and one without keys. -/
def operands : List IndexStore.Operation :=
  [.create .av .base, .insert 0 logKey (logRule "read") none, .create .av .base]

/-- Both indexes have the key before they are merged; then something is inserted at it. -/
def insertedAfter : List IndexStore.Operation :=
  operands ++ [.insert 1 logKey (logRule "append") none, .merge 0 1,
    .insert 2 logKey (logRule "write") none]

/-- What an index of the store grants at the key. -/
def granted (st : IndexStore) (n : Nat) : Option (List String) :=
  (st.get? n).map fun a => ((a.get? logKey).map (·.perms.toList)).getD []

end Sample

namespace IndexStore

theorem insertions_seen_sample :
    (∃ st' c, (after Sample.operands).mergeAt 0 1 = some (.ok (st', c)) ∧
      st'.Shares c 0 Sample.logKey ∧ ¬ st'.Shares c 1 Sample.logKey) ∧
    ({} : IndexStore).Apart Sample.insertedAfter ∧
    (after Sample.insertedAfter).contents =
      Sample.insertedAfter.foldl Operation.onContents #[] := by
  have hfirst : ((after Sample.operands).get? 0).map (fun a => (a.get? Sample.logKey).isSome) =
      some true := by
    decide +kernel
  have hsecond : ((after Sample.operands).get? 1).map (fun b => (b.get? Sample.logKey).isSome) =
      some false := by
    decide +kernel
  have hmerge : ((after Sample.operands).mergeAt 0 1).map (fun r => r.toOption.map (·.2)) =
      some (some 2) := by
    decide +kernel
  obtain ⟨a, ha, hsome⟩ := Option.map_eq_some_iff.1 hfirst
  obtain ⟨b, hb, hnone⟩ := Option.map_eq_some_iff.1 hsecond
  obtain ⟨r, hr, hplace⟩ := Option.map_eq_some_iff.1 hmerge
  obtain ⟨⟨st', c⟩, rfl, -⟩ := exists_ok_of_map hplace
  have hapart : ({} : IndexStore).Apart Sample.insertedAfter := by decide +kernel
  obtain ⟨-, -, hshares, -⟩ := insertions_seen Sample.operands
  obtain ⟨hleft, hright⟩ := hshares 0 1 a b st' c ha hb hr Sample.logKey
  have hkey : a.get? Sample.logKey ≠ none := Option.isSome_iff_ne_none.1 hsome
  refine ⟨⟨st', c, hr, hleft.2 ⟨hkey, by simpa using hnone⟩, fun hs => hkey (hright.1 hs).1⟩,
    hapart, (insertions_seen Sample.insertedAfter).2.2.2 hapart⟩

/-- An insertion into a merged index may change an index that it was merged of. -/
theorem insertion_reaches_operand :
    ¬ ∀ m k rule default n, n ≠ m →
      ((after (Sample.operands ++ [.merge 0 1])).insert m k rule default).get? n =
        (after (Sample.operands ++ [.merge 0 1])).get? n := by
  intro halone
  have hsame := halone 2 Sample.logKey (Sample.logRule "append") none 0 (by decide)
  have hbefore : Sample.granted (after (Sample.operands ++ [.merge 0 1])) 0 = some ["read"] := by
    decide +kernel
  have hafter : Sample.granted ((after (Sample.operands ++ [.merge 0 1])).insert 2 Sample.logKey
      (Sample.logRule "append") none) 0 = some ["append", "read"] := by
    decide +kernel
  rw [Sample.granted, hsame, ← Sample.granted, hbefore] at hafter
  exact absurd hafter (by decide)

end IndexStore

end PolicyDelta
