import PolicyDelta.Shards

/-! The parts into which work is split are the whole work, in order, whatever the number of
workers. They are of one size but for the last, there is no empty one among them unless there is no
work, and there are no more of them than workers (`shards_partition`). -/

namespace PolicyDelta

theorem consecutive_go_nil (size fuel : Nat) : consecutive.go size fuel ([] : List α) = [] := by
  cases fuel <;> rfl

theorem consecutive_go_cons (size fuel : Nat) (x : α) (items : List α) :
    consecutive.go size (fuel + 1) (x :: items) =
      (x :: items).take size :: consecutive.go size fuel ((x :: items).drop size) := rfl

theorem consecutive_go_flatten {size : Nat} (hsize : 0 < size) {fuel : Nat} {items : List α}
    (h : items.length ≤ fuel) : (consecutive.go size fuel items).flatten = items := by
  induction fuel generalizing items with
  | zero =>
    obtain rfl : items = [] := List.eq_nil_of_length_eq_zero (by omega)
    rfl
  | succ fuel ih =>
    cases items with
    | nil => rw [consecutive_go_nil, List.flatten_nil]
    | cons x items =>
      have hrest : ((x :: items).drop size).length ≤ fuel := by
        rw [List.length_drop]
        simp only [List.length_cons] at h ⊢
        omega
      rw [consecutive_go_cons, List.flatten_cons, ih hrest, List.take_append_drop]

theorem consecutive_flatten {size : Nat} (hsize : 0 < size) (items : List α) :
    (consecutive size items).flatten = items :=
  consecutive_go_flatten hsize (Nat.le_refl _)

/-- All items are done if each worker does its share of them, rounded up. -/
theorem length_le_share_mul (length : Nat) {count : Nat} (hcount : 0 < count) :
    length ≤ (length + count - 1) / count * count := by
  have hdiv := Nat.div_add_mod (length + count - 1) count
  have hmod := Nat.mod_lt (length + count - 1) hcount
  rw [Nat.mul_comm] at hdiv
  omega

/-- Work stays together, or it is split into shares with which the workers do all of it. -/
theorem shards_cases (items : List α) (count : Int) :
    shards items count = [items] ∨ ∃ size, 0 < size ∧ items.length ≤ size * count.toNat ∧
      shards items count = consecutive size items := by
  unfold shards
  split
  · exact .inl rfl
  · rename_i hsplit
    have hcount : 0 < count.toNat := by omega
    refine .inr ⟨_, ?_, length_le_share_mul items.length hcount, rfl⟩
    apply Nat.div_pos <;> omega

theorem shards_flatten (items : List α) (count : Int) : (shards items count).flatten = items := by
  rcases shards_cases items count with h | ⟨size, hsize, -, h⟩
  · rw [h, List.flatten_singleton]
  · rw [h, consecutive_flatten hsize]

/-! ## Parts of one size -/

/-- Parts of one size. None is empty, and only the last may be smaller. -/
inductive EvenParts (size : Nat) : List (List α) → Prop where
  | nil : EvenParts size []
  | cons {part : List α} {rest : List (List α)} (hne : part ≠ []) (hle : part.length ≤ size)
      (hfull : rest ≠ [] → part.length = size) (hrest : EvenParts size rest) :
      EvenParts size (part :: rest)

namespace EvenParts

variable {size : Nat} {part : List α} {parts : List (List α)}

theorem ne_nil (h : EvenParts size parts) (hpart : part ∈ parts) : part ≠ [] := by
  induction h with
  | nil => cases hpart
  | cons hne _ _ _ ih =>
    rcases List.mem_cons.1 hpart with rfl | hpart
    · exact hne
    · exact ih hpart

theorem length_le (h : EvenParts size parts) (hpart : part ∈ parts) : part.length ≤ size := by
  induction h with
  | nil => cases hpart
  | cons _ hle _ _ ih =>
    rcases List.mem_cons.1 hpart with rfl | hpart
    · exact hle
    · exact ih hpart

theorem length_eq (h : EvenParts size parts) (hpart : part ∈ parts.dropLast) :
    part.length = size := by
  induction h with
  | nil => cases hpart
  | @cons first rest _ _ hfull _ ih =>
    cases rest with
    | nil => cases hpart
    | cons next rest =>
      rw [List.dropLast_cons_cons, List.mem_cons] at hpart
      rcases hpart with rfl | hpart
      · exact hfull (List.cons_ne_nil next rest)
      · exact ih hpart

/-- All parts but the last are full, and the last is not empty. -/
theorem mul_length_lt (h : EvenParts size parts) (hsize : 0 < size) :
    size * parts.length < parts.flatten.length + size := by
  induction h with
  | nil => simpa using hsize
  | @cons part rest hne _ hfull _ ih =>
    rw [List.length_cons, List.flatten_cons, List.length_append, Nat.mul_succ]
    cases rest with
    | nil =>
      have hpart : 0 < part.length := List.length_pos_iff.2 hne
      simpa using hpart
    | cons next rest =>
      rw [hfull (List.cons_ne_nil next rest)]
      omega

/-- There are no more parts than full ones that could hold everything. -/
theorem length_parts_le (h : EvenParts size parts) (hsize : 0 < size) {count : Nat}
    (hcount : parts.flatten.length ≤ size * count) : parts.length ≤ count := by
  have hlt : size * parts.length < size * (count + 1) := by
    have := h.mul_length_lt hsize
    rw [Nat.mul_succ]
    omega
  exact Nat.le_of_lt_succ (Nat.lt_of_mul_lt_mul_left hlt)

end EvenParts

theorem consecutive_go_even {size : Nat} (hsize : 0 < size) (fuel : Nat) (items : List α) :
    EvenParts size (consecutive.go size fuel items) := by
  induction fuel generalizing items with
  | zero => exact .nil
  | succ fuel ih =>
    cases items with
    | nil => rw [consecutive_go_nil]; exact .nil
    | cons x items =>
      rw [consecutive_go_cons]
      refine .cons ?_ (List.length_take_le ..) (fun hrest => ?_) (ih _)
      · rw [Ne, List.take_eq_nil_iff]
        rintro (hzero | hnil)
        · omega
        · cases hnil
      · -- Something is left, so that this part is full.
        have hleft : (x :: items).drop size ≠ [] := by
          intro hnil
          rw [hnil] at hrest
          exact hrest (consecutive_go_nil size fuel)
        rw [Ne, List.drop_eq_nil_iff] at hleft
        rw [List.length_take]
        omega

theorem shards_nil (count : Int) : shards ([] : List α) count = [[]] := by
  rw [shards, if_pos (.inr (Nat.zero_le 1))]

theorem exists_shards_even {items : List α} (hitems : items ≠ []) (count : Int) :
    ∃ size, 0 < size ∧ EvenParts size (shards items count) ∧
      items.length ≤ size * (max 1 count).toNat := by
  rcases shards_cases items count with h | ⟨size, hsize, hcount, h⟩
  · rw [h]
    refine ⟨items.length, List.length_pos_iff.2 hitems, ?_, ?_⟩
    · exact .cons hitems (Nat.le_refl _) (fun hrest => absurd rfl hrest) .nil
    · exact Nat.le_mul_of_pos_right _ (by omega)
  · rw [h]
    refine ⟨size, hsize, consecutive_go_even hsize .., Nat.le_trans hcount ?_⟩
    exact Nat.mul_le_mul_left size (by omega)

/-- Work is split into consecutive parts, at most one for each worker. Only without work there is an
empty part, and it is the only one. All parts but the last have one length, and the last is not
longer. -/
theorem shards_partition (items : List α) (count : Int) :
    (shards items count).flatten = items ∧
    ((shards items count).length : Int) ≤ max 1 count ∧
    ([] ∈ shards items count ↔ items = []) ∧ shards ([] : List α) count = [[]] ∧
    ∃ size, (∀ part ∈ (shards items count).dropLast, part.length = size) ∧
      ∀ part ∈ (shards items count).getLast?, part.length ≤ size := by
  refine ⟨shards_flatten items count, ?_⟩
  by_cases hitems : items = []
  · subst hitems
    rw [shards_nil]
    refine ⟨Int.le_max_left .., by simp, rfl, 0, by simp, by simp⟩
  · obtain ⟨size, hsize, heven, hcount⟩ := exists_shards_even hitems count
    refine ⟨?_, iff_of_false (fun h => heven.ne_nil h rfl) hitems, shards_nil count, size,
      fun _ => heven.length_eq, fun part hpart => heven.length_le (List.mem_of_getLast? hpart)⟩
    have hle := heven.length_parts_le hsize (by rwa [shards_flatten])
    omega

/-- Shares of two leave nothing for the last of four workers. -/
example : shards [1, 2, 3, 4, 5] 4 = [[1, 2], [3, 4], [5]] := by decide

end PolicyDelta
