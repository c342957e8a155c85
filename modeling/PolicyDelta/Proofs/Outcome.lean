/-! Outcomes: how a computation that may fail is taken apart. A traversal stops at the first
failure, so nested and flat traversals of the same items have one outcome. `FailsWith` speaks of the
failures alone, step by step, and `SameUpTo` compares two computations whose failures may differ. -/

namespace PolicyDelta

variable {ε α β γ : Type}

theorem bind_eq_ok {x : Except ε α} {f : α → Except ε β} {b : β} :
    (x >>= f) = .ok b ↔ ∃ a, x = .ok a ∧ f a = .ok b := by
  cases x <;> simp [bind, Except.bind]

theorem bind_eq_error {x : Except ε α} {f : α → Except ε β} {e : ε} :
    (x >>= f) = .error e ↔ x = .error e ∨ ∃ a, x = .ok a ∧ f a = .error e := by
  cases x <;> simp [bind, Except.bind]

theorem map_eq_ok {x : Except ε α} {f : α → β} {b : β} :
    (f <$> x) = .ok b ↔ ∃ a, x = .ok a ∧ f a = b := by
  cases x <;> simp [Functor.map, Except.map]

theorem map_eq_error {x : Except ε α} {f : α → β} {e : ε} :
    (f <$> x) = .error e ↔ x = .error e := by
  cases x <;> simp [Functor.map, Except.map]

theorem exists_ok_iff {x : Except ε α} : (∃ a, x = .ok a) ↔ (fun _ => ()) <$> x = .ok () := by
  cases x <;> simp [Functor.map, Except.map]

theorem exists_ok_of_map {x : Except ε α} {f : α → β} {b : β} (h : x.toOption.map f = some b) :
    ∃ a, x = .ok a ∧ f a = b := by
  cases x with
  | error e => cases h
  | ok a => exact ⟨a, rfl, Option.some.inj h⟩

theorem discard_eq_ok {x : Except ε α} : discard x = .ok () ↔ ∃ a, x = .ok a := by
  cases x <;> simp [discard, Functor.mapConst, Except.map]

theorem forM_eq_ok {f : α → Except ε Unit} {l : List α} :
    l.forM f = .ok () ↔ ∀ a ∈ l, f a = .ok () := by
  induction l with
  | nil => exact iff_of_true rfl fun a ha => absurd ha List.not_mem_nil
  | cons a l ih =>
    rw [List.forM_eq_forM, List.forM_cons, bind_eq_ok, List.forall_mem_cons, ← ih]
    exact ⟨fun ⟨_, ha, hl⟩ => ⟨ha, hl⟩, fun ⟨ha, hl⟩ => ⟨(), ha, hl⟩⟩

theorem mapM_eq_ok_map {f : α → Except ε β} {g : α → β} {l : List α}
    (h : ∀ a ∈ l, f a = .ok (g a)) : l.mapM f = .ok (l.map g) := by
  induction l with
  | nil => rfl
  | cons a l ih =>
    rw [List.mapM_cons, h a List.mem_cons_self, ih fun b hb => h b (List.mem_cons_of_mem _ hb)]
    rfl

theorem exists_mapM_eq_ok {f : α → Except ε β} {l : List α} (h : ∀ a ∈ l, ∃ b, f a = .ok b) :
    ∃ bs, l.mapM f = .ok bs := by
  induction l with
  | nil => exact ⟨[], rfl⟩
  | cons a l ih =>
    obtain ⟨b, hb⟩ := h a List.mem_cons_self
    obtain ⟨bs, hbs⟩ := ih fun a ha => h a (List.mem_cons_of_mem _ ha)
    exact ⟨b :: bs, by rw [List.mapM_cons, hb, hbs]; rfl⟩

theorem mem_of_mapM_eq_ok {f : α → Except ε β} {l : List α} {bs : List β} {b : β}
    (h : l.mapM f = .ok bs) : b ∈ bs ↔ ∃ a ∈ l, f a = .ok b := by
  induction l generalizing bs with
  | nil => cases h; simp
  | cons a l ih =>
    rw [List.mapM_cons] at h
    obtain ⟨c, hc, h⟩ := bind_eq_ok.1 h
    obtain ⟨cs, hcs, h⟩ := bind_eq_ok.1 h
    cases h
    simp [ih hcs, hc, eq_comm]

theorem eq_ok_of_mapM_eq_ok {f : α → Except ε β} {l : List α} {bs : List β} {a : α}
    (h : l.mapM f = .ok bs) (ha : a ∈ l) : ∃ b, f a = .ok b := by
  induction l generalizing bs with
  | nil => cases ha
  | cons a' l ih =>
    rw [List.mapM_cons] at h
    obtain ⟨c, hc, h⟩ := bind_eq_ok.1 h
    obtain ⟨cs, hcs, -⟩ := bind_eq_ok.1 h
    rcases List.mem_cons.1 ha with rfl | ha
    · exact ⟨c, hc⟩
    · exact ih hcs ha

theorem mapM_flatten (f : α → Except ε β) (ls : List (List α)) :
    ls.flatten.mapM f = List.flatten <$> ls.mapM (·.mapM f) := by
  induction ls with
  | nil => rfl
  | cons l ls ih => simp [ih]

theorem mapM_map_eq (f : α → Except ε β) (g : β → γ) (l : List α) :
    (l.mapM fun a => g <$> f a) = List.map g <$> l.mapM f := by
  induction l with
  | nil => rfl
  | cons a l ih => simp [ih]

/-- A fold whose steps may fail is a traversal and then a fold, if what the steps do to an
accumulator with the invariant `P` does not depend on it. -/
theorem foldlM_eq_mapM (P : β → Prop) (read : α → Except ε γ) (put : β → γ → β)
    {f : β → α → Except ε β} (hf : ∀ b a, P b → f b a = put b <$> read a)
    (hput : ∀ b c, P b → P (put b c)) {b : β} (hb : P b) (l : List α) :
    l.foldlM f b = List.foldl put b <$> l.mapM read := by
  induction l generalizing b with
  | nil => rfl
  | cons a l ih =>
    rw [List.foldlM_cons, hf b a hb, List.mapM_cons]
    cases read a with
    | error e => rfl
    | ok c =>
      change l.foldlM f (put b c) = _ <$> do let cs ← l.mapM read; pure (c :: cs)
      rw [ih (hput b c hb)]
      simp

/-! ## What failures have in common -/

/-- Every failure of a computation has a property. -/
def FailsWith (P : ε → Prop) (x : Except ε α) : Prop := ∀ e, x = .error e → P e

namespace FailsWith

variable {P Q : ε → Prop} {x : Except ε α}

theorem of_ok {a : α} (h : x = .ok a) : FailsWith P x := by
  rintro e rfl
  cases h

theorem imp (h : FailsWith P x) (hPQ : ∀ e, P e → Q e) : FailsWith Q x :=
  fun e he => hPQ e (h e he)

theorem bind {f : α → Except ε β} (hx : FailsWith P x)
    (hf : ∀ a, x = .ok a → FailsWith P (f a)) : FailsWith P (x >>= f) := by
  intro e he
  cases x with
  | error e' =>
    cases he
    exact hx e rfl
  | ok a => exact hf a rfl e he

theorem map {f : α → β} (hx : FailsWith P x) : FailsWith P (f <$> x) := by
  intro e he
  cases x with
  | error e' =>
    cases he
    exact hx e rfl
  | ok a => cases he

theorem discard (hx : FailsWith P x) : FailsWith P (discard x) := by
  intro e he
  cases x with
  | error e' =>
    cases he
    exact hx e rfl
  | ok a => cases he

theorem forM {f : α → Except ε Unit} {l : List α} (h : ∀ a ∈ l, FailsWith P (f a)) :
    FailsWith P (l.forM f) := by
  induction l with
  | nil => exact of_ok rfl
  | cons a l ih =>
    obtain ⟨ha, hl⟩ := List.forall_mem_cons.1 h
    exact ha.bind fun _ _ => ih hl

end FailsWith

/-! ## Two computations side by side -/

/-- Two computations have the same answer, or both fail and their failures are related. -/
inductive SameUpTo (R : ε → ε → Prop) : Except ε α → Except ε α → Prop where
  | ok (a : α) : SameUpTo R (.ok a) (.ok a)
  | error (h : R e e') : SameUpTo R (.error e) (.error e')

namespace SameUpTo

variable {R : ε → ε → Prop} {x x' y y' : Except ε α}

theorem eq_ok {a : α} (h : SameUpTo R x x') (hx : x = .ok a) : x' = .ok a := by
  cases h with
  | ok b => exact hx
  | error he => cases hx

theorem exists_error {e : ε} (h : SameUpTo R x x') (hx : x = .error e) :
    ∃ e', x' = .error e' ∧ R e e' := by
  cases h with
  | ok b => cases hx
  | error he =>
    cases hx
    exact ⟨_, rfl, he⟩

theorem ite {p : Prop} [Decidable p] (hx : SameUpTo R x x') (hy : SameUpTo R y y') :
    SameUpTo R (if p then x else y) (if p then x' else y') := by
  split
  · exact hx
  · exact hy

theorem bind {f f' : α → Except ε β} (hx : SameUpTo R x x')
    (hf : ∀ a, SameUpTo R (f a) (f' a)) : SameUpTo R (x >>= f) (x' >>= f') := by
  cases hx with
  | ok a => exact hf a
  | error h => exact .error h

theorem map (f : α → β) (hx : SameUpTo R x x') : SameUpTo R (f <$> x) (f <$> x') := by
  cases hx with
  | ok a => exact .ok (f a)
  | error h => exact .error h

theorem mapM {f f' : α → Except ε β} (h : ∀ a, SameUpTo R (f a) (f' a)) (l : List α) :
    SameUpTo R (l.mapM f) (l.mapM f') := by
  induction l with
  | nil => exact .ok []
  | cons a l ih =>
    rw [List.mapM_cons, List.mapM_cons]
    exact (h a).bind fun b => ih.bind fun bs => .ok (b :: bs)

end SameUpTo

end PolicyDelta
