import PolicyDelta.RuleIndex.Build
import PolicyDelta.Proofs.Naming

/-! What is remembered between look-ups never shows in an answer. An expander is faithful to a scope
if everything it remembers under the scope's identity is what a look-up would find; look-ups keep it
so, whether they succeed or not. A computation then yields an outcome if it has this outcome in
every faithful workspace and leaves the workspace faithful. -/

namespace PolicyDelta

/-- What an expander remembers of a scope is what a look-up finds. -/
def Expander.Faithful (x : Expander) (s : Scope) : Prop :=
  ∀ n ts, x.known[(s.id, n)]? = some ts → s.typesOf n = .ok ts

namespace Expander

variable {x : Expander} {s : Scope}

theorem faithful_empty (s : Scope) : ({} : Expander).Faithful s := by
  intro n ts h
  simp at h

/-- What is remembered under an identity has to be what a look-up finds in the scope only if this
is the scope's identity. -/
theorem Faithful.remember (h : x.Faithful s) {id n : String} {ts : NameSet}
    (hts : id = s.id → s.typesOf n = .ok ts) : Faithful ⟨x.known.insert (id, n) ts⟩ s := by
  intro m us hget
  simp only [Std.ExtTreeMap.getElem?_insert, Std.LawfulEqCmp.compare_eq_iff_eq, Prod.mk.injEq]
    at hget
  split at hget
  · rename_i heq
    cases hget
    exact heq.2 ▸ hts heq.1
  · exact h m us hget

theorem Faithful.types (h : x.Faithful s) (n : String) :
    (x.types s n).1 = s.typesOf n ∧ (x.types s n).2.1.Faithful s := by
  unfold Expander.types
  cases hknown : x.known[(s.id, n)]? with
  | some ts => exact ⟨(h n ts hknown).symm, h⟩
  | none =>
    cases hts : s.typesOf n with
    | error e => exact ⟨rfl, h⟩
    | ok ts => exact ⟨rfl, h.remember fun _ => hts⟩

theorem Faithful.pairs (h : x.Faithful s) (source target : String) :
    (x.pairs s source target).1 = s.pairsOf source target ∧
      (x.pairs s source target).2.1.Faithful s := by
  unfold Expander.pairs Scope.pairsOf
  obtain ⟨hs, hx⟩ := h.types source
  generalize x.types s source = found at hs hx ⊢
  obtain ⟨_ | sources, x', told⟩ := found
  · rw [← hs]
    exact ⟨rfl, hx⟩
  rw [← hs]
  by_cases hself : target = selfTarget
  · simp only [hself, if_true]
    exact ⟨rfl, hx⟩
  simp only [hself, if_false]
  obtain ⟨ht, hx⟩ := Faithful.types hx target
  generalize x'.types s target = found at ht hx ⊢
  obtain ⟨_ | targets, x'', more⟩ := found
  · rw [← ht]
    exact ⟨rfl, hx⟩
  · rw [← ht]
    exact ⟨rfl, hx⟩

end Expander

/-- Each expander of a workspace is faithful to the scope of its side. -/
def Workspace.Faithful (scope : Side → Scope) (w : Workspace) : Prop :=
  ∀ side, (w.expander side).Faithful (scope side)

namespace Workspace

variable {scope : Side → Scope} {w : Workspace}

theorem faithful_empty (scope : Side → Scope) : ({} : Workspace).Faithful scope := by
  intro side
  cases side with
  | base | modified => exact Expander.faithful_empty _

theorem Faithful.tell (h : w.Faithful scope) (events : List Event) :
    (w.tell events).Faithful scope := by
  intro side
  cases side with
  | base => exact h .base
  | modified => exact h .modified

theorem Faithful.withExpander (h : w.Faithful scope) {side : Side} {x : Expander}
    (hx : x.Faithful (scope side)) : (w.withExpander x side).Faithful scope := by
  intro side'
  cases side with
  | base =>
    cases side' with
    | base => exact hx
    | modified => exact h .modified
  | modified =>
    cases side' with
    | base => exact h .base
    | modified => exact hx

end Workspace

/-- In every faithful workspace a computation has the outcome `r` and leaves the workspace
faithful. -/
def Scan.Yields (scope : Side → Scope) (m : Scan α) (r : Except UnknownIdentifier α) : Prop :=
  ∀ w, w.Faithful scope → ∃ w', m.run.run w = (r, w') ∧ w'.Faithful scope

namespace Scan.Yields

variable {scope : Side → Scope} {α β : Type}

theorem pure (a : α) : Yields scope (pure a) (.ok a) :=
  fun w hw => ⟨w, rfl, hw⟩

theorem ofExcept (r : Except UnknownIdentifier α) : Yields scope (Scan.ofExcept r) r := by
  cases r with
  | ok a => exact pure a
  | error e => exact fun w hw => ⟨w, rfl, hw⟩

theorem tell (e : Event) : Yields scope (Scan.tell e) (.ok ()) :=
  fun w hw => ⟨w.tell [e], rfl, hw.tell [e]⟩

theorem bind {m : Scan α} {r : Except UnknownIdentifier α} {f : α → Scan β}
    {g : α → Except UnknownIdentifier β} (hm : Yields scope m r)
    (hf : ∀ a, Yields scope (f a) (g a)) : Yields scope (m >>= f) (r >>= g) := by
  intro w hw
  obtain ⟨w', hrun, hw'⟩ := hm w hw
  cases r with
  | error e =>
    refine ⟨w', ?_, hw'⟩
    rw [ExceptT.run_bind, StateT.run_bind, hrun]
    rfl
  | ok a =>
    obtain ⟨w'', hrun', hw''⟩ := hf a w' hw'
    refine ⟨w'', ?_, hw''⟩
    rw [ExceptT.run_bind, StateT.run_bind, hrun]
    exact hrun'

theorem ofExcept_bind {x : Except UnknownIdentifier α} {f : α → Scan β}
    {g : α → Except UnknownIdentifier β} (hf : ∀ a, x = .ok a → Yields scope (f a) (g a)) :
    Yields scope (Scan.ofExcept x >>= f) (x >>= g) := by
  cases x with
  | error e => exact ofExcept (.error e)
  | ok a => exact hf a rfl

theorem tell_bind (e : Event) {f : Unit → Scan α} {r : Except UnknownIdentifier α}
    (h : Yields scope (f ()) r) : Yields scope (Scan.tell e >>= f) r :=
  (tell e).bind (g := fun _ => r) fun _ => h

/-- What is told about an answer does not change it. -/
theorem telling {m : Scan α} {r : Except UnknownIdentifier α} (hm : Yields scope m r)
    (event : α → Event) : Yields scope (do let a ← m; Scan.tell (event a); Pure.pure a) r := by
  have hr : (r >>= Except.ok) = r := by cases r <;> rfl
  rw [← hr]
  exact hm.bind fun a => tell_bind (event a) (pure a)

theorem forM_tell (event : α → Event) (l : List α) :
    Yields scope (l.forM fun a => Scan.tell (event a)) (.ok ()) := by
  induction l with
  | nil => exact pure ()
  | cons a l ih => exact tell_bind (event a) ih

theorem pairs (side : Side) (source target : String) :
    Yields scope (Scan.pairs (scope side) side source target)
      ((scope side).pairsOf source target) := by
  intro w hw
  obtain ⟨hout, hx⟩ := (hw side).pairs source target
  generalize (scope side).pairsOf source target = r at hout ⊢
  obtain rfl := hout
  exact ofExcept _ _ ((hw.withExpander hx).tell _)

theorem mapM {f : α → Scan β} {g : α → Except UnknownIdentifier β}
    (hf : ∀ a, Yields scope (f a) (g a)) (l : List α) :
    Yields scope (l.mapM f) (l.mapM g) := by
  induction l with
  | nil => exact pure []
  | cons a l ih =>
    rw [List.mapM_cons, List.mapM_cons]
    exact (hf a).bind fun b => ih.bind fun bs => pure (b :: bs)

theorem foldlM {f : β → α → Scan β} {g : β → α → Except UnknownIdentifier β}
    (hf : ∀ b a, Yields scope (f b a) (g b a)) (b : β) (l : List α) :
    Yields scope (l.foldlM f b) (l.foldlM g b) := by
  induction l generalizing b with
  | nil => exact pure b
  | cons a l ih =>
    rw [List.foldlM_cons, List.foldlM_cons]
    exact (hf b a).bind ih

end Scan.Yields

end PolicyDelta
