import PolicyDelta.Proofs.Lines
import PolicyDelta.Sessions

/-! The life of a session. Whatever is asked of sessions, in any order, one that was built answers
from what its comparison found until it is closed, and one that is closed or was never built answers
nothing from then on (`Sessions.lifecycle`). A single request changes a session only by closing it
and holds only changes that open sessions gave; the rest is by induction on the requests. -/

namespace PolicyDelta

namespace Sessions

/-- The answer to a request. -/
def answer (t : Sessions) (i : Nat) (r : Request) : Except Refusal Reply := (t.step i r).1

/-- What is at hand after a request. -/
def next (t : Sessions) (i : Nat) (r : Request) : Sessions := (t.step i r).2

/-- What is at hand after requests, each with the number of its session. -/
def after (t : Sessions) (requests : List (Nat × Request)) : Sessions :=
  requests.foldl (fun t r => t.next r.1 r.2) t

/-- A request closes the session of a number. -/
def Closes (i : Nat) (requests : List (Nat × Request)) : Prop :=
  ∃ r ∈ requests, r.1 = i ∧ r.2.closes

instance (i : Nat) (requests : List (Nat × Request)) : Decidable (Closes i requests) :=
  inferInstanceAs (Decidable (∃ r ∈ requests, r.1 = i ∧ r.2.closes))

/-- Sessions to start with: each is built or not, and nothing is held. -/
structure Fresh (t : Sessions) : Prop where
  all : ∀ s ∈ t.all, s.result? = none ∨
    ∃ base modified d workers, (Session.build base modified d workers).1 = .ok s
  held : t.held = []

/-- A change was found when a session was built. -/
def Found (t : Sessions) (c : Change) : Prop :=
  ∃ s ∈ t.all, ∃ found family, s.result? = some found ∧ c ∈ found.changes family

theorem Fresh.exists_line {t : Sessions} (h : t.Fresh) {c : Change} (hc : t.Found c) :
    ∃ line, c.render = .ok line := by
  obtain ⟨s, hs, found, family, hfound, hc⟩ := hc
  rcases h.all s hs with hnone | ⟨base, modified, d, workers, hbuilt⟩
  · rw [hnone] at hfound
    cases hfound
  · exact Session.exists_line hbuilt hfound hc

/-! ## One request -/

variable {t t₀ : Sessions} {i : Nat} {r : Request} {s : Session} {name : String} {c : Change}

@[simp] theorem all_hold (name? : Option String) : (t.hold name? c).all = t.all := by
  cases name? <;> rfl

@[simp] theorem all_keep (reply : Except Refusal Reply) : (t.keep r reply).all = t.all := by
  unfold keep
  split
  · exact all_hold _
  · rfl

theorem step_eq (hs : t.all[i]? = some s) : t.step i r = (t.replyOf s r,
    if r.closes then (t.keep r (t.replyOf s r)).closeAt i else t.keep r (t.replyOf s r)) := by
  unfold step
  simp only [hs]

theorem step_of_none (hs : t.all[i]? = none) : t.step i r = (.error .noSession, t) := by
  unfold step
  simp only [hs]

theorem answer_eq (hs : t.all[i]? = some s) : t.answer i r = t.replyOf s r := by
  rw [answer, step_eq hs]

theorem next_eq (hs : t.all[i]? = some s) : t.next i r =
    if r.closes then (t.keep r (t.replyOf s r)).closeAt i else t.keep r (t.replyOf s r) := by
  rw [next, step_eq hs]

theorem next_of_none (hs : t.all[i]? = none) : t.next i r = t := by
  rw [next, step_of_none hs]

theorem getElem?_closeAt (t : Sessions) (i j : Nat) :
    (t.closeAt i).all[j]? = if i = j then t.all[j]?.map Session.close else t.all[j]? := by
  unfold closeAt
  rw [List.getElem?_modify]
  split <;> simp

/-- A request changes a session only by closing it. -/
theorem getElem?_next (t : Sessions) (i : Nat) (r : Request) (j : Nat) :
    (t.next i r).all[j]? =
      if i = j ∧ r.closes then t.all[j]?.map Session.close else t.all[j]? := by
  cases hs : t.all[i]? with
  | none =>
    rw [next_of_none hs]
    split
    · rename_i h
      obtain ⟨rfl, -⟩ := h
      rw [hs]
      rfl
    · rfl
  | some s =>
    rw [next_eq hs]
    cases hcloses : r.closes with
    | true => simp [getElem?_closeAt]
    | false => simp

/-- A request holds at most the change that it is answered with. -/
theorem held_next (t : Sessions) (i : Nat) (r : Request) :
    (t.next i r).held = t.held ∨ ∃ s name c, t.all[i]? = some s ∧ r.hold? = some name ∧
      t.replyOf s r = .ok (.change c) ∧ (t.next i r).held = (name, c) :: t.held := by
  cases hs : t.all[i]? with
  | none =>
    rw [next_of_none hs]
    exact .inl rfl
  | some s =>
    have hkept : (t.next i r).held = (t.keep r (t.replyOf s r)).held := by
      rw [next_eq hs]
      split <;> rfl
    rw [hkept]
    unfold keep
    split
    · rename_i c hreply
      cases hname : r.hold? with
      | none => exact .inl rfl
      | some name => exact .inr ⟨s, name, c, rfl, rfl, hreply, rfl⟩
    · exact .inl rfl

end Sessions

/-! ## A change by its number -/

namespace Session

variable {s : Session} {found : Differences}

theorem changeAt_of_getElem? (hs : s.result? = some found) {f : RuleFamily} {k : Nat} {c : Change}
    (hc : (found.changes f)[k]? = some c) : s.changeAt f.name (.ofNat k) = .ok c := by
  simp only [changeAt, RuleFamily.ofName?_name, changes_of_result hs, bind, Except.bind, hc]
  rfl

theorem changeAt_of_outside (hs : s.result? = some found) {f : RuleFamily} {index : Int}
    (h : index < 0 ∨ (found.changes f).length ≤ index) :
    s.changeAt f.name index = .error (.outOfRange f index (found.changes f).length) := by
  simp only [changeAt, RuleFamily.ofName?_name, changes_of_result hs, bind, Except.bind]
  cases index with
  | ofNat k =>
    have hlength : (found.changes f).length ≤ k := by
      rcases h with h | h
      · exact absurd h (Int.not_lt.2 (Int.natCast_nonneg k))
      · exact Int.ofNat_le.1 h
    simp only [List.getElem?_eq_none hlength]
    rfl
  | negSucc k => rfl

/-- A change that is given by its number is one that was found. -/
theorem mem_of_changeAt {family : String} {index : Int} {c : Change}
    (h : s.changeAt family index = .ok c) :
    ∃ found f, s.result? = some found ∧ c ∈ found.changes f := by
  unfold changeAt at h
  split at h
  · cases h
  rename_i f _
  obtain ⟨changes, hchanges, h⟩ := bind_eq_ok.1 h
  obtain ⟨found, hfound, rfl⟩ := exists_result hchanges
  refine ⟨found, f, hfound, ?_⟩
  split at h
  · split at h
    · cases h
      rename_i hc
      exact List.mem_of_getElem? hc
    · cases h
  · cases h

theorem result_of_closed (hs : s.result? = none) : s.result = .error .closed := by
  rw [result, hs]

theorem close_of_closed (hs : s.result? = none) : s.close = s := by
  cases s
  cases hs
  rfl

end Session

namespace Sessions

variable {t t₀ : Sessions} {i : Nat} {r : Request} {s : Session} {name : String} {c : Change}
  {found : Differences}

theorem mem_of_held? (h : t.held? name = some c) : (name, c) ∈ t.held := by
  obtain ⟨⟨n, c'⟩, hp, rfl⟩ := Option.map_eq_some_iff.1 h
  obtain rfl : n = name := by simpa using List.find?_some hp
  exact List.mem_of_find?_eq_some hp

/-- A change that is given is one that was found, or a copy of one that is held. -/
theorem given_cases (h : t.replyOf s r = .ok (.change c)) :
    (∃ found f, s.result? = some found ∧ c ∈ found.changes f) ∨ ∃ p ∈ t.held, p.2 = c := by
  have hsaid {α : Type} {reply : α → Reply} {x : Except SessionError α}
      (hx : said reply x = .ok (.change c)) : ∃ a, x = .ok a ∧ reply a = .change c := by
    cases x with
    | ok a => exact ⟨a, rfl, Except.ok.inj hx⟩
    | error e => cases hx
  have hheld {held : String} {f : Change → Except Refusal Reply}
      (hf : t.withHeld held f = .ok (.change c)) :
      ∃ c', (held, c') ∈ t.held ∧ f c' = .ok (.change c) := by
    unfold withHeld at hf
    split at hf
    · rename_i c' hc'
      exact ⟨c', mem_of_held? hc', hf⟩
    · cases hf
  have hshown (x : Except MissingDefault String) : shown x ≠ .ok (.change c) := by
    cases x <;> exact fun hx => by cases hx
  cases r with
  | change family index hold? =>
    obtain ⟨a, ha, hreply⟩ := hsaid h
    cases hreply
    exact .inl (Session.mem_of_changeAt ha)
  | copy held hold? =>
    obtain ⟨c', hmem, hcopy⟩ := hheld h
    obtain ⟨a, ha, hreply⟩ := hsaid hcopy
    obtain ⟨_, -, rfl⟩ := map_eq_ok.1 ha
    cases hreply
    exact .inr ⟨_, hmem, rfl⟩
  | render held =>
    obtain ⟨c', -, hline⟩ := hheld h
    split at hline
    · exact absurd hline (hshown _)
    · cases hline
  | line held =>
    obtain ⟨c', -, hline⟩ := hheld h
    exact absurd hline (hshown _)
  | changes | diagnostics | changesNamed | stats | enter | report =>
    obtain ⟨a, -, hreply⟩ := hsaid h
    cases hreply
  | isOpen | identities | leave | close => cases h

/-! ## Any number of requests -/

/-- Sessions come from others: some are closed, and what is held was found by the others. -/
structure Descends (t₀ t : Sessions) : Prop where
  all : ∀ (i : Nat) s, t.all[i]? = some s →
    ∃ s₀ : Session, t₀.all[i]? = some s₀ ∧ (s = s₀ ∨ s = s₀.close)
  held : ∀ p ∈ t.held, t₀.Found p.2

theorem Fresh.descends (h : t.Fresh) : t.Descends t where
  all _ s hs := ⟨s, hs, .inl rfl⟩
  held := by
    rw [h.held]
    simp

theorem Descends.next (h : t₀.Descends t) (i : Nat) (r : Request) : t₀.Descends (t.next i r) where
  all := by
    intro j s hs
    rw [getElem?_next] at hs
    split at hs
    · obtain ⟨s', hs', rfl⟩ := Option.map_eq_some_iff.1 hs
      obtain ⟨s₀, hs₀, hs'⟩ := h.all j s' hs'
      refine ⟨s₀, hs₀, .inr ?_⟩
      rcases hs' with rfl | rfl <;> rfl
    · exact h.all j s hs
  held := by
    rcases held_next t i r with hsame | ⟨s, name, c, hs, -, hreply, hheld⟩
    · rw [hsame]
      exact h.held
    · rw [hheld]
      refine List.forall_mem_cons.2 ⟨?_, h.held⟩
      rcases given_cases hreply with ⟨found, f, hfound, hc⟩ | ⟨p, hp, rfl⟩
      · obtain ⟨s₀, hs₀, hs⟩ := h.all i s hs
        rcases hs with rfl | rfl
        · exact ⟨s, List.mem_of_getElem? hs₀, found, f, hfound, hc⟩
        · cases hfound
      · exact h.held p hp

theorem Descends.after (h : t₀.Descends t) (requests : List (Nat × Request)) :
    t₀.Descends (t.after requests) := by
  induction requests generalizing t with
  | nil => exact h
  | cons r requests ih => exact ih (h.next r.1 r.2)

/-- After any requests a session is as it was, or closed if one of them has closed it. -/
theorem getElem?_after (t : Sessions) (requests : List (Nat × Request)) (i : Nat) :
    (t.after requests).all[i]? =
      if Closes i requests then t.all[i]?.map Session.close else t.all[i]? := by
  induction requests generalizing t with
  | nil => simp [after, Closes]
  | cons r requests ih =>
    change ((t.next r.1 r.2).after requests).all[i]? = _
    rw [ih, getElem?_next]
    have hcons : Closes i (r :: requests) ↔ (r.1 = i ∧ r.2.closes) ∨ Closes i requests := by
      simp [Closes]
    by_cases hr : r.1 = i ∧ r.2.closes
    · rw [if_pos hr, if_pos (hcons.2 (.inl hr))]
      split
      · rw [Option.map_map]
        rfl
      · rfl
    · rw [if_neg hr]
      have hrest : Closes i (r :: requests) ↔ Closes i requests := hcons.trans (or_iff_right hr)
      simp only [hrest]

theorem exists_session_after (requests : List (Nat × Request)) (h : ∃ s, t.all[i]? = some s) :
    ∃ s, (t.after requests).all[i]? = some s := by
  obtain ⟨s, hs⟩ := h
  rw [getElem?_after, hs]
  split
  · exact ⟨_, rfl⟩
  · exact ⟨_, rfl⟩

/-- A change that is given is held, if it was asked for under a name. -/
theorem held?_of_given (hname : r.hold? = some name) (h : t.answer i r = .ok (.change c)) :
    (t.next i r).held? name = some c := by
  cases hs : t.all[i]? with
  | none =>
    rw [answer, step_of_none hs] at h
    cases h
  | some s =>
    rw [answer_eq hs] at h
    have hkept : (t.next i r).held = (name, c) :: t.held := by
      rw [next_eq hs, h, keep, hname]
      split <;> rfl
    rw [held?, hkept, List.find?_cons_of_pos (by simp)]
    rfl

theorem held?_next (hname : r.hold? ≠ some name) : (t.next i r).held? name = t.held? name := by
  unfold held?
  rcases held_next t i r with hsame | ⟨s, name', c, -, hhold, -, hheld⟩
  · rw [hsame]
  · have hne : name' ≠ name := by
      rintro rfl
      exact hname hhold
    rw [hheld, List.find?_cons_of_neg (by simpa using hne)]

/-- A change is held until another one is held under its name. -/
theorem held?_after {requests : List (Nat × Request)}
    (hname : ∀ r ∈ requests, r.2.hold? ≠ some name) :
    (t.after requests).held? name = t.held? name := by
  induction requests generalizing t with
  | nil => rfl
  | cons r requests ih =>
    obtain ⟨hr, hrest⟩ := List.forall_mem_cons.1 hname
    exact (ih hrest).trans (held?_next hr)

/-! ## Open and closed sessions -/

/-- The session of a number answers with what its comparison found. -/
structure Serves (t : Sessions) (i : Nat) (s : Session) (found : Differences) : Prop where
  isOpen : t.answer i .isOpen = .ok (.flag true)
  changes : ∀ f, t.answer i (.changes f) = .ok (.changes (found.changes f))
  diagnostics : t.answer i .diagnostics = .ok (.diagnostics found.diagnostics)
  changesNamed : ∀ f, t.answer i (.changesNamed f.name) = .ok (.changes (found.changes f))
  stats : ∀ f, t.answer i (.stats f.name) = .ok (.stats (countForms (found.changes f)))
  change : ∀ f k c hold?, (found.changes f)[k]? = some c →
    t.answer i (.change f.name (.ofNat k) hold?) = .ok (.change c)
  outOfRange : ∀ f (index : Int) hold?, index < 0 ∨ (found.changes f).length ≤ index →
    t.answer i (.change f.name index hold?) =
      .error (.session (.outOfRange f index (found.changes f).length))
  report : ∃ r, Report.ofSession s = .ok r ∧ t.answer i .report = .ok (.report r)
  enter : t.answer i .enter = .ok (.flag true)
  copy : ∀ name c hold?, t.held? name = some c → t.answer i (.copy name hold?) = .ok (.change c)
  render : ∀ name c line, t.held? name = some c → c.render = .ok line →
    t.answer i (.render name) = .ok (.line line)

/-- The session of a number is closed: it answers nothing, and closing it again does no harm. -/
structure Refuses (t : Sessions) (i : Nat) : Prop where
  isOpen : t.answer i .isOpen = .ok (.flag false)
  changes : ∀ f, t.answer i (.changes f) = .error (.session .closed)
  diagnostics : t.answer i .diagnostics = .error (.session .closed)
  changesNamed : ∀ f : RuleFamily, t.answer i (.changesNamed f.name) = .error (.session .closed)
  stats : ∀ f : RuleFamily, t.answer i (.stats f.name) = .error (.session .closed)
  change : ∀ (f : RuleFamily) index hold?,
    t.answer i (.change f.name index hold?) = .error (.session .closed)
  report : t.answer i .report = .error (.session .closed)
  enter : t.answer i .enter = .error (.session .closed)
  copy : ∀ name c hold?, t.held? name = some c →
    t.answer i (.copy name hold?) = .error (.session .closed)
  render : ∀ name c, t.held? name = some c → t.answer i (.render name) = .error (.session .closed)
  closes : ∀ r : Request, r.closes → t.answer i r = .ok (.flag false) ∧ t.next i r = t

/-- A name of no family is an error of its own. -/
def Rejects (t : Sessions) (i : Nat) : Prop :=
  ∀ family, RuleFamily.ofName? family = none →
    t.answer i (.changesNamed family) = .error (.session (.unknownFamily family)) ∧
    t.answer i (.stats family) = .error (.session (.unknownFamily family)) ∧
    ∀ index hold?,
      t.answer i (.change family index hold?) = .error (.session (.unknownFamily family))

theorem serves_of_open (hs : t.all[i]? = some s) (hfound : s.result? = some found) :
    t.Serves i s found := by
  have hanswer (r : Request) : t.answer i r = t.replyOf s r := answer_eq hs
  have hresult : s.result = .ok found := by rw [Session.result, hfound]
  have hchanges (f : RuleFamily) := Session.changes_of_result hfound f
  have hnamed (f : RuleFamily) : s.changesNamed f.name = .ok (found.changes f) := by
    simp only [Session.changesNamed, RuleFamily.ofName?_name, hchanges]
  have hheld {name : String} {c : Change} (hc : t.held? name = some c)
      (f : Change → Except Refusal Reply) : t.withHeld name f = f c := by
    rw [withHeld, hc]
  constructor
  · rw [hanswer, replyOf, Session.isOpen, hfound]
    rfl
  · intro f
    rw [hanswer, replyOf, hchanges]
    rfl
  · rw [hanswer, replyOf, Session.diagnostics, hresult]
    rfl
  · intro f
    rw [hanswer, replyOf, hnamed]
    rfl
  · intro f
    rw [hanswer, replyOf, Session.stats, hnamed]
    rfl
  · intro f k c hold? hc
    rw [hanswer, replyOf, Session.changeAt_of_getElem? hfound hc]
    rfl
  · intro f index hold? hindex
    rw [hanswer, replyOf, Session.changeAt_of_outside hfound hindex]
    rfl
  · obtain ⟨r, hr⟩ : ∃ r, Report.ofSession s = .ok r := by
      rw [Report.ofSession, hresult]
      exact ⟨_, rfl⟩
    refine ⟨r, hr, ?_⟩
    rw [hanswer, replyOf, hr]
    rfl
  · rw [hanswer, replyOf, Session.enter, hresult]
    rfl
  · intro name c hold? hc
    rw [hanswer, replyOf, hheld hc, Session.materialize, hresult]
    rfl
  · intro name c line hc hline
    rw [hanswer, replyOf, hheld hc, Session.render, hresult]
    simp only [Except.map, hline]
    rfl

theorem closeAt_of_closed (hs : t.all[i]? = some s) (hclosed : s.result? = none) :
    t.closeAt i = t := by
  have hall : t.all.modify i Session.close = t.all := by
    apply List.ext_getElem?
    intro j
    rw [List.getElem?_modify]
    split
    · subst j
      rw [hs]
      exact congrArg some (Session.close_of_closed hclosed)
    · simp
  rw [closeAt, hall]

theorem refuses_of_closed (hs : t.all[i]? = some s) (hclosed : s.result? = none) :
    t.Refuses i := by
  have hanswer (r : Request) : t.answer i r = t.replyOf s r := answer_eq hs
  have hresult := Session.result_of_closed hclosed
  have hchanges (f : RuleFamily) : s.changes f = .error .closed := by
    rw [Session.changes, hresult]
    rfl
  have hnamed (f : RuleFamily) : s.changesNamed f.name = .error .closed := by
    simp only [Session.changesNamed, RuleFamily.ofName?_name, hchanges]
  have hheld {name : String} {c : Change} (hc : t.held? name = some c)
      (f : Change → Except Refusal Reply) : t.withHeld name f = f c := by
    rw [withHeld, hc]
  constructor
  · rw [hanswer, replyOf, Session.isOpen, hclosed]
    rfl
  · intro f
    rw [hanswer, replyOf, hchanges]
    rfl
  · rw [hanswer, replyOf, Session.diagnostics, hresult]
    rfl
  · intro f
    rw [hanswer, replyOf, hnamed]
    rfl
  · intro f
    rw [hanswer, replyOf, Session.stats, hnamed]
    rfl
  · intro f index hold?
    rw [hanswer, replyOf, Session.changeAt]
    simp only [RuleFamily.ofName?_name, hchanges]
    rfl
  · rw [hanswer, replyOf, Report.ofSession, hresult]
    rfl
  · rw [hanswer, replyOf, Session.enter, hresult]
    rfl
  · intro name c hold? hc
    rw [hanswer, replyOf, hheld hc, Session.materialize, hresult]
    rfl
  · intro name c hc
    rw [hanswer, replyOf, hheld hc, Session.render, hresult]
    rfl
  · intro r hr
    have hkept : t.answer i r = .ok (.flag false) ∧ t.keep r (t.replyOf s r) = t := by
      rw [hanswer]
      cases r with
      | leave | close => exact ⟨rfl, rfl⟩
      | _ => cases hr
    refine ⟨hkept.1, ?_⟩
    rw [next_eq hs, if_pos hr, hkept.2, closeAt_of_closed hs hclosed]

theorem rejects_of_session (hs : t.all[i]? = some s) : t.Rejects i := by
  intro family hfamily
  have hanswer (r : Request) : t.answer i r = t.replyOf s r := answer_eq hs
  have hnamed : s.changesNamed family = .error (.unknownFamily family) := by
    simp only [Session.changesNamed, hfamily]
  refine ⟨?_, ?_, ?_⟩
  · rw [hanswer, replyOf, hnamed]
    rfl
  · rw [hanswer, replyOf, Session.stats, hnamed]
    rfl
  · intro index hold?
    rw [hanswer, replyOf, Session.changeAt]
    simp only [hfamily]
    rfl

/-- A held change has its line without an open session. -/
theorem answer_line {line : String} (hs : t.all[i]? = some s) (hc : t.held? name = some c)
    (hline : c.render = .ok line) : t.answer i (.line name) = .ok (.line line) := by
  rw [answer_eq hs, replyOf, withHeld, hc]
  simp only [hline]
  rfl

/-- Whatever has been asked of sessions before: one that was built answers with what its comparison
found unless it has been closed; one that has been closed, or was not built, is closed for good; and
a change that is held is one that was found, is held until another takes its name, and has a line
that needs no session. -/
theorem lifecycle (h : t.Fresh) (requests : List (Nat × Request)) :
    (∀ i s, t.all[i]? = some s →
      (∀ found, s.result? = some found → ¬Closes i requests →
        (t.after requests).Serves i s found) ∧
      (s.result? = none ∨ Closes i requests → (t.after requests).Refuses i) ∧
      (t.after requests).Rejects i) ∧
    (∀ i r name c, r.hold? = some name → (t.after requests).answer i r = .ok (.change c) →
      ((t.after requests).next i r).held? name = some c) ∧
    ∀ name c, (t.after requests).held? name = some c → t.Found c ∧ ∃ line, c.render = .ok line ∧
      ∀ later, (∀ r ∈ later, r.2.hold? ≠ some name) →
        ((t.after requests).after later).held? name = some c ∧
        ∀ i < t.all.length,
          ((t.after requests).after later).answer i (.line name) = .ok (.line line) := by
  have hget (requests : List (Nat × Request)) (i : Nat) := getElem?_after t requests i
  refine ⟨?_, ?_, ?_⟩
  · intro i s hs
    obtain ⟨s', hs'⟩ := exists_session_after requests ⟨s, hs⟩
    refine ⟨?_, ?_, rejects_of_session hs'⟩
    · intro found hfound hopen
      rw [hget, if_neg hopen, hs] at hs'
      obtain rfl := Option.some.inj hs'
      refine serves_of_open ?_ hfound
      rw [hget, if_neg hopen, hs]
    · intro hclosed
      apply refuses_of_closed hs'
      rw [hget, hs] at hs'
      split at hs'
      · obtain rfl := Option.some.inj hs'
        rfl
      · rename_i hopen
        obtain rfl := Option.some.inj hs'
        exact hclosed.resolve_right hopen
  · intro i r name c hname hgiven
    exact held?_of_given hname hgiven
  · intro name c hc
    have hfound : t.Found c := (h.descends.after requests).held _ (mem_of_held? hc)
    obtain ⟨line, hline⟩ := h.exists_line hfound
    refine ⟨hfound, line, hline, ?_⟩
    intro later hlater
    have hheld : ((t.after requests).after later).held? name = some c :=
      (held?_after hlater).trans hc
    refine ⟨hheld, ?_⟩
    intro i hi
    obtain ⟨s, hs⟩ := exists_session_after later (exists_session_after requests
      ⟨_, List.getElem?_eq_getElem hi⟩)
    exact answer_line hs hheld hline

end Sessions

/-- A session that gives a change and is then closed, beside one that was never built. -/
theorem Sessions.lifecycle_sample : ∃ s found c,
    (Session.build Sample.before Sample.after Sample.delta 2).1 = .ok s ∧
    s.result? = some found ∧ found.avChanges[0]? = some c ∧
    let t : Sessions := ⟨[s, .unbuilt Sample.before Sample.after Sample.delta], []⟩
    let asked : List (Nat × Request) := [(1, .report), (0, .change "av" (.ofNat 0) (some "first"))]
    t.Fresh ∧ (t.after asked).Serves 0 s found ∧ (t.after asked).Refuses 1 ∧
      (t.after (asked ++ [(0, .leave)])).Refuses 0 ∧
      (t.after (asked ++ [(0, .leave)])).held? "first" = some c := by
  obtain ⟨s, hs, hforms, -⟩ := Sample.exists_session
  obtain ⟨changes, hchanges, hforms⟩ := exists_ok_of_map hforms
  obtain ⟨found, hfound, rfl⟩ := Session.exists_result hchanges
  obtain ⟨c, rest, hc, -⟩ := List.map_eq_cons_iff.1 hforms
  have hfirst : (found.changes .av)[0]? = some c := by rw [hc]; rfl
  let t : Sessions := ⟨[s, .unbuilt Sample.before Sample.after Sample.delta], []⟩
  have hfresh : t.Fresh := by
    refine ⟨?_, rfl⟩
    intro s' hs'
    simp only [t, List.mem_cons, List.not_mem_nil, or_false] at hs'
    rcases hs' with rfl | rfl
    · exact .inr ⟨_, _, _, _, hs⟩
    · exact .inl rfl
  -- The change is given after the request to the other session.
  have hgiven := ((lifecycle hfresh [(1, .report)]).1 0 s rfl).1 found hfound (by decide)
  have hheld := (lifecycle hfresh [(1, .report)]).2.1 0 _ "first" c rfl
    (hgiven.change .av 0 c (some "first") hfirst)
  obtain ⟨hsessions, -, hkept⟩ :=
    lifecycle hfresh [(1, .report), (0, .change "av" (.ofNat 0) (some "first"))]
  obtain ⟨-, _, -, hlater⟩ := hkept "first" c hheld
  refine ⟨s, found, c, hs, hfound, hfirst, hfresh, (hsessions 0 s rfl).1 found hfound (by decide),
    (hsessions 1 _ rfl).2.1 (.inl rfl), ?_, (hlater [(0, .leave)] (by decide)).1⟩
  exact ((lifecycle hfresh _).1 0 s rfl).2.1 (.inr (by decide))

end PolicyDelta
