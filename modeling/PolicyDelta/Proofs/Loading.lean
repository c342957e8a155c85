import PolicyDelta.Program
import PolicyDelta.Proofs.Outcome

/-! What a run loads. Up to the report a run only reads files, so it comes to what they give, one
after the other: the two policies, the difference of their types and the session
(`Program.sessionIn`). Until then nothing is written. -/

namespace PolicyDelta.Program

open CommandLine

variable {reader : Reader} {d : Directory} {i : Invocation} {α β : Type}

/-! ## What the files of a directory give -/

/-- The content at a path, decompressed if it has to be. -/
def contentIn (d : Directory) (path : String) : Except RunFailure ByteArray := do
  let file ← (d.read path).mapError .unreadable
  (PolicyFile.unpack file).mapError .unusable

/-- The policy in content of a known format; a compiled policy is read anew. -/
def policyOf (reader : Reader) (d : Directory) (path : String) (content : ByteArray) :
    PolicyFile.Format → Except RunFailure Policy
  | .json => (PolicyFile.policyOfContent content).mapError .unusable
  | .binary => (reader d path).mapError .unusable

/-- The policy at a path. -/
def policyIn (reader : Reader) (d : Directory) : Given String → Except RunFailure Policy
  | .nothing => .error (.lacking .path)
  | .value path => do
    let content ← contentIn d path
    policyOf reader d path content (← (PolicyFile.detect content).mapError .unusable)

/-- The difference of types at a path, or else that between the policies. -/
def typeDeltaIn (d : Directory) (base modified : Policy) :
    Option (Given String) → Except RunFailure TypeDelta
  | some (.value path) => do
    let content ← contentIn d path
    (PolicyFile.typeDeltaOfContent content).mapError .unusable
  | some .nothing | none => .ok (.between base modified ∅)

/-- What the building of a session comes to. Without a number of workers it fails where the first
index would be built, which an unknown name in the difference of types prevents. -/
def built (base modified : Policy) (delta : TypeDelta) :
    Given Int → Except RunFailure (Except UnknownIdentifier Session)
  | .value workers => .ok (Session.build base modified delta workers).1
  | .nothing =>
    match Equivalence.make base.scope modified.scope delta with
    | .error e => .ok (.error e)
    | .ok _ => .error (.lacking .workers)

/-- The session that a command line asks for. -/
def sessionIn (reader : Reader) (d : Directory) (i : Invocation) :
    Except RunFailure (Except UnknownIdentifier Session) := do
  let base ← policyIn reader d i.base
  let modified ← policyIn reader d i.modified
  let delta ← typeDeltaIn d base modified i.options.typeDelta
  built base modified delta i.options.workers

/-- The policies of a command line and the difference of their types load. -/
structure Loads (reader : Reader) (d : Directory) (i : Invocation) (base modified : Policy)
    (delta : TypeDelta) : Prop where
  base_eq : policyIn reader d i.base = .ok base
  modified_eq : policyIn reader d i.modified = .ok modified
  delta_eq : typeDeltaIn d base modified i.options.typeDelta = .ok delta

theorem sessionIn_of_loads {base modified : Policy} {delta : TypeDelta}
    (h : Loads reader d i base modified delta) :
    sessionIn reader d i = built base modified delta i.options.workers := by
  unfold sessionIn
  rw [h.base_eq]
  change (policyIn reader d i.modified >>= _) = _
  rw [h.modified_eq]
  change (typeDeltaIn d base modified i.options.typeDelta >>= _) = _
  rw [h.delta_eq]
  rfl

theorem sessionIn_eq_ok {x : Except UnknownIdentifier Session} :
    sessionIn reader d i = .ok x ↔ ∃ base modified delta, Loads reader d i base modified delta ∧
      built base modified delta i.options.workers = .ok x := by
  constructor
  · intro h
    obtain ⟨base, hbase, h⟩ := bind_eq_ok.1 h
    obtain ⟨modified, hmodified, h⟩ := bind_eq_ok.1 h
    obtain ⟨delta, hdelta, h⟩ := bind_eq_ok.1 h
    exact ⟨base, modified, delta, ⟨hbase, hmodified, hdelta⟩, h⟩
  · rintro ⟨base, modified, delta, hloads, h⟩
    exact (sessionIn_of_loads hloads).trans h

/-! ## Reading -/

theorem run_bind_ok {x : RunM (StateM Directory) α} {f : α → RunM (StateM Directory) β} {a : α}
    {t t' : Told} {after : Directory} (h : (x.run.run t).run d = ((.ok a, t'), after)) :
    ((x >>= f).run.run t).run d = ((f a).run.run t').run after := by
  rw [ExceptT.run_bind, StateT.run_bind, StateT.run_bind, h]
  rfl

theorem run_bind_error {x : RunM (StateM Directory) α} {f : α → RunM (StateM Directory) β}
    {e : RunFailure} {t t' : Told} {after : Directory}
    (h : (x.run.run t).run d = ((.error e, t'), after)) :
    ((x >>= f).run.run t).run d = ((.error e, t'), after) := by
  rw [ExceptT.run_bind, StateT.run_bind, StateT.run_bind, h]
  rfl

/-- A part of a run comes to an answer and changes nothing: it writes nothing, and the files stay as
they are. -/
def Quiet (d : Directory) (r : Except RunFailure α) (x : RunM (StateM Directory) α) : Prop :=
  ∀ t, ∃ events, (x.run.run t).run d = ((r, { t with events := events }), d)

namespace Quiet

variable {x : RunM (StateM Directory) α}

theorem pure (a : α) : Quiet d (.ok a) (pure a) :=
  fun t => ⟨t.events, rfl⟩

theorem throw (e : RunFailure) : Quiet (α := α) d (.error e) (throw e) :=
  fun t => ⟨t.events, rfl⟩

theorem tell (events : List Event) : Quiet d (.ok ()) (tell events) :=
  fun t => ⟨t.events ++ events, rfl⟩

theorem ofExcept {ε : Type} (failure : ε → RunFailure) (r : Except ε α) :
    Quiet d (r.mapError failure) (ofExcept failure r) := by
  cases r with
  | ok a => exact pure a
  | error e => exact throw (failure e)

theorem bind {f : α → RunM (StateM Directory) β} {r : Except RunFailure α}
    {g : α → Except RunFailure β} (hx : Quiet d r x) (hf : ∀ a, Quiet d (g a) (f a)) :
    Quiet d (r >>= g) (x >>= f) := by
  intro t
  obtain ⟨events, hrun⟩ := hx t
  cases r with
  | error e => exact ⟨events, run_bind_error hrun⟩
  | ok a =>
    obtain ⟨events', hrun'⟩ := hf a { t with events := events }
    exact ⟨events', (run_bind_ok hrun).trans hrun'⟩

theorem read (d : Directory) (path : String) :
    Quiet d (.ok (d.read path)) (liftM (liftM (Directory.access.read path) :
      StateT Told (StateM Directory) (Except FileFailure ByteArray))) :=
  fun t => ⟨t.events, rfl⟩

theorem compiled (reader : Reader) (d : Directory) (path : String) :
    Quiet d (.ok (reader d path)) (liftM (liftM ((accessWith reader).compiled path) :
      StateT Told (StateM Directory) (Except PolicyFile.Failure Policy))) :=
  fun t => ⟨t.events, rfl⟩

end Quiet

theorem content_quiet (d : Directory) (path : String) :
    Quiet d (contentIn d path) (content Directory.access path) := by
  refine Quiet.bind (r := .ok (d.read path)) (g := fun r =>
    r.mapError .unreadable >>= fun file => (PolicyFile.unpack file).mapError .unusable)
    (.read d path) fun r => ?_
  exact (Quiet.ofExcept .unreadable r).bind fun file => .ofExcept .unusable _

theorem readPolicy_quiet (reader : Reader) (d : Directory) (g : Given String) :
    Quiet d (policyIn reader d g) (need .path g >>= readPolicy (accessWith reader)) := by
  cases g with
  | nothing => exact .throw _
  | value path =>
    refine (content_quiet d path).bind fun content => ?_
    refine (Quiet.ofExcept .unusable _).bind fun format => ?_
    cases format with
    | json =>
      refine (Quiet.tell _).bind (g := fun _ => policyOf reader d path content .json) fun _ => ?_
      exact .ofExcept .unusable _
    | binary =>
      refine Quiet.bind (r := .ok (reader d path)) (g := fun r => r.mapError .unusable)
        (.compiled reader d path) fun r => ?_
      exact .ofExcept .unusable r

theorem typeDelta_quiet (d : Directory) (base modified : Policy) (g : Option (Given String)) :
    Quiet d (typeDeltaIn d base modified g) (typeDelta Directory.access base modified g) := by
  rcases g with _ | path | _
  · exact .pure _
  · refine (Quiet.tell _).bind (g := fun _ => typeDeltaIn d base modified (some (.value path)))
      fun _ => ?_
    exact (content_quiet d path).bind fun content => .ofExcept .unusable _
  · exact .pure _

theorem buildSession_quiet (d : Directory) (base modified : Policy) (delta : TypeDelta)
    (workers : Given Int) :
    Quiet d (built base modified delta workers) (buildSession base modified delta workers) := by
  cases workers with
  | value workers =>
    exact (Quiet.tell _).bind (g := fun _ => .ok _) fun _ => .pure _
  | nothing =>
    refine (Quiet.tell _).bind (g := fun _ => built base modified delta .nothing) fun _ => ?_
    unfold built
    dsimp only [Session.unbuilt]
    cases Equivalence.make base.scope modified.scope delta with
    | error e => exact .pure _
    | ok eq => exact .throw _

/-- Up to the report a run comes to what its files give and changes nothing. -/
theorem session_quiet (reader : Reader) (d : Directory) (i : Invocation) :
    Quiet d (sessionIn reader d i) (session (accessWith reader) i) := by
  have hsession : session (accessWith reader) i =
      (need .path i.base >>= readPolicy (accessWith reader)) >>= fun base =>
        (need .path i.modified >>= readPolicy (accessWith reader)) >>= fun modified =>
          typeDelta Directory.access base modified i.options.typeDelta >>= fun delta =>
            buildSession base modified delta i.options.workers := by
    simp only [session, bind_assoc]
    rfl
  rw [hsession]
  refine (readPolicy_quiet reader d i.base).bind fun base => ?_
  refine (readPolicy_quiet reader d i.modified).bind fun modified => ?_
  refine (typeDelta_quiet d base modified _).bind fun delta => ?_
  exact buildSession_quiet d base modified delta _

end PolicyDelta.Program
