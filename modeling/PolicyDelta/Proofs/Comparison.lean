import PolicyDelta.Session
import PolicyDelta.Proofs.Rows

/-! Building a session is comparing two policies in one pass. `Session.compared` compares without
workers and with nothing remembered, and every session that is built has its result. A comparison
fails only at a renaming or at a rule that cannot be read, so `Session.scanned`, which only looks
names up, tells when it does. `Session.Built` says what a session that is built holds. -/

namespace PolicyDelta

/-- The correspondence of two policies by a difference of their types. -/
def Equivalence.ofDelta (base modified : Policy) (d : TypeDelta) : Equivalence :=
  ⟨base.scope, modified.scope, d.renames, d.conditionals⟩

namespace Session

variable {base modified : Policy} {d : TypeDelta} {workers : Int} {s : Session}

/-- The differences by the readings of all rules. -/
def differencesOf (eq : Equivalence) (d : TypeDelta) : Except UnknownIdentifier Differences := do
  let avBase ← RuleIndex.read eq .av .base
  let avModified ← RuleIndex.read eq .av .modified
  let teBase ← RuleIndex.read eq .te .base
  let teModified ← RuleIndex.read eq .te .modified
  let avChanges ← Classifier.changes ⟨avBase, avModified, eq, d⟩
  let teChanges ← Classifier.changes ⟨teBase, teModified, eq, d⟩
  pure ⟨avChanges, teChanges, avBase.conflicts ++ avModified.conflicts ++ teBase.conflicts ++
    teModified.conflicts⟩

/-- The differences of two policies, without workers and with nothing remembered. -/
def compared (base modified : Policy) (d : TypeDelta) : Except UnknownIdentifier Differences := do
  let eq ← Equivalence.make base.scope modified.scope d
  differencesOf eq d

/-- The rules of both policies, each with its side, in the order in which they are read. -/
def allRules (eq : Equivalence) : List (Side × Rule) :=
  RuleFamily.all.flatMap fun family => Side.all.flatMap fun side =>
    (eq.rules family side).map fun rule => (side, rule)

/-- Checks the renamings and then reads all rules, one after another. -/
def scanned (base modified : Policy) (d : TypeDelta) : Except UnknownIdentifier Unit := do
  let eq ← Equivalence.make base.scope modified.scope d
  (allRules eq).forM fun p => discard (eq.readRule p.1 p.2)

/-! ## Building yields the comparison -/

theorem eq_ofDelta_of_make {eq : Equivalence}
    (h : Equivalence.make base.scope modified.scope d = .ok eq) :
    eq = .ofDelta base modified d := by
  obtain ⟨_, -, h⟩ := bind_eq_ok.1 h
  exact (Except.ok.inj h).symm

theorem differences_yields (base modified : Policy) (d : TypeDelta) (workers : Int) :
    Scan.Yields (Equivalence.ofDelta base modified d).scope
      (differences base.scope modified.scope d workers) (compared base modified d) := by
  unfold differences compared differencesOf
  refine .tell_bind _ <| .ofExcept_bind fun eq heq => ?_
  obtain rfl := eq_ofDelta_of_make heq
  refine (RuleIndex.build_yields _ _ _ workers).bind fun avBase => ?_
  refine (RuleIndex.build_yields _ _ _ workers).bind fun avModified => ?_
  refine (RuleIndex.build_yields _ _ _ workers).bind fun teBase => ?_
  refine (RuleIndex.build_yields _ _ _ workers).bind fun teModified => ?_
  refine (Scan.Yields.telling (.ofExcept _) _).bind fun avChanges => ?_
  refine (Scan.Yields.telling (.ofExcept _) _).bind fun teChanges => ?_
  exact (Scan.Yields.forM_tell _ _).bind fun _ => .pure _

/-- The result of a session is the comparison, whatever the number of workers. -/
theorem build_eq_compared (base modified : Policy) (d : TypeDelta) (workers : Int) :
    (build base modified d workers).1 =
      (compared base modified d).map fun found =>
        { unbuilt base modified d with result? := some found } := by
  obtain ⟨w, hrun, -⟩ := differences_yields base modified d workers {}
    (Workspace.faithful_empty _)
  simp only [build, unbuilt, hrun]
  cases compared base modified d <;> rfl

/-! ## A comparison fails where a scan does -/

theorem forM_append {ε : Type} (f : α → Except ε Unit) (l l' : List α) :
    (l ++ l').forM f = l.forM f >>= fun _ => l'.forM f := by
  simp only [List.forM_eq_forM, List.forM_append]

/-- Reading the rules of a family on a side, as a part of the scan. -/
theorem read_unit (eq : Equivalence) (family : RuleFamily) (side : Side) :
    (fun _ => ()) <$> RuleIndex.read eq family side =
      ((eq.rules family side).map fun rule => (side, rule)).forM fun p =>
        discard (eq.readRule p.1 p.2) := by
  rw [RuleIndex.read, Functor.map_map]
  induction eq.rules family side with
  | nil => rfl
  | cons rule rules ih =>
    rw [List.map_cons, List.forM_eq_forM, List.forM_cons, ← List.forM_eq_forM, ← ih,
      List.mapM_cons]
    dsimp only
    cases eq.readRule side rule with
    | error e => rfl
    | ok r => cases rules.mapM (eq.readRule side) <;> rfl

/-- A classifier of indexes of rules finds all changes. -/
theorem exists_changes {eq : Equivalence} {family : RuleFamily} {ix ix' : RuleIndex}
    (h : RuleIndex.read eq family .base = .ok ix)
    (h' : RuleIndex.read eq family .modified = .ok ix') (d : TypeDelta) :
    ∃ changes, Classifier.changes ⟨ix, ix', eq, d⟩ = .ok changes := by
  have hready : Classifier.Ready ⟨ix, ix', eq, d⟩ family :=
    ⟨RuleIndex.indexes_of_read h, RuleIndex.indexes_of_read h'⟩
  obtain ⟨changes, hchanges, -⟩ := hready.changes_spec
  exact ⟨changes, hchanges⟩

theorem unit_bind {ε α β : Type} {x : Except ε α} {f : α → Except ε β} {m : Except ε Unit}
    (h : ∀ a, x = .ok a → (fun _ => ()) <$> f a = m) :
    (fun _ => ()) <$> (x >>= f) = (fun _ => ()) <$> x >>= fun _ => m := by
  cases x with
  | error e => rfl
  | ok a => exact h a rfl

/-- With the renamings checked, a comparison fails exactly at the first rule that cannot be read. -/
theorem differencesOf_unit (eq : Equivalence) (d : TypeDelta) :
    (fun _ => ()) <$> differencesOf eq d =
      (allRules eq).forM fun p => discard (eq.readRule p.1 p.2) := by
  have hall : allRules eq = (eq.rules .av .base).map (fun rule => (Side.base, rule)) ++
      ((eq.rules .av .modified).map (fun rule => (Side.modified, rule)) ++
      ((eq.rules .te .base).map (fun rule => (Side.base, rule)) ++
      (eq.rules .te .modified).map (fun rule => (Side.modified, rule)))) := by
    simp [allRules, RuleFamily.all, Side.all]
  rw [hall, forM_append, forM_append, forM_append]
  simp only [← read_unit]
  refine unit_bind fun avBase havBase => ?_
  refine unit_bind fun avModified havModified => ?_
  refine unit_bind fun teBase hteBase => ?_
  obtain ⟨avChanges, hav⟩ := exists_changes havBase havModified d
  cases hteModified : RuleIndex.read eq .te .modified with
  | error e => rfl
  | ok teModified =>
    obtain ⟨teChanges, hte⟩ := exists_changes hteBase hteModified d
    simp only [bind, Except.bind, hav, hte]
    rfl

theorem compared_unit (base modified : Policy) (d : TypeDelta) :
    (fun _ => ()) <$> compared base modified d = scanned base modified d := by
  unfold compared scanned
  cases Equivalence.make base.scope modified.scope d with
  | error e => rfl
  | ok eq => exact differencesOf_unit eq d

/-- The number of workers does not matter. Building a session has one outcome, and it fails where a
scan of the renamings and of all rules, one after another, fails first, with the same failure. -/
theorem build_workers (base modified : Policy) (d : TypeDelta) (workers workers' : Int) :
    (build base modified d workers).1 = (build base modified d workers').1 ∧
      (fun _ => ()) <$> (build base modified d workers).1 = scanned base modified d := by
  refine ⟨?_, ?_⟩
  · rw [build_eq_compared, build_eq_compared]
  · rw [build_eq_compared, ← compared_unit]
    cases compared base modified d <;> rfl

/-! ## What a session holds -/

section

variable {found : Differences}

theorem changes_of_result (hs : s.result? = some found) (f : RuleFamily) :
    s.changes f = .ok (found.changes f) := by
  rw [changes, result, hs]
  rfl

theorem exists_result {f : RuleFamily} {changes : List Change} (h : s.changes f = .ok changes) :
    ∃ found, s.result? = some found ∧ found.changes f = changes := by
  obtain ⟨found, hfound, hchanges⟩ := map_eq_ok.1 h
  refine ⟨found, ?_, hchanges⟩
  unfold result at hfound
  split at hfound
  · cases hfound
    assumption
  · cases hfound

end

/-- The classifier of the indexes of a family. -/
def classifierOf (eq : Equivalence) (d : TypeDelta) (index : RuleFamily → Side → RuleIndex)
    (family : RuleFamily) : Classifier :=
  ⟨index family .base, index family .modified, eq, d⟩

/-- A session answers from the indexes of the rules of both families on both sides: the changes of
a family are those of its table, the diagnostics are those of all indexes. -/
structure Built (base modified : Policy) (d : TypeDelta) (s : Session)
    (index : RuleFamily → Side → RuleIndex) : Prop where
  renames : Equivalence.checkRenames base.scope modified.scope d.renames.pairs = .ok ()
  indexes : ∀ family side,
    (index family side).Indexes (.ofDelta base modified d) family side
  changes : ∀ family, ∃ changes, s.changes family = .ok changes ∧
    ∀ k, ∃ found : Option Change, changes.filter (·.key = k) = found.toList ∧
      (classifierOf (.ofDelta base modified d) d index family).Row k
        ((index family .base).get? k) ((index family .modified).get? k) found
  diagnostics : s.diagnostics = .ok ((index .av .base).conflicts ++
    (index .av .modified).conflicts ++ (index .te .base).conflicts ++
      (index .te .modified).conflicts)
  classified : ∀ family changes, s.changes family = .ok changes →
    (classifierOf (.ofDelta base modified d) d index family).changes = .ok changes

theorem classifierOf_ready {index : RuleFamily → Side → RuleIndex} (h : ∀ family side,
    (index family side).Indexes (.ofDelta base modified d) family side) (family : RuleFamily) :
    (classifierOf (.ofDelta base modified d) d index family).Ready family :=
  ⟨h family .base, h family .modified⟩

theorem Built.row_of_mem {index : RuleFamily → Side → RuleIndex}
    (h : Built base modified d s index) {family : RuleFamily} {changes : List Change}
    (hchanges : s.changes family = .ok changes) {c : Change} (hc : c ∈ changes) :
    (classifierOf (.ofDelta base modified d) d index family).Row c.key
      ((index family .base).get? c.key) ((index family .modified).get? c.key) (some c) :=
  (classifierOf_ready h.indexes family).row_of_mem (h.classified family changes hchanges) hc

theorem exists_result_of_build (h : (build base modified d workers).1 = .ok s) :
    ∃ found, s.result? = some found := by
  rw [build_eq_compared] at h
  obtain ⟨found, -, rfl⟩ := map_eq_ok.1 h
  exact ⟨found, rfl⟩

theorem exists_built (h : (build base modified d workers).1 = .ok s) :
    ∃ index, Built base modified d s index := by
  rw [build_eq_compared] at h
  cases hcompared : compared base modified d with
  | error e => simp [hcompared, Except.map] at h
  | ok found =>
    rw [hcompared] at h
    cases h
    obtain ⟨eq, heq, h⟩ := bind_eq_ok.1 hcompared
    obtain ⟨_, hrenames, -⟩ := bind_eq_ok.1 heq
    obtain rfl := eq_ofDelta_of_make heq
    obtain ⟨avBase, havBase, h⟩ := bind_eq_ok.1 h
    obtain ⟨avModified, havModified, h⟩ := bind_eq_ok.1 h
    obtain ⟨teBase, hteBase, h⟩ := bind_eq_ok.1 h
    obtain ⟨teModified, hteModified, h⟩ := bind_eq_ok.1 h
    obtain ⟨avChanges, hav, h⟩ := bind_eq_ok.1 h
    obtain ⟨teChanges, hte, h⟩ := bind_eq_ok.1 h
    cases h
    -- The session's indexes are those that one pass reads.
    let index : RuleFamily → Side → RuleIndex
      | .av, .base => avBase
      | .av, .modified => avModified
      | .te, .base => teBase
      | .te, .modified => teModified
    have hindex : ∀ family side, (index family side).Indexes (.ofDelta base modified d) family side
      | .av, .base => RuleIndex.indexes_of_read havBase
      | .av, .modified => RuleIndex.indexes_of_read havModified
      | .te, .base => RuleIndex.indexes_of_read hteBase
      | .te, .modified => RuleIndex.indexes_of_read hteModified
    refine ⟨index, hrenames, hindex, fun family => ?_, rfl, fun family changes hchanges => ?_⟩
    · obtain ⟨changes, hchanges, hrow⟩ := (classifierOf_ready hindex family).changes_spec
      refine ⟨changes, ?_, hrow⟩
      cases family with
      | av => cases hav.symm.trans hchanges; rfl
      | te => cases hte.symm.trans hchanges; rfl
    · cases family with
      | av => cases hchanges; exact hav
      | te => cases hchanges; exact hte

end Session

/-! ## Two small policies -/

namespace Sample

/-- A program reads all files; the default types of its log are in conflict. -/
def before : Policy where
  identity := some "before"
  types := .ofList ["app", "log", "tmp"]
  aliases := .ofList [("journal", "log")]
  attributes := .ofList [("file", (.ofList ["log", "tmp"] : NameSet))]
  avRules := [
    { source := "app", target := "file", objectClass := "file", flavor := .allow
      perms := .ofList ["read"] },
    { source := "app", target := "journal", objectClass := "file", flavor := .allow
      perms := .ofList ["append"] }]
  teRules := [
    { source := "app", target := "file", objectClass := "file", flavor := .typeTransition
      default := "tmp" },
    { source := "app", target := "log", objectClass := "file", flavor := .typeTransition
      default := "journal" }]

/-- There is another file, the log is only read, and the program starts processes. -/
def after : Policy where
  identity := some "after"
  types := .ofList ["app", "cache", "log", "tmp"]
  attributes := .ofList [("file", (.ofList ["cache", "log", "tmp"] : NameSet))]
  avRules := [
    { source := "app", target := "file", objectClass := "file", flavor := .allow
      perms := .ofList ["read"] },
    { source := "app", target := "self", objectClass := "process", flavor := .allow
      perms := .ofList ["fork"] }]
  teRules := [
    { source := "app", target := "file", objectClass := "file", flavor := .typeTransition
      default := "tmp" }]

/-- The difference of the types of both policies. -/
def delta : TypeDelta := .between before after ∅

/-- The forms of the changes of a family. -/
def forms (family : RuleFamily) (s : Session) : Option (List ChangeForm) :=
  (s.changes family).toOption.map fun changes => changes.map (·.form)

/-- There is a session, with these changes. -/
theorem exists_session : ∃ s, (Session.build before after delta 2).1 = .ok s ∧
    forms .av s = some [.addType, .modified, .added] ∧
    forms .te s = some [.addType, .modified] := by
  have hforms : (Session.build before after delta 2).1.toOption.map
      (fun s => (forms .av s, forms .te s)) =
        some (some [.addType, .modified, .added], some [.addType, .modified]) := by
    decide +kernel
  obtain ⟨s, hs, hforms⟩ := exists_ok_of_map hforms
  obtain ⟨hav, hte⟩ := Prod.mk.inj hforms
  exact ⟨s, hs, hav, hte⟩

/-- The program is allowed something on the files of a name. -/
def allowApp (target : String) (perms : List String) : AvRule :=
  { source := "app", target, objectClass := "file", flavor := .allow, perms := .ofList perms }

/-- What the program creates beside its log is of a type. -/
def defaultOfLog (type : String) : TeRule :=
  { source := "app", target := "log", objectClass := "file", flavor := .typeTransition
    default := type }

/-! A file that moves from one attribute to another -/

/-- The log is a file. -/
def logInFile : Policy where
  identity := some "logInFile"
  types := .ofList ["app", "log", "tmp"]
  attributes := .ofList [("data", (.ofList ["tmp"] : NameSet)), ("file", .ofList ["log", "tmp"])]
  avRules := [allowApp "data" ["read"], allowApp "file" ["read"], allowApp "app" ["read"]]
  teRules := [defaultOfLog "log", defaultOfLog "tmp"]

/-- The log is data. -/
def logInData : Policy where
  identity := some "logInData"
  types := .ofList ["app", "log", "tmp"]
  attributes := .ofList [("data", (.ofList ["log", "tmp"] : NameSet)), ("file", .ofList ["tmp"])]
  avRules := [allowApp "data" ["read"], allowApp "file" ["read"]]
  teRules := [defaultOfLog "log"]

def moveDelta : TypeDelta := .between logInFile logInData ∅

end Sample

end PolicyDelta
