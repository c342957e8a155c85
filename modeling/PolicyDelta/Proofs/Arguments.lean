import PolicyDelta.CommandLine.Options
import PolicyDelta.Proofs.Files
import PolicyDelta.Proofs.Outcome

/-! What reading a command line does to files. A file for the report is created or emptied as soon
as its flag is met, and no other file is touched, also if the command line turns out to be wrong. In
the end the file that the report goes to is there and empty, whatever flags came before and after
the one that gave it. -/

namespace PolicyDelta.CommandLine

variable {α β : Type} {d : Directory} {o o' : Options}

/-- The file for the report, if a path is given for it, is there and empty. -/
def Options.Ready (o : Options) (d : Directory) : Prop :=
  ∀ path, o.output = some (.value path) → d.EmptyAt path

theorem Options.Ready.congr (h : o.Ready d) (houtput : o'.output = o.output) : o'.Ready d :=
  fun path hpath => h path (houtput.symm.trans hpath)

/-- Whichever way a computation ends, at most it has created or emptied files, and its answer is
right for the files that it leaves. -/
def Opens (d : Directory) (Q : α → Directory → Prop) (x : ExceptT Stop (StateM Directory) α) :
    Prop :=
  ∃ r after, x.run.run d = (r, after) ∧ d.Emptied after ∧ ∀ a, r = .ok a → Q a after

namespace Opens

variable {Q : α → Directory → Prop} {R : β → Directory → Prop}
  {x : ExceptT Stop (StateM Directory) α}

theorem ofExcept {r : Except Stop α} (h : ∀ a, r = .ok a → Q a d) :
    Opens d Q (ExceptT.mk (Pure.pure r)) :=
  ⟨r, d, rfl, .refl d, h⟩

theorem pure {a : α} (h : Q a d) : Opens d Q (pure a) := by
  apply ofExcept
  intro b hb
  cases hb
  exact h

theorem throw (s : Stop) : Opens d Q (throw s) := by
  apply ofExcept
  intro b hb
  cases hb

theorem lift {y : StateM Directory α} (hd : d.Emptied (y.run d).2)
    (h : Q (y.run d).1 (y.run d).2) : Opens d Q (liftM y) := by
  refine ⟨.ok (y.run d).1, (y.run d).2, rfl, hd, fun a ha => ?_⟩
  cases ha
  exact h

theorem bind {f : α → ExceptT Stop (StateM Directory) β} (hx : Opens d Q x)
    (hf : ∀ a after, Q a after → Opens after R (f a)) : Opens d R (x >>= f) := by
  obtain ⟨r, after, hrun, hafter, hanswer⟩ := hx
  cases r with
  | error s =>
    refine ⟨.error s, after, ?_, hafter, fun a ha => nomatch ha⟩
    rw [ExceptT.run_bind, StateT.run_bind, hrun]
    rfl
  | ok a =>
    obtain ⟨r, last, hrun', hlast, hright⟩ := hf a after (hanswer a rfl)
    refine ⟨r, last, ?_, hafter.trans hlast, hright⟩
    rw [ExceptT.run_bind, StateT.run_bind, hrun]
    exact hrun'

end Opens

/-! ## The options -/

/-- No flag but the one for the report's file changes what is known of that file. -/
theorem Options.output_of_withGiven? {g : Given String} {f : Flag} (hf : f ≠ .output)
    (h : o.withGiven? g f = some o') : o'.output = o.output := by
  cases f with
  | output => exact absurd rfl hf
  | help | version | verbose | fullReport | typeDelta =>
    cases h
    rfl
  | verboseFilter | workers | format =>
    obtain ⟨v, -, h⟩ := Option.bind_eq_some_iff.1 h
    cases h
    rfl

theorem output_of_takeFlag {f : Flag} (h : takeFlag o f = .ok o') : o'.output = o.output := by
  cases f with
  | verbose | fullReport =>
    cases h
    rfl
  | help | version | verboseFilter | typeDelta | workers | format | output => cases h

/-! ## The actions of a command line -/

theorem create_opens (d : Directory) (path : String) :
    Opens d (fun r after => r = .ok () → after.EmptyAt path)
      (liftM (Directory.access.create path)) := by
  apply Opens.lift
  · rw [Directory.run_create]
    cases d.creatable path with
    | error e => exact .refl d
    | ok name => exact d.emptied_put name
  · rw [Directory.run_create]
    cases hname : d.creatable path with
    | error e => exact fun h => nomatch h
    | ok name =>
      intro _
      exact ⟨name, Directory.creatable_put hname name _, Directory.get?_put_self d name _⟩

theorem createOutput_opens (d : Directory) (s : String) :
    Opens d (fun _ after => s ≠ standardOutput → after.EmptyAt s)
      (createOutput Directory.access s) := by
  unfold createOutput
  split
  · next hs => exact .pure fun hne => absurd hs hne
  · refine (create_opens d s).bind fun r after h => ?_
    cases r with
    | ok u => exact .pure fun _ => h rfl
    | error e => cases e <;> exact .throw _

theorem takeSetting_output (files : FileAccess (StateM Directory)) (o : Options) (s : String) :
    takeSetting files o .output (.value s) =
      createOutput files s >>= fun _ => pure { o with
        output := if Given.value s = .value standardOutput then none else some (.value s) } := rfl

theorem takeSetting_of_ne {f : Flag} (hf : f ≠ .output) (files : FileAccess (StateM Directory))
    (o : Options) (g : Given String) :
    takeSetting files o f g =
      match o.withGiven? g f, g with
      | some o, _ => pure o
      | none, .value s => throw (.usage (.invalidValue f s))
      | none, .nothing => pure o := by
  unfold takeSetting
  cases f with
  | output => exact absurd rfl hf
  | _ => cases g <;> rfl

theorem takeSetting_opens (h : o.Ready d) (f : Flag) (g : Given String) :
    Opens d Options.Ready (takeSetting Directory.access o f g) := by
  by_cases hf : f = .output
  · subst hf
    cases g with
    | nothing => exact .pure fun path hpath => nomatch hpath
    | value s =>
      rw [takeSetting_output]
      refine (createOutput_opens d s).bind fun _ after hs => .pure ?_
      intro path hpath
      dsimp only at hpath
      split at hpath
      · cases hpath
      · next hne =>
        cases hpath
        exact hs fun heq => hne (congrArg _ heq)
  · rw [takeSetting_of_ne hf]
    cases ho : o.withGiven? g f with
    | some o' => exact .pure (h.congr (Options.output_of_withGiven? hf ho))
    | none =>
      cases g with
      | value s => exact .throw _
      | nothing => exact .pure h

theorem take_opens {draft : Draft} (h : draft.options.Ready d) (a : Action) :
    Opens d (fun draft' after => draft'.options.Ready after) (take Directory.access draft a) := by
  cases a with
  | path | extra => exact .pure h
  | stop s => exact .throw s
  | flag f =>
    refine Opens.bind (Q := Options.Ready) (.ofExcept ?_) fun o after ho => .pure ho
    intro o ho
    exact h.congr (output_of_takeFlag ho)
  | setting f g => exact (takeSetting_opens h f g).bind fun o after ho => .pure ho

theorem foldlM_take_opens {draft : Draft} (h : draft.options.Ready d) (actions : List Action) :
    Opens d (fun draft' after => draft'.options.Ready after)
      (actions.foldlM (take Directory.access) draft) := by
  induction actions generalizing draft d with
  | nil => exact .pure h
  | cons a actions ih =>
    rw [List.foldlM_cons]
    exact (take_opens h a).bind fun draft' after h' => ih h'

theorem options_of_invocation {draft : Draft} {i : Invocation} (h : draft.invocation = .ok i) :
    i.options = draft.options := by
  unfold Draft.invocation at h
  split at h
  · split at h
    · cases h
      rfl
    · cases h
  · cases h

/-- Reading a command line creates or empties files at most, and when it is read the file for the
report is there and empty. -/
theorem parse_opens (d : Directory) (args : List String) :
    Opens d (fun i after => i.options.Ready after) (parse Directory.access args) := by
  unfold parse
  refine Opens.bind (Q := fun _ after => after = d) (.ofExcept fun _ _ => rfl) ?_
  rintro words after rfl
  have hempty : ({} : Draft).options.Ready after := fun path hpath => nomatch hpath
  refine (foldlM_take_opens hempty _).bind fun draft last h => .ofExcept fun i hi => ?_
  exact h.congr (congrArg _ (options_of_invocation hi))

end PolicyDelta.CommandLine
