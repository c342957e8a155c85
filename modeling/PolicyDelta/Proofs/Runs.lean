import PolicyDelta.Proofs.Arguments
import PolicyDelta.Proofs.Lines
import PolicyDelta.Proofs.Loading

/-! Runs of the program. The lines of a report are made while they are written, but each line of the
report of a session can be made, so once the first is written all are. A run writes its report as a
whole or nothing of it (`Program.whole_or_nothing`). -/

namespace PolicyDelta

/-! ## The lines of a report -/

theorem exists_map_ok {ε α : Type} {l : List (Except ε α)} (h : ∀ x ∈ l, ∃ a, x = .ok a) :
    ∃ as : List α, l = as.map .ok := by
  induction l with
  | nil => exact ⟨[], rfl⟩
  | cons x l ih =>
    obtain ⟨a, rfl⟩ := h x List.mem_cons_self
    obtain ⟨as, rfl⟩ := ih fun y hy => h y (List.mem_cons_of_mem _ hy)
    exact ⟨a :: as, rfl⟩

namespace Report

/-- A report has all its lines if each of its changes has one. -/
theorem exists_lines {r : Report}
    (h : ∀ f ∈ r.families, ∀ c ∈ f.changes, ∃ line, c.render = .ok line) (style : ReportStyle) :
    ∃ texts : List String, r.lines style = texts.map .ok := by
  have hmade (texts : List String) (x : Except MissingDefault String) (hx : x ∈ texts.map .ok) :
      ∃ line, x = .ok line := by
    obtain ⟨line, -, rfl⟩ := List.mem_map.1 hx
    exact ⟨line, rfl⟩
  apply exists_map_ok
  intro x hx
  unfold lines at hx
  split at hx
  · rcases List.mem_append.1 hx with hx | hx
    · rcases List.mem_append.1 hx with hx | hx
      · exact hmade _ x hx
      · obtain ⟨f, hf, hx⟩ := List.mem_flatMap.1 hx
        obtain ⟨family, -, hf⟩ := List.mem_flatMap.1 hf
        unfold FamilyReport.lines at hx
        split at hx
        · rcases List.mem_cons.1 hx with rfl | hx
          · exact ⟨_, rfl⟩
          · rcases List.mem_append.1 hx with hx | hx
            · obtain ⟨c, hc, rfl⟩ := List.mem_map.1 hx
              obtain ⟨line, hline⟩ := h f (List.mem_filter.1 hf).1 c hc
              exact ⟨indented line, by rw [hline]; rfl⟩
            · exact ⟨_, List.mem_singleton.1 hx⟩
        · cases hx
    · exact hmade _ x hx
  · exact ⟨_, List.mem_singleton.1 hx⟩

/-- A session that was built has a report, and the report has all its lines. -/
theorem exists_ofSession {base modified : Policy} {delta : TypeDelta} {workers : Int} {s : Session}
    (h : (Session.build base modified delta workers).1 = .ok s) :
    ∃ r, ofSession s = .ok r ∧
      ∀ style, ∃ texts : List String, r.lines style = texts.map .ok := by
  obtain ⟨found, hfound⟩ := Session.exists_result_of_build h
  refine ⟨_, by rw [ofSession, Session.result, hfound]; rfl, exists_lines ?_⟩
  intro f hf c hc
  obtain ⟨family, -, rfl⟩ := List.mem_map.1 hf
  exact Session.exists_line h hfound hc

end Report

namespace Program

open CommandLine

variable {reader : Reader} {d : Directory}

/-! ## Writing -/

theorem textOfLines_cons (line : String) (lines : List String) :
    Report.textOfLines (line :: lines) = line ++ "\n" ++ Report.textOfLines lines := by
  rw [Report.textOfLines, List.map_cons, String.join_cons]
  rfl

theorem writeLines_cons (files : FileAccess (StateM Directory)) (path? : Option String)
    (line : String) (lines : List (Except MissingDefault String)) :
    writeLines files path? (.ok line :: lines) =
      writeLine files path? line >>= fun _ => writeLines files path? lines := rfl

/-- Lines that can all be made are written to the standard output one after another. -/
theorem run_writeLines_none (lines : List String) (t : Told) :
    ((writeLines Directory.access none (lines.map .ok)).run.run t).run d =
      ((.ok (), { t with output := t.output ++ Report.textOfLines lines }), d) := by
  induction lines generalizing t with
  | nil =>
    change ((Except.ok (), t), d) = ((.ok (), { t with output := t.output ++ "" }), d)
    rw [String.append_empty]
  | cons line lines ih =>
    have hline : ((writeLine Directory.access none line).run.run t).run d =
        ((.ok (), { t with output := t.output ++ (line ++ "\n") }), d) := rfl
    rw [List.map_cons, writeLines_cons, run_bind_ok hline, ih, textOfLines_cons]
    simp only [String.append_assoc]

/-- Lines that can all be made are appended to a file one after another. -/
theorem run_writeLines_some (path : String) (lines : List String) (t : Told) :
    ((writeLines Directory.access (some path) (lines.map .ok)).run.run t).run d =
      ((.ok (), t), (lines.map (· ++ "\n")).foldl (·.append path ·) d) := by
  induction lines generalizing d with
  | nil => rfl
  | cons line lines ih =>
    have hline : ((writeLine Directory.access (some path) line).run.run t).run d =
        ((.ok (), t), d.append path (line ++ "\n")) := rfl
    rw [List.map_cons, writeLines_cons, run_bind_ok hline, ih]
    rfl

/-- The output of a run has received a text and nothing else: it is on the standard output, or else
it is what the file for the report holds, and every other file is as it was. -/
structure Received (o : Options) (before : Directory) (text output : String) (after : Directory) :
    Prop where
  output_eq : output = if o.output = none then text else ""
  file : ∀ path, o.output = some (.value path) → after.read path = .ok text.toUTF8
  others : ∀ name, (∀ path, o.output = some (.value path) → before.creatable path ≠ .ok name) →
    after.get? name = before.get? name

namespace Received

variable {o : Options} {path name : String}

theorem nothing (h : o.Ready d) : Received o d "" "" d where
  output_eq := (ite_self "").symm
  file path hpath := (h path hpath).read
  others _ _ := rfl

theorem standardOutput (h : o.output = none) (text : String) : Received o d text text d where
  output_eq := (if_pos h).symm
  file _ hpath := nomatch h.symm.trans hpath
  others _ _ := rfl

theorem inFile (h : o.output = some (.value path)) (hname : d.creatable path = .ok name)
    (text : String) : Received o d text "" (d.put name text.toUTF8) where
  output_eq := by simp [h]
  file path' hpath := by
    cases h.symm.trans hpath
    exact Directory.read_put hname _
  others other hother := by
    rw [Directory.get?_put, if_neg]
    rintro rfl
    exact hother path h hname

end Received

/-- A report whose lines can all be made is written as a whole, if there is an output for it. -/
theorem write_received {r : Report} {style : ReportStyle} {lines : List String} {o : Options}
    (hlines : r.lines style = lines.map .ok) (h : o.Ready d) (houtput : o.output ≠ some .nothing)
    (t : Told) (ht : t.output = "") :
    ∃ t' after,
      ((write Directory.access style r o.output).run.run t).run d = ((.ok (), t'), after) ∧
      Received o d (Report.textOfLines lines) t'.output after := by
  have hwrite (path? : Option String)
      (hpath : target o.output = (pure path? : RunM (StateM Directory) _)) :
      ((write Directory.access style r o.output).run.run t).run d =
        ((writeLines Directory.access path? (lines.map .ok)).run.run
          { t with events := t.events ++ [r.event style] }).run d := by
    rw [← hlines]
    unfold write
    rw [hpath]
    rfl
  cases hgiven : o.output with
  | none =>
    rw [hgiven] at hwrite
    rw [hwrite none rfl, run_writeLines_none, ht, String.empty_append]
    exact ⟨_, _, rfl, .standardOutput hgiven _⟩
  | some g =>
    cases g with
    | nothing => exact absurd hgiven houtput
    | value path =>
      obtain ⟨name, hname, hempty⟩ := h path hgiven
      rw [hgiven] at hwrite
      rw [hwrite (some path) rfl, run_writeLines_some, Directory.foldl_append hname hempty]
      refine ⟨_, _, rfl, ?_⟩
      dsimp only
      rw [ht, ByteArray.empty_append]
      exact .inFile hgiven hname _

/-! ## How a run ends -/

/-- The output has received the report of a session: just its lines in the format that is asked
for. -/
def WholeReport (d : Directory) (i : Invocation) (s : Session) (output : String)
    (after : Directory) : Prop :=
  ∃ r format lines, Report.ofSession s = .ok r ∧ i.options.format = .value format ∧
    r.lines ⟨format, i.options.full, i.options.logLevel⟩ = lines.map .ok ∧
    Received i.options d (Report.textOfLines lines) output after

/-- How a run ends, by what its command line is read as and the files that there are then: it stops
there, it fails to load or to build, an unknown name is met, there is no format or no output for the
report, or the whole report is written. -/
inductive Ends (reader : Reader) (d : Directory) :
    Except Stop Invocation → Except RunFailure Nat → String → Directory → Prop where
  | stopped (stop : Stop) :
    Ends reader d (.error stop) (.error (.stopped stop)) ((stop.printed version).toOption.getD "") d
  | failed {e : RunFailure} (hs : sessionIn reader d i = .error e) :
    Ends reader d (.ok i) (.error e) "" d
  | unknown {u : UnknownIdentifier} (hs : sessionIn reader d i = .ok (.error u)) :
    Ends reader d (.ok i) (.ok incomparable) "" d
  | noFormat {s : Session} (hs : sessionIn reader d i = .ok (.ok s))
      (hformat : i.options.format = .nothing) :
    Ends reader d (.ok i) (.error (.lacking .format)) "" d
  | noOutput {s : Session} (hs : sessionIn reader d i = .ok (.ok s))
      (hformat : i.options.format ≠ .nothing) (houtput : i.options.output = some .nothing) :
    Ends reader d (.ok i) (.error (.lacking .output)) "" d
  | written {s : Session} {output : String} {after : Directory}
      (hs : sessionIn reader d i = .ok (.ok s)) (hformat : i.options.format ≠ .nothing)
      (houtput : i.options.output ≠ some .nothing) (hreport : WholeReport d i s output after) :
    Ends reader d (.ok i) (.ok compared) output after

/-- What makes a run fail: its command line stops it, a policy or the difference of types does not
load, the number of workers is taken away before the first index is built, or the format or the
output before the report is written. -/
inductive Fails (reader : Reader) (d : Directory) : Except Stop Invocation → RunFailure → Prop where
  | stopped (stop : Stop) : Fails reader d (.error stop) (.stopped stop)
  | base {e : RunFailure} (h : policyIn reader d i.base = .error e) : Fails reader d (.ok i) e
  | modified {base : Policy} {e : RunFailure} (hbase : policyIn reader d i.base = .ok base)
      (h : policyIn reader d i.modified = .error e) :
    Fails reader d (.ok i) e
  | typeDelta {base modified : Policy} {e : RunFailure}
      (hbase : policyIn reader d i.base = .ok base)
      (hmodified : policyIn reader d i.modified = .ok modified)
      (h : typeDeltaIn d base modified i.options.typeDelta = .error e) :
    Fails reader d (.ok i) e
  | workers {base modified : Policy} {delta : TypeDelta} {e : RunFailure}
      (hloads : Loads reader d i base modified delta)
      (h : built base modified delta i.options.workers = .error e) :
    Fails reader d (.ok i) e
  | format {s : Session} (hs : sessionIn reader d i = .ok (.ok s))
      (hformat : i.options.format = .nothing) :
    Fails reader d (.ok i) (.lacking .format)
  | output {s : Session} (hs : sessionIn reader d i = .ok (.ok s))
      (hformat : i.options.format ≠ .nothing) (houtput : i.options.output = some .nothing) :
    Fails reader d (.ok i) (.lacking .output)

variable {i : Invocation}

theorem exists_build_of_sessionIn {s : Session} (h : sessionIn reader d i = .ok (.ok s)) :
    ∃ base modified delta workers, (Session.build base modified delta workers).1 = .ok s := by
  obtain ⟨base, modified, delta, -, hbuilt⟩ := sessionIn_eq_ok.1 h
  cases hworkers : i.options.workers with
  | value workers =>
    rw [hworkers] at hbuilt
    exact ⟨base, modified, delta, workers, Except.ok.inj hbuilt⟩
  | nothing =>
    rw [hworkers] at hbuilt
    unfold built at hbuilt
    dsimp only at hbuilt
    split at hbuilt
    · cases hbuilt
    · cases hbuilt

theorem compare_ends (reader : Reader) (h : i.options.Ready d) : ∃ result t after,
    ((compare (accessWith reader) i).run.run {}).run d = ((result, t), after) ∧
      Ends reader d (.ok i) result t.output after := by
  obtain ⟨events, hrun⟩ := session_quiet reader d i {}
  cases hs : sessionIn reader d i with
  | error e =>
    rw [hs] at hrun
    exact ⟨_, _, _, run_bind_error hrun, .failed hs⟩
  | ok x =>
    rw [hs] at hrun
    cases x with
    | error u => exact ⟨_, _, _, run_bind_ok hrun, .unknown hs⟩
    | ok s =>
      obtain ⟨_, _, _, _, hbuild⟩ := exists_build_of_sessionIn hs
      obtain ⟨r, hr, hlines⟩ := Report.exists_ofSession hbuild
      have hreport : ((compare (accessWith reader) i).run.run {}).run d =
          ((need .format i.options.format >>= fun format =>
            write Directory.access ⟨format, i.options.full, i.options.logLevel⟩ r
              i.options.output >>= fun _ => pure compared).run.run { events }).run d := by
        rw [compare, run_bind_ok hrun]
        dsimp only
        rw [hr]
        rfl
      cases hformat : i.options.format with
      | nothing =>
        rw [hformat] at hreport
        exact ⟨_, _, _, hreport, .noFormat hs hformat⟩
      | value format =>
        have hgiven : i.options.format ≠ .nothing := by simp [hformat]
        rw [hformat] at hreport
        by_cases houtput : i.options.output = some .nothing
        · rw [houtput] at hreport
          exact ⟨_, _, _, hreport, .noOutput hs hgiven houtput⟩
        · obtain ⟨texts, htexts⟩ := hlines ⟨format, i.options.full, i.options.logLevel⟩
          obtain ⟨t, after, hwrite, hreceived⟩ :=
            write_received htexts h houtput { events } rfl
          rw [run_bind_ok (a := format) rfl, run_bind_ok hwrite] at hreport
          have hwhole : WholeReport d i s t.output after :=
            ⟨r, format, texts, hr, hformat, htexts, hreceived⟩
          exact ⟨_, _, _, hreport, .written hs hgiven houtput hwhole⟩

theorem run_of_stop {args : List String} {stop : Stop} {read : Directory}
    (h : (parse Directory.access args).run.run d = (.error stop, read)) :
    (run (accessWith reader) args).run d =
      (⟨.error (.stopped stop), (stop.printed version).toOption.getD "", ""⟩, read) := by
  change StateT.run ((parse Directory.access args).run >>= _) d = _
  rw [StateT.run_bind, h]
  rfl

theorem run_of_invocation {args : List String} {read after : Directory}
    {result : Except RunFailure Nat} {t : Told}
    (h : (parse Directory.access args).run.run d = (.ok i, read))
    (hcompare : ((compare (accessWith reader) i).run.run {}).run read = ((result, t), after)) :
    (run (accessWith reader) args).run d =
      (⟨result, t.output, Event.log (logSettings i.options) t.events⟩, after) := by
  change StateT.run ((parse Directory.access args).run >>= _) d = _
  rw [StateT.run_bind, h]
  change StateT.run (_ >>= _) read = _
  rw [StateT.run_bind, hcompare]
  rfl

/-- Every run ends in one of these ways, whatever its arguments and the files are. -/
theorem run_ends (reader : Reader) (d : Directory) (args : List String) :
    ∃ parsed read outcome after,
      (parse Directory.access args).run.run d = (parsed, read) ∧ d.Emptied read ∧
      (∀ i, parsed = .ok i → i.options.Ready read) ∧
      (run (accessWith reader) args).run d = (outcome, after) ∧
      Ends reader read parsed outcome.result outcome.output after := by
  obtain ⟨parsed, read, hparse, hemptied, hready⟩ := parse_opens d args
  cases parsed with
  | error stop =>
    exact ⟨_, read, _, read, hparse, hemptied, hready, run_of_stop hparse, .stopped stop⟩
  | ok i =>
    obtain ⟨result, t, after, hcompare, hends⟩ := compare_ends reader (hready i rfl)
    have hrun := run_of_invocation hparse hcompare
    exact ⟨_, read, _, after, hparse, hemptied, hready, hrun, hends⟩

theorem fails_of_sessionIn {e : RunFailure} (h : sessionIn reader d i = .error e) :
    Fails reader d (.ok i) e := by
  rcases bind_eq_error.1 h with hbase | ⟨base, hbase, h⟩
  · exact .base hbase
  rcases bind_eq_error.1 h with hmodified | ⟨modified, hmodified, h⟩
  · exact .modified hbase hmodified
  rcases bind_eq_error.1 h with hdelta | ⟨delta, hdelta, h⟩
  · exact .typeDelta hbase hmodified hdelta
  · exact .workers ⟨hbase, hmodified, hdelta⟩ h

/-- Either there is no session because of the failure, or it is the report that lacks something. -/
theorem Fails.cases_session {e : RunFailure} (h : Fails reader d (.ok i) e) :
    sessionIn reader d i = .error e ∨ ∃ s, sessionIn reader d i = .ok (.ok s) ∧
      (i.options.format = .nothing ∧ e = .lacking .format ∨
        i.options.format ≠ .nothing ∧ i.options.output = some .nothing ∧ e = .lacking .output) := by
  cases h with
  | base h => exact .inl (bind_eq_error.2 (.inl h))
  | modified hbase h =>
    exact .inl (bind_eq_error.2 (.inr ⟨_, hbase, bind_eq_error.2 (.inl h)⟩))
  | typeDelta hbase hmodified h =>
    refine .inl (bind_eq_error.2 (.inr ⟨_, hbase, bind_eq_error.2 (.inr ⟨_, hmodified, ?_⟩)⟩))
    exact bind_eq_error.2 (.inl h)
  | workers hloads h => exact .inl ((sessionIn_of_loads hloads).trans h)
  | format hs hformat => exact .inr ⟨_, hs, .inl ⟨hformat, rfl⟩⟩
  | output hs hformat houtput => exact .inr ⟨_, hs, .inr ⟨hformat, houtput, rfl⟩⟩

namespace Ends

variable {parsed : Except Stop Invocation} {result : Except RunFailure Nat} {output : String}
  {after : Directory} {e : RunFailure}

theorem code {code : Nat} (h : Ends reader d parsed result output after)
    (hcode : result = .ok code) : code = compared ∨ code = incomparable := by
  cases h with
  | stopped | failed | noFormat | noOutput => cases hcode
  | unknown => exact .inr (Except.ok.inj hcode).symm
  | written => exact .inl (Except.ok.inj hcode).symm

theorem eq_compared (h : Ends reader d (.ok i) result output after) {s : Session}
    (hs : sessionIn reader d i = .ok (.ok s)) (hformat : i.options.format ≠ .nothing)
    (houtput : i.options.output ≠ some .nothing) : result = .ok compared := by
  cases h with
  | written => rfl
  | failed hs' | unknown hs' => cases hs.symm.trans hs'
  | noFormat _ hformat' => exact absurd hformat' hformat
  | noOutput _ _ houtput' => exact absurd houtput' houtput

theorem wholeReport (h : Ends reader d parsed result output after)
    (hresult : result = .ok compared) :
    ∃ i s, parsed = .ok i ∧ sessionIn reader d i = .ok (.ok s) ∧
      WholeReport d i s output after := by
  cases h with
  | stopped | failed | noFormat | noOutput => cases hresult
  | unknown => exact absurd (Except.ok.inj hresult) (by decide)
  | written hs _ _ hreport => exact ⟨_, _, rfl, hs, hreport⟩

theorem eq_incomparable_iff (h : Ends reader d parsed result output after) :
    result = .ok incomparable ↔ ∃ i u, parsed = .ok i ∧ sessionIn reader d i = .ok (.error u) := by
  constructor
  · intro hresult
    cases h with
    | stopped | failed | noFormat | noOutput => cases hresult
    | unknown hu => exact ⟨_, _, rfl, hu⟩
    | written => exact absurd (Except.ok.inj hresult) (by decide)
  · rintro ⟨i, u, rfl, hu⟩
    cases h with
    | unknown => rfl
    | failed hs | noFormat hs | noOutput hs | written hs => cases hu.symm.trans hs

theorem fails (h : Ends reader d parsed (.error e) output after) : Fails reader d parsed e := by
  cases h with
  | stopped stop => exact .stopped stop
  | failed hs => exact fails_of_sessionIn hs
  | noFormat hs hformat => exact .format hs hformat
  | noOutput hs hformat houtput => exact .output hs hformat houtput

theorem eq_error (h : Ends reader d parsed result output after) (hfails : Fails reader d parsed e) :
    result = .error e := by
  cases h with
  | stopped stop =>
    cases hfails
    rfl
  | failed hs =>
    rcases hfails.cases_session with he | ⟨s, hs', -⟩
    · rw [Except.error.inj (hs.symm.trans he)]
    · cases hs.symm.trans hs'
  | unknown hs =>
    rcases hfails.cases_session with he | ⟨s, hs', -⟩
    · cases hs.symm.trans he
    · cases hs.symm.trans hs'
  | noFormat hs hformat =>
    rcases hfails.cases_session with he | ⟨s, -, ⟨-, rfl⟩ | ⟨hgiven, -⟩⟩
    · cases hs.symm.trans he
    · rfl
    · exact absurd hformat hgiven
  | noOutput hs hformat =>
    rcases hfails.cases_session with he | ⟨s, -, ⟨hnone, -⟩ | ⟨-, -, rfl⟩⟩
    · cases hs.symm.trans he
    · exact absurd hnone hformat
    · rfl
  | written hs hformat houtput =>
    rcases hfails.cases_session with he | ⟨s, -, ⟨hnone, -⟩ | ⟨-, hnone, -⟩⟩
    · cases hs.symm.trans he
    · exact absurd hnone hformat
    · exact absurd hnone houtput

/-- A run that does not end with a report written has written nothing of it. -/
theorem received_nothing (h : Ends reader d (.ok i) result output after)
    (hready : i.options.Ready d) (hresult : result ≠ .ok compared) :
    Received i.options d "" output after := by
  cases h with
  | failed | unknown | noFormat | noOutput => exact .nothing hready
  | written => exact absurd rfl hresult

theorem stopped_inv {stop : Stop} (h : Ends reader d (.error stop) result output after) :
    output = (stop.printed version).toOption.getD "" ∧ after = d := by
  cases h
  exact ⟨rfl, rfl⟩

end Ends

/-- A run writes a whole report or nothing of it, whatever reads compiled policies. Its command line
is read first, which at most creates or empties files. The result is 0 exactly if the policies and
the difference of their types load, the session is built and there is a format and an output for the
report; it is 1 exactly if all load and an unknown name is met; every other end is the failure of
the stage that failed. With the result 0 the output has received just the lines of the session's
report, and otherwise nothing, but for the help or the version that a command line may ask for. -/
theorem whole_or_nothing (reader : Reader) (d : Directory) (args : List String) :
    ∃ parsed read outcome after,
      (parse Directory.access args).run.run d = (parsed, read) ∧ d.Emptied read ∧
      (run (accessWith reader) args).run d = (outcome, after) ∧
      (outcome.result = .ok 0 → ∃ i base modified delta s, parsed = .ok i ∧
        Loads reader read i base modified delta ∧
        built base modified delta i.options.workers = .ok (.ok s) ∧
        WholeReport read i s outcome.output after) ∧
      (∀ i base modified delta s, parsed = .ok i → Loads reader read i base modified delta →
        built base modified delta i.options.workers = .ok (.ok s) →
        i.options.format ≠ .nothing → i.options.output ≠ some .nothing →
        outcome.result = .ok 0) ∧
      (outcome.result = .ok 1 ↔ ∃ i base modified delta u, parsed = .ok i ∧
        Loads reader read i base modified delta ∧
        built base modified delta i.options.workers = .ok (.error u)) ∧
      (∀ code, outcome.result = .ok code → code = 0 ∨ code = 1) ∧
      (∀ e, outcome.result = .error e ↔ Fails reader read parsed e) ∧
      (∀ i, parsed = .ok i → outcome.result ≠ .ok 0 →
        Received i.options read "" outcome.output after) ∧
      ∀ stop, parsed = .error stop →
        outcome.output = (stop.printed version).toOption.getD "" ∧ after = read := by
  obtain ⟨parsed, read, outcome, after, hparse, hemptied, hready, hrun, hends⟩ :=
    run_ends reader d args
  refine ⟨parsed, read, outcome, after, hparse, hemptied, hrun, ?_, ?_, ⟨?_, ?_⟩, ?_,
    fun e => ⟨?_, hends.eq_error⟩, ?_, ?_⟩
  · intro hresult
    obtain ⟨i, s, hparsed, hs, hreport⟩ := hends.wholeReport hresult
    obtain ⟨base, modified, delta, hloads, hbuilt⟩ := sessionIn_eq_ok.1 hs
    exact ⟨i, base, modified, delta, s, hparsed, hloads, hbuilt, hreport⟩
  · rintro i base modified delta s rfl hloads hbuilt hformat houtput
    exact hends.eq_compared ((sessionIn_of_loads hloads).trans hbuilt) hformat houtput
  · intro hresult
    obtain ⟨i, u, hparsed, hu⟩ := hends.eq_incomparable_iff.1 hresult
    obtain ⟨base, modified, delta, hloads, hbuilt⟩ := sessionIn_eq_ok.1 hu
    exact ⟨i, base, modified, delta, u, hparsed, hloads, hbuilt⟩
  · rintro ⟨i, base, modified, delta, u, hparsed, hloads, hbuilt⟩
    exact hends.eq_incomparable_iff.2 ⟨i, u, hparsed, (sessionIn_of_loads hloads).trans hbuilt⟩
  · intro code hcode
    exact hends.code hcode
  · intro he
    rw [he] at hends
    exact hends.fails
  · rintro i rfl hresult
    exact hends.received_nothing (hready i rfl) hresult
  · rintro stop rfl
    exact hends.stopped_inv

/-- Two empty policies have a report. Without the second the file for it is there but empty. -/
example :
    let arguments := ["before", "after", "--output", "report"]
    let both := (run (accessWith noReader) arguments).run
      ⟨[("before", "\x7b\x7d".toUTF8), ("after", "\x7b\x7d".toUTF8)]⟩
    let one := (run (accessWith noReader) arguments).run ⟨[("before", "\x7b\x7d".toUTF8)]⟩
    both.1.result = .ok 0 ∧ both.2.get? "report" ≠ some ByteArray.empty ∧
      one.1.result = .error (.unreadable (.missing "after")) ∧
      one.2.get? "report" = some ByteArray.empty := by
  decide +kernel

end Program

end PolicyDelta
