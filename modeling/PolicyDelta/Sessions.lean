import PolicyDelta.Report.Basic

/-! Sessions that are used side by side. A request goes to one session. Changes that were given may
be held under names, which all sessions share and which outlive them. -/

namespace PolicyDelta

/-- What may be asked of a session. A change that is given may be held under a name. -/
inductive Request where
  | isOpen
  | identities
  | changes (family : RuleFamily)
  | diagnostics
  | changesNamed (family : String)
  | stats (family : String)
  | change (family : String) (index : Int) (hold? : Option String)
  /-- A copy of a held change. -/
  | copy (held : String) (hold? : Option String)
  /-- The line of a held change by the session. -/
  | render (held : String)
  /-- The line of a held change by the change alone. -/
  | line (held : String)
  /-- The start of a block that closes the session at its end. -/
  | enter
  | leave
  | close
  | report
deriving DecidableEq

/-- The requests that close the session they go to. -/
def Request.closes : Request → Bool
  | .leave | .close => true
  | _ => false

/-- The name under which a request holds a change. -/
def Request.hold? : Request → Option String
  | .change _ _ hold? | .copy _ hold? => hold?
  | _ => none

/-- What is answered. -/
inductive Reply where
  | flag (b : Bool)
  | identities (base modified : String)
  | changes (cs : List Change)
  | diagnostics (cs : List DefaultConflict)
  | stats (counts : List Nat)
  | change (c : Change)
  | line (text : String)
  | report (r : Report)
deriving DecidableEq

/-- Why there is no answer. -/
inductive Refusal where
  | session (e : SessionError)
  | missingDefault (e : MissingDefault)
  | notHeld (name : String)
  | noSession
deriving DecidableEq

/-- Sessions and the changes that are held, the last one first. -/
structure Sessions where
  all : List Session
  held : List (String × Change) := []

namespace Sessions

/-- The change that is held under a name. -/
def held? (t : Sessions) (name : String) : Option Change :=
  (t.held.find? (·.1 = name)).map Prod.snd

def hold (t : Sessions) (name? : Option String) (c : Change) : Sessions :=
  match name? with
  | some name => { t with held := (name, c) :: t.held }
  | none => t

/-- Holds what was given, if it was asked for under a name. -/
def keep (t : Sessions) (r : Request) : Except Refusal Reply → Sessions
  | .ok (.change c) => t.hold r.hold? c
  | _ => t

def closeAt (t : Sessions) (i : Nat) : Sessions :=
  { t with all := t.all.modify i Session.close }

/-- The answer of a session, in the words of a reply. -/
def said (reply : α → Reply) : Except SessionError α → Except Refusal Reply
  | .ok a => .ok (reply a)
  | .error e => .error (.session e)

/-- What a held change gives. -/
def withHeld (t : Sessions) (name : String) (f : Change → Except Refusal Reply) :
    Except Refusal Reply :=
  match t.held? name with
  | some c => f c
  | none => .error (.notHeld name)

def shown : Except MissingDefault String → Except Refusal Reply
  | .ok line => .ok (.line line)
  | .error e => .error (.missingDefault e)

/-- The reply of a session to a request. -/
def replyOf (t : Sessions) (s : Session) : Request → Except Refusal Reply
  | .isOpen => .ok (.flag s.isOpen)
  | .identities => .ok (.identities s.base.id s.modified.id)
  | .changes family => said .changes (s.changes family)
  | .diagnostics => said .diagnostics s.diagnostics
  | .changesNamed family => said .changes (s.changesNamed family)
  | .stats family => said .stats (s.stats family)
  | .change family index _ => said .change (s.changeAt family index)
  | .copy held _ => t.withHeld held fun c => said .change (s.materialize c)
  | .render held => t.withHeld held fun c =>
    match s.render c with
    | .ok line => shown line
    | .error e => .error (.session e)
  | .line held => t.withHeld held fun c => shown c.render
  | .enter => said (fun _ => .flag true) s.enter
  | .leave | .close => .ok (.flag s.close.isOpen)
  | .report => said .report (Report.ofSession s)

/-- A request to the session of a number: the answer, and what is at hand after it. -/
def step (t : Sessions) (i : Nat) (r : Request) : Except Refusal Reply × Sessions :=
  match t.all[i]? with
  | none => (.error .noSession, t)
  | some s =>
    let reply := t.replyOf s r
    let kept := t.keep r reply
    (reply, if r.closes then kept.closeAt i else kept)

end Sessions

end PolicyDelta
