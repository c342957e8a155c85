import PolicyDelta.OrderedMap

/-! Levels of log messages and the level that counts for a logger. Loggers form a hierarchy by
their dotted names below one root; a logger without a level of its own has its parent's. -/

namespace PolicyDelta.Log

/-- The named levels; some have two names. -/
def levels : List (String × Nat) :=
  [("CRITICAL", 50), ("FATAL", 50), ("ERROR", 40), ("WARN", 30), ("WARNING", 30), ("INFO", 20),
    ("VERBOSE", 15), ("DEBUG", 10), ("NOTSET", 0)]

/-- The level of everything that a run has to tell. -/
def debug : Nat := 10

def info : Nat := 20

/-- The capital letter of an ASCII letter, of the dotless i and of the long s. No other character
has capitals that occur in the name of a level. -/
def capital (c : Char) : Char :=
  if c = 'ı' then 'I' else if c = 'ſ' then 'S' else c.toUpper

/-- The level of a name, in any mixture of cases. -/
def level? (name : String) : Option Nat :=
  (levels.find? (·.1.toList = name.toList.map capital)).map Prod.snd

def unknownLevelMessage (name : String) : String :=
  s!"Invalid log level '{name}'"

/-- The names before each dot of a name in reverse, the longest first. -/
def ancestors : List Char → List (List Char)
  | [] => []
  | '.' :: rest => rest.reverse :: ancestors rest
  | _ :: rest => ancestors rest

/-- A dotted name and the names of its ancestors, the nearest first. -/
def lineage (logger : List Char) : List (List Char) :=
  logger :: ancestors logger.reverse

/-- The names of the root logger. -/
def isRoot (name : String) : Bool :=
  name == "" || name == "root"

/-- The levels that a run sets, in the order of setting them. -/
structure Settings where
  root : Nat
  loggers : OrderedMap String Nat

namespace Settings

def rootLevel (s : Settings) : Nat :=
  s.loggers.pairs.foldl (fun level p => if isRoot p.1 then p.2 else level) s.root

/-- The level that counts for a logger: its own or else its nearest ancestor's, zero being none. -/
def effective (s : Settings) (logger : String) : Nat :=
  let own (name : List Char) : Option Nat :=
    (s.loggers.pairs.find? fun p => p.1.toList = name ∧ p.2 ≠ 0).map Prod.snd
  ((lineage logger.toList).findSome? own).getD s.rootLevel

end Settings

end PolicyDelta.Log
