import PolicyDelta.Program

/-! The program on the files of the system. -/

namespace PolicyDelta

/-- The number of a system error, which may be given negated. -/
def errorNumber (code : UInt32) : Nat := min code.toNat (0 - code).toNat

/-- The failure of a file operation, if it is an expected one. -/
def expected? (path : String) : IO.Error → Option FileFailure
  | .noFileOrDirectory .. => some (.missing path)
  | .inappropriateType _ code _ =>
    some (if errorNumber code = 20 then .notDirectory path else .isDirectory path)
  | .invalidArgument _ code _ => if errorNumber code = 36 then some (.tooLong path) else none
  | _ => none

/-- The outcome of a file operation. Failures that are not expected end the program. -/
def attempt (path : String) (operation : IO α) : IO (Except FileFailure α) := do
  if '\x00' ∈ path.toList then pure (.error .nulInPath)
  else
    try
      let a ← operation
      pure (.ok a)
    catch e =>
      match expected? path e with
      | some failure => pure (.error failure)
      | none => throw e

/-- The files of the system, without a reader of compiled policies. -/
def system : Program.Access IO where
  read path := attempt path (IO.FS.readBinFile path)
  create path := attempt path (IO.FS.writeFile path "")
  append path text := do
    let file ← IO.FS.Handle.mk path .append
    file.putStr text
  compiled _ := pure (.error .noBinaryReader)

end PolicyDelta

open PolicyDelta in
def main (args : List String) : IO UInt32 := do
  let outcome ← Program.run system args
  IO.eprint outcome.log
  IO.print outcome.output
  match outcome.result with
  | .ok code => pure code.toUInt32
  | .error e =>
    if e.message ≠ "" then
      IO.eprintln s!"{CommandLine.programName}: error: {e.message}"
    pure e.code.toUInt32
