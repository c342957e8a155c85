import PolicyDelta.Bzip2
import PolicyDelta.Policy.Reader
import PolicyDelta.TypeDelta

/-! Policy files. A file that starts as a bzip2 stream is decompressed; what it holds then is a
policy in JSON or a compiled policy, told apart by their first bytes. Only JSON is read. -/

namespace PolicyDelta.PolicyFile

/-- What a policy file holds. -/
inductive Format where
  | json
  | binary
deriving DecidableEq, Repr

def Format.name : Format → String
  | json => "json"
  | binary => "binary"

/-- Why a file does not give what it should hold. -/
inductive Failure where
  | compression (e : Bzip2.Failure)
  | unrecognized
  /-- A compiled policy, for which a reader is not there. -/
  | noBinaryReader
  /-- A compiled policy that the reader for such policies refuses. -/
  | refused (message : String)
  | invalidPolicy (issues : List Issue)
  | invalidTypeDelta (issues : List Issue)
deriving DecidableEq

/-- The message of a failure, except for invalid content, which is described by its issues. -/
def Failure.message : Failure → String
  | compression .invalid => "Invalid data stream"
  | compression .truncated =>
    "Compressed data ended before the end-of-stream marker was reached"
  | unrecognized => "Unrecognized policy file format"
  | noBinaryReader => "No module named 'setools'"
  | refused message => message
  | invalidPolicy _ | invalidTypeDelta _ => ""

def bzip2Magic : List UInt8 := [0x42, 0x5a, 0x68]

def binaryMagic : List UInt8 := [0x8c, 0xff, 0x7c, 0xf9]

/-- The bytes without leading blanks. -/
def withoutLead (bytes : List UInt8) : List UInt8 :=
  bytes.dropWhile fun b => Text.isAsciiBlank b.toNat

/-- The format of some content; an object in JSON may stand after blanks. -/
def detect (content : ByteArray) : Except Failure Format :=
  let bytes := content.data.toList
  if binaryMagic.isPrefixOf bytes then .ok .binary
  else if (withoutLead bytes).head? = some 0x7b then .ok .json
  else .error .unrecognized

/-- The content of a file, decompressed if it has to be. -/
def unpack (file : ByteArray) : Except Failure ByteArray :=
  if bzip2Magic.isPrefixOf file.data.toList then (Bzip2.decompress file).mapError .compression
  else .ok file

/-- The outcome of a model's check on content; bytes that are not UTF-8 are not JSON. -/
def checkContent (check : Json → Checked α) (content : ByteArray) : Checked α :=
  match String.fromUTF8? content with
  | some text => Check.document check text
  | none => .fail .jsonInvalid

/-- The policy in content that has been found to be JSON. -/
def policyOfContent (content : ByteArray) : Except Failure Policy :=
  (checkContent Policy.check content).toExcept.mapError .invalidPolicy

/-- The difference of types and attributes in content. -/
def typeDeltaOfContent (content : ByteArray) : Except Failure TypeDelta :=
  (checkContent TypeDelta.check content).toExcept.mapError .invalidTypeDelta

def policy (file : ByteArray) : Except Failure Policy := do
  let content ← unpack file
  match ← detect content with
  | .json => policyOfContent content
  | .binary => throw .noBinaryReader

/-- The difference of types and attributes of a file. -/
def typeDelta (file : ByteArray) : Except Failure TypeDelta := do
  typeDeltaOfContent (← unpack file)

end PolicyDelta.PolicyFile
