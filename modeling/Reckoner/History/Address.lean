import Reckoner.Files.Path
import Reckoner.Text.Utf8

/-! What the path of a history names. A path is the name of a file, unless it begins with the scheme
`file:`. Then it is an address: percent escapes stand for bytes, options follow a question mark, and a
number sign ends it. An address may name memory in place of a file, and so does the path
`:memory:`. -/

namespace Reckoner.History

/-- What a call may do with the file of an address. -/
inductive Access where
  | readOnly
  /-- Reading, and writing if there is a file. -/
  | existing
  /-- Reading and writing, and creating the file. -/
  | creating
  /-- Reading and writing in memory in place of a file. -/
  | memory
  deriving DecidableEq, Repr

namespace Access

def ofName? (name : String) : Option Access :=
  [("ro", readOnly), ("rw", existing), ("rwc", creating), ("memory", memory)].lookup name

def rank : Access → Nat
  | readOnly => 1
  | existing => 2
  | creating => 3
  | memory => 4

/-- The least rank that allows to change to an access. -/
def demand : Access → Nat
  | memory => 0
  | access => access.rank

end Access

inductive AddressFault where
  | unknownAccess (name : String)
  | accessNotAllowed (name : String)
  | unknownCache (name : String)
  | unknownSystem (name : String)
  deriving DecidableEq, Repr

def AddressFault.message : AddressFault → String
  | unknownAccess name => "no such access mode: " ++ name
  | accessNotAllowed name => "access mode not allowed: " ++ name
  | unknownCache name => "no such cache mode: " ++ name
  | unknownSystem name => "no such vfs: " ++ name

/-- The name of a file, what may be done with it, and the file system it is in. -/
structure Address where
  name : String
  access : Access
  system : String
  deriving DecidableEq, Repr

namespace Address

/-- The file system of a name that tells none. -/
def defaultSystem : String := "unix"

def memorySystem : String := "memdb"

def systems : List String :=
  [defaultSystem, "unix-none", "unix-dotfile", "unix-excl", memorySystem]

def ofName (name : String) : Address :=
  ⟨name, .creating, defaultSystem⟩

def hexDigit? (byte : UInt8) : Option UInt8 :=
  if 0x30 ≤ byte && byte ≤ 0x39 then some (byte - 0x30)
  else if 0x41 ≤ byte && byte ≤ 0x46 then some (byte - 0x37)
  else if 0x61 ≤ byte && byte ≤ 0x66 then some (byte - 0x57)
  else none

/-- The byte that an escape of three bytes stands for: a percent sign and two digits. -/
def escaped? (a b c : UInt8) : Option UInt8 :=
  if a = 0x25 then
    match hexDigit? b, hexDigit? c with
    | some high, some low => some (high * 16 + low)
    | _, _ => none
  else none

/-- Bytes with each escape replaced; an escape of zero ends them. -/
def unescape : List UInt8 → List UInt8
  | a :: b :: c :: rest =>
    match escaped? a b c with
    | none => a :: unescape (b :: c :: rest)
    | some byte => if byte = 0 then [] else byte :: unescape rest
  | bytes => bytes

/-- The text of bytes; bytes that are no UTF-8 stand for a character each. -/
def textOf (bytes : List UInt8) : String :=
  match Text.utf8Decode bytes with
  | .ok cs => String.ofList cs
  | .error _ => String.ofList (bytes.map fun byte => Char.ofNat byte.toNat)

/-- Bytes before the first one of some value, and those after it. -/
def cut (mark : UInt8) (bytes : List UInt8) : List UInt8 × List UInt8 :=
  (bytes.takeWhile (· != mark), (bytes.dropWhile (· != mark)).drop 1)

/-- The options of an address, by name; one without a name is passed over. -/
def options (bytes : List UInt8) : List (String × String) :=
  let pairs := (bytes.splitOn 0x26).map (cut 0x3D)
  (pairs.map fun (name, value) => (textOf (unescape name), textOf (unescape value))).filter
    (·.1 != "")

/-- Takes an option into account; those that change nothing here are passed over. -/
def withOption (a : Address) (name value : String) : Except AddressFault Address :=
  if name = "mode" then
    match Access.ofName? value with
    | none => .error (.unknownAccess value)
    | some access =>
      if a.access.rank < access.demand then .error (.accessNotAllowed value)
      else .ok { a with access }
  else if name = "cache" then
    if ["shared", "private"].contains value then .ok a else .error (.unknownCache value)
  else if name = "vfs" then .ok { a with system := value }
  else .ok a

def withOptions (a : Address) : List (String × String) → Except AddressFault Address
  | [] => if systems.contains a.system then .ok a else .error (.unknownSystem a.system)
  | (name, value) :: rest =>
    match a.withOption name value with
    | .ok a => a.withOptions rest
    | .error fault => .error fault

def scheme : List Char := "file:".toList

def ofPath (p : Path) : Except AddressFault Address :=
  let cs := p.text.toList
  if scheme.isPrefixOf cs then
    let bytes := (cut 0x23 (Text.utf8Encode (cs.drop scheme.length))).1
    let (name, query) := cut 0x3F bytes
    (ofName (textOf (unescape name))).withOptions (options query)
  else .ok (ofName p.text)

/-- The names that no file has. -/
def memoryNames : List String := ["", ":memory:"]

/-- The path of the file that an address names, none when it names memory. -/
def file? (a : Address) : Option Path :=
  if a.access = .memory || a.system = memorySystem || memoryNames.contains a.name then none
  else some (Path.ofString a.name)

end Address

end Reckoner.History
