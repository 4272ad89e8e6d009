import Reckoner.Files.Formats
import Reckoner.History.Stored
import Reckoner.Text.Utf8

/-! Archives and ledgers as texts. The first line of the text of an archive names its format; every member
takes three lines, a mark of its kind, its name and what it holds, with a character for each byte. An archive is read
back as it was written (`ofText?_toText`). A format may store a member under another name than the one it was
given, and 7z unpacks no archive that has a name which leaves the directory. -/

namespace Reckoner

inductive MemberContent where
  | file (bytes : List UInt8)
  | directory
  | link (target : String)
  deriving DecidableEq, Repr

structure Member where
  name : String
  content : MemberContent
  deriving DecidableEq, Repr

namespace Member

def bytes? (m : Member) : Option (List UInt8) :=
  match m.content with
  | .file bytes => some bytes
  | .directory | .link _ => none

/-- A member in a zip archive, which has no links and ends the name of a directory with a slash. -/
def zipped? (m : Member) : Option ZipEntry :=
  match m.content with
  | .file bytes => some ⟨m.name, .ok bytes⟩
  | .directory => some ⟨m.name ++ "/", .ok []⟩
  | .link _ => none

def tarEntry (m : Member) : TarEntry :=
  ⟨m.name, m.bytes?.isSome, .ok (m.bytes?.getD [])⟩

/-- The name of a member in a 7z archive, which has regular files alone. -/
def sevenZipName? (m : Member) : Option String :=
  m.bytes?.map fun _ => m.name

end Member

/-- A format and the members in the order in which they are stored. -/
structure Archive where
  format : ArchiveFormat
  members : List Member
  deriving DecidableEq, Repr

namespace ArchiveFormat

/-- The part of a name before the first null character. -/
def beforeNull (name : String) : String :=
  String.ofList (name.toList.takeWhile (· != Char.ofNat 0))

/-- The most characters of a name that fit in the header of a member of a tar archive. -/
def headerRoom : Nat := 100

/-- Whether a name fits in the header of a member of a tar archive, which holds ASCII alone. -/
def fitsHeader (name : String) : Bool :=
  name.toList.all (·.toNat < 0x80) && name.toList.length ≤ headerRoom

/-- A name without the slashes at its end. -/
def withoutLastSlashes (name : String) : String :=
  String.ofList (name.toList.reverse.dropWhile (· = '/')).reverse

/-- The name under which a format stores a member. A null character ends a name in a header; a name
in a record of its own loses the slashes at its end; 7z stores the text of the path. -/
def storedName (format : ArchiveFormat) (name : String) : String :=
  match format with
  | zip => beforeNull name
  | tarXz => if fitsHeader name then beforeNull name else withoutLastSlashes name
  | sevenZip => (Path.ofString name).text

/-- Whether a name leads out of the directory in which it is unpacked. -/
def leavesDirectory (name : String) : Bool :=
  (Path.ofString name).anchor != .here || (Path.ofString name).names.contains ".."

def name : ArchiveFormat → List Char
  | zip => "zip archive".toList
  | tarXz => "tar.xz archive".toList
  | sevenZip => "7z archive".toList

def ofName? (text : List Char) : Option ArchiveFormat :=
  [zip, tarXz, sevenZip].find? fun format => format.name = text

end ArchiveFormat

namespace Archive

open Text (lineText lines? lines?_lineText)

def pack (format : ArchiveFormat) (members : List Member) : Archive :=
  ⟨format, members.map fun m => { m with name := format.storedName m.name }⟩

def byteText (bytes : List UInt8) : List Char :=
  bytes.map fun byte => Char.ofNat byte.toNat

def bytesOf (text : List Char) : List UInt8 :=
  text.map fun c => UInt8.ofNat c.toNat

/-- The mark of the kind of a member. -/
def kindMark : MemberContent → Char
  | .file _ => 'f'
  | .directory => 'd'
  | .link _ => 'l'

def contentText : MemberContent → List Char
  | .file bytes => byteText bytes
  | .directory => []
  | .link target => target.toList

def content? (mark : Char) (text : List Char) : Option MemberContent :=
  if mark = 'f' then some (.file (bytesOf text))
  else if mark = 'd' then some .directory
  else if mark = 'l' then some (.link (String.ofList text))
  else none

def memberText (m : Member) : List Char :=
  lineText [kindMark m.content] ++ lineText m.name.toList ++ lineText (contentText m.content)

/-- The members of which lines hold three each. -/
def members? : List (List Char) → Option (List Member)
  | [] => some []
  | [mark] :: name :: text :: rest =>
    match content? mark text, members? rest with
    | some content, some members => some (⟨String.ofList name, content⟩ :: members)
    | _, _ => none
  | _ => none

def toText (a : Archive) : List Char :=
  lineText a.format.name ++ a.members.flatMap memberText

def ofText? (text : List Char) : Option Archive :=
  match lines? text with
  | some (name :: rest) =>
    match ArchiveFormat.ofName? name, members? rest with
    | some format, some members => some ⟨format, members⟩
    | _, _ => none
  | _ => none

theorem bytesOf_byteText (bytes : List UInt8) : bytesOf (byteText bytes) = bytes := by
  rw [bytesOf, byteText, List.map_map]
  refine List.map_id'' (fun byte => ?_) bytes
  have hbyte : byte.toNat < 256 := UInt8.toNat_lt byte
  have hvalid : byte.toNat.isValidChar := Or.inl (by omega)
  have hcode : (Char.ofNat byte.toNat).toNat = byte.toNat := by
    rw [Char.ofNat, dif_pos hvalid]
    rfl
  simp only [Function.comp_apply, hcode, UInt8.ofNat_toNat]

theorem content?_contentText (content : MemberContent) :
    content? (kindMark content) (contentText content) = some content := by
  cases content with
  | file bytes => rw [content?, kindMark, if_pos rfl, contentText, bytesOf_byteText]
  | directory => rfl
  | link target => exact congrArg (some ∘ MemberContent.link) String.ofList_toList

def memberLines (members : List Member) : List (List Char) :=
  members.flatMap fun m => [[kindMark m.content], m.name.toList, contentText m.content]

theorem lines?_members (members : List Member) :
    lines? (members.flatMap memberText) = some (memberLines members) := by
  induction members with
  | nil => rfl
  | cons m members ih =>
    simp only [List.flatMap_cons, memberText, List.append_assoc, lines?_lineText, ih]
    rfl

theorem members?_memberLines (members : List Member) : members? (memberLines members) = some members := by
  induction members with
  | nil => rfl
  | cons m members ih =>
    show members? ([kindMark m.content] :: m.name.toList :: contentText m.content :: memberLines members) = _
    simp [members?, content?_contentText, ih]

theorem ofText?_toText (a : Archive) : ofText? a.toText = some a := by
  obtain ⟨format, members⟩ := a
  have hformat : ArchiveFormat.ofName? format.name = some format := by
    cases format <;> decide
  simp [ofText?, toText, lines?_lineText, lines?_members, hformat, members?_memberLines]

def toBytes (a : Archive) : List UInt8 :=
  Text.utf8Encode a.toText

def ofBytes? (bytes : List UInt8) : Option Archive :=
  (Text.utf8Decode bytes).toOption.bind ofText?

/-- The fault of bytes that are no archive of a format. -/
def notOf : ArchiveFormat → LibraryFault
  | .zip => ⟨FaultClass.any.derive "BadZipFile", "File is not a zip file"⟩
  | .tarXz => ⟨(FaultClass.any.derive "TarError").derive "ReadError", "not an lzma file"⟩
  | .sevenZip => ⟨(FaultClass.any.derive "ArchiveError").derive "Bad7zFile", "not a 7z file"⟩

/-- The members of an archive of some format. -/
def membersOf (format : ArchiveFormat) (bytes : List UInt8) : Except LibraryFault (List Member) :=
  match ofBytes? bytes with
  | some a => if a.format = format then .ok a.members else .error (notOf format)
  | none => .error (notOf format)

/-- What unpacking the member of a name yields: no name of the archive may leave the directory. -/
def unpack (members : List Member) (name : String) : Except LibraryFault (List UInt8) :=
  match (members.filterMap Member.sevenZipName?).find? ArchiveFormat.leavesDirectory with
  | some bad => .error ⟨(notOf .sevenZip).faultClass, "Specified path is bad: " ++ bad⟩
  | none =>
    match (members.filter (·.name = name)).findSome? Member.bytes? with
    | some bytes => .ok bytes
    | none => .error ⟨.fileMissing, (FileFault.missing (Path.ofString name)).message⟩

end Archive

/-- Libraries that read and write archives and ledgers as texts. -/
abbrev FileFormats.textual : FileFormats where
  ledgerBytes l := Text.utf8Encode l.toText
  zip bytes := (Archive.membersOf .zip bytes).map fun members => members.filterMap Member.zipped?
  tarXz bytes := (Archive.membersOf .tarXz bytes).map fun members => members.map Member.tarEntry
  sevenZip bytes := (Archive.membersOf .sevenZip bytes).map fun members =>
    ⟨members.filterMap Member.sevenZipName?, Archive.unpack members⟩

end Reckoner
