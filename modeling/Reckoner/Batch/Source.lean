import Reckoner.Files.Formats
import Reckoner.Text.Blank
import Reckoner.Text.Utf8

/-! The expressions of a batch: the lines of a text file, or of the first text file of an archive, that
hold more than blanks. The extensions of the path tell what the file has to be. Each format of archives has
a reader of its own, since its library shows an archive in its own way. -/

namespace Reckoner

inductive SourceFault where
  | file (fault : FileFault)
  | unsupported (extension : String)
  | noTextFile (format : ArchiveFormat)
  | library (fault : LibraryFault)
  | notUtf8 (fault : Text.Utf8Fault)
  deriving DecidableEq, Repr

def ArchiveFormat.extension : ArchiveFormat → String
  | zip => ".zip"
  | tarXz => ".tar.xz"
  | sevenZip => ".7z"

namespace SourceFault

def faultClass : SourceFault → FaultClass
  | file fault => fault.faultClass
  | unsupported _ | noTextFile _ => .value
  | library fault => fault.faultClass
  | notUtf8 _ => .decoding

def message : SourceFault → String
  | file fault => fault.message
  | unsupported extension => "📄❌ Unsupported archive format: " ++ extension
  | noTextFile format =>
    "📄❌ No .txt file found in " ++ String.ofList (format.extension.toList.drop 1) ++ " archive"
  | library fault => fault.message
  | notUtf8 fault => fault.message

end SourceFault

namespace Batch

inductive SourceKind where
  | text
  | archive (format : ArchiveFormat)
  deriving DecidableEq, Repr

/-- The extension of a path that tells its kind: the last two when they are those of a compressed tar
archive, and the last one otherwise. -/
def extension (p : Path) : String :=
  let extensions := p.extensions
  if extensions.drop (extensions.length - 2) = [".tar", ".xz"] then ".tar.xz" else p.lastExtension

def kindOf? (extension : String) : Option SourceKind :=
  if extension = ".txt" then some .text
  else
    ([.zip, .tarXz, .sevenZip].find? fun format : ArchiveFormat => format.extension = extension).map
      .archive

def isTextName (name : String) : Bool :=
  ".txt".toList.isSuffixOf name.toList

/-- The contents of the first text file of a zip archive. It is read by its name, which stands for the last
entry that has it. -/
def zipText (entries : List ZipEntry) : Except SourceFault (List UInt8) :=
  match entries.find? fun e => isTextName e.name with
  | none => .error (.noTextFile .zip)
  | some first =>
    ((entries.filter fun e => e.name = first.name).getLastD first).content.mapError .library

/-- The contents of the first text file of a compressed tar archive; a directory or a link of such a name is
passed over. -/
def tarXzText (entries : List TarEntry) : Except SourceFault (List UInt8) :=
  match entries.find? fun e => e.isFile && isTextName e.name with
  | none => .error (.noTextFile .tarXz)
  | some first => first.content.mapError .library

/-- The contents of the first text file of a 7z archive, unpacked by its name. -/
def sevenZipText (a : SevenZipArchive) : Except SourceFault (List UInt8) :=
  match a.names.find? isTextName with
  | none => .error (.noTextFile .sevenZip)
  | some name => (a.unpack name).mapError .library

section Formats

variable [FileFormats]

def archiveText (format : ArchiveFormat) (bytes : List UInt8) : Except SourceFault (List UInt8) :=
  match format with
  | .zip => ((FileFormats.zip bytes).mapError .library).bind zipText
  | .tarXz => ((FileFormats.tarXz bytes).mapError .library).bind tarXzText
  | .sevenZip => ((FileFormats.sevenZip bytes).mapError .library).bind sevenZipText

/-- The bytes of text that a file holds, as a source of some kind. -/
def textBytes (kind : SourceKind) (content : FileContent) : Except SourceFault (List UInt8) :=
  match kind with
  | .text => .ok content.bytes
  | .archive format => archiveText format content.bytes

end Formats

/-- Whether the text of a source is read from a file on disk, and its line ends become line feeds: a
plain text, and a member that 7z has unpacked. The members of the other archives are read as they are. -/
def SourceKind.hasLineFeeds : SourceKind → Bool
  | .text | .archive .sevenZip => true
  | .archive .zip | .archive .tarXz => false

/-- The lines of UTF-8 bytes that hold more than blanks, trimmed; the bytes are those of a plain text
unless another kind of source is given. -/
def decodeLines (bytes : List UInt8) (kind : SourceKind := .text) :
    Except SourceFault (List String) :=
  match Text.utf8Decode bytes with
  | .ok cs =>
    let cs := if kind.hasLineFeeds then Text.withLineFeeds cs else cs
    .ok ((Text.trimmedLines cs).map String.ofList)
  | .error fault => .error (.notUtf8 fault)

def readExpressions [FileFormats] (t : FileTree) (p : Path) : Except SourceFault (List String) :=
  match kindOf? (extension p) with
  | none => .error (.unsupported (extension p))
  | some kind =>
    match t.read p with
    | .error fault => .error (.file fault)
    | .ok content =>
      match textBytes kind content with
      | .error fault => .error fault
      | .ok bytes => decodeLines bytes kind

end Batch

end Reckoner
