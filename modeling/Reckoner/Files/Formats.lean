import Reckoner.Files.Tree

/-! The libraries that read archives and databases. They are no part of the calculator: what the bytes of an
archive hold, or why they cannot be read, is a parameter, and so are the bytes of a ledger. Each library
shows an archive in its own way. -/

namespace Reckoner

inductive ArchiveFormat where
  | zip
  | tarXz
  | sevenZip
  deriving DecidableEq, Repr

/-- An entry of a zip archive. What it holds is read on its own and may be refused, when it is encrypted or
damaged. -/
structure ZipEntry where
  name : String
  content : Except LibraryFault (List UInt8)

/-- An entry of a compressed tar archive; directories and links are no files. -/
structure TarEntry where
  name : String
  isFile : Bool
  content : Except LibraryFault (List UInt8)

/-- A 7z archive, which shows its names alone. A name is unpacked to disk, and the file there is read. -/
structure SevenZipArchive where
  names : List String
  unpack : String → Except LibraryFault (List UInt8)

class FileFormats where
  ledgerBytes : Ledger → List UInt8
  zip : List UInt8 → Except LibraryFault (List ZipEntry)
  tarXz : List UInt8 → Except LibraryFault (List TarEntry)
  sevenZip : List UInt8 → Except LibraryFault SevenZipArchive

/-- The bytes of a file, whatever it holds. -/
def FileContent.bytes [FileFormats] : FileContent → List UInt8
  | plain bytes => bytes
  | ledger l => FileFormats.ledgerBytes l

end Reckoner
