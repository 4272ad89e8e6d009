import Mathlib.Data.List.Nodup
import Reckoner.Proofs.SourceLines

/-! Sources that are archives. What is read of an archive is its first regular file with the name of a text:
directories and links are passed over, in each format in its own way, and where no two members have one name
the text file that a zip archive finds by its name is the first one itself. The lines of a member are those of
its bytes in a plain text, since line ends that are translated in one format and not in another are breaks
either way. So an expression does not depend on whether it is packed in zip or tar. In 7z it is read from what
the library unpacks, and is not read at all when the library refuses that (`readExpressions_of_members`), as it
does for a name that leaves the directory (`readExpressions_of_parent_name`). -/

namespace Reckoner

variable {members : List Member} {m : Member} {bytes : List UInt8}

namespace Member

/-- Whether a member is a regular file with the name of a text. -/
def isText (m : Member) : Bool :=
  m.bytes?.isSome && Batch.isTextName m.name

theorem bytes?_of_content (h : m.content = .file bytes) : m.bytes? = some bytes := by
  rw [bytes?, h]

theorem isTextName_of_isText (h : m.isText = true) : Batch.isTextName m.name = true :=
  (Bool.and_eq_true_iff.mp h).2

/-- The name of a directory in a zip archive is that of no text. -/
theorem isTextName_slash (name : String) : Batch.isTextName (name ++ "/") = false := by
  rw [Batch.isTextName, Bool.eq_false_iff, Ne, List.isSuffixOf_iff_suffix, String.toList_append]
  intro hsuffix
  have hlast := hsuffix.getLast (by decide)
  rw [List.getLast_append_of_ne_nil _ (by decide)] at hlast
  exact absurd hlast (by decide)

/-! Each library shows the first text file first. -/

theorem find?_zipEntries : (members.filterMap zipped?).find? (fun e => Batch.isTextName e.name) =
    (members.find? isText).bind zipped? := by
  have hentry : ∀ m : Member, m.zipped?.any (fun e => Batch.isTextName e.name) = m.isText := by
    intro m
    rw [zipped?, isText, bytes?]
    cases m.content with
    | file bytes => rfl
    | directory => exact isTextName_slash m.name
    | link target => rfl
  rw [List.find?_filterMap]
  exact congrArg (fun text => (members.find? text).bind zipped?) (funext hentry)

theorem find?_tarEntries :
    (members.map tarEntry).find? (fun e => e.isFile && Batch.isTextName e.name) =
      (members.find? isText).map tarEntry :=
  List.find?_map

theorem find?_sevenZipNames : (members.filterMap sevenZipName?).find? Batch.isTextName =
    (members.find? isText).bind sevenZipName? := by
  have hname : ∀ m : Member, m.sevenZipName?.any Batch.isTextName = m.isText := by
    intro m
    rw [sevenZipName?, isText]
    cases m.bytes? <;> rfl
  rw [List.find?_filterMap]
  exact congrArg (fun text => (members.find? text).bind sevenZipName?) (funext hname)

/-- An entry of a zip archive that has the name of a text file is that file, where names differ. -/
theorem content_of_zipped? (hdistinct : (members.map name).Nodup) (hm : m ∈ members)
    (htext : m.isText = true) (hcontent : m.content = .file bytes) {e : ZipEntry}
    (he : e ∈ members.filterMap zipped?) (hname : e.name = m.name) : e.content = .ok bytes := by
  obtain ⟨other, hother, hentry⟩ := List.mem_filterMap.mp he
  rw [zipped?] at hentry
  cases hkind : other.content with
  | file bytes' =>
      rw [hkind] at hentry
      cases hentry
      have hsame : other = m := List.inj_on_of_nodup_map hdistinct hother hm hname
      rw [hsame, hcontent] at hkind
      cases hkind
      rfl
  | directory =>
      rw [hkind] at hentry
      cases hentry
      have hslash := isTextName_slash other.name
      rw [show other.name ++ "/" = m.name from hname, isTextName_of_isText htext] at hslash
      cases hslash
  | link target =>
      rw [hkind] at hentry
      cases hentry

end Member

namespace Batch

theorem zipText_of_members (hdistinct : (members.map Member.name).Nodup)
    (hfirst : members.find? Member.isText = some m) (hcontent : m.content = .file bytes) :
    zipText (members.filterMap Member.zipped?) = .ok bytes := by
  have hentry : m.zipped? = some ⟨m.name, .ok bytes⟩ := by
    rw [Member.zipped?, hcontent]
  simp only [zipText, Member.find?_zipEntries, hfirst, Option.bind_some, hentry]
  have hread : ∀ e ∈ ⟨m.name, .ok bytes⟩ :: (members.filterMap Member.zipped?).filter
      (fun e => e.name = m.name), e.content = .ok bytes := by
    intro e he
    rcases List.mem_cons.mp he with rfl | he
    · rfl
    · obtain ⟨hmem, hname⟩ := List.mem_filter.mp he
      exact Member.content_of_zipped? hdistinct (List.mem_of_find?_eq_some hfirst)
        (List.find?_some hfirst) hcontent hmem (of_decide_eq_true hname)
  rw [hread _ List.getLastD_mem_cons]
  rfl

theorem tarXzText_of_members (hfirst : members.find? Member.isText = some m)
    (hcontent : m.content = .file bytes) : tarXzText (members.map Member.tarEntry) = .ok bytes := by
  simp only [tarXzText, Member.find?_tarEntries, hfirst, Option.map_some, Member.tarEntry,
    Member.bytes?_of_content hcontent]
  rfl

theorem sevenZipText_of_members {unpack : String → Except LibraryFault (List UInt8)}
    (hfirst : members.find? Member.isText = some m) (hcontent : m.content = .file bytes) :
    sevenZipText ⟨members.filterMap Member.sevenZipName?, unpack⟩ = (unpack m.name).mapError .library := by
  have hname : m.sevenZipName? = some m.name := by
    rw [Member.sevenZipName?, Member.bytes?_of_content hcontent]
    rfl
  simp only [sevenZipText, Member.find?_sevenZipNames, hfirst, Option.bind_some, hname]

section Library

variable [FileFormats] {format : ArchiveFormat} {t : FileTree} {p : Path} {content : FileContent}
  {packed : List UInt8}

/-- Bytes are an archive of members, without those of a kind that the format does not have: so its library
shows them. -/
def Holds (format : ArchiveFormat) (packed : List UInt8) (members : List Member) : Prop :=
  match format with
  | .zip => FileFormats.zip packed = .ok (members.filterMap Member.zipped?)
  | .tarXz => FileFormats.tarXz packed = .ok (members.map Member.tarEntry)
  | .sevenZip =>
    ∃ unpack, FileFormats.sevenZip packed = .ok ⟨members.filterMap Member.sevenZipName?, unpack⟩

/-- What is read of the first text file of an archive of some format: its bytes, or what the library unpacks. -/
theorem archiveText_of_first (hholds : Holds format packed members)
    (hdistinct : (members.map Member.name).Nodup) (hfirst : members.find? Member.isText = some m)
    (hcontent : m.content = .file bytes) :
    (format ≠ .sevenZip → archiveText format packed = .ok bytes) ∧
      (format = .sevenZip → archiveText format packed =
        ((FileFormats.sevenZip packed).bind fun a => a.unpack m.name).mapError .library) := by
  cases format with
  | zip =>
      refine ⟨fun _ => ?_, fun h => by cases h⟩
      rw [archiveText, show FileFormats.zip packed = _ from hholds]
      exact zipText_of_members hdistinct hfirst hcontent
  | tarXz =>
      refine ⟨fun _ => ?_, fun h => by cases h⟩
      rw [archiveText, show FileFormats.tarXz packed = _ from hholds]
      exact tarXzText_of_members hfirst hcontent
  | sevenZip =>
      obtain ⟨unpack, hopened⟩ := hholds
      refine ⟨fun h => absurd rfl h, fun _ => ?_⟩
      rw [archiveText, hopened]
      exact sevenZipText_of_members hfirst hcontent

theorem archiveText_of_none (hholds : Holds format packed members)
    (hnone : members.find? Member.isText = none) :
    archiveText format packed = .error (.noTextFile format) := by
  cases format with
  | zip =>
      rw [archiveText, show FileFormats.zip packed = _ from hholds]
      show zipText _ = _
      simp only [zipText, Member.find?_zipEntries, hnone, Option.bind_none]
  | tarXz =>
      rw [archiveText, show FileFormats.tarXz packed = _ from hholds]
      show tarXzText _ = _
      simp only [tarXzText, Member.find?_tarEntries, hnone, Option.map_none]
  | sevenZip =>
      obtain ⟨unpack, hopened⟩ := hholds
      rw [archiveText, hopened]
      show sevenZipText _ = _
      simp only [sevenZipText, Member.find?_sevenZipNames, hnone, Option.bind_none]

theorem readExpressions_archive (hextension : extension p = format.extension)
    (hread : t.read p = .ok content) :
    readExpressions t p = (archiveText format content.bytes).bind decodeLines := by
  have hkind : kindOf? (extension p) = some (.archive format) := by
    rw [hextension]
    cases format <;> rfl
  rw [readExpressions_of_read hkind hread]
  exact congrArg (archiveText format content.bytes).bind
    (funext fun bytes => decodeLines_eq_text bytes (.archive format))

/-- The expressions of a zip or a tar archive are those of its first text file as a plain text, or they fail
to be read for the same fault in the same bytes. Those of a 7z archive are read from the bytes that the library
unpacks under the name of that file, in the same way, or the fault of the library is theirs. And without a
text file there is one fault in every format. -/
theorem readExpressions_of_members (hextension : extension p = format.extension)
    (hread : t.read p = .ok content) (hholds : Holds format content.bytes members)
    (hdistinct : (members.map Member.name).Nodup) :
    (∀ m bytes, members.find? Member.isText = some m → m.content = .file bytes →
      (format ≠ .sevenZip →
        ((∃ es, readExpressions t p = .ok es) ∨ ∃ fault, readExpressions t p = .error (.notUtf8 fault)) ∧
        ∀ u q, extension q = ".txt" → u.read q = .ok (.plain bytes) →
          readExpressions t p = readExpressions u q) ∧
      (format = .sevenZip →
        let unpacked := (FileFormats.sevenZip content.bytes).bind fun a => a.unpack m.name
        (∀ fault, unpacked = .error fault → readExpressions t p = .error (.library fault)) ∧
        ∀ bytes', unpacked = .ok bytes' →
          ∀ u q, extension q = ".txt" → u.read q = .ok (.plain bytes') →
            readExpressions t p = readExpressions u q)) ∧
    (members.find? Member.isText = none →
      readExpressions t p = .error (.noTextFile format) ∧
        "No .txt file found".toList <:+: (SourceFault.noTextFile format).message.toList) := by
  have harchive := readExpressions_archive hextension hread
  refine ⟨fun m bytes hfirst hcontent => ?_, fun hnone => ⟨?_, ?_⟩⟩
  · obtain ⟨hpacked, hunpacked⟩ := archiveText_of_first hholds hdistinct hfirst hcontent
    refine ⟨fun hformat => ?_, fun hformat => ⟨fun fault hfault => ?_, fun bytes' hbytes' u q hq hplain => ?_⟩⟩
    · have hlines : readExpressions t p = decodeLines bytes := by
        rw [harchive, hpacked hformat]
        rfl
      refine ⟨?_, fun u q hq hplain => hlines.trans (readExpressions_text hq hplain).symm⟩
      rw [hlines]
      cases hdecode : Text.utf8Decode bytes with
      | ok cs => exact Or.inl ⟨_, decodeLines_of_utf8Decode hdecode .text⟩
      | error fault => exact Or.inr ⟨fault, decodeLines_of_fault hdecode .text⟩
    · rw [harchive, hunpacked hformat, hfault]
      rfl
    · rw [harchive, hunpacked hformat, hbytes', readExpressions_text hq hplain]
      rfl
  · rw [harchive, archiveText_of_none hholds hnone]
    rfl
  · cases format <;> decide +kernel

end Library

section Textual

attribute [local instance] FileFormats.textual

/-- Members that are packed as a text are what is read of it. -/
theorem holds_textual (format : ArchiveFormat) (members : List Member) :
    Holds format (Archive.toBytes ⟨format, members⟩) members := by
  have hmembers : Archive.membersOf format (Archive.toBytes ⟨format, members⟩) = .ok members := by
    rw [Archive.membersOf, Archive.ofBytes?, Archive.toBytes, Text.utf8Decode_utf8Encode]
    simp only [Except.toOption, Option.bind_some, Archive.ofText?_toText, if_true]
  cases format with
  | zip =>
      rw [Holds]
      simp only [FileFormats.zip, hmembers]
      rfl
  | tarXz =>
      rw [Holds]
      simp only [FileFormats.tarXz, hmembers]
      rfl
  | sevenZip =>
      refine ⟨Archive.unpack members, ?_⟩
      simp only [FileFormats.sevenZip, hmembers]
      rfl

theorem readExpressions_of_members_in_tar :
    let bytes := Text.utf8Encode "1+1\r2*2\r\n".toList
    let members : List Member := [⟨"d.txt", .directory⟩, ⟨"l.txt", .link "d/b.txt"⟩, ⟨"notes.md", .file []⟩,
      ⟨"d/b.txt", .file bytes⟩, ⟨"z.txt", .file [0xFF]⟩]
    let packed := Archive.toBytes ⟨.tarXz, members⟩
    let files : FileTree := ⟨[(["o.tar.xz"], .file (.plain packed)), (["o.txt"], .file (.plain bytes))], []⟩
    Holds .tarXz packed members ∧
      readExpressions files (Path.ofString "o.tar.xz") = readExpressions files (Path.ofString "o.txt") := by
  intro bytes members packed files
  have hextension : extension (Path.ofString "o.tar.xz") = ArchiveFormat.tarXz.extension := by decide +kernel
  have hholds := holds_textual .tarXz members
  have hread : files.read (Path.ofString "o.tar.xz") = .ok (.plain packed) := rfl
  have hmembers := (readExpressions_of_members hextension hread hholds (by decide)).1
    ⟨"d/b.txt", .file bytes⟩ bytes (by decide) rfl
  exact ⟨hholds, (hmembers.1 (by decide)).2 files (Path.ofString "o.txt") (by decide +kernel) rfl⟩

/-- A 7z archive is not read when the name of its text file steps to a parent. -/
theorem readExpressions_of_parent_name :
    let bytes := Text.utf8Encode "1+1".toList
    let members : List Member := [⟨"a/../b.txt", .file bytes⟩]
    let files : FileTree := ⟨[(["o.7z"], .file (.plain (Archive.toBytes ⟨.sevenZip, members⟩))),
      (["o.zip"], .file (.plain (Archive.toBytes ⟨.zip, members⟩))), (["o.txt"], .file (.plain bytes))], []⟩
    readExpressions files (Path.ofString "o.txt") = .ok ["1+1"] ∧
      readExpressions files (Path.ofString "o.zip") = .ok ["1+1"] ∧
      readExpressions files (Path.ofString "o.7z") =
        .error (.library ⟨⟨"Bad7zFile", ["ArchiveError", "Exception"]⟩, "Specified path is bad: a/../b.txt"⟩) := by
  decide +kernel

end Textual
end Batch
end Reckoner
