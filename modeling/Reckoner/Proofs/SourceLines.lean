import Reckoner.Batch.Source
import Reckoner.Files.TextFormats
import Reckoner.Proofs.TreeFrame
import Reckoner.Proofs.TrimmedText
import Reckoner.Proofs.Utf8Text

/-! The expressions of a plain text. They are its trimmed lines, so each of them is a line in normal form,
and together they hold whatever of the text is not blank. A text in which they stand one below another is
read as the same expressions, so writing them back and reading again changes nothing
(`readExpressions_normalises`). -/

namespace Reckoner
namespace Batch

variable {t : FileTree} {p : Path} {bytes : List UInt8} {cs : List Char}

/-- Whether line ends become line feeds or not makes no difference to the lines. -/
theorem decodeLines_of_utf8Decode (h : Text.utf8Decode bytes = .ok cs) (kind : SourceKind) :
    decodeLines bytes kind = .ok ((Text.trimmedLines cs).map String.ofList) := by
  simp only [decodeLines, h]
  split_ifs with hfeeds
  · rw [Text.trimmedLines_withLineFeeds]
  · rfl

/-- So the lines of all kinds of sources are those of a plain text. -/
theorem decodeLines_eq_text (bytes : List UInt8) (kind : SourceKind) :
    decodeLines bytes kind = decodeLines bytes := by
  cases h : Text.utf8Decode bytes with
  | ok cs => rw [decodeLines_of_utf8Decode h, decodeLines_of_utf8Decode h]
  | error fault => simp only [decodeLines, h]

theorem decodeLines_of_fault {fault : Text.Utf8Fault} (h : Text.utf8Decode bytes = .error fault)
    (kind : SourceKind) : decodeLines bytes kind = .error (.notUtf8 fault) := by
  simp only [decodeLines, h]

theorem map_toList_ofList (ls : List (List Char)) : (ls.map String.ofList).map String.toList = ls := by
  rw [List.map_map]
  exact List.map_id'' (fun _ => String.toList_ofList) ls

section Library

variable [FileFormats]

/-- A source of a known kind is read in two steps: its bytes of text, and their lines. -/
theorem readExpressions_of_read {kind : SourceKind} {content : FileContent}
    (hkind : kindOf? (extension p) = some kind) (hread : t.read p = .ok content) :
    readExpressions t p = (textBytes kind content).bind fun bytes => decodeLines bytes kind := by
  simp only [readExpressions, hkind, hread]
  cases textBytes kind content <;> rfl

theorem readExpressions_text (hextension : extension p = ".txt") (hread : t.read p = .ok (.plain bytes)) :
    readExpressions t p = decodeLines bytes := by
  have hkind : kindOf? (extension p) = some .text := by
    rw [hextension]
    rfl
  rw [readExpressions_of_read hkind hread]
  rfl

/-- What is read from a plain text is a normal form of it: each expression is a line that is not empty,
with no blank at its ends and no break in it; nothing that is not blank is lost or moved; and written back
one below another, the expressions are read again. -/
theorem readExpressions_normalises (hextension : extension p = ".txt")
    (hread : t.read p = .ok (.plain bytes)) (htext : Text.utf8Decode bytes = .ok cs) :
    ∃ es, readExpressions t p = .ok es ∧
      (∀ e ∈ es, e ≠ "" ∧ Text.IsTrimmed e.toList ∧ Text.IsLine e.toList) ∧
      Text.inked (es.flatMap String.toList) = Text.inked cs ∧
      ∃ u, t.write p (.plain (Text.utf8Encode ("\n".intercalate es).toList)) = .ok u ∧
        readExpressions u p = .ok es := by
  have hlines := decodeLines_of_utf8Decode htext .text
  refine ⟨(Text.trimmedLines cs).map String.ofList, ?_, ?_, ?_, ?_⟩
  · rw [readExpressions_text hextension hread, hlines]
  · intro e he
    obtain ⟨l, hl, rfl⟩ := List.mem_map.mp he
    have hnormal := Text.isNormalLine_of_mem_trimmedLines hl
    rw [String.toList_ofList]
    refine ⟨fun hempty => hnormal.ne_nil ?_, hnormal.trimmed, hnormal.line⟩
    rw [← String.toList_ofList (l := l), hempty]
    rfl
  · rw [List.flatMap_def, map_toList_ofList, Text.inked_flatten_trimmedLines]
  · have hjoined : ("\n".intercalate ((Text.trimmedLines cs).map String.ofList)).toList =
        ['\n'].intercalate (Text.trimmedLines cs) := by
      rw [String.toList_intercalate, map_toList_ofList]
      rfl
    obtain ⟨u, hwrite, hreread⟩ := FileTree.exists_write_of_read hread
      (.plain (Text.utf8Encode ("\n".intercalate ((Text.trimmedLines cs).map String.ofList)).toList))
    refine ⟨u, hwrite, ?_⟩
    rw [readExpressions_text hextension hreread,
      decodeLines_of_utf8Decode (Text.utf8Decode_utf8Encode _) .text, hjoined,
      Text.trimmedLines_intercalate fun l hl => Text.isNormalLine_of_mem_trimmedLines hl]

end Library

attribute [local instance] FileFormats.textual

theorem readExpressions_normalises_mixed_breaks :
    let text := "\t1+1 \r\n\r \x0c2*2\u2028\u00a03\x1f\n"
    let files : FileTree := ⟨[(["sums.txt"], .file (.plain (Text.utf8Encode text.toList)))], []⟩
    readExpressions files (Path.ofString "sums.txt") = .ok ["1+1", "2*2", "3"] ∧
      ∃ u, files.write (Path.ofString "sums.txt") (.plain (Text.utf8Encode "1+1\n2*2\n3".toList)) = .ok u ∧
        readExpressions u (Path.ofString "sums.txt") = .ok ["1+1", "2*2", "3"] := by
  intro text files
  have hextension : extension (Path.ofString "sums.txt") = ".txt" := by decide +kernel
  have hread : files.read (Path.ofString "sums.txt") = .ok (.plain (Text.utf8Encode text.toList)) := rfl
  have htext := Text.utf8Decode_utf8Encode text.toList
  have hlines : readExpressions files (Path.ofString "sums.txt") = .ok ["1+1", "2*2", "3"] := by
    rw [readExpressions_text hextension hread, decodeLines_of_utf8Decode htext .text]
    decide +kernel
  obtain ⟨es, hes, -, -, hagain⟩ := readExpressions_normalises hextension hread htext
  rw [hlines, Except.ok.injEq] at hes
  subst hes
  exact ⟨hlines, hagain⟩

end Batch
end Reckoner
