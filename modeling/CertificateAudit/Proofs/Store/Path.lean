import CertificateAudit.Proofs.Text.Decimal
import CertificateAudit.Proofs.Text.Pieces
import CertificateAudit.Proofs.Text.RawText
import CertificateAudit.Store.Save

/-!
The names in the paths of a saving. A joined path has the names of both parts; the label of a
saving and its numbered files have the same names but the last, and the last names of two files
differ, so no two of them are the same file.
-/

namespace CertificateAudit.Store

open CertificateAudit.Calendar CertificateAudit.Text

namespace Path

variable {base path back : RawText}

theorem slash_mem_ofText {text : String} :
    slash ∈ (RawText.ofText text).bytes ↔ '/' ∈ text.toList :=
  Utf8.mem_encode_iff (by decide : '/'.toNat < 0x80)

theorem names_append_slash (front back : RawText) :
    names (front ++ "/" ++ back) = names front ++ names back := by
  have cut : (front ++ "/" ++ back : RawText).bytes = front.bytes ++ slash :: back.bytes := by
    have single : (RawText.ofText "/").bytes = [slash] := by decide
    rw [RawText.bytes_append, RawText.bytes_append, single, List.append_assoc,
      List.singleton_append]
  rw [names, cut, splitOn_append_cons, List.map_append, List.filter_append]
  rfl

theorem eq_empty_of_isEmpty (empty : base.isEmpty = true) : base = "" := by
  obtain ⟨bytes⟩ := base
  exact congrArg RawText.mk (List.isEmpty_iff.mp empty)

theorem names_join (relative : isAbsolute path = false) :
    names (join base path) = names base ++ names path := by
  have noNames : names "" = [] := by decide
  unfold join
  rw [relative, Bool.false_or]
  split
  case isTrue empty => rw [eq_empty_of_isEmpty empty, noNames, List.nil_append]
  case isFalse =>
    split
    case isTrue ends =>
      obtain ⟨stem, split⟩ := List.getLast?_eq_some_iff.mp ends
      have front : base = RawText.mk stem ++ "/" ++ "" := by
        obtain ⟨bytes⟩ := base
        have same : RawText.mk bytes = ⟨stem ++ [slash] ++ []⟩ := by
          rw [List.append_nil]
          exact congrArg RawText.mk split
        exact same
      have whole : base ++ path = RawText.mk stem ++ "/" ++ path := by
        obtain ⟨bytes⟩ := base
        exact congrArg (fun bytes => RawText.mk bytes ++ path) split
      rw [whole, names_append_slash, front, names_append_slash, noNames, List.append_nil]
    case isFalse => exact names_append_slash base path

theorem isAbsolute_join (relative : isAbsolute path = false) :
    isAbsolute (join base path) = isAbsolute base := by
  unfold join
  rw [relative, Bool.false_or]
  split
  case isTrue empty =>
    rw [eq_empty_of_isEmpty empty, relative]
    rfl
  case isFalse notEmpty =>
    have nonempty : base.bytes ≠ [] := fun none => notEmpty (List.isEmpty_iff.mpr none)
    obtain ⟨b, rest, cut⟩ := List.exists_cons_of_ne_nil nonempty
    split <;> simp [isAbsolute, RawText.bytes_append, cut]

theorem isText_join (isBase : base.IsText) (isPath : path.IsText) : (join base path).IsText := by
  unfold join
  split
  · exact isPath
  · split
    · exact RawText.isText_append isBase isPath
    · exact RawText.isText_append (RawText.isText_append isBase ⟨"/", rfl⟩) isPath

theorem isName_of_length {name : RawText} (long : 1 < name.bytes.length) :
    (name != "" && name != ".") = true := by
  have differs {other : RawText} (short : other.bytes.length ≤ 1) : (name != other) = true := by
    rw [bne_iff_ne]
    rintro rfl
    exact Nat.not_lt.mpr short long
  rw [differs (by decide), differs (by decide), Bool.and_self]

/-- An end of a path that has no slash belongs to the last name. -/
theorem exists_names_append (front : RawText) :
    ∃ (before : List RawText) (stem : RawText), ∀ back : RawText,
      slash ∉ back.bytes → 1 < back.bytes.length →
        names (front ++ back) = before ++ [stem ++ back] := by
  obtain ⟨pieces, last, split⟩ := exists_splitOn_append slash front.bytes
  refine ⟨(pieces.map RawText.mk).filter fun name => name != "" && name != ".", ⟨last⟩, ?_⟩
  intro back noSlash long
  have isName : 1 < (RawText.mk last ++ back).bytes.length := by
    rw [RawText.bytes_append, List.length_append]
    omega
  rw [names, RawText.bytes_append, split back.bytes noSlash, List.map_append,
    List.filter_append, List.map_singleton]
  exact congrArg _ (List.filter_cons_of_pos (isName_of_length isName))

theorem isAbsolute_of_not_mem (noSlash : slash ∉ path.bytes) : isAbsolute path = false := by
  apply beq_eq_false_iff_ne.mpr
  intro first
  exact noSlash (List.mem_of_mem_head? first)

theorem isAbsolute_append (noSlash : slash ∉ back.bytes) (path : RawText) :
    isAbsolute (path ++ back) = isAbsolute path := by
  obtain ⟨bytes⟩ := path
  cases bytes with
  | nil => exact isAbsolute_of_not_mem noSlash
  | cons b rest => rfl

theorem join_append (noSlash : slash ∉ back.bytes) (base path : RawText) :
    join base (path ++ back) = join base path ++ back := by
  unfold join
  rw [isAbsolute_append noSlash]
  split
  · rfl
  · split
    · rw [RawText.append_assoc]
    · rw [RawText.append_assoc, RawText.append_assoc, RawText.append_assoc]

theorem names_of_not_mem (noSlash : slash ∉ path.bytes) (long : 1 < path.bytes.length) :
    names path = [path] := by
  rw [names, splitOn_of_not_mem noSlash]
  exact List.filter_cons_of_pos (isName_of_length long)

end Path

/-- What a label has behind the domain. -/
def dating (date : Date) : String :=
  "_" ++ date.text

theorem label_eq_append (domain : String) (date : Date) :
    label domain date = domain ++ dating date := by
  simp only [label, dating, String.append_assoc]

/-- A date is written with digits, dashes and perhaps a plus sign. -/
theorem not_mem_chars {c : Char} (noDigit : Decimal.isDigit c = false) (noDash : c ≠ '-')
    (noPlus : c ≠ '+') (date : Date) : c ∉ date.chars := by
  have padded (width number : Nat) : c ∉ Decimal.padded width number := by
    intro membership
    cases noDigit.symm.trans (Decimal.isDigit_of_mem_padded membership)
  have year : c ∉ Date.yearText date.year := by
    unfold Date.yearText
    split
    · exact padded _ _
    · split <;> simp [padded, noDash, noPlus]
  simp [Date.chars, year, padded, noDash]

theorem slash_not_mem_dating (date : Date) : '/' ∉ (dating date).toList := by
  have day : '/' ∉ date.chars := not_mem_chars (by decide) (by decide) (by decide) date
  simp [dating, Date.text, day]

theorem one_lt_length_dating (date : Date) : 1 < (dating date).toList.length := by
  simp only [dating, Date.text, Date.chars, String.toList_append, String.toList_ofList,
    List.length_append, List.length_cons]
  omega

theorem slash_not_mem_label {domain : String} (noSlash : '/' ∉ domain.toList) (date : Date) :
    '/' ∉ (label domain date).toList := by
  rw [label_eq_append, String.toList_append, List.mem_append]
  exact not_or.mpr ⟨noSlash, slash_not_mem_dating date⟩

theorem one_lt_length_label (domain : String) (date : Date) :
    1 < (label domain date).toList.length := by
  rw [label_eq_append, String.toList_append, List.length_append]
  exact Nat.lt_add_left _ (one_lt_length_dating date)

/-- What a file name has behind the label. -/
def numbering (index : Nat) : String :=
  "_" ++ toString index ++ ".pem"

theorem fileName_eq_append (label : String) (index : Nat) :
    fileName label index = label ++ numbering index := by
  simp only [fileName, numbering, String.append_assoc]

theorem toList_numbering (index : Nat) :
    (numbering index).toList = '_' :: Nat.toDigits 10 index ++ ".pem".toList := by
  simp [numbering]

theorem slash_not_mem_numbering (index : Nat) : '/' ∉ (numbering index).toList := by
  rw [toList_numbering]
  intro membership
  simp at membership
  have isDigit := Nat.isDigit_of_mem_toDigits (by decide) (by decide) membership
  cases isDigit

theorem one_lt_length_numbering (index : Nat) : 1 < (numbering index).toList.length := by
  rw [toList_numbering]
  simp

theorem numbering_injective {index other : Nat} (same : numbering index = numbering other) :
    index = other := by
  rw [← String.toList_inj] at same
  simp only [toList_numbering, List.cons_append, List.cons.injEq, true_and,
    List.append_cancel_right_eq] at same
  rw [← Nat.ofDigitChars_ten_toDigits (n := index), same, Nat.ofDigitChars_ten_toDigits]

/-- A name of a file without a slash, as a part of a path. -/
theorem Path.usable_ofText {text : String} (noSlash : '/' ∉ text.toList)
    (long : 1 < text.toList.length) :
    Path.slash ∉ (RawText.ofText text).bytes ∧ 1 < (RawText.ofText text).bytes.length :=
  ⟨mt Path.slash_mem_ofText.mp noSlash,
    Nat.lt_of_lt_of_le long (Utf8.length_le_length_encode text.toList)⟩

theorem Path.names_ofText {text : String} (noSlash : '/' ∉ text.toList)
    (long : 1 < text.toList.length) : Path.names text = [RawText.ofText text] :=
  have usable := Path.usable_ofText noSlash long
  Path.names_of_not_mem usable.1 usable.2

theorem Path.isAbsolute_ofText {text : String} (noSlash : '/' ∉ text.toList) :
    Path.isAbsolute text = false :=
  Path.isAbsolute_of_not_mem (mt Path.slash_mem_ofText.mp noSlash)

theorem slash_not_mem_fileName {label : String} (noSlash : '/' ∉ label.toList) (index : Nat) :
    '/' ∉ (fileName label index).toList := by
  rw [fileName_eq_append, String.toList_append, List.mem_append]
  exact not_or.mpr ⟨noSlash, slash_not_mem_numbering index⟩

theorem one_lt_length_fileName (label : String) (index : Nat) :
    1 < (fileName label index).toList.length := by
  rw [fileName_eq_append, String.toList_append, List.length_append]
  exact Nat.lt_add_left _ (one_lt_length_numbering index)

/-- A raw name with what a label has behind the domain. -/
def dated (name : RawText) (date : Date) : RawText :=
  name ++ dating date

/-- A raw name with what a file name has behind the label. -/
def numbered (name : RawText) (index : Nat) : RawText :=
  name ++ numbering index

theorem ofText_label (domain : String) (date : Date) :
    RawText.ofText (label domain date) = dated domain date := by
  rw [label_eq_append, RawText.ofText_append, dated]

theorem ofText_fileName (label : String) (index : Nat) :
    RawText.ofText (fileName label index) = numbered label index := by
  rw [fileName_eq_append, RawText.ofText_append, numbered]

theorem numbered_injective {name : RawText} {index other : Nat}
    (same : numbered name index = numbered name other) : index = other :=
  numbering_injective (RawText.ofText_inj.mp (RawText.append_left_cancel same))

theorem fileName_injective {label : String} {index other : Nat}
    (same : RawText.ofText (fileName label index) = fileName label other) : index = other := by
  rw [ofText_fileName, ofText_fileName] at same
  exact numbered_injective same

/-- The names of a label and of its files are the same but for the last. -/
theorem exists_names_label (domain : RawText) (date : Date) :
    ∃ (before : List RawText) (stem : RawText),
      Path.names (dated domain date) = before ++ [dated stem date] ∧
      ∀ index, Path.names (numbered (dated domain date) index) =
        before ++ [numbered (dated stem date) index] := by
  obtain ⟨before, stem, names⟩ := Path.exists_names_append domain
  obtain ⟨noSlash, long⟩ :=
    Path.usable_ofText (slash_not_mem_dating date) (one_lt_length_dating date)
  refine ⟨before, stem, names _ noSlash long, ?_⟩
  intro index
  obtain ⟨noSlashBehind, _⟩ :=
    Path.usable_ofText (slash_not_mem_numbering index) (one_lt_length_numbering index)
  rw [numbered, numbered, dated, dated, RawText.append_assoc, RawText.append_assoc]
  apply names
  · rw [RawText.bytes_append, List.mem_append]
    exact not_or.mpr ⟨noSlash, noSlashBehind⟩
  · rw [RawText.bytes_append, List.length_append]
    exact Nat.lt_add_right _ long

theorem isAbsolute_numbered (name : RawText) (index : Nat) :
    Path.isAbsolute (numbered name index) = Path.isAbsolute name :=
  Path.isAbsolute_append (mt Path.slash_mem_ofText.mp (slash_not_mem_numbering index)) name

theorem join_fileName (directory : RawText) (label : String) (index : Nat) :
    Path.join directory (fileName label index) = numbered (Path.join directory label) index := by
  rw [ofText_fileName]
  exact Path.join_append (mt Path.slash_mem_ofText.mp (slash_not_mem_numbering index)) _ _

theorem isAbsolute_fileName (label : String) (index : Nat) :
    Path.isAbsolute (fileName label index) = Path.isAbsolute label := by
  rw [ofText_fileName, isAbsolute_numbered]

theorem join_label (base : RawText) (domain : String) (date : Date) :
    Path.join base (label domain date) = dated (Path.join base domain) date := by
  rw [ofText_label]
  exact Path.join_append (mt Path.slash_mem_ofText.mp (slash_not_mem_dating date)) _ _

/-- Numbered files have the same names but the last, and those differ in nothing but the number. -/
theorem exists_names_fileName (directory : RawText) (label : String) :
    ∃ (before : List RawText) (stem : RawText), ∀ index,
      Path.names (Path.join directory (fileName label index)) =
        before ++ [numbered stem index] := by
  obtain ⟨before, stem, last⟩ := Path.exists_names_append (Path.join directory label)
  refine ⟨before, stem, ?_⟩
  intro index
  obtain ⟨noSlash, long⟩ :=
    Path.usable_ofText (slash_not_mem_numbering index) (one_lt_length_numbering index)
  rw [join_fileName]
  exact last _ noSlash long

theorem exists_getLast?_names_fileName (directory : RawText) (label : String) :
    ∃ stem : RawText, ∀ index,
      (Path.names (Path.join directory (fileName label index))).getLast? =
        some (numbered stem index) := by
  obtain ⟨before, stem, names⟩ := exists_names_fileName directory label
  refine ⟨stem, ?_⟩
  intro index
  rw [names, List.getLast?_concat]

end CertificateAudit.Store
