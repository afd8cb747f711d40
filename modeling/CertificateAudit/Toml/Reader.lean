import CertificateAudit.Toml.Scalar

/-!
Reading TOML documents: keys, values, and the lines of a document, each of which is blank, a
header, or a key with a value. `Toml.read?` gives the entries of the whole document.
-/

namespace CertificateAudit.Toml

/-- The limit on the parts of a key and on the nesting of values. -/
def depthLimit : Nat := 80

def skipSpace (text : List Char) : List Char :=
  text.dropWhile isSpace

def isBareKey (c : Char) : Bool :=
  ('a' ≤ c && c ≤ 'z') || ('A' ≤ c && c ≤ 'Z') || ('0' ≤ c && c ≤ '9') || c == '_' || c == '-'

def readKeyPart (text : List Char) : Option (String × List Char) :=
  match text with
  | '"' :: rest => (readBasic text.length rest).map fun (part, rest) => (String.ofList part, rest)
  | '\'' :: rest => (readLiteral rest).map fun (part, rest) => (String.ofList part, rest)
  | text =>
      let part := text.takeWhile isBareKey
      if part.isEmpty then none else some (String.ofList part, text.drop part.length)

def readKeyParts : (rounds : Nat) → List Char → Option (List String × List Char)
  | 0, _ => none
  | rounds + 1, text => do
      let (part, rest) ← readKeyPart (skipSpace text)
      match skipSpace rest with
      | '.' :: rest =>
          let (parts, rest) ← readKeyParts rounds rest
          pure (part :: parts, rest)
      | rest => pure ([part], rest)

def readKey (text : List Char) : Option ((List String × String) × List Char) := do
  let (parts, rest) ← readKeyParts text.length text
  if parts.length < depthLimit then pure ((parts.dropLast, ← parts.getLast?), rest) else none

def skipComment (text : List Char) : List Char :=
  text.dropWhile isPlain

def skipGap : (rounds : Nat) → List Char → Option (List Char)
  | 0, text => some text
  | rounds + 1, text =>
      match skipSpace text with
      | '#' :: rest => do
          let rest ← newLine? (skipComment rest)
          skipGap rounds rest
      | rest =>
          match newLine? rest with
          | some rest => skipGap rounds rest
          | none => some rest

def readItems (readValue : List Char → Option (Value × List Char)) :
    (rounds : Nat) → List Char → Option (List Value × List Char)
  | 0, _ => none
  | rounds + 1, text => do
      match ← skipGap text.length text with
      | ']' :: rest => pure ([], rest)
      | rest =>
          let (value, rest) ← readValue rest
          match ← skipGap rest.length rest with
          | ']' :: rest => pure ([value], rest)
          | ',' :: rest =>
              let (values, rest) ← readItems readValue rounds rest
              pure (value :: values, rest)
          | _ => none

/-- Read the entries of an inline table up to its closing brace; at least one is left. -/
def readInlineEntries (readValue : List Char → Option (Value × List Char)) :
    (rounds : Nat) → Table → List Char → Option (Table × List Char)
  | 0, _, _ => none
  | rounds + 1, table, text => do
      let ((path, key), rest) ← readKey text
      let rest ← expect? '=' rest
      let (value, rest) ← readValue (skipSpace rest)
      let table ← table.define path key value
      match skipSpace rest with
      | '\x7d' :: rest => pure (table, rest)
      | ',' :: rest => readInlineEntries readValue rounds table rest
      | _ => none

def readValue : (bound : Nat) → List Char → Option (Value × List Char)
  | 0, _ => none
  | bound + 1, text =>
      match text with
      | '[' :: rest =>
          if bound = 0 then none
          else (readItems (readValue bound) text.length rest).map
            fun (items, rest) => (.array items, rest)
      | '\x7b' :: rest =>
          if bound = 0 then none
          else
            match skipSpace rest with
            | '\x7d' :: rest => some (.table .inline [], rest)
            | _ => (readInlineEntries (readValue bound) text.length [] rest).map
                fun (entries, rest) => (.table .inline entries, rest)
      | text => readScalar text

/-- Pass over the rest of a line: blanks, a comment, and a line break or the end. -/
def endLine? (text : List Char) : Option (List Char) :=
  let rest := match skipSpace text with
    | '#' :: rest => skipComment rest
    | rest => rest
  if rest.isEmpty then some [] else newLine? rest

structure Draft where
  root : Table := []
  header : List String := []

def Draft.readHeader (draft : Draft) (text : List Char) : Option (Draft × List Char) := do
  match text with
  | '[' :: rest =>
      let ((path, key), rest) ← readKey rest
      let rest ← endLine? (← expect? ']' (← expect? ']' rest))
      pure (⟨← draft.root.openNext path key, path ++ [key]⟩, rest)
  | text =>
      let ((path, key), rest) ← readKey text
      let rest ← endLine? (← expect? ']' rest)
      pure (⟨← draft.root.openTable path key, path ++ [key]⟩, rest)

def Draft.readEntry (draft : Draft) (text : List Char) : Option (Draft × List Char) := do
  let ((path, key), rest) ← readKey text
  let (value, rest) ← readValue depthLimit (skipSpace (← expect? '=' rest))
  let rest ← endLine? rest
  pure ({ draft with root := ← draft.root.defineIn draft.header path key value }, rest)

def Draft.readLines : (rounds : Nat) → Draft → List Char → Option Draft
  | 0, draft, text => if text.isEmpty then some draft else none
  | rounds + 1, draft, text =>
      match skipSpace text with
      | [] => some draft
      | '#' :: rest => do
          let rest ← endLine? ('#' :: rest)
          Draft.readLines rounds draft rest
      | '[' :: rest => do
          let (draft, rest) ← draft.readHeader rest
          Draft.readLines rounds draft rest
      | rest =>
          match newLine? rest with
          | some rest => Draft.readLines rounds draft rest
          | none => do
              let (draft, rest) ← draft.readEntry rest
              Draft.readLines rounds draft rest

/-- Read a document, which a byte order mark may precede. -/
def read? (text : String) : Option Table :=
  let characters := match text.toList with
    | '\uFEFF' :: rest => rest
    | characters => characters
  (Draft.readLines (characters.length + 1) {} characters).map Draft.root

end CertificateAudit.Toml
