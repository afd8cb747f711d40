/-!
JSON values. A string literal may hold escapes that name half of a surrogate pair; such a
literal is well formed but has no text.
-/

namespace CertificateAudit

/-- A JSON value. Numbers keep their spelling, and members their order and repetitions. -/
inductive Json where
  | null
  | bool (value : Bool)
  | number (spelling : List Char)
  | string (text : Option String)
  | array (items : List Json)
  | object (members : List (Option String × Json))

namespace Json

def ofText (text : String) : Json :=
  .string (some text)

def ofText? : Option String → Json
  | some text => ofText text
  | none => null

def ofInt (n : Int) : Json :=
  .number (toString n).toList

end Json

end CertificateAudit
