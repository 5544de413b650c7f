/-
Forms: documents read as records.

A form says how a document is read as something of a type.  Reading goes on
after a part that does not fit, so everything that is wrong with a document
is reported at once.  A null reads as nothing and leaves what was there.

* `Form.text`, `Form.bool`, `Form.int`, `Form.plain` — scalars and free data;
* `Form.list`, `Form.dict`, `Form.opt` — several of a kind, or perhaps none;
* `Form.record` — members with known names.
-/
import Reactive.Value.Plain

namespace Reactive

/-! ### What does not fit -/

/-- Why a part of a document does not fit its form. -/
inductive Misfit where
  | unknownField (name type : Text)
  | repeatedKey (name : Text)
  /-- A document of another kind; `shown` is the scalar itself. -/
  | wrongKind (kind : Text) (shown : Option Text) (type : Text)
deriving DecidableEq

/-- The front of a scalar that is longer than ten bytes. -/
def Misfit.excerpt (t : Text) : Text := if t.length > 10 then t.take 7 ++ "..." else t

/-- The wording of a misfit.  A document is one line. -/
def Misfit.message : Misfit → Text
  | .unknownField n type => "line 1: field " ++ n ++ " not found in type " ++ type
  | .repeatedKey n => "line 1: mapping key " ++ Text.quote n ++ " already defined at line 1"
  | .wrongKind kind shown type =>
    let value : Text := match shown with
      | none => []
      | some t => " `" ++ excerpt t ++ "`"
    "line 1: cannot unmarshal " ++ kind ++ value ++ " into " ++ type

/-- Why a text does not give a record. -/
inductive DocumentError where
  | empty
  | unreadable (e : JsonError)
  | misfits (ms : List Misfit)

/-- The wording of a failure; `whole` is said of an empty text. -/
def DocumentError.message (whole : Text) : DocumentError → Text
  | .empty => whole
  | .unreadable e => "yaml: " ++ e.message
  | .misfits ms => "yaml: unmarshal errors:\n  " ++ Text.join "\n  " (ms.map Misfit.message)

/-! ### Scalars -/

/-- What a number of a document is: an integer if it fits 64 bits, with or without a sign, else a
floating-point number, else only a text. -/
def Plain.ofNumeral (t : Text) : Plain :=
  match Numeral.readInt? 10 t with
  | some i => .int (Int64.ofInt i)
  | none =>
    match if t.all Text.isDigit then Numeral.readNat? 10 t else none with
    | some n => if n < pow2 64 then .int (Int64.ofNat n) else ofFloat t
    | none => ofFloat t
where
  /-- A numeral that is no integer. -/
  ofFloat (t : Text) : Plain :=
    match Numeral.readFloat? t with
    | some f => .float f
    | none => .str t

mutual

/-- The data of a document. -/
def Plain.ofDocument : Json → Plain
  | .null => .null
  | .bool b => .bool b
  | .number t => .ofNumeral t
  | .str s => .str s
  | .arr js => .list (ofDocuments js)
  | .obj ms => .dict (Plain.sortEntries (ofDocumentMembers ms))

/-- The data of several documents. -/
def Plain.ofDocuments : List Json → List Plain
  | [] => []
  | j :: r => ofDocument j :: ofDocuments r

/-- The data of members. -/
def Plain.ofDocumentMembers : List (Text × Json) → List (Text × Plain)
  | [] => []
  | (k, j) :: r => (k, ofDocument j) :: ofDocumentMembers r

end

/-- The kind of a document in messages. -/
def Json.kindTag (j : Json) : Text :=
  match j with
  | .null => "!!null"
  | .bool _ => "!!bool"
  | .number t =>
    match Plain.ofNumeral t with
    | .int _ => "!!int"
    | .float _ => "!!float"
    | _ => "!!str"
  | .str _ => "!!str"
  | .arr _ => "!!seq"
  | .obj _ => "!!map"

/-- The text of a scalar. -/
def Json.scalar? (j : Json) : Option Text :=
  match j with
  | .null => some "null"
  | .bool b => some (if b then "true" else "false")
  | .number t => some t
  | .str s => some s
  | .arr _ | .obj _ => none

/-- A document that does not fit a type. -/
def Misfit.of (j : Json) (type : Text) : Misfit := .wrongKind j.kindTag j.scalar? type

/-! ### Repeated names -/

/-- The names that stand again among later names, one for each time. -/
def repeatedNames : List Text → List Text
  | [] => []
  | n :: r => r.filter (· = n) ++ repeatedNames r

mutual

/-- The repeated names of a document; a dictionary with one is not looked into. -/
def Json.repeated : Json → List Misfit
  | .arr js => repeatedItems js
  | .obj ms =>
    match repeatedNames (ms.map Prod.fst) with
    | [] => repeatedMembers ms
    | ns => ns.map .repeatedKey
  | _ => []

/-- The repeated names of several documents. -/
def Json.repeatedItems : List Json → List Misfit
  | [] => []
  | j :: r => repeated j ++ repeatedItems r

/-- The repeated names inside members. -/
def Json.repeatedMembers : List (Text × Json) → List Misfit
  | [] => []
  | (_, j) :: r => repeated j ++ repeatedMembers r

end

/-! ### Forms -/

/-- What was read, if anything, and what did not fit. -/
structure Reading (α : Type) where
  found : Option α
  misfits : List Misfit := []

/-- A reading with what was found changed. -/
def Reading.map {α β : Type} (f : α → β) (r : Reading α) : Reading β := ⟨r.found.map f, r.misfits⟩

/-- How a document is read, and the name of the type in messages. -/
structure Form (α : Type) where
  type : Text
  read : Json → Reading α

namespace Form

variable {α β : Type}

/-- Nothing was read and nothing is wrong. -/
def nothing : Reading α := ⟨none, []⟩

/-- A document that does not fit. -/
def refuse (type : Text) (j : Json) : Reading α := ⟨none, [.of j type]⟩

/-- A text; any other scalar is taken as it is written. -/
def text : Form Text where
  type := "string"
  read
    | .null => nothing
    | .bool b => ⟨some (if b then "true" else "false"), []⟩
    | .number t => ⟨some t, []⟩
    | .str s => ⟨some s, []⟩
    | j => refuse "string" j

/-- Words that stand for true. -/
def yesWords : List Text := ["y", "Y", "yes", "Yes", "YES", "on", "On", "ON"]

/-- Words that stand for false. -/
def noWords : List Text := ["n", "N", "no", "No", "NO", "off", "Off", "OFF"]

/-- A truth value, or a word for one. -/
def bool : Form Bool where
  type := "bool"
  read
    | .null => nothing
    | .bool b => ⟨some b, []⟩
    | .str s =>
      if yesWords.contains s then ⟨some true, []⟩
      else if noWords.contains s then ⟨some false, []⟩
      else refuse "bool" (.str s)
    | j => refuse "bool" j

/-- An integer of 64 bits; a fraction is cut off. -/
def int : Form Int where
  type := "int"
  read
    | .null => nothing
    | .number t =>
      match Numeral.readInt? 10 t, Plain.ofNumeral t with
      | some i, _ => ⟨some i, []⟩
      | none, .float f =>
        if f ≤ 9223372036854775807 then ⟨some f.toInt64.toInt, []⟩ else refuse "int" (.number t)
      | none, _ => refuse "int" (.number t)
    | j => refuse "int" j

/-- Data of any kind. -/
def plain : Form Plain where
  type := "interface \x7b\x7d"
  read j :=
    match j.repeated with
    | [] => ⟨some (.ofDocument j), []⟩
    | ms => ⟨none, ms⟩

/-- The items that were read; one that is null or does not fit is left out. -/
def readItems (f : Form α) : List Json → List α × List Misfit
  | [] => ([], [])
  | j :: r =>
    let here := f.read j
    let rest := readItems f r
    (here.found.toList ++ rest.1, here.misfits ++ rest.2)

/-- Several of a kind; null is none of them. -/
def list (f : Form α) : Form (List α) where
  type := "[]" ++ f.type
  read
    | .null => ⟨some [], []⟩
    | .arr js => let r := readItems f js; ⟨some r.1, r.2⟩
    | j => refuse ("[]" ++ f.type) j

/-- The members that were read; `zero` stands for a null, one that does not fit is left out. -/
def readMembers (f : Form α) (zero : α) : List (Text × Json) → Dict α × List Misfit
  | [] => ([], [])
  | (k, j) :: r =>
    let here := f.read j
    let rest := readMembers f zero r
    let entry : Dict α := match here.found, j with
      | some a, _ => [(k, a)]
      | none, .null => [(k, zero)]
      | none, _ => []
    (entry ++ rest.1, here.misfits ++ rest.2)

/-- Members with names of any kind; null is none of them. -/
def dict (f : Form α) (zero : α) : Form (Dict α) where
  type := "map[string]" ++ f.type
  read
    | .null => ⟨some [], []⟩
    | .obj ms =>
      match repeatedNames (ms.map Prod.fst) with
      | [] => let r := readMembers f zero ms; ⟨some r.1, r.2⟩
      | ns => ⟨none, ns.map .repeatedKey⟩
    | j => refuse ("map[string]" ++ f.type) j

/-- Perhaps nothing, which null stands for. -/
def opt (f : Form α) : Form (Option α) where
  type := f.type
  read
    | .null => ⟨some none, []⟩
    | j => (f.read j).map some

/-- A member of a record: its name, and the change of the record that a document asks for. -/
structure Field (α : Type) where
  name : Text
  read : Json → Reading (α → α)

/-- A member that is read with a form and then put into the record. -/
def Field.of (name : Text) (f : Form β) (put : β → α → α) : Field α :=
  ⟨name, fun j => (f.read j).map put⟩

/-- A member that is read and not used. -/
def Field.ignored (name : Text) (f : Form β) : Field α := .of name f fun _ a => a

/-- The members of a record, put in one after another. -/
def readFields (type : Text) (fields : List (Field α)) (a : α) :
    List (Text × Json) → α × List Misfit
  | [] => (a, [])
  | (k, j) :: r =>
    match fields.find? fun f => f.name = k with
    | none =>
      let rest := readFields type fields a r
      (rest.1, .unknownField k type :: rest.2)
    | some f =>
      let here := f.read j
      let rest := readFields type fields ((here.found.getD id) a) r
      (rest.1, here.misfits ++ rest.2)

/-- A record that starts as `start`; a name that it does not have is a misfit. -/
def record (type : Text) (start : α) (fields : List (Field α)) : Form α where
  type := type
  read
    | .null => nothing
    | .obj ms =>
      match repeatedNames (ms.map Prod.fst) with
      | [] => let r := readFields type fields start ms; ⟨some r.1, r.2⟩
      | ns => ⟨none, ns.map .repeatedKey⟩
    | j => refuse type j

/-- What a text says, `start` if that is null. -/
def readText (f : Form α) (start : α) (t : Text) : Except DocumentError α :=
  if Json.skip t = [] then .error .empty
  else
    match Json.read t with
    | .error e => .error (.unreadable e)
    | .ok j =>
      let r := f.read j
      if r.misfits.isEmpty then .ok (r.found.getD start) else .error (.misfits r.misfits)

end Form

end Reactive
