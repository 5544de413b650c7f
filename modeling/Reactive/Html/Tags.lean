/-
The start tags of a markup text.

The reader is as forgiving as readers of markup are: it never fails, skips
comments, declarations and the raw text of elements such as `script`, and a
tag that the end of the text cuts off does not count.

* `Html.startTags` — the attributes of each start tag, in order;
* `Html.decode` — a value with its character references replaced.
-/
import Reactive.Html.Entity

namespace Reactive.Html

/-! ### Character references -/

/-- What the references to the code points 128 to 159 stand for. -/
def windowsCodes : List Nat :=
  [0x20AC, 0x81, 0x201A, 0x192, 0x201E, 0x2026, 0x2020, 0x2021, 0x2C6, 0x2030, 0x160, 0x2039,
    0x152, 0x8D, 0x17D, 0x8F, 0x90, 0x2018, 0x2019, 0x201C, 0x201D, 0x2022, 0x2013, 0x2014, 0x2DC,
    0x2122, 0x161, 0x203A, 0x153, 0x9D, 0x17E, 0x178]

/-- The character that a number stands for.  Numbers are read into 32 bits. -/
def numberedChar (x : Int32) : Text :=
  let n := x.toInt
  if 0x80 ≤ n ∧ n ≤ 0x9F then Text.ofCodePoint (windowsCodes.getD (n.toNat - 0x80) 0)
  else if n ≤ 0 then Text.ofCodePoint Text.replacement
  else Text.ofCodePoint n.toNat

/-- The value of the digits at the front of a text. -/
def digitsValue (base : Int32) (ds : Text) : Int32 :=
  ds.foldl (fun x b => base * x + Int32.ofNat (Text.digitValue b)) 0

/-- The numbered reference at the front of a text after `&#`: its character and how many bytes
after `&` it takes.  What is no reference stands for itself. -/
def numbered (s : Text) : Text × Nat :=
  if s.length < 2 then ("&", 0)
  else
    let hex := s.head? = some 'x' || s.head? = some 'X'
    let lead := if hex then 1 else 0
    let ds := (s.drop lead).takeWhile (if hex then Text.isHexDigit else Text.isDigit)
    let n := lead + ds.length
    let n := if (s.drop n).head? = some ';' then n + 1 else n
    if n ≤ 1 then ("&", 0) else (numberedChar (digitsValue (if hex then 16 else 10) ds), n + 1)

/-- The named reference at the front of the value of an attribute after `&`: its text and how many
of these bytes it takes.  What is no reference stands for itself. -/
def named (s : Text) : Text × Nat :=
  let word := s.takeWhile fun b => Text.isAsciiLetter b || Text.isDigit b
  let closed := (s.drop word.length).head? = some ';'
  let name := if closed then word ++ ";" else word
  let n := name.length
  if !closed && (s.drop n).head? = some '=' then (38 :: name, n)
  else ((if name.isEmpty then none else entity? name).getD (38 :: name), n)

/-- The value of an attribute with its character references replaced. -/
def decode (s : Text) : Text :=
  match s with
  | [] => []
  | b :: r =>
    if b = '&' then
      let (c, n) := if r.head? = some '#' then numbered r.tail else named r
      c ++ decode (r.drop n)
    else b :: decode r
termination_by s.length
decreasing_by all_goals simp only [List.length_cons, List.length_drop]; omega

/-- Carriage returns as line feeds, one for each line break. -/
def plainBreaks : Text → Text
  | [] => []
  | 13 :: 10 :: r => 10 :: plainBreaks r  -- carriage return line feed
  | 13 :: r => 10 :: plainBreaks r  -- carriage return
  | b :: r => b :: plainBreaks r

/-! ### Tags -/

/-- A text without the blanks in front. -/
def skip (s : Text) : Text := s.dropWhile Text.isMarkupBlank

/-- A byte that ends the name of a tag or attribute. -/
def endsName (b : UInt8) : Bool := Text.isMarkupBlank b || b == '/' || b == '>'

/-- How far the name of an attribute reaches; an equals sign counts only in front. -/
def keyLength (s : Text) : Nat :=
  match s with
  | 61 :: r => 1 + (r.takeWhile fun b => !endsName b && b != 61).length  -- =
  | s => (s.takeWhile fun b => !endsName b && b != 61).length

/-- The value after the name of an attribute and what follows it; nothing if the text ends. -/
def valueOf? (s : Text) : Option (Text × Text) :=
  match skip s with
  | [] => none
  | 47 :: r => some ([], r)  -- /
  | 61 :: r =>  -- =
    match skip r with
    | [] => none
    | 62 :: t => some ([], 62 :: t)  -- >
    | q :: t =>
      if q = '"' || q = '\'' then
        let v := t.takeWhile (· != q)
        match t.drop v.length with
        | [] => none
        | _ :: u => some (v, u)
      else
        let v := (q :: t).takeWhile fun b => !Text.isMarkupBlank b && b != 62
        match (q :: t).drop v.length with
        | [] => none
        | b :: u => some (v, if b = '>' then b :: u else u)
  | s => some ([], s)

/-- The attributes of a tag and what follows it; nothing if the text ends inside the tag. -/
def attributes? (acc : List (Text × Text)) (s : Text) : Option (List (Text × Text) × Text) :=
  match skip s with
  | [] => none
  | 62 :: r => some (acc.reverse, r)  -- >
  | t =>
    let key := t.take (keyLength t)
    match valueOf? (t.drop key.length) with
    | none => none
    | some (v, rest) =>
      if rest.length < s.length then
        attributes? (if key.isEmpty then acc
          else (key.map Text.asciiLower, decode (plainBreaks v)) :: acc) rest
      else none
termination_by s.length

/-! ### What is skipped -/

/-- What follows the next closing bracket. -/
def afterAngle : Text → Text
  | [] => []
  | b :: r => if b = '>' then r else afterAngle r

/-- What follows a comment, after its opening.  `dashes` counts the minus signs just read. -/
def afterComment (dashes : Nat) (beginning : Bool) : Text → Text
  | [] => []
  | 45 :: r => afterComment (dashes + 1) beginning r  -- -
  | 62 :: r => if dashes ≥ 2 || beginning then r else afterComment 0 false r  -- >
  | 33 :: 62 :: r => if dashes ≥ 2 then r else afterComment 0 false r  -- ! >
  | 33 :: 45 :: r => afterComment 1 false r  -- ! -
  | _ :: r => afterComment 0 false r

/-- Whether the closing tag of an element stands at the front. -/
def closes (tag s : Text) : Bool :=
  match s with
  | 60 :: 47 :: r =>  -- < /
    (r.take tag.length).map Text.asciiLower == tag && ((r.drop tag.length).head?.any endsName)
  | _ => false

/-- The raw text of an element skipped, up to its closing tag. -/
def afterRaw (tag : Text) : Text → Text
  | [] => []
  | b :: r => if closes tag (b :: r) then b :: r else afterRaw tag r

/-- Where a reader is inside a script.  A script can hold a comment, and the comment a script of
its own; the number counts the minus signs just read. -/
inductive ScriptState where
  | data
  | comment (dashes : Nat)
  | nested (dashes : Nat)

/-- Whether a nested script starts at the front, after the opening bracket. -/
def opensScript (s : Text) : Bool :=
  (s.take 6).map Text.asciiLower == Text.ofString "script" && ((s.drop 6).head?.any endsName)

/-- A script skipped, up to its closing tag. -/
def afterScript (st : ScriptState) (s : Text) : Text :=
  match s with
  | [] => []
  | b :: r =>
    if b = '<' then
      match st with
      | .data =>
        if closes "script" (b :: r) then b :: r
        else if r.take 3 = "!--" then afterScript (.comment 2) (r.drop 3)
        else afterScript .data r
      | .comment _ =>
        if closes "script" (b :: r) then b :: r
        else
          match r.head? with
          | none => []
          | some c =>
            if c = '/' then afterScript (.comment 0) r
            else if opensScript r then afterScript (.nested 0) (r.drop 7)
            else if Text.isAsciiLetter c then afterScript (.comment 0) r
            else afterScript .data r
      | .nested _ =>
        if closes "script" (b :: r) then afterScript (.comment 0) (r.drop 8)
        else afterScript (.nested 0) r
    else
      match st with
      | .data => afterScript .data r
      | .comment n =>
        if b = '-' then afterScript (.comment (n + 1)) r
        else if b = '>' && n ≥ 2 then afterScript .data r
        else afterScript (.comment 0) r
      | .nested n =>
        if b = '-' then afterScript (.nested (n + 1)) r
        else if b = '>' && n ≥ 2 then afterScript .data r
        else afterScript (.nested 0) r
termination_by s.length
decreasing_by all_goals simp only [List.length_cons, List.length_drop]; omega

/-- The elements with raw text. -/
def rawTags : List Text :=
  ["iframe", "noembed", "noframes", "noscript", "plaintext", "script", "style", "textarea", "title",
    "xmp"]

/-- What follows the start tag of an element, its raw text skipped. -/
def afterStart (tag s : Text) : Text :=
  if !rawTags.contains tag then s
  else if tag = "plaintext" then []
  else if tag = "script" then afterScript .data s
  else afterRaw tag s

/-- What follows `</`. -/
def afterEnd (s : Text) : Text :=
  match s with
  | [] => []
  | b :: r =>
    if Text.isAsciiLetter b then
      match attributes? [] (r.dropWhile (!endsName ·)) with
      | none => []
      | some (_, rest) => rest
    else afterAngle (b :: r)

/-- What follows `<!`. -/
def afterBang (s : Text) : Text :=
  match s with
  | 45 :: 45 :: r => afterComment 0 true r  -- - -
  | [] | [_] => []
  | s => afterAngle s

/-- The attributes of the start tags in a text, looking at no more than `steps` tags and
characters. -/
def startTagsIn : Nat → Text → List (List (Text × Text))
  | 0, _ => []
  | _ + 1, [] => []
  | steps + 1, b :: r =>
    if b = '<' then
      match r with
      | [] => []
      | c :: t =>
        if Text.isAsciiLetter c then
          let name := r.takeWhile (!endsName ·)
          match attributes? [] (r.drop name.length) with
          | none => []
          | some (attrs, rest) =>
            attrs :: startTagsIn steps (afterStart (name.map Text.asciiLower) rest)
        else if c = '/' then startTagsIn steps (afterEnd t)
        else if c = '!' then startTagsIn steps (afterBang t)
        else if c = '?' then startTagsIn steps (afterAngle t)
        else startTagsIn steps r
    else startTagsIn steps r

/-- The attributes of the start tags in a text, in order. -/
def startTags (s : Text) : List (List (Text × Text)) := startTagsIn (s.length + 1) s

end Reactive.Html
