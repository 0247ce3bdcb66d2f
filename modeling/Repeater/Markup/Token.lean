/-
  Repeater/Markup/Token.lean
  ==========================
  **The tokens of markup.**

  `Token.next` takes one token off the front of the markup. What counts as one depends on where the
  text stands: in ordinary text tags, comments and references count; in a title or a text area only
  references and the end tag; in a script or a style only the end tag. A tag that the end of the
  markup cuts off is dropped; a comment cut off so is kept.
-/
import Repeater.Dom.Node
import Repeater.Markup.CharRef

namespace Repeater.Markup

open Dom

/-- A token of markup. -/
inductive Token where
  /-- A document type: its name, and whether it asks for the rendering of old pages. -/
  | doctype (name : Option String) (legacy : Bool)
  | startTag (name : String) (attributes : List Attribute) (selfClosing : Bool)
  | endTag (name : String)
  | comment (s : String)
  | text (cs : List Char)
  | finish
deriving Repr

/-- Where text stands. -/
inductive TextMode where
  | ordinary
  /-- Text with references, up to the end tag. -/
  | escapable (tag : String)
  /-- Text without references, up to the end tag. -/
  | raw (tag : String)
  | script
  /-- Text up to the end of the markup. -/
  | plain
deriving DecidableEq, Repr

/-- A blank of markup. -/
def isSpace (c : Char) : Bool :=
  c == ' ' || c == '\t' || c == '\n' || c == '\r' || c.toNat == 0xC

/-- Text in which a null character is shown by its replacement. -/
def withoutNull (cs : List Char) : List Char :=
  cs.map fun c => if c.toNat == 0 then replacement else c

/-- The text with every line end written as a line feed. -/
def normalizeLines : List Char → List Char
  | '\r' :: '\n' :: rest => '\n' :: normalizeLines rest
  | '\r' :: rest => '\n' :: normalizeLines rest
  | c :: rest => c :: normalizeLines rest
  | [] => []

/-- Whether the text opens with the lower-case `word`, in any case. -/
def opensWith (word cs : List Char) : Bool := word.isPrefixOf ((cs.take word.length).map Char.toLower)

/-! ## Tags -/

/-- Whether a tag name ends before the character. -/
def endsTagName (c : Char) : Bool := isSpace c || c == '/' || c == '>'

/-- A name in lower case. -/
def nameOf (cs : List Char) : String := String.ofList ((withoutNull cs).map Char.toLower)

/-- Reads an attribute value after the equals sign; `none` where the markup ends before it does. -/
def attributeValue? (cs : List Char) : Option (List Char × List Char) :=
  match cs.dropWhile isSpace with
  | [] => none
  | '>' :: rest => some ([], '>' :: rest)
  | c :: rest =>
    if c == '"' || c == '\'' then
      match rest.dropWhile (· != c) with
      | [] => none
      | _ :: left => some (rest.takeWhile (· != c), left)
    else
      let goesOn (c : Char) := !(isSpace c || c == '>')
      some ((c :: rest).takeWhile goesOn, (c :: rest).dropWhile goesOn)

/-- The attributes with one more at the end, unless there is one of its name. -/
def addAttribute (attributes : List Attribute) (a : Attribute) : List Attribute :=
  if attributes.any (·.name == a.name) then attributes else attributes ++ [a]

/-- Reads the attributes of a tag of at most `limit` characters up to its end, and tells whether the
    tag closes itself. -/
def attributesWithin : Nat → List Attribute → List Char →
    Option (List Attribute × Bool × List Char)
  | 0, _, _ => none
  | limit + 1, before, cs =>
    match cs.dropWhile isSpace with
    | [] => none
    | '>' :: rest => some (before, false, rest)
    | '/' :: '>' :: rest => some (before, true, rest)
    | '/' :: rest => attributesWithin limit before rest
    | c :: rest =>
      let goesOn (c : Char) := !(endsTagName c || c == '=')
      let name := nameOf (c :: rest.takeWhile goesOn)
      match (rest.dropWhile goesOn).dropWhile isSpace with
      | '=' :: rest =>
        match attributeValue? rest with
        | none => none
        | some (value, left) =>
          let value := String.ofList (decode true (withoutNull value))
          attributesWithin limit (addAttribute before ⟨name, value⟩) left
      | left => attributesWithin limit (addAttribute before ⟨name, ""⟩) left

/-- Reads a tag from its name on: the name, the attributes, whether it closes itself, and what is
    left; `none` where the markup ends before the tag does. -/
def tag? (cs : List Char) : Option (String × List Attribute × Bool × List Char) :=
  let name := nameOf (cs.takeWhile (!endsTagName ·))
  let rest := cs.dropWhile (!endsTagName ·)
  (attributesWithin (rest.length + 1) [] rest).map fun (attributes, selfClosing, left) =>
    (name, attributes, selfClosing, left)

/-! ## Comments -/

/-- Splits at the end of a comment: its text, and what is left. -/
def commentEnd? : List Char → Option (List Char × List Char)
  | [] => none
  | '-' :: '-' :: '>' :: rest => some ([], rest)
  | '-' :: '-' :: '!' :: '>' :: rest => some ([], rest)
  | c :: rest => (commentEnd? rest).map fun (s, left) => (c :: s, left)

/-- The text of a comment that the end of the markup cuts off: the beginning of an end does not
    belong to it. -/
def cutComment (cs : List Char) : List Char :=
  match cs.reverse with
  | '!' :: '-' :: '-' :: before => before.reverse
  | '-' :: '-' :: before => before.reverse
  | '-' :: before => before.reverse
  | _ => cs

/-- Reads a comment after its opening. -/
def comment (cs : List Char) : Token × List Char :=
  let (s, left) := match cs with
    | '>' :: rest => ([], rest)
    | '-' :: '>' :: rest => ([], rest)
    | _ => (commentEnd? cs).getD (cutComment cs, [])
  (.comment (String.ofList (withoutNull s)), left)

/-- Reads what is treated as a comment up to the next closing angle bracket. -/
def bogusComment (cs : List Char) : Token × List Char :=
  (.comment (String.ofList (withoutNull (cs.takeWhile (· != '>')))),
    (cs.dropWhile (· != '>')).drop 1)

/-! ## Document types -/

/-- Beginnings of the public identifiers of old document types, in lower case. -/
def oldPublicIds : List String :=
  ["-//ietf//dtd html", "-//w3c//dtd html 3", "-//w3c//dtd html 4.0 frameset//",
    "-//w3c//dtd html 4.0 transitional//", "-//w3c//dtd html experimental ", "-//w3c//dtd w3 html",
    "-//w3o//dtd w3 html", "-/w3c/dtd html 4.0 transitional/en"]

/-- Beginnings of those that are old only without a system identifier. -/
def oldPublicIdsAlone : List String :=
  ["-//w3c//dtd html 4.01 frameset//", "-//w3c//dtd html 4.01 transitional//"]

/-- Whether a document type asks for old rendering. -/
def asksLegacy (name : String) (publicId systemId : Option String) : Bool :=
  let opens (id : String) (start : String) := opensWith start.toList id.toList
  name != "html"
    || publicId.any fun id => oldPublicIds.any (opens id)
      || (systemId.isNone && oldPublicIdsAlone.any (opens id))

/-- Reads a quoted identifier of a document type; `none` where there is none or it is cut off. -/
def quotedId? (cs : List Char) : Option (String × List Char) :=
  match cs.dropWhile isSpace with
  | [] => none
  | q :: rest =>
    if q == '"' || q == '\'' then
      let goesOn (c : Char) := c != q && c != '>'
      match rest.dropWhile goesOn with
      | [] => none
      | c :: left =>
        if c == q then some (String.ofList (rest.takeWhile goesOn), left) else none
    else none

/-- Whether what follows the name of a document type asks for old rendering. -/
def tailAsksLegacy (name : String) (cs : List Char) : Bool :=
  let closed (cs : List Char) := (cs.dropWhile isSpace).head? == some '>'
  if closed cs then asksLegacy name none none
  else
    let cs := cs.dropWhile isSpace
    if opensWith "public".toList cs then
      match quotedId? (cs.drop 6) with
      | none => true
      | some (publicId, left) =>
        if closed left then asksLegacy name (some publicId) none
        else match quotedId? left with
          | none => true
          | some (systemId, _) => asksLegacy name (some publicId) (some systemId)
    else if opensWith "system".toList cs then
      match quotedId? (cs.drop 6) with
      | none => true
      | some (systemId, _) => asksLegacy name none (some systemId)
    else true

/-- Reads a document type after its keyword. -/
def doctype (cs : List Char) : Token × List Char :=
  let cs := cs.dropWhile isSpace
  let name := cs.takeWhile fun c => !(isSpace c || c == '>')
  let tail := cs.dropWhile fun c => !(isSpace c || c == '>')
  let left := (tail.dropWhile (· != '>')).drop 1
  if name.isEmpty then (.doctype none true, left)
  else (.doctype (some (nameOf name)) (tailAsksLegacy (nameOf name) tail), left)

/-! ## Raw text -/

/-- Whether the text opens with the end tag. -/
def opensWithEndTag (tag : String) (cs : List Char) : Bool :=
  match cs with
  | '<' :: '/' :: rest =>
    opensWith tag.toList rest && (rest.drop tag.length).head?.any endsTagName
  | _ => false

/-- Splits raw text before its end tag. -/
def splitRaw (tag : String) : List Char → List Char × List Char
  | [] => ([], [])
  | c :: rest =>
    if opensWithEndTag tag (c :: rest) then ([], c :: rest)
    else
      let (s, left) := splitRaw tag rest
      (c :: s, left)

/-- How deep a script is inside a comment: not at all, in a comment, or in a script inside it. -/
inductive ScriptDepth where
  | outside | commented | nested
deriving DecidableEq, Repr

/-- Splits a script before its end tag; the end tag of a script written inside a comment in the
    script does not count. -/
def splitScript (depth : ScriptDepth) : List Char → List Char × List Char
  | [] => ([], [])
  | c :: rest =>
    let here := c :: rest
    if depth != .nested && opensWithEndTag "script" here then ([], here)
    else
      let next : ScriptDepth :=
        if depth == .outside then
          if "<!--".toList.isPrefixOf here then .commented else .outside
        else if depth == .commented && "-->".toList.isPrefixOf here then .outside
        else if depth == .nested && "-->".toList.isPrefixOf here then .outside
        else if depth == .commented && opensWith "<script".toList here
            && (here.drop 7).head?.any endsTagName then .nested
        else if depth == .nested && opensWithEndTag "script" here then .commented
        else depth
      let (s, left) := splitScript next rest
      (c :: s, left)

/-! ## The next token -/

/-- Takes a token of ordinary text off the front, or skips something that is no token.
    `sections` tells whether character data sections count. -/
def nextOrdinary (sections : Bool) (cs : List Char) : Option Token × List Char :=
  match cs with
  | [] => (none, [])
  | '<' :: rest =>
    match rest with
    | '!' :: rest =>
      if "--".toList.isPrefixOf rest then
        let (token, left) := comment (rest.drop 2)
        (some token, left)
      else if opensWith "doctype".toList rest then
        let (token, left) := doctype (rest.drop 7)
        (some token, left)
      else if sections && "[CDATA[".toList.isPrefixOf rest then
        let (s, left) := splitSection (rest.drop 7)
        (some (.text s), left)
      else
        let (token, left) := bogusComment rest
        (some token, left)
    | '?' :: _ =>
      let (token, left) := bogusComment rest
      (some token, left)
    | '/' :: rest =>
      match rest with
      | [] => (some (.text ['<', '/']), [])
      | '>' :: left => (none, left)
      | c :: _ =>
        if c.isAlpha then
          match tag? rest with
          | none => (none, [])
          | some (name, _, _, left) => (some (.endTag name), left)
        else
          let (token, left) := bogusComment rest
          (some token, left)
    | _ =>
      if rest.head?.any Char.isAlpha then
        match tag? rest with
        | none => (none, [])
        | some (name, attributes, selfClosing, left) =>
          (some (.startTag name attributes selfClosing), left)
      else (some (.text ['<']), rest)
  | _ =>
    let s := decode false (cs.takeWhile (· != '<'))
    (some (.text (s.filter (·.toNat != 0))), cs.dropWhile (· != '<'))
where
  /-- Splits at the end of a character data section. -/
  splitSection : List Char → List Char × List Char
    | [] => ([], [])
    | ']' :: ']' :: '>' :: rest => ([], rest)
    | c :: rest =>
      let (s, left) := splitSection rest
      (c :: s, left)

/-- Takes a token off the front, or skips something that is no token. -/
def Token.next (mode : TextMode) (sections : Bool) (cs : List Char) : Option Token × List Char :=
  let rawText (references : Bool) (parts : List Char × List Char) : Option Token × List Char :=
    if parts.1.isEmpty then nextOrdinary false parts.2
    else
      let s := withoutNull parts.1
      (some (.text (if references then decode false s else s)), parts.2)
  match mode with
  | .ordinary => nextOrdinary sections cs
  | .escapable tag => rawText true (splitRaw tag cs)
  | .raw tag => rawText false (splitRaw tag cs)
  | .script => rawText false (splitScript .outside cs)
  | .plain => rawText false (cs, [])

end Repeater.Markup
