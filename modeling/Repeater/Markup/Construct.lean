/-
  Repeater/Markup/Construct.lean
  ==============================
  **How tokens build a document.**

  The rules of the HTML standard for building a document from tokens, mode by mode. A rule says
  whether the token has to be looked at again in the mode that is then in force. Not repaired are
  formatting elements whose end tags come in the wrong order across a block, and text that stands in
  a table outside of its cells, which stays where it is. Frame sets are not known.
-/
import Repeater.Markup.Draft

namespace Repeater.Markup

open Dom

namespace Build

/-! ## Names that the rules speak of -/

/-- Elements beyond which an open element is out of reach. -/
def barriers : List String :=
  ["applet", "caption", "html", "table", "td", "th", "marquee", "object", "template", "math:mi",
    "math:mo", "math:mn", "math:ms", "math:mtext", "math:annotation-xml", "svg:foreignobject",
    "svg:desc", "svg:title"]

/-- The same for the items of a list. -/
def itemBarriers : List String := "ol" :: "ul" :: barriers

/-- The same for buttons and paragraphs. -/
def buttonBarriers : List String := "button" :: barriers

/-- The same for the parts of a table. -/
def tableBarriers : List String := ["html", "table", "template"]

/-- Elements whose end tag may be left out where another element ends. -/
def implied : List String :=
  ["dd", "dt", "li", "optgroup", "option", "p", "rb", "rp", "rt", "rtc"]

/-- The same at the end of a template. -/
def impliedInTemplate : List String :=
  implied ++ ["caption", "colgroup", "tbody", "td", "tfoot", "th", "thead", "tr"]

/-- Elements that an end tag of another name does not close. -/
def special : List String :=
  ["address", "applet", "area", "article", "aside", "base", "basefont", "bgsound", "blockquote",
    "body", "br", "button", "caption", "center", "col", "colgroup", "dd", "details", "dir", "div",
    "dl", "dt", "embed", "fieldset", "figcaption", "figure", "footer", "form", "frame", "frameset",
    "h1", "h2", "h3", "h4", "h5", "h6", "head", "header", "hgroup", "hr", "html", "iframe", "img",
    "input", "li", "link", "listing", "main", "marquee", "menu", "meta", "nav", "noembed",
    "noframes", "noscript", "object", "ol", "p", "param", "plaintext", "pre", "script", "section",
    "select", "source", "style", "summary", "table", "tbody", "td", "template", "textarea", "tfoot",
    "th", "thead", "title", "tr", "track", "ul", "wbr", "xmp", "math:mi", "math:mo", "math:mn",
    "math:ms", "math:mtext", "math:annotation-xml", "svg:foreignobject", "svg:desc", "svg:title"]

/-- Headings. -/
def headings : List String := ["h1", "h2", "h3", "h4", "h5", "h6"]

/-- Elements that are found in the head of a document. -/
def headElements : List String :=
  ["base", "basefont", "bgsound", "link", "meta", "noframes", "script", "style", "template",
    "title"]

/-- Elements that end a paragraph and hold other elements. -/
def blocks : List String :=
  ["address", "article", "aside", "blockquote", "center", "details", "dialog", "dir", "div", "dl",
    "fieldset", "figcaption", "figure", "footer", "header", "hgroup", "main", "menu", "nav", "ol",
    "p", "section", "summary", "ul"]

/-- Elements that format text. -/
def formattingElements : List String :=
  ["a", "b", "big", "code", "em", "font", "i", "nobr", "s", "small", "strike", "strong", "tt", "u"]

/-- The groups of rows of a table. -/
def rowGroups : List String := ["tbody", "tfoot", "thead"]

/-- The parts of a table, which are not elements of their own elsewhere. -/
def tableParts : List String :=
  ["caption", "col", "colgroup", "tbody", "td", "tfoot", "th", "thead", "tr"]

/-! ## Steps that several rules share -/

/-- Closes innermost elements as long as they are among the names. -/
def closeWhile (names : List String) : Build Unit :=
  modify fun d => { d with stack := d.stack.dropWhile fun id => names.contains (ruleName d id) }

/-- Closes the elements whose end tag may be left out, except those of one name. -/
def closeImplied (except : String := "") : Build Unit := closeWhile (implied.filter (· != except))

/-- Closes the elements up to an open paragraph, if one is in reach. -/
def closeParagraph : Build Unit := do
  if ← inScope ["p"] buttonBarriers then
    closeImplied "p"
    closeThrough ["p"]

/-- What an end tag does that has no rule of its own: it closes the innermost element of its name,
    unless a special element is in the way. -/
def closeNamed (name : String) : Build Unit := do
  let d ← get
  let found := d.stack.find? fun id => ruleName d id == name || special.contains (ruleName d id)
  if found.any fun id => ruleName d id == name then
    closeImplied name
    closeThrough [name]

/-- What the end tag of a formatting element does. -/
def closeFormatting (name : String) : Build Unit := do
  match ← formatting? name with
  | none => closeNamed name
  | some id =>
    let d ← get
    if !d.stack.contains id then forgetFormatting id
    else if ← inScope [name] barriers then
      modify fun d => { d with stack := (d.stack.dropWhile (· != id)).drop 1 }
      forgetFormatting id

/-- Chooses the mode that the open elements ask for. -/
def resetMode : Build Unit := do
  let d ← get
  let rec choose : List Nat → Mode
    | [] => .inBody
    | id :: outer =>
      let last := outer.isEmpty
      match ruleName d id with
      | "select" =>
        match (outer.map (ruleName d)).find? (fun n => n == "template" || n == "table") with
        | some "table" => .inSelectInTable
        | _ => .inSelect
      | "td" | "th" => if last then choose outer else .inCell
      | "tr" => .inRow
      | "tbody" | "thead" | "tfoot" => .inTableBody
      | "caption" => .inCaption
      | "colgroup" => .inColumnGroup
      | "table" => .inTable
      | "template" => d.templateModes.headD .inTemplate
      | "head" => if last then choose outer else .inHead
      | "body" => .inBody
      | "html" => if d.head.isNone then .beforeHead else .afterHead
      | _ => choose outer
  setMode (choose d.stack)

/-- Ends the innermost open template. -/
def endTemplate : Build Unit := do
  closeThrough ["template"]
  clearFormatting
  modify fun d => { d with templateModes := d.templateModes.drop 1 }
  resetMode

/-- Opens a template. -/
def startTemplate (attributes : List Attribute) : Build Unit := do
  let _ ← openElement "template" attributes
  markFormatting
  modify fun d => { d with mode := .inTemplate, templateModes := .inTemplate :: d.templateModes }

/-- Gives the root the attributes of another start tag for it. -/
def mergeRoot (attributes : List Attribute) : Build Unit := do
  unless ← isOpen "template" do
    if let some root := (← get).stack.getLast? then mergeAttributes root attributes

/-- Opens the body element. -/
def openBody (attributes : List Attribute) : Build Unit := do
  let _ ← openElement "body" attributes
  setMode .inBody

/-! ## Before the body -/

/-- The rules for the beginning. -/
def initial (token : Token) : Build Bool := do
  match token with
  | .text cs => if cs.all isSpace then return false
  | .comment s =>
    commentIn 0 s
    return false
  | .doctype name legacy =>
    let id ← newNode (.doctype (name.getD ""))
    addChild 0 id
    modify fun d => { d with legacy, mode := .beforeHtml }
    return false
  | _ => pure ()
  modify fun d => { d with legacy := true, mode := .beforeHtml }
  return true

/-- The rules before the root element. -/
def beforeHtml (token : Token) : Build Bool := do
  match token with
  | .doctype .. => return false
  | .comment s =>
    commentIn 0 s
    return false
  | .text cs => if cs.all isSpace then return false
  | .startTag "html" attributes _ =>
    let _ ← openElement "html" attributes
    setMode .beforeHead
    return false
  | .endTag name => unless ["head", "body", "html", "br"].contains name do return false
  | _ => pure ()
  let _ ← openElement "html" []
  setMode .beforeHead
  return true

/-- Opens the head element. -/
def openHead (attributes : List Attribute) : Build Unit := do
  let id ← openElement "head" attributes
  modify fun d => { d with head := some id, mode := .inHead }

/-- The rules before the head. -/
def beforeHead (token : Token) : Build Bool := do
  match token with
  | .doctype .. => return false
  | .comment s =>
    insertComment s
    return false
  | .text cs => if cs.all isSpace then return false
  | .startTag "html" attributes _ =>
    mergeRoot attributes
    return false
  | .startTag "head" attributes _ =>
    openHead attributes
    return false
  | .endTag name => unless ["head", "body", "html", "br"].contains name do return false
  | _ => pure ()
  openHead []
  return true

/-- The rules in the head. -/
def inHead (token : Token) : Build Bool := do
  match token with
  | .doctype .. => return false
  | .comment s =>
    insertComment s
    return false
  | .text cs =>
    if cs.all isSpace then
      insertText cs
      return false
  | .startTag name attributes _ =>
    match name with
    | "html" =>
      mergeRoot attributes
      return false
    | "base" | "basefont" | "bgsound" | "link" | "meta" =>
      insertVoid name attributes
      return false
    | "title" =>
      openText name attributes (.escapable name)
      return false
    | "noframes" | "style" | "noscript" =>
      openText name attributes (.raw name)
      return false
    | "script" =>
      openText name attributes .script
      return false
    | "template" =>
      startTemplate attributes
      return false
    | "head" => return false
    | _ => pure ()
  | .endTag "head" =>
    close
    setMode .afterHead
    return false
  | .endTag "template" =>
    if ← isOpen "template" then
      closeWhile impliedInTemplate
      endTemplate
    return false
  | .endTag name => unless ["body", "html", "br"].contains name do return false
  | _ => pure ()
  close
  setMode .afterHead
  return true

/-- The rules after the head. What belongs into the head still goes there. -/
def afterHead (token : Token) : Build Bool := do
  match token with
  | .doctype .. => return false
  | .comment s =>
    insertComment s
    return false
  | .text cs =>
    if cs.all isSpace then
      insertText cs
      return false
  | .startTag name attributes _ =>
    if name == "html" then
      mergeRoot attributes
      return false
    if name == "body" then
      openBody attributes
      return false
    if headElements.contains name then
      let head := (← get).head.getD 0
      modify fun d => { d with stack := head :: d.stack }
      let again ← inHead token
      modify fun d => { d with stack := d.stack.filter (· != head) }
      return again
    if name == "head" then return false
  | .endTag "template" => return ← inHead token
  | .endTag name => unless ["body", "html", "br"].contains name do return false
  | _ => pure ()
  openBody []
  return true

/-! ## In the body -/

/-- Ends an open template at the end of the markup; tells whether there was one. -/
def finishTemplate : Build Bool := do
  if ← isOpen "template" then
    endTemplate
    return true
  return false

/-- Attributes of drawings that are not written in lower case. -/
def drawingAttributes : List String :=
  ["attributeName", "attributeType", "baseFrequency", "baseProfile", "calcMode", "clipPathUnits",
    "diffuseConstant", "edgeMode", "filterUnits", "glyphRef", "gradientTransform", "gradientUnits",
    "kernelMatrix", "kernelUnitLength", "keyPoints", "keySplines", "keyTimes", "lengthAdjust",
    "limitingConeAngle", "markerHeight", "markerUnits", "markerWidth", "maskContentUnits",
    "maskUnits", "numOctaves", "pathLength", "patternContentUnits", "patternTransform",
    "patternUnits", "pointsAtX", "pointsAtY", "pointsAtZ", "preserveAlpha", "preserveAspectRatio",
    "primitiveUnits", "refX", "refY", "repeatCount", "repeatDur", "requiredExtensions",
    "requiredFeatures", "specularConstant", "specularExponent", "spreadMethod", "startOffset",
    "stdDeviation", "stitchTiles", "surfaceScale", "systemLanguage", "tableValues", "targetX",
    "targetY", "textLength", "viewBox", "viewTarget", "xChannelSelector", "yChannelSelector",
    "zoomAndPan"]

/-- Attributes with a name space in front, which is left out. -/
def spacedAttributes : List String :=
  ["xlink:actuate", "xlink:arcrole", "xlink:href", "xlink:role", "xlink:show", "xlink:title",
    "xlink:type", "xml:lang", "xml:space", "xmlns:xlink"]

/-- The name of an attribute in a vocabulary. -/
def attributeNameIn (space : Space) (name : String) : String :=
  if spacedAttributes.contains name then
    String.ofList ((name.toList.dropWhile (· != ':')).drop 1)
  else match space with
    | .svg => (drawingAttributes.find? (·.toLower == name)).getD name
    | .math => if name == "definitionurl" then "definitionURL" else name
    | .html => name

/-- The attributes of an element of a vocabulary. -/
def attributesIn (space : Space) (attributes : List Attribute) : List Attribute :=
  attributes.map fun a => { a with name := attributeNameIn space a.name }

/-- Opens an element of another vocabulary. -/
def openForeign (space : Space) (name : String) (attributes : List Attribute)
    (selfClosing : Bool) : Build Unit := do
  let _ ← openElement name (attributesIn space attributes) space
  if selfClosing then close

/-- Closes an open list item of one of the names before another one begins. -/
def closeItem (names : List String) : Build Unit := do
  let d ← get
  let stops (id : Nat) :=
    let name := ruleName d id
    names.contains name
      || (special.contains name && !(["address", "div", "p"].contains name))
  if let some id := d.stack.find? stops then
    let name := ruleName d id
    if names.contains name then
      closeImplied name
      closeThrough [name]

/-- The rules for a start tag in the body. -/
def startInBody (token : Token) (name : String) (attributes : List Attribute)
    (selfClosing : Bool) : Build Bool := do
  if name == "html" then
    mergeRoot attributes
  else if headElements.contains name then return ← inHead token
  else if name == "body" then
    let d ← get
    let second := d.stack.reverse[1]?
    if let some body := second then
      if ruleName d body == "body" && !(← isOpen "template") then mergeAttributes body attributes
  else if name == "frameset" || name == "frame" || name == "head" || tableParts.contains name then
    pure ()
  else if blocks.contains name then
    closeParagraph
    discard (openElement name attributes)
  else if headings.contains name then
    closeParagraph
    if ← currentIs headings then close
    discard (openElement name attributes)
  else if name == "pre" || name == "listing" then
    closeParagraph
    discard (openElement name attributes)
    modify fun d => { d with dropLineFeed := true }
  else if name == "form" then
    let inTemplate ← isOpen "template"
    if (← get).form.isNone || inTemplate then
      closeParagraph
      let id ← openElement name attributes
      unless inTemplate do modify fun d => { d with form := some id }
  else if name == "li" then
    closeItem ["li"]
    closeParagraph
    discard (openElement name attributes)
  else if name == "dd" || name == "dt" then
    closeItem ["dd", "dt"]
    closeParagraph
    discard (openElement name attributes)
  else if name == "plaintext" then
    closeParagraph
    discard (openElement name attributes)
    modify fun d => { d with textMode := .plain }
  else if name == "button" then
    if ← inScope ["button"] barriers then
      closeImplied
      closeThrough ["button"]
    reopenFormatting
    discard (openElement name attributes)
  else if formattingElements.contains name then
    if name == "a" then
      if let some earlier ← formatting? "a" then
        closeFormatting "a"
        forgetFormatting earlier
        modify fun d => { d with stack := d.stack.filter (· != earlier) }
    reopenFormatting
    if name == "nobr" then
      if ← inScope ["nobr"] barriers then
        closeFormatting "nobr"
        reopenFormatting
    noteFormatting (← openElement name attributes)
  else if name == "applet" || name == "marquee" || name == "object" then
    reopenFormatting
    discard (openElement name attributes)
    markFormatting
  else if name == "table" then
    unless (← get).legacy do closeParagraph
    discard (openElement name attributes)
    setMode .inTable
  else if ["area", "br", "embed", "img", "keygen", "wbr", "input"].contains name then
    reopenFormatting
    insertVoid name attributes
  else if name == "image" then
    reopenFormatting
    insertVoid "img" attributes
  else if name == "param" || name == "source" || name == "track" then
    insertVoid name attributes
  else if name == "hr" then
    closeParagraph
    insertVoid name attributes
  else if name == "textarea" then
    openText name attributes (.escapable name)
    modify fun d => { d with dropLineFeed := true }
  else if name == "xmp" then
    closeParagraph
    reopenFormatting
    openText name attributes (.raw name)
  else if name == "iframe" || name == "noembed" || name == "noscript" then
    openText name attributes (.raw name)
  else if name == "select" then
    reopenFormatting
    discard (openElement name attributes)
    let inTable := [.inTable, .inCaption, .inTableBody, .inRow, .inCell].contains (← get).mode
    setMode (if inTable then .inSelectInTable else .inSelect)
  else if name == "optgroup" || name == "option" then
    if ← currentIs ["option"] then close
    reopenFormatting
    discard (openElement name attributes)
  else if name == "rb" || name == "rtc" then
    if ← inScope ["ruby"] barriers then closeImplied
    discard (openElement name attributes)
  else if name == "rp" || name == "rt" then
    if ← inScope ["ruby"] barriers then closeImplied "rtc"
    discard (openElement name attributes)
  else if name == "math" || name == "svg" then
    reopenFormatting
    openForeign (if name == "svg" then .svg else .math) name attributes selfClosing
  else
    reopenFormatting
    discard (openElement name attributes)
  return false

/-- The rules for an end tag in the body. -/
def endInBody (token : Token) (name : String) : Build Bool := do
  if name == "template" then return ← inHead token
  else if name == "body" || name == "html" then
    if ← inScope ["body"] barriers then
      setMode .afterBody
      return name == "html"
  else if name == "p" then
    unless ← inScope ["p"] buttonBarriers do discard (openElement "p" [])
    closeParagraph
  else if name == "form" then
    if ← isOpen "template" then
      if ← inScope ["form"] barriers then
        closeImplied
        closeThrough ["form"]
    else
      let form := (← get).form
      modify fun d => { d with form := none }
      if let some id := form then
        if (← get).stack.contains id then
          if ← inScope ["form"] barriers then
            closeImplied
            modify fun d => { d with stack := d.stack.filter (· != id) }
  else if blocks.contains name || name == "button" || name == "pre" || name == "listing" then
    if ← inScope [name] barriers then
      closeImplied
      closeThrough [name]
  else if name == "li" then
    if ← inScope [name] itemBarriers then
      closeImplied name
      closeThrough [name]
  else if name == "dd" || name == "dt" then
    if ← inScope [name] barriers then
      closeImplied name
      closeThrough [name]
  else if headings.contains name then
    if ← inScope headings barriers then
      closeImplied
      closeThrough headings
  else if formattingElements.contains name then closeFormatting name
  else if name == "applet" || name == "marquee" || name == "object" then
    if ← inScope [name] barriers then
      closeImplied
      closeThrough [name]
      clearFormatting
  else if name == "br" then
    reopenFormatting
    insertVoid "br" []
  else closeNamed name
  return false

/-- The rules in the body. -/
def inBody (token : Token) : Build Bool := do
  match token with
  | .doctype .. => return false
  | .comment s =>
    insertComment s
    return false
  | .text cs =>
    reopenFormatting
    insertText cs
    return false
  | .startTag name attributes selfClosing => startInBody token name attributes selfClosing
  | .endTag name => endInBody token name
  | .finish => if (← get).templateModes.isEmpty then return false else finishTemplate

/-- The rules in a text that is read in a way of its own. -/
def inText (token : Token) : Build Bool := do
  let leave : Build Unit := do
    close
    modify fun d => { d with mode := d.resume, textMode := .ordinary }
  match token with
  | .text cs =>
    insertText cs
    return false
  | .endTag _ =>
    leave
    return false
  | _ =>
    leave
    return true

/-! ## In a table -/

/-- Ends the table around. -/
def endTable : Build Unit := do
  closeThrough ["table"]
  resetMode

/-- The rules in a table, outside of its rows. -/
def inTable (token : Token) : Build Bool := do
  match token with
  | .doctype .. => return false
  | .comment s =>
    insertComment s
    return false
  | .text cs =>
    if ← currentIs ("table" :: "tr" :: "template" :: rowGroups) then
      modify fun d => { d with mode := .inTableText, resume := d.mode, tableText := [] }
      return true
    return ← inBody (.text cs)
  | .startTag name attributes _ =>
    match name with
    | "caption" =>
      closeTo tableBarriers
      markFormatting
      discard (openElement name attributes)
      setMode .inCaption
      return false
    | "colgroup" =>
      closeTo tableBarriers
      discard (openElement name attributes)
      setMode .inColumnGroup
      return false
    | "col" =>
      closeTo tableBarriers
      discard (openElement "colgroup" [])
      setMode .inColumnGroup
      return true
    | "tbody" | "tfoot" | "thead" =>
      closeTo tableBarriers
      discard (openElement name attributes)
      setMode .inTableBody
      return false
    | "td" | "th" | "tr" =>
      closeTo tableBarriers
      discard (openElement "tbody" [])
      setMode .inTableBody
      return true
    | "table" =>
      if ← inScope ["table"] tableBarriers then
        endTable
        return true
      return false
    | "style" | "script" | "template" => return ← inHead token
    | "input" =>
      if attributes.any fun a => a.name == "type" && a.value.toLower == "hidden" then
        insertVoid name attributes
        return false
    | "form" =>
      if !(← isOpen "template") && (← get).form.isNone then
        let id ← openElement name attributes
        modify fun d => { d with form := some id }
        close
      return false
    | _ => pure ()
  | .endTag "table" =>
    if ← inScope ["table"] tableBarriers then endTable
    return false
  | .endTag "template" => return ← inHead token
  | .endTag name =>
    if name == "body" || name == "html" || tableParts.contains name then return false
  | .finish => return ← inBody .finish
  inBody token

/-- The rules in text that stands in a table: it is put in when the text has ended. -/
def inTableText (token : Token) : Build Bool := do
  match token with
  | .text cs =>
    modify fun d => { d with tableText := cs :: d.tableText }
    return false
  | _ =>
    let cs := (← get).tableText.reverse.flatten
    if cs.all isSpace then insertText cs else discard (inBody (.text cs))
    modify fun d => { d with mode := d.resume, tableText := [] }
    return true

/-- The rules in the caption of a table. -/
def inCaption (token : Token) : Build Bool := do
  let leave : Build Bool := do
    if ← inScope ["caption"] tableBarriers then
      closeImplied
      closeThrough ["caption"]
      clearFormatting
      setMode .inTable
      return true
    return false
  match token with
  | .endTag "caption" =>
    discard leave
    return false
  | .endTag "table" => leave
  | .startTag name .. => if tableParts.contains name then leave else inBody token
  | .endTag name =>
    if name == "body" || name == "html" || tableParts.contains name then return false
    else inBody token
  | _ => inBody token

/-- The rules in a group of columns. -/
def inColumnGroup (token : Token) : Build Bool := do
  match token with
  | .doctype .. => return false
  | .comment s =>
    insertComment s
    return false
  | .text cs =>
    if cs.all isSpace then
      insertText cs
      return false
  | .startTag "html" attributes _ =>
    mergeRoot attributes
    return false
  | .startTag "col" attributes _ =>
    insertVoid "col" attributes
    return false
  | .startTag "template" .. => return ← inHead token
  | .endTag "template" => return ← inHead token
  | .endTag "colgroup" =>
    if ← currentIs ["colgroup"] then
      close
      setMode .inTable
    return false
  | .endTag "col" => return false
  | .finish => return ← inBody .finish
  | _ => pure ()
  if ← currentIs ["colgroup"] then
    close
    setMode .inTable
    return true
  return false

/-- The rules in a group of rows. -/
def inTableBody (token : Token) : Build Bool := do
  let context := "html" :: "template" :: rowGroups
  let leave : Build Bool := do
    if ← inScope rowGroups tableBarriers then
      closeTo context
      close
      setMode .inTable
      return true
    return false
  match token with
  | .startTag name attributes _ =>
    if name == "tr" then
      closeTo context
      discard (openElement name attributes)
      setMode .inRow
      return false
    else if name == "td" || name == "th" then
      closeTo context
      discard (openElement "tr" [])
      setMode .inRow
      return true
    else if tableParts.contains name then leave
    else inTable token
  | .endTag name =>
    if rowGroups.contains name then
      if ← inScope [name] tableBarriers then
        closeTo context
        close
        setMode .inTable
      return false
    else if name == "table" then leave
    else if name == "body" || name == "html" || tableParts.contains name then return false
    else inTable token
  | _ => inTable token

/-- The rules in a row. -/
def inRow (token : Token) : Build Bool := do
  let context := ["html", "template", "tr"]
  let leave : Build Bool := do
    if ← inScope ["tr"] tableBarriers then
      closeTo context
      close
      setMode .inTableBody
      return true
    return false
  match token with
  | .startTag name attributes _ =>
    if name == "td" || name == "th" then
      closeTo context
      discard (openElement name attributes)
      setMode .inCell
      markFormatting
      return false
    else if tableParts.contains name then leave
    else inTable token
  | .endTag name =>
    if name == "tr" then
      discard leave
      return false
    else if name == "table" then leave
    else if rowGroups.contains name then
      if ← inScope [name] tableBarriers then leave else return false
    else if name == "body" || name == "html" || tableParts.contains name then return false
    else inTable token
  | _ => inTable token

/-- The rules in a cell. -/
def inCell (token : Token) : Build Bool := do
  let leave : Build Unit := do
    closeImplied
    closeThrough ["td", "th"]
    clearFormatting
    setMode .inRow
  match token with
  | .endTag name =>
    if name == "td" || name == "th" then
      if ← inScope [name] tableBarriers then
        closeImplied
        closeThrough [name]
        clearFormatting
        setMode .inRow
      return false
    else if name == "table" || name == "tr" || rowGroups.contains name then
      if ← inScope [name] tableBarriers then
        leave
        return true
      return false
    else if name == "body" || name == "html" || tableParts.contains name then return false
    else inBody token
  | .startTag name .. =>
    if tableParts.contains name then
      if ← inScope ["td", "th"] tableBarriers then
        leave
        return true
      return false
    else inBody token
  | _ => inBody token

/-! ## In a selection -/

/-- Whether one of the names is open with only options and their groups inside it. -/
def inSelectScope (name : String) : Build Bool := do
  let d ← get
  let found := d.stack.find? fun id => !(["optgroup", "option"].contains (ruleName d id))
  return found.any fun id => ruleName d id == name

/-- The rules in a selection. -/
def inSelect (token : Token) : Build Bool := do
  let leave : Build Unit := do
    closeThrough ["select"]
    resetMode
  match token with
  | .doctype .. => return false
  | .comment s =>
    insertComment s
    return false
  | .text cs =>
    insertText cs
    return false
  | .startTag name attributes _ =>
    match name with
    | "html" => mergeRoot attributes
    | "option" =>
      if ← currentIs ["option"] then close
      discard (openElement name attributes)
    | "optgroup" =>
      if ← currentIs ["option"] then close
      if ← currentIs ["optgroup"] then close
      discard (openElement name attributes)
    | "hr" =>
      if ← currentIs ["option"] then close
      if ← currentIs ["optgroup"] then close
      insertVoid name attributes
    | "select" => if ← inSelectScope "select" then leave
    | "input" | "keygen" | "textarea" =>
      if ← inSelectScope "select" then
        leave
        return true
    | "script" | "template" => return ← inHead token
    | _ => pure ()
    return false
  | .endTag name =>
    match name with
    | "optgroup" =>
      let d ← get
      if (d.stack.take 2).map (ruleName d) == ["option", "optgroup"] then close
      if ← currentIs ["optgroup"] then close
    | "option" => if ← currentIs ["option"] then close
    | "select" => if ← inSelectScope "select" then leave
    | "template" => return ← inHead token
    | _ => pure ()
    return false
  | .finish => inBody .finish

/-- The rules in a selection that stands in a table. -/
def inSelectInTable (token : Token) : Build Bool := do
  let outer := ["caption", "table", "tbody", "tfoot", "thead", "tr", "td", "th"]
  let leave : Build Bool := do
    closeThrough ["select"]
    resetMode
    return true
  match token with
  | .startTag name .. => if outer.contains name then leave else inSelect token
  | .endTag name =>
    if outer.contains name then
      if ← inScope [name] tableBarriers then leave else return false
    else inSelect token
  | _ => inSelect token

/-! ## In a template, and at the end -/

/-- The rules in a template, which takes up the rules for what it turns out to hold. -/
def inTemplate (token : Token) : Build Bool := do
  let takeUp (mode : Mode) : Build Bool := do
    modify fun d => { d with mode, templateModes := mode :: d.templateModes.drop 1 }
    return true
  match token with
  | .text _ | .comment _ | .doctype .. => inBody token
  | .startTag name .. =>
    if headElements.contains name then inHead token
    else if name == "caption" || name == "colgroup" || rowGroups.contains name then
      takeUp .inTable
    else if name == "col" then takeUp .inColumnGroup
    else if name == "tr" then takeUp .inTableBody
    else if name == "td" || name == "th" then takeUp .inRow
    else takeUp .inBody
  | .endTag "template" => inHead token
  | .endTag _ => return false
  | .finish => finishTemplate

/-- The rules after the body. -/
def afterBody (token : Token) : Build Bool := do
  match token with
  | .doctype .. => return false
  | .comment s =>
    commentIn ((← get).stack.getLast?.getD 0) s
    return false
  | .text cs => if cs.all isSpace then return ← inBody token
  | .startTag "html" attributes _ =>
    mergeRoot attributes
    return false
  | .endTag "html" =>
    setMode .afterAfterBody
    return false
  | .finish => return false
  | _ => pure ()
  setMode .inBody
  return true

/-- The rules after the root element. -/
def afterAfterBody (token : Token) : Build Bool := do
  match token with
  | .doctype .. => return false
  | .comment s =>
    commentIn 0 s
    return false
  | .text cs => if cs.all isSpace then return ← inBody token
  | .startTag "html" attributes _ =>
    mergeRoot attributes
    return false
  | .finish => return false
  | _ => pure ()
  setMode .inBody
  return true

/-! ## Other vocabularies -/

/-- Elements of HTML that end a drawing or a formula in which they are written. -/
def breakouts : List String :=
  ["b", "big", "blockquote", "body", "br", "center", "code", "dd", "div", "dl", "dt", "em", "embed",
    "h1", "h2", "h3", "h4", "h5", "h6", "head", "hr", "i", "img", "li", "listing", "menu", "meta",
    "nobr", "ol", "p", "pre", "ruby", "s", "small", "span", "strong", "strike", "sub", "sup",
    "table", "tt", "u", "ul", "var"]

/-- Elements of other vocabularies that hold HTML. -/
def holdsHtml : List String := ["svg:foreignobject", "svg:desc", "svg:title"]

/-- Elements of formulas that hold text. -/
def holdsText : List String := ["math:mi", "math:mo", "math:mn", "math:ms", "math:mtext"]

/-- The vocabulary of the innermost open element. -/
def currentSpace : Build Space := do
  let d ← get
  match (d.stack.head?).bind (d.nodes[·]?) with
  | some { content := .element space .., .. } => return space
  | _ => return .html

/-- Whether a token is looked at by the rules for other vocabularies. -/
def isForeign (token : Token) : Build Bool := do
  if (← currentSpace) = .html then return false
  let name ← currentName
  match token with
  | .finish => return false
  | .startTag tag .. =>
    return !(holdsHtml.contains name
      || (holdsText.contains name && tag != "mglyph" && tag != "malignmark")
      || (name == "math:annotation-xml" && tag == "svg"))
  | .text _ => return !(holdsHtml.contains name || holdsText.contains name)
  | _ => return true

/-- Closes elements until HTML is allowed. -/
def leaveForeign : Build Unit :=
  modify fun d =>
    { d with
      stack := d.stack.dropWhile fun id =>
        let name := ruleName d id
        (name.startsWith "svg:" || name.startsWith "math:")
          && !holdsHtml.contains name && !holdsText.contains name }

/-- The rules in a drawing or a formula. An end tag that closes nothing there is left to `html`. -/
def foreign (html : Token → Build Bool) (token : Token) : Build Bool := do
  match token with
  | .text cs =>
    insertText cs
    return false
  | .comment s =>
    insertComment s
    return false
  | .doctype .. => return false
  | .startTag name attributes selfClosing =>
    let styled := attributes.any fun a => ["color", "face", "size"].contains a.name
    if breakouts.contains name || (name == "font" && styled) then
      leaveForeign
      return true
    let space ← currentSpace
    openForeign space name attributes selfClosing
    return false
  | .endTag name =>
    let d ← get
    let isSame (id : Nat) := ["svg:" ++ name, "math:" ++ name].contains (ruleName d id)
    let isHtml (id : Nat) :=
      !((ruleName d id).startsWith "svg:" || (ruleName d id).startsWith "math:")
    match d.stack.find? (fun id => isSame id || isHtml id) with
    | some id =>
      if isSame id then
        modify fun d => { d with stack := (d.stack.dropWhile (· != id)).drop 1 }
        return false
      else html token
    | none => return false
  | .finish => return false

/-! ## One token -/

/-- The rules of the mode in force. -/
def inMode (token : Token) : Build Bool := do
  match (← get).mode with
  | .initial => initial token
  | .beforeHtml => beforeHtml token
  | .beforeHead => beforeHead token
  | .inHead => inHead token
  | .afterHead => afterHead token
  | .inBody => inBody token
  | .inText => inText token
  | .inTable => inTable token
  | .inTableText => inTableText token
  | .inCaption => inCaption token
  | .inColumnGroup => inColumnGroup token
  | .inTableBody => inTableBody token
  | .inRow => inRow token
  | .inCell => inCell token
  | .inSelect => inSelect token
  | .inSelectInTable => inSelectInTable token
  | .inTemplate => inTemplate token
  | .afterBody => afterBody token
  | .afterAfterBody => afterAfterBody token

/-- Looks at a token until no rule asks for it to be looked at again, at most `times` times. -/
def apply : Nat → Token → Build Unit
  | 0, _ => pure ()
  | times + 1, token => do
    let again ← if ← isForeign token then foreign inMode token else inMode token
    if again then apply times token

/-- The runs of a text that are all blank, or without blanks. -/
def blankRuns : List Char → List (List Char)
  | [] => []
  | c :: rest =>
    match blankRuns rest with
    | (d :: run) :: runs =>
      if isSpace c == isSpace d then (c :: d :: run) :: runs else [c] :: (d :: run) :: runs
    | runs => [c] :: runs

/-- Takes up a token. A token is looked at again at most a few times for each open element. -/
def take (token : Token) : Build Unit := do
  let dropping := (← get).dropLineFeed
  modify fun d => { d with dropLineFeed := false }
  let times := 8 * ((← get).stack.length + 8)
  match token with
  | .text cs =>
    let cs := if dropping && cs.head? == some '\n' then cs.drop 1 else cs
    (blankRuns cs).forM fun run => apply times (.text run)
  | token => apply times token

/-- Reads markup of at most `limit` characters to its end. -/
def readWithin : Nat → List Char → Build Unit
  | 0, _ => take .finish
  | _, [] => take .finish
  | limit + 1, cs => do
    let sections := (← currentSpace) != .html
    let (token, left) := Token.next (← get).textMode sections cs
    if let some token := token then take token
    readWithin limit left

end Build

/-- The parse tree of a text of markup. -/
def parse (s : String) : List ParseNode :=
  let cs := normalizeLines s.toList
  let cs := if cs.head?.any (·.toNat == 0xFEFF) then cs.drop 1 else cs
  ((Build.readWithin (cs.length + 1) cs).run {}).2.tree

/-- The document that a text of markup describes. -/
def read (s url : String) : Document := documentOf url (parse s)

end Repeater.Markup
