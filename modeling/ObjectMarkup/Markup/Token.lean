import ObjectMarkup.Markup.Attribute

/-!
# Tokens of markup

`Token.scan` cuts a document into tags, runs of text, character data sections and references;
comments, processing instructions, the XML declaration and document type declarations come out as
tokens that carry nothing. It checks that end tags match the innermost open start tag, and reports a
construct that has no end at the place where the construct starts. Names are not checked.

Every token carries the byte offset just after it: that is where a reader of tokens reports what it
finds wrong with the token itself.
-/

set_option autoImplicit false

namespace ObjectMarkup

namespace Markup

/-- A piece of a document. -/
inductive Token where
  | opening (tag : Tag)
  | selfClosing (tag : Tag)
  | closing
  | text (content : String)
  | cdata (content : String)
  | reference (body : String)
  /-- A comment, a processing instruction, an XML declaration or a document type declaration. -/
  | other
deriving DecidableEq, Repr

/-- A token and the byte offset just after it. -/
structure PlacedToken where
  token : Token
  stop : Nat
deriving DecidableEq, Repr

namespace Token

/-- What can be wrong with the division of a document into tokens. -/
inductive Cause where
  | openReference
  | openTag
  | openValue (quote : Char)
  | unknownMarkup
  | openComment
  | openCdata
  | openDoctype
  | openInstruction
  | openDeclaration
  | namelessDoctype
  | mismatchedEnd (expected found : String)
  | unmatchedEnd (found : String)
deriving DecidableEq, Repr

/-- The text of a fault of the markup. -/
def Cause.message : Cause → String
  | .openReference =>
    "ill-formed document: entity or character reference not closed: " ++
      "`;` not found before end of input"
  | .openTag => unclosed "tag" ">"
  | .openValue quote => unclosed "attribute value" (String.singleton quote)
  | .unknownMarkup => "syntax error: unknown or missed symbol in markup"
  | .openComment => unclosed "comment" "-->"
  | .openCdata => unclosed "CDATA" "]]>"
  | .openDoctype => unclosed "DOCTYPE" ">"
  | .openInstruction => unclosed "processing instruction" "?>"
  | .openDeclaration => unclosed "XML declaration" "?>"
  | .namelessDoctype =>
    "ill-formed document: `<!DOCTYPE>` declaration does not contain a name of a document type"
  | .mismatchedEnd expected found =>
    s!"ill-formed document: expected `</{expected}>`, but `</{found}>` was found"
  | .unmatchedEnd found =>
    s!"ill-formed document: close tag `</{found}>` does not match any open tag"
where
  unclosed (construct mark : String) : String :=
    s!"syntax error: {construct} not closed: `{mark}` not found before end of input"

/-- A cause and the byte offset it is reported at. -/
structure Fault where
  cause : Cause
  offset : Nat
deriving DecidableEq, Repr

/-- Where inside a document type declaration a scan is. -/
inductive Doctype where
  /-- Before the internal subset, inside a quoted literal or not. -/
  | outside (quote : Option Char)
  /-- Between the constructs of the internal subset. -/
  | subset
  /-- After the opening bracket of a construct of the subset and these characters. They are the
  start of one of `constructs`, but not all of it. -/
  | opened (taken : List Char)
  /-- In a comment of the subset that ends with `dashes` dashes so far. -/
  | comment (dashes : Nat)
  /-- In a processing instruction of the subset; whether a question mark came last. -/
  | instruction (asked : Bool)
  /-- In a markup declaration of the subset that may have quoted literals. -/
  | literals (quote : Option Char)
  | plain
  | closed

/-- The quote that is open after a character: quotes of the other kind do not count inside one. -/
def quoteAfter (quote : Option Char) (c : Char) : Option Char :=
  match quote with
  | some q => if c = q then none else some q
  | none => if c = '"' || c = '\'' then some c else none

namespace Doctype

/-- The constructs of the subset that do not simply end at the first closing bracket, by what
follows their opening bracket. Element declarations are not among them: they have no quoted
literals, so that a quote in one means nothing. -/
def constructs : List (List Char × Doctype) :=
  [("?".toList, .instruction false), ("!--".toList, .comment 0),
    ("!ENTITY".toList, .literals none), ("!ATTLIST".toList, .literals none),
    ("!NOTATION".toList, .literals none)]

/-- Reads the character after `taken` in the opening of a construct of the subset. -/
def nextOpened (taken : List Char) (c : Char) : Doctype :=
  let opening := taken ++ [c]
  match constructs.lookup opening with
  | some inside => inside
  | none =>
    if constructs.any fun construct => opening.isPrefixOf construct.1 then .opened opening
    else if c = '>' then .subset
    else .plain

/-- Reads a character that does not end the document type declaration. -/
def next : Doctype → Char → Doctype
  | .outside quote, c =>
    if c = '[' && quote.isNone then .subset else .outside (quoteAfter quote c)
  | .subset, c => if c = ']' then .closed else if c = '<' then .opened [] else .subset
  | .opened taken, c => nextOpened taken c
  | .comment dashes, c =>
    if c = '-' then .comment (dashes + 1)
    else if c = '>' && 2 ≤ dashes then .subset
    else .comment 0
  | .instruction asked, c =>
    if c = '>' && asked then .subset else .instruction (c = '?')
  | .literals quote, c =>
    if c = '>' && quote.isNone then .subset else .literals (quoteAfter quote c)
  | .plain, c => if c = '>' then .subset else .plain
  | .closed, _ => .closed

/-- Whether a closing bracket ends the whole declaration here. -/
def canEnd : Doctype → Bool
  | .outside quote => quote.isNone
  | .closed => true
  | _ => false

end Doctype

/-- What a scan is inside of. Offsets are those of the opening character; the characters after it
are kept last first. -/
inductive Mode where
  /-- Between constructs. -/
  | text (taken : List Char)
  | reference (start : Nat) (taken : List Char)
  /-- After `<`. -/
  | opened (start : Nat)
  | tag (start : Nat) (taken : List Char) (quote : Option Char)
  /-- After `<!`. -/
  | declared (start : Nat)
  | comment (start : Nat) (taken : List Char)
  | cdata (start : Nat) (taken : List Char)
  | doctype (start : Nat) (taken : List Char) (inside : Doctype)
  | instruction (start : Nat) (taken : List Char)

/-- A scan in progress: its mode and the names of the open elements, innermost first. -/
structure State where
  mode : Mode
  names : List String

/-- What a step of the scan gives. -/
abbrev Step := Except Fault (List PlacedToken × State)

/-- The name in an end tag, from what follows the stroke. White space after it does not count. -/
def endName (cs : List Char) : String :=
  let trimmed := (cs.reverse.dropWhile isMarkupSpace).reverse
  String.ofList (if trimmed.isEmpty then cs else trimmed)

/-- A complete tag with the given content; it starts at byte `start` and stops before `stop`. -/
def tagEnd (names : List String) (start stop : Nat) (content : List Char) : Step :=
  match content with
  | '/' :: rest =>
    let found := endName rest
    match names with
    | [] => .error ⟨.unmatchedEnd found, start⟩
    | expected :: outer =>
      if found = expected then .ok ([⟨.closing, stop⟩], ⟨.text [], outer⟩)
      else .error ⟨.mismatchedEnd expected found, start⟩
  | _ =>
    if content.getLast? = some '/' then
      .ok ([⟨.selfClosing ⟨String.ofList content.dropLast⟩, stop⟩], ⟨.text [], names⟩)
    else
      let tag : Tag := ⟨String.ofList content⟩
      .ok ([⟨.opening tag, stop⟩], ⟨.text [], tag.name :: names⟩)

/-- Reads a character inside a tag. -/
def tagStep (names : List String) (start : Nat) (taken : List Char) (quote : Option Char)
    (offset : Nat) (c : Char) : Step :=
  if c = '>' && quote.isNone then tagEnd names start (offset + 1) taken.reverse
  else .ok ([], ⟨.tag start (c :: taken) (quoteAfter quote c), names⟩)

/-- A run of text as a token; an empty run is none. -/
def textToken (taken : List Char) (stop : Nat) : List PlacedToken :=
  if taken.isEmpty then [] else [⟨.text (String.ofList taken.reverse), stop⟩]

/-- Whether the content of a construct is long enough, ends with two marks and has the right
opening. A construct that ends but has the wrong opening counts as not closed. -/
def closes (least : Nat) (mark : Char) (taken : List Char) : Bool :=
  least ≤ taken.length && taken.take 2 == [mark, mark]

/-- The opening of a document type declaration, in capitals. -/
def doctypeOpening : List Char := "!DOCTYPE".toList

/-- A complete document type declaration. It needs the opening in any case and a name. -/
def doctypeEnd (names : List String) (start offset : Nat) (content : List Char) : Step :=
  if content.length < doctypeOpening.length ||
      (content.take doctypeOpening.length).map Char.toUpper != doctypeOpening then
    .error ⟨.openDoctype, start⟩
  else if (content.drop doctypeOpening.length).all isMarkupSpace then
    .error ⟨.namelessDoctype, offset⟩
  else .ok ([⟨.other, offset + 1⟩], ⟨.text [], names⟩)

/-- Whether an instruction is the XML declaration: its target is `xml`, or it stops there. -/
def isDeclaration (content : List Char) : Bool :=
  content.take 4 == "?xml".toList &&
    (match content.drop 4 with
    | [] => true
    | c :: _ => isMarkupSpace c || c == '?')

/-- Reads the character at byte `offset`. -/
def step (s : State) (offset : Nat) (c : Char) : Step :=
  match s.mode with
  | .text taken =>
    if c = '<' then .ok (textToken taken offset, { s with mode := .opened offset })
    else if c = '&' then .ok (textToken taken offset, { s with mode := .reference offset [] })
    else .ok ([], { s with mode := .text (c :: taken) })
  | .reference start taken =>
    if c = ';' then
      .ok ([⟨.reference (String.ofList taken.reverse), offset + 1⟩], { s with mode := .text [] })
    else if c = '&' || c = '<' then .error ⟨.openReference, start⟩
    else .ok ([], { s with mode := .reference start (c :: taken) })
  | .opened start =>
    if c = '!' then .ok ([], { s with mode := .declared start })
    else if c = '?' then .ok ([], { s with mode := .instruction start [c] })
    else tagStep s.names start [] none offset c
  | .tag start taken quote => tagStep s.names start taken quote offset c
  | .declared start =>
    if c = '[' then .ok ([], { s with mode := .cdata start [c, '!'] })
    else if c = '-' then .ok ([], { s with mode := .comment start [c, '!'] })
    else if c = 'D' || c = 'd' then
      .ok ([], { s with mode := .doctype start [c, '!'] (.outside none) })
    else .error ⟨.unknownMarkup, start⟩
  | .comment start taken =>
    if c = '>' && closes 5 '-' taken then
      if taken.reverse.take 3 == "!--".toList then
        .ok ([⟨.other, offset + 1⟩], { s with mode := .text [] })
      else .error ⟨.openComment, start⟩
    else .ok ([], { s with mode := .comment start (c :: taken) })
  | .cdata start taken =>
    if c = '>' && closes 2 ']' taken then
      if taken.reverse.take 8 == "![CDATA[".toList then
        let content := ((taken.drop 2).reverse).drop 8
        .ok ([⟨.cdata (String.ofList content), offset + 1⟩], { s with mode := .text [] })
      else .error ⟨.openCdata, start⟩
    else .ok ([], { s with mode := .cdata start (c :: taken) })
  | .doctype start taken inside =>
    if c = '>' && inside.canEnd then doctypeEnd s.names start offset taken.reverse
    else .ok ([], { s with mode := .doctype start (c :: taken) (inside.next c) })
  | .instruction start taken =>
    if c = '>' && taken.head? = some '?' then
      if taken.length = 1 then .error ⟨.openInstruction, start⟩
      else .ok ([⟨.other, offset + 1⟩], { s with mode := .text [] })
    else .ok ([], { s with mode := .instruction start (c :: taken) })

/-- Ends the document at byte `offset`. Elements may stay open. -/
def finish (s : State) (offset : Nat) : Except Fault (List PlacedToken) :=
  match s.mode with
  | .text taken => .ok (textToken taken offset)
  | .reference start _ => .error ⟨.openReference, start⟩
  | .opened start => .error ⟨.openTag, start⟩
  | .tag start _ none => .error ⟨.openTag, start⟩
  | .tag start _ (some quote) => .error ⟨.openValue quote, start⟩
  | .declared start => .error ⟨.unknownMarkup, start⟩
  | .comment start _ => .error ⟨.openComment, start⟩
  | .cdata start _ => .error ⟨.openCdata, start⟩
  | .doctype start _ _ => .error ⟨.openDoctype, start⟩
  | .instruction start taken =>
    if isDeclaration taken.reverse then .error ⟨.openDeclaration, start⟩
    else .error ⟨.openInstruction, start⟩

/-- The scanner of documents. -/
def scanner : Scanner State PlacedToken Fault := ⟨step, finish⟩

/-- The tokens of a document, up to its end or the first fault. A byte order mark in front is
dropped, and offsets do not count it. -/
def scan (source : String) : Scan PlacedToken Fault :=
  let text :=
    match source.toList with
    | c :: rest => if c = '\uFEFF' then rest else c :: rest
    | [] => []
  scanner.run ⟨.text [], []⟩ 0 text

end Token

end Markup

end ObjectMarkup
