import PluginLint.Text.Blank
import PluginLint.Text.Numeral
import PluginLint.Text.Search

/-!
# Marks in documentation text

Documentation is scanned for start, end and empty tags, comments and data sections. Whatever does
not fit is text, so every text can be scanned.
-/
namespace PluginLint.Docs

/-- The five named characters, each replaced in a pass of its own over the whole text. -/
def decodeEntities (s : List Char) : List Char :=
  let s := Text.replaceAll "&lt;".toList ['<'] s
  let s := Text.replaceAll "&gt;".toList ['>'] s
  let s := Text.replaceAll "&quot;".toList ['"'] s
  let s := Text.replaceAll "&apos;".toList ['\''] s
  Text.replaceAll "&amp;".toList ['&'] s

def isNameStart (c : Char) : Bool := Text.isLetter c || c == '_' || c == ':'

def isNameChar (c : Char) : Bool :=
  Text.isWordChar c || c == '_' || c == ':' || c == '-' || c == '.'

/-- What a scan finds. -/
inductive Mark where
  /-- Text as it is to be read. -/
  | text (s : String)
  /-- A start tag, or an empty tag such as `<name/>`. -/
  | startTag (name : String) (attributes : List (String × String)) (isEmpty : Bool)
  | endTag (name : String)
  deriving DecidableEq, Repr

/-- The value of an attribute, and the text behind it. Without quotes it ends at white space, `>`
or `/`, and nothing in it is decoded. -/
def attributeValue (s : List Char) : List Char × List Char :=
  match s with
  | '"' :: rest =>
    let (value, rest) := Text.breakAt ['"'] rest
    (decodeEntities value, rest)
  | '\'' :: rest =>
    let (value, rest) := Text.breakAt ['\''] rest
    (decodeEntities value, rest)
  | _ =>
    let inside := fun c => !(Text.isBlank c || c == '>' || c == '/')
    (s.takeWhile inside, s.dropWhile inside)

/-- One attribute, and the text behind it; a name comes next. -/
def attributePair (s : List Char) : (String × String) × List Char :=
  let key := String.ofList (s.takeWhile isNameChar)
  match Text.dropBlank (s.dropWhile isNameChar) with
  | '=' :: rest =>
    let (value, rest) := attributeValue (Text.dropBlank rest)
    ((key, String.ofList value), rest)
  | rest => ((key, ""), rest)

/-- The attributes of a tag up to its end, whether it is empty, and the text behind it. -/
def attributes : Nat → List Char → List (String × String) × Bool × List Char
  | 0, s => ([], false, s)
  | fuel + 1, s =>
    match Text.dropBlank s with
    | [] => ([], false, [])
    | '/' :: '>' :: rest => ([], true, rest)
    | '>' :: rest => ([], false, rest)
    | c :: rest =>
      if isNameStart c then
        let (pair, rest) := attributePair (c :: rest)
        let (pairs, isEmpty, rest) := attributes fuel rest
        (pair :: pairs, isEmpty, rest)
      else attributes fuel rest

/-- The first thing in a text that is not empty, if it counts, and the text behind it. -/
def nextMark (s : List Char) : Option Mark × List Char :=
  if let some rest := Text.dropStart? "<!--".toList s then
    (none, (Text.breakAt "-->".toList rest).2)
  else if let some rest := Text.dropStart? "<![CDATA[".toList s then
    let (data, rest) := Text.breakAt "]]>".toList rest
    (some (.text (String.ofList data)), rest)
  else
    match s with
    | '<' :: '/' :: c :: rest =>
      if isNameStart c then
        let name := (c :: rest).takeWhile isNameChar
        let behind := (c :: rest).dropWhile isNameChar
        (some (.endTag (String.ofList name)), (Text.breakAt ['>'] behind).2)
      else plainText s
    | '<' :: c :: rest =>
      if isNameStart c then
        let name := (c :: rest).takeWhile isNameChar
        let behind := (c :: rest).dropWhile isNameChar
        let (pairs, isEmpty, rest) := attributes (behind.length + 1) behind
        (some (.startTag (String.ofList name) pairs isEmpty), rest)
      else plainText s
    | _ => plainText s
where
  /-- Text up to the next `<` behind the first character. -/
  plainText : List Char → Option Mark × List Char
    | [] => (none, [])
    | c :: rest =>
      let text := c :: rest.takeWhile (· != '<')
      (some (.text (String.ofList (decodeEntities text))), rest.dropWhile (· != '<'))

/-- All marks of a text, in order. -/
def marksUpTo : Nat → List Char → List Mark
  | 0, _ => []
  | fuel + 1, s =>
    if s.isEmpty then []
    else
      let (mark, rest) := nextMark s
      mark.toList ++ marksUpTo fuel rest

/-- All marks of a text, in order. Each takes at least one character. -/
def marks (s : String) : List Mark := marksUpTo s.length s.toList

end PluginLint.Docs
