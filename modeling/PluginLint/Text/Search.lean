/-!
# Finding and replacing text

Searches go from left to right and take the first place that fits.
-/
namespace PluginLint.Text

/-- Some part of `s` is `part`. -/
def hasInfix (part : List Char) : List Char → Bool
  | [] => part.isEmpty
  | c :: s => part.isPrefixOf (c :: s) || hasInfix part s

/-- `part` occurs in `s`. -/
def contains (s part : String) : Bool := hasInfix part.toList s.toList

/-- The text in front of the first `marker`, and the text behind it; if there is none, all of the
text and nothing. -/
def breakAt (marker : List Char) : List Char → List Char × List Char
  | [] => ([], [])
  | c :: s =>
    if marker.isPrefixOf (c :: s) then ([], (c :: s).drop marker.length)
    else
      let (before, after) := breakAt marker s
      (c :: before, after)

/-- Every occurrence of a text replaced, from left to right. An empty text is never replaced. -/
def replaceAll (old new : List Char) : List Char → List Char
  | [] => []
  | c :: s =>
    if !old.isEmpty && old.isPrefixOf (c :: s) then
      new ++ replaceAll old new (s.drop (old.length - 1))
    else c :: replaceAll old new s
termination_by s => s.length
decreasing_by
  · simp only [List.length_drop, List.length_cons]
    omega
  · simp

/-- The text behind a beginning, if it begins so. -/
def dropStart? (start s : List Char) : Option (List Char) :=
  if start.isPrefixOf s then some (s.drop start.length) else none

def startsWith (s start : String) : Bool := start.toList.isPrefixOf s.toList

def endsWith (s ending : String) : Bool := ending.toList.isSuffixOf s.toList

/-- Texts with a separator between them. -/
def join (separator : String) : List String → String
  | [] => ""
  | [s] => s
  | s :: rest => s ++ separator ++ join separator rest

/-- The texts between separators. -/
def splitOn (separator : Char) (s : String) : List String := go [] s.toList
where
  go (taken : List Char) : List Char → List String
    | [] => [String.ofList taken.reverse]
    | c :: s =>
      if c == separator then String.ofList taken.reverse :: go [] s else go (c :: taken) s

/-- ASCII letters in lower case; other characters stay. -/
def toLowerAscii (s : String) : String := String.ofList (s.toList.map Char.toLower)

/-- Equal but for the case of ASCII letters. -/
def eqIgnoreCase (s t : String) : Bool := toLowerAscii s == toLowerAscii t

end PluginLint.Text
