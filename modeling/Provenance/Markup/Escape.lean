/-! # Escaping

Text and attribute values are written with references in place of the characters that
would be read as markup. Elements whose content is raw text are written without any.
-/

namespace Provenance.Markup

/-- Elements that have no content and no closing tag. -/
def voidTags : List String :=
  ["area", "base", "basefont", "bgsound", "br", "col", "embed", "frame", "hr", "img", "input",
    "keygen", "link", "meta", "param", "source", "track", "wbr"]

/-- Elements whose text is written as it is. -/
def rawTextTags : List String :=
  ["iframe", "noembed", "noframes", "plaintext", "script", "style", "xmp"]

/-- Whether the two texts differ at most in the case of letters of ASCII. -/
def sameTag (a b : String) : Bool := a.toList.map Char.toLower == b.toList.map Char.toLower

/-- Whether elements of this tag have no closing tag. -/
def isVoid (tag : String) : Bool := voidTags.any (sameTag · tag)

/-- Whether the text of elements of this tag is written as it is. -/
def isRawText (tag : String) : Bool := rawTextTags.any (sameTag · tag)

/-- What is written for a character of text. -/
def escapeTextChar (c : Char) : List Char :=
  if c = '&' then ['&', 'a', 'm', 'p', ';']
  else if c = '\u00a0' then ['&', 'n', 'b', 's', 'p', ';']
  else if c = '<' then ['&', 'l', 't', ';']
  else if c = '>' then ['&', 'g', 't', ';']
  else [c]

/-- What is written for a character of an attribute value. -/
def escapeAttributeChar (c : Char) : List Char :=
  if c = '&' then ['&', 'a', 'm', 'p', ';']
  else if c = '\u00a0' then ['&', 'n', 'b', 's', 'p', ';']
  else if c = '"' then ['&', 'q', 'u', 'o', 't', ';']
  else [c]

/-- What is written for a text inside an element of the given tag. -/
def escapeText (parentTag : String) (text : List Char) : List Char :=
  if isRawText parentTag then text else text.flatMap escapeTextChar

/-- What is written for an attribute value. -/
def escapeAttribute (value : List Char) : List Char := value.flatMap escapeAttributeChar

end Provenance.Markup
