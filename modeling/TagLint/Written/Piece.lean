import TagLint.Markup.Template

/-!
Pieces: markup as it is written.

A source is a sequence of pieces, one after the other. A piece keeps every character that it was
read from, so `Piece.render` gives the source back; it knows nothing of offsets or of nesting.
-/
namespace TagLint.Written

/-- The value of an attribute with all that is written between it and the key. -/
structure Assignment where
  beforeSign : Text
  afterSign : Text
  quote : Option Char
  value : Fragment
  /-- Whether the quote, if there is one, is written again after the value. -/
  isClosed : Bool
  deriving DecidableEq, Repr

/-- An attribute; the key is missing when the attribute starts with an equals sign. -/
structure Attribute where
  key : Option Fragment
  assignment : Option Assignment
  deriving DecidableEq, Repr

/-- How an opening tag ends. -/
inductive Ending where
  /-- The text ends before the tag does. -/
  | unfinished
  | plain
  | selfClosing
  deriving DecidableEq, Repr

/-- An opening tag. -/
structure OpenTag where
  name : Text
  /-- The attributes, each with the separators before it. -/
  attributes : List (Text × Attribute)
  /-- The separators before the end of the tag. -/
  gap : Text
  ending : Ending
  deriving DecidableEq, Repr

/-- The inside of a raw element, and its closing tag if there is one. -/
structure RawBody where
  content : Fragment
  close : Option Text
  deriving DecidableEq, Repr

/-- One construct of the source. -/
inductive Piece where
  | text (content : Fragment)
  | comment (body : Fragment) (isClosed : Bool)
  | doctype (body : Fragment) (isClosed : Bool)
  | opening (tag : OpenTag)
  /-- A `script` or `style` element; it has no body when it closes itself. -/
  | raw (tag : OpenTag) (body : Option RawBody)
  | closing (name tail : Text) (isClosed : Bool)
  deriving DecidableEq, Repr

namespace Assignment

def quoteText (a : Assignment) : Text :=
  a.quote.toList

def render (a : Assignment) : Text :=
  a.beforeSign ++ '=' :: a.afterSign ++ a.quoteText ++ a.value.text ++
    (if a.isClosed then a.quoteText else [])

end Assignment

namespace Attribute

def keyText (a : Attribute) : Text :=
  (a.key.map Fragment.text).getD []

def render (a : Attribute) : Text :=
  a.keyText ++ (a.assignment.map Assignment.render).getD []

end Attribute

namespace Ending

/-- The end of the tag as written. -/
def render : Ending → Text
  | unfinished => []
  | plain => ['>']
  | selfClosing => ['/', '>']

end Ending

namespace OpenTag

def render (tag : OpenTag) : Text :=
  '<' :: tag.name ++ tag.attributes.flatMap (fun entry => entry.1 ++ entry.2.render) ++ tag.gap ++
    tag.ending.render

def isSelfClosing (tag : OpenTag) : Bool :=
  tag.ending == .selfClosing

end OpenTag

namespace RawBody

/-- The body and the closing tag as written. -/
def render (body : RawBody) : Text :=
  body.content.text ++ body.close.getD []

end RawBody

namespace Piece

def bracket (isClosed : Bool) : Text :=
  if isClosed then ['>'] else []

def render : Piece → Text
  | text content => content.text
  | comment body isClosed => "<!--".toList ++ body.text ++ if isClosed then "-->".toList else []
  | doctype body isClosed => "<!".toList ++ body.text ++ bracket isClosed
  | opening tag => tag.render
  | raw tag body => tag.render ++ (body.map RawBody.render).getD []
  | closing name tail isClosed => "</".toList ++ name ++ tail ++ bracket isClosed

/-- The source that the pieces were read from. -/
def renderAll (pieces : List Piece) : Text :=
  pieces.flatMap render

end Piece
end TagLint.Written
