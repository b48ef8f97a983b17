import PlotQuery.Annotator

/-! Annotators for words of a fixed vocabulary: colours, line styles and markers, each with the code
that a plotting tool uses for it, and for quoted text. -/
namespace PlotQuery.Annotator

def colors : List (String × String) :=
  [("white", "w"), ("cyan", "c"), ("black", "k"), ("blue", "b"), ("green", "g"), ("red", "r"),
   ("yellow", "y"), ("magenta", "m")]

def lineStyles : List (String × String) :=
  [("solid", "-"), ("dashed", "--"), ("dash-dot", "-."), ("dotted", ":"), ("dot-dash", "-.")]

def markers : List (String × String) :=
  [("point", "."), ("dot", "."), ("pixel", ","), ("circle", "o"), ("triangle_down", "v"),
   ("triangle_up", "^"), ("triangle_left", "<"), ("triangle_right", ">"), ("tri_down", "1"),
   ("tri_up", "2"), ("tri_left", "3"), ("tri_right", "4"), ("square", "s"), ("pentagon", "p"),
   ("star", "*"), ("hexagon1", "h"), ("hexagon2", "H"), ("plus", "+"), ("x", "x"),
   ("diamond", "D"), ("thin_diamond", "d"), ("vline", "|"), ("hline", "_")]

variable {S : Type} [Scalar S]

/-- The finding for a code, which is also the value of a key of its own. -/
def coded (key code : String) : Finding S :=
  (Finding.ofValue code).put key code

/-- A colour, in its normal form or as typed. -/
def color : Annotator S where
  symbol := "$precolor"
  annotate span _ := do
    let token ← span.single?
    let code ← token.forms.findSome? fun form => colors.lookup form
    return coded "color" code

/-- A line style, as typed. Normal forms do not count, since that of a dotted line is a marker. -/
def lineStyle : Annotator S where
  symbol := "$linefmt"
  annotate span _ := do
    let token ← span.single?
    let code ← lineStyles.lookup (Text.lower token.raw)
    return coded "line" code

/-- A marker, as typed. -/
def marker : Annotator S where
  symbol := "$markerfmt"
  annotate span _ := do
    let token ← span.single?
    let code ← markers.lookup (Text.lower token.raw)
    return coded "marker" code

/-- Whether a text starts and ends with a double quote, which are two different ones. -/
def isQuoted (text : List Char) : Bool :=
  2 ≤ text.length && text.head? == some '"' && text.getLast? == some '"'

/-- A token between double quotes, which stay part of the value. -/
def quotedText : Annotator S where
  symbol := "$quotedstring"
  annotate span _ := do
    let token ← span.single?
    if isQuoted token.raw.toList then some (Finding.ofValue token.raw) else none

end PlotQuery.Annotator
