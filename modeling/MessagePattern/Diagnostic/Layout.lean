import MessagePattern.Diagnostic
import MessagePattern.Json

/-!
# Layouts of diagnostics

A diagnostic is written as a report of several lines with the offending line of the pattern and a caret
under the offending column, as one line, or as one JSON object.

* `Layout` — the three ways;
* `Style` — a layout and how it treats long texts and colour;
* `Diagnostic.Style.render` — a diagnostic in a style.
-/

namespace MessagePattern.Diagnostic

/-- How a diagnostic is laid out. -/
inductive Layout where
  /-- Several lines, with an excerpt of the pattern. -/
  | report
  | line
  | json
  deriving DecidableEq, Repr

/-- How diagnostics are written. -/
structure Style where
  layout : Layout := .report
  /-- Whether long texts are cut. -/
  sanitize : Bool := false
  /-- Whether the severity is coloured. -/
  color : Bool := false
  /-- The length at which texts are cut; counted from the end of the text when it is negative. -/
  maxLength : Int := 100
  deriving DecidableEq, Repr

/-- The front part of a text of a given length. A negative length leaves out so many characters at the
end. -/
def frontPart (length : Int) (s : List Char) : List Char :=
  s.take (if 0 ≤ length then length else s.length + length).toNat

/-- The terminal sequence that starts the colour of a severity. -/
def Severity.colorStart : Severity → String
  | .error => "\x1b[1;31m"
  | .warning => "\x1b[1;33m"

/-- The terminal sequence that ends a colour. -/
def colorEnd : String := "\x1b[0m"

/-- An optional text, an empty one counting as none. -/
def nonempty? (text : Option String) : Option String :=
  text.filter fun s => !s.isEmpty

namespace Style

/-- A text, cut to the length of the style. -/
def clip (style : Style) (s : String) : String :=
  if style.sanitize && style.maxLength < s.length then
    String.ofList (frontPart style.maxLength s.toList) ++ "..."
  else s

/-- The severity as a report shows it. -/
def severityLabel (style : Style) (severity : Severity) : String :=
  if style.color then severity.colorStart ++ severity.label ++ colorEnd else severity.label

/-- The offending line of the source between bars, with a caret under the column of the span. Nothing
is shown when the source has no such line. -/
def excerpt (style : Style) (source : String) (span : Span) : List String :=
  match (lines source.toList)[span.line - 1]? with
  | none => []
  | some offending =>
    let number := toString span.line
    let gutter := "".pushn ' ' number.length
    -- The shown line may be cut, but the caret stands where the column says.
    ["  " ++ gutter ++ " |",
     "  " ++ number ++ " | " ++ style.clip (String.ofList offending),
     "  " ++ gutter ++ " | " ++ "".pushn ' ' (span.column - 1) ++ "^"]

/-- The lines of a report. -/
def reportLines (style : Style) (d : Diagnostic) (source : Option String) : List String :=
  let head := style.severityLabel d.severity ++ "[" ++ d.code.name ++ "]: " ++ style.clip d.message
  let place := match d.span with
    | none => []
    | some span =>
      ("  --> line " ++ toString span.line ++ ", column " ++ toString span.column) ::
        (match source with
          | none => []
          | some text => style.excerpt text span)
  let help := match nonempty? d.hint with
    | none => []
    | some hint => ["  = help: " ++ style.clip hint]
  let note := match nonempty? d.helpUrl with
    | none => []
    | some url => ["  = note: see " ++ url]
  head :: (place ++ help ++ note)

/-- The JSON object of a diagnostic; what is not known is left out. -/
def json (style : Style) (d : Diagnostic) : Json :=
  let place := match d.span with
    | none => []
    | some span =>
      [("line", .int span.line), ("column", .int span.column), ("start", .int span.start),
       ("end", .int span.stop)]
  .obj ([("code", .str d.code.name), ("code_value", .int d.code.number),
         ("message", .str (style.clip d.message)), ("severity", .str d.severity.label)] ++ place ++
    Json.optional "expected" d.expected ++ Json.optional "found" d.found ++
    Json.optional "hint" ((nonempty? d.hint).map style.clip) ++
    Json.optional "help_url" (nonempty? d.helpUrl))

/-- A diagnostic in a style; a report shows the offending line when the source is at hand. -/
def render (style : Style) (d : Diagnostic) (source : Option String) : String :=
  match style.layout with
  | .report => "\n".intercalate (style.reportLines d source)
  | .line => d.code.name ++ ": " ++ style.clip d.message
  | .json => (style.json d).text

/-- Several diagnostics in a style, with blank lines between them. -/
def renderAll (style : Style) (ds : List Diagnostic) : String :=
  "\n\n".intercalate (ds.map fun d => style.render d none)

end Style

/-- The plain report of a diagnostic. -/
def report (d : Diagnostic) (source : Option String) : String :=
  Style.render {} d source

end MessagePattern.Diagnostic
