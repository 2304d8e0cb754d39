import ServiceDocs.Text.Replace

/-!
# The Template of the Viewer Page

The viewer page is a fixed text with five values in it, some of them at several places. A
value is marked in the text by its name in double braces, and the values are put in one
after the other, each at all of its marks. A mark inside a value that was put in earlier is
a mark like any other.

## Main definitions

* `PageValue`, `PageValue.mark`: the values and their marks.
* `pageTemplate`: the pieces of the page.
* `fillTemplate`: the page with its values.
-/

namespace ServiceDocs

/-- A value of the viewer page. -/
inductive PageValue where
  /-- The title, escaped. -/
  | title
  /-- The version of the viewer. -/
  | version
  /-- The script that some presets need. -/
  | react
  /-- The expression for the address of the document. -/
  | url
  /-- The presets. -/
  | presets
  deriving DecidableEq, Repr

namespace PageValue

/-- The name of a value. -/
def name : PageValue → String
  | .title => "title"
  | .version => "version"
  | .react => "react"
  | .url => "url"
  | .presets => "presets"

/-- The mark of a value in the text of the page. -/
def mark (v : PageValue) : List Char := ['\x7b', '\x7b'] ++ v.name.toList ++ ['\x7d', '\x7d']

/-- The values in the order in which they are put in. -/
def all : List PageValue := [.title, .version, .react, .url, .presets]

end PageValue

/-- A piece of the page. -/
inductive PagePiece where
  /-- Lines, the last one unfinished. -/
  | text (lines : List String)
  /-- A value. -/
  | value (v : PageValue)
  deriving DecidableEq, Repr

/-- The text of lines. -/
def joinLines (lines : List String) : String := "\n".intercalate lines

/-- The text of a piece, a value standing as its mark. -/
def PagePiece.marked : PagePiece → List Char
  | .text lines => (joinLines lines).toList
  | .value v => v.mark

/-- The pieces of the viewer page. -/
def pageTemplate : List PagePiece := [
  .text ["<!DOCTYPE html>",
    "<html lang=\"en\">",
    "  <head>",
    "    <meta charset=\"utf-8\" />",
    "    <meta name=\"viewport\" content=\"width=device-width, initial-scale=1\" />",
    "    <title>"],
  .value .title,
  .text ["</title>",
    "    <link",
    "      rel=\"stylesheet\"",
    "      href=\"https://unpkg.com/swagger-ui-dist@"],
  .value .version,
  .text ["/swagger-ui.css\"",
    "    />",
    ""],
  .value .react,
  .text ["    <script src=\"https://unpkg.com/swagger-ui-dist@"],
  .value .version,
  .text ["/swagger-ui-bundle.js\"></script>",
    "    <script src=\"https://unpkg.com/swagger-ui-dist@"],
  .value .version,
  .text ["/swagger-ui-standalone-preset.js\"></script>",
    "    <script defer>",
    "      window.onload = () => \x7b",
    "        const ui = SwaggerUIBundle(\x7b",
    "          url: "],
  .value .url,
  .text [",",
    "          dom_id: '#swagger-ui',",
    "          presets: ["],
  .value .presets,
  .text ["],",
    "          layout: 'StandaloneLayout',",
    "        \x7d);",
    "        window.ui = ui;",
    "      \x7d;",
    "    </script>",
    "  </head>",
    "  <body>",
    "    <div id=\"swagger-ui\"></div>",
    "  </body>",
    "</html>",
    ""]]

/-- The text of the page with marks in place of its values. -/
def markedPage : List Char := pageTemplate.flatMap PagePiece.marked

/-- Puts a value in at all of its marks. -/
def putValue (values : PageValue → List Char) (page : List Char) (v : PageValue) : List Char :=
  Text.replaceAll v.mark (values v) page

/-- The page with its values, put in one after the other. -/
def fillTemplate (values : PageValue → List Char) : List Char :=
  PageValue.all.foldl (putValue values) markedPage

end ServiceDocs
