import ServiceDocs.Docs.Envelope
import ServiceDocs.Docs.OAuth
import ServiceDocs.Docs.Template

/-!
# The Viewer Page

The viewer page loads the document of a service in a browser. By default that is the
document at the address of the page with `.json` appended; a fixed address can be given
instead. The title is escaped, and an address is written so that it cannot end the script
in which it stands.

## Main definitions

* `ViewerSettings`, `DocumentUrl`: the settings of the page.
* `escapeHtml`, `DocumentUrl.script`: values that are safe to put into the page.
* `ViewerSettings.page`: the page.
* `ViewerSettings.respond`: the response with the page.
-/

namespace ServiceDocs

/-- Where the viewer page finds the document. -/
inductive DocumentUrl where
  /-- Beside the page. -/
  | sibling
  /-- At a fixed address. -/
  | fixed (url : String)
  deriving DecidableEq, Repr

/-- The expression of a script for the address of the document. -/
def DocumentUrl.script : DocumentUrl → List Char
  | .sibling => "window.location.href + '.json'".toList
  | .fixed url => Text.replaceAll ['<', '/'] ['<', '\\', '/'] (Json.quoteChars url.toList)

/-- The settings of the viewer page. -/
structure ViewerSettings where
  /-- The version of the viewer. -/
  version : String := "4.5.0"
  /-- The title of the page. -/
  title : String := "SwaggerUI"
  /-- Where the page finds the document. -/
  url : DocumentUrl := .sibling
  /-- The settings of an authorisation. -/
  oauth : Option OAuthSettings := none
  /-- Whether the scopes that an operation requires are shown. -/
  operationScopes : Bool := false

/-- A character as it stands in the text of a page. -/
def escapeHtmlChar (c : Char) : List Char :=
  if c = '&' then "&amp;".toList
  else if c = '<' then "&lt;".toList
  else if c = '>' then "&gt;".toList
  else if c = '"' then "&quot;".toList
  else [c]

/-- Whether a character means something to a page. -/
def isMarkup (c : Char) : Bool := c == '&' || c == '<' || c == '>' || c == '"'

/-- A text as it stands in a page. One without characters that mean something to it is not gone
through. -/
def escapeHtml (cs : List Char) : List Char :=
  if cs.any isMarkup then cs.flatMap escapeHtmlChar else cs

/-- The script that the preset for scopes needs. -/
def reactScript : String :=
  "    <script src=\"https://unpkg.com/react@15/dist/react.min.js\"></script>\n"

/-- The presets of every page. -/
def defaultPresets : String := "SwaggerUIBundle.presets.apis, SwaggerUIStandalonePreset"

/-- The preset that shows the scopes of an operation beside its lock. -/
def operationScopesPreset : List String := ["",
  "          system => \x7b",
  "            let currentSecurity",
  "            return \x7b",
  "              wrapComponents: \x7b",
  "                OperationSummary: Original => props => \x7b",
  "                  currentSecurity = props.operationProps.get('security').toJS()",
  "                  return React.createElement(Original, props)",
  "                \x7d,",
  "                authorizeOperationBtn: Original => props =>",
  "                  React.createElement('div', \x7b\x7d, [",
  "                    ...(currentSecurity || []).map(scheme => \x7b",
  "                      const schemeName = Object.keys(scheme)[0]",
  "                      if (!scheme[schemeName].length) return null",
  "                      const scopes = scheme[schemeName].flatMap(scope => [",
  "                        React.createElement('code', null, scope),",
  "                        ', ',",
  "                      ])",
  "                      scopes.pop()",
  "                      return React.createElement('span', null, scopes)",
  "                    \x7d),",
  "                    React.createElement(Original, props),",
  "                  ]),",
  "              \x7d,",
  "            \x7d",
  "          \x7d"]

namespace ViewerSettings

/-- The values of the page. -/
def values (s : ViewerSettings) : PageValue → List Char
  | .title => escapeHtml s.title.toList
  | .version => s.version.toList
  | .react => if s.operationScopes then reactScript.toList else []
  | .url => s.url.script
  | .presets =>
    if s.operationScopes then (defaultPresets ++ "," ++ joinLines operationScopesPreset).toList
    else defaultPresets.toList

/-- The page without an authorisation. -/
def plainPage (s : ViewerSettings) : List Char := fillTemplate s.values

/-- The page. -/
def page (s : ViewerSettings) : String :=
  match s.oauth with
  | none => String.ofList s.plainPage
  | some oauth => String.ofList (oauth.announce s.plainPage)

/-- The response to every event. -/
def respond (s : ViewerSettings) : Envelope := .page s.page

/-- What is reported about a call. -/
def serveRecord : LogRecord := ⟨.debug, "Serving swagger ui page"⟩

end ViewerSettings

end ServiceDocs
