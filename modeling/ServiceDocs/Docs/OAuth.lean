import ServiceDocs.Json.Printer
import ServiceDocs.Text.Replace

/-!
# Authorisation in the Viewer

The viewer can ask an authorisation server for access. Its settings are handed to it by a
statement of the page, which follows the one that makes the viewer known.

## Main definitions

* `OAuthSettings`: the settings.
* `OAuthSettings.announce`: adds the statement to a page.
-/

namespace ServiceDocs

/-- The settings of an authorisation. -/
structure OAuthSettings where
  /-- The name of the client. -/
  clientId : Option String := none
  /-- The secret of the client. -/
  clientSecret : Option String := none
  /-- The realm. -/
  realm : Option String := none
  /-- The name of the application. -/
  appName : Option String := none
  /-- What stands between scopes. -/
  scopeSeparator : Option String := none
  /-- The scopes that are asked for at first. -/
  scopes : Option (List String) := none
  /-- Further parameters of the query. -/
  additionalQueryStringParams : Option (OrderedMap String) := none
  /-- Whether the client names itself in a header. -/
  useBasicAuthenticationWithAccessCodeGrant : Option Bool := none
  /-- Whether the code is bound to the client. -/
  usePkceWithAuthorizationCodeGrant : Option Bool := none
  deriving DecidableEq, Repr

namespace OAuthSettings

/-- The member of a setting, if it is given. -/
def member {α : Type} (name : String) (value : α → Json) (setting : Option α) :
    List (String × Json) :=
  match setting with
  | none => []
  | some v => [(name, value v)]

/-- The settings as an object. -/
def toJson (s : OAuthSettings) : Json :=
  .object (member "clientId" .string s.clientId ++
    member "clientSecret" .string s.clientSecret ++
    member "realm" .string s.realm ++
    member "appName" .string s.appName ++
    member "scopeSeparator" .string s.scopeSeparator ++
    member "scopes" (fun scopes => .array (scopes.map .string)) s.scopes ++
    member "additionalQueryStringParams" (fun params => .ofMap (params.mapValues .string))
      s.additionalQueryStringParams ++
    member "useBasicAuthenticationWithAccessCodeGrant" .bool
      s.useBasicAuthenticationWithAccessCodeGrant ++
    member "usePkceWithAuthorizationCodeGrant" .bool s.usePkceWithAuthorizationCodeGrant)

/-- The statement that makes the viewer known to the page. -/
def viewerStatement : List Char := "window.ui = ui;".toList

/-- The statement that hands the settings to the viewer, on a line of its own. -/
def statement (s : OAuthSettings) : List Char :=
  "\n        ui.initOAuth(".toList ++ s.toJson.compact.toList ++ ");".toList

/-- Adds the statement to a page, after the first one that makes the viewer known. -/
def announce (s : OAuthSettings) (page : List Char) : List Char :=
  Text.replaceFirst viewerStatement (viewerStatement ++ s.statement) page

end OAuthSettings

end ServiceDocs
