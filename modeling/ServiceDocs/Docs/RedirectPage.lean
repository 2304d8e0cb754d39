import ServiceDocs.Docs.Envelope
import ServiceDocs.Docs.Template

/-!
# The Page After an Authorisation

An authorisation server sends the browser back to this page, which hands the answer to the
window with the viewer and closes itself.

## Main definitions

* `redirectPage`: the page.
* `serveRedirectPage`: the response with the page.
-/

namespace ServiceDocs

/-- The lines of the page. -/
def redirectPageLines : List String := ["<!doctype html>",
  "<html lang=\"en-US\">",
  "<head>",
  "    <title>Swagger UI: OAuth2 Redirect</title>",
  "</head>",
  "<body>",
  "<script>",
  "    'use strict';",
  "    function run () \x7b",
  "        var oauth2 = window.opener.swaggerUIRedirectOauth2;",
  "        var sentState = oauth2.state;",
  "        var redirectUrl = oauth2.redirectUrl;",
  "        var isValid, qp, arr;",
  "",
  "        if (/code|token|error/.test(window.location.hash)) \x7b",
  "            qp = window.location.hash.substring(1).replace('?', '&');",
  "        \x7d else \x7b",
  "            qp = location.search.substring(1);",
  "        \x7d",
  "",
  "        arr = qp.split(\"&\");",
  "        arr.forEach(function (v,i,_arr) " ++
    "\x7b _arr[i] = '\"' + v.replace('=', '\":\"') + '\"';\x7d);",
  "        qp = qp ? JSON.parse('\x7b' + arr.join() + '\x7d',",
  "                function (key, value) \x7b",
  "                    return key === \"\" ? value : decodeURIComponent(value);",
  "                \x7d",
  "        ) : \x7b\x7d;",
  "",
  "        isValid = qp.state === sentState;",
  "",
  "        if ((",
  "          oauth2.auth.schema.get(\"flow\") === \"accessCode\" ||",
  "          oauth2.auth.schema.get(\"flow\") === \"authorizationCode\" ||",
  "          oauth2.auth.schema.get(\"flow\") === \"authorization_code\"",
  "        ) && !oauth2.auth.code) \x7b",
  "            if (!isValid) \x7b",
  "                oauth2.errCb(\x7b",
  "                    authId: oauth2.auth.name,",
  "                    source: \"auth\",",
  "                    level: \"warning\",",
  "                    message: \"Authorization may be unsafe, " ++
    "passed state was changed in server. The passed state wasn't returned from auth server.\"",
  "                \x7d);",
  "            \x7d",
  "",
  "            if (qp.code) \x7b",
  "                delete oauth2.state;",
  "                oauth2.auth.code = qp.code;",
  "                oauth2.callback(\x7bauth: oauth2.auth, redirectUrl: redirectUrl\x7d);",
  "            \x7d else \x7b",
  "                let oauthErrorMsg;",
  "                if (qp.error) \x7b",
  "                    oauthErrorMsg = \"[\"+qp.error+\"]: \" +",
  "                        (qp.error_description ? qp.error_description+ \". \" : " ++
    "\"no accessCode received from the server. \") +",
  "                        (qp.error_uri ? \"More info: \"+qp.error_uri : \"\");",
  "                \x7d",
  "",
  "                oauth2.errCb(\x7b",
  "                    authId: oauth2.auth.name,",
  "                    source: \"auth\",",
  "                    level: \"error\",",
  "                    message: oauthErrorMsg || " ++
    "\"[Authorization failed]: no accessCode received from the server.\"",
  "                \x7d);",
  "            \x7d",
  "        \x7d else \x7b",
  "            oauth2.callback(\x7bauth: oauth2.auth, token: qp, isValid: isValid, " ++
    "redirectUrl: redirectUrl\x7d);",
  "        \x7d",
  "        window.close();",
  "    \x7d",
  "",
  "    if (document.readyState !== 'loading') \x7b",
  "        run();",
  "    \x7d else \x7b",
  "        document.addEventListener('DOMContentLoaded', function () \x7b",
  "            run();",
  "        \x7d);",
  "    \x7d",
  "</script>",
  "</body>",
  "</html>",
  ""]

/-- The page that an authorisation returns to. -/
def redirectPage : String := joinLines redirectPageLines

/-- The response to every event. -/
def serveRedirectPage : Envelope := .page redirectPage

/-- What is reported about a call. -/
def serveRedirectPageRecord : LogRecord := ⟨.debug, "Serving oauth2 redirect page"⟩

end ServiceDocs
