import Workbench.Lib.Masking
import Workbench.Lib.NumberText

/-!
What is struck out of a text before it is reported.

The patterns are replaced one after the other, each in the text that the one before it has left.
Their letters are ASCII: without the flag `u`, no other character is a letter of either case.
-/

namespace Workbench.ErrorSink

open Workbench.Lib Workbench.Lib.Regex

def marker : List Char := "[redacted]".toList

/-- `\s` -/
def isSpace (c : Char) : Bool := NumberText.isTrimmed c

/-- `[a-z0-9_-]` in any case -/
def isKeyChar (c : Char) : Bool := isWord c || c = '-'

/-- `[A-Z0-9_-]` -/
def isUpperKeyChar (c : Char) : Bool := c.isUpper || c.isDigit || c = '_' || c = '-'

/-- `[\w.+/=%-]`, the set of `ASSIGNMENT_VALUE` -/
def isValueChar (c : Char) : Bool := isWord c || ['.', '+', '/', '=', '%', '-'].contains c

def spaces : Regex := star (one isSpace)

def character (c : Char) : Regex := one fun d => d = c

def hyphenOrUnderscore : Regex := one fun c => c = '-' || c = '_'

/-! ### Patterns whose matches are struck out as a whole -/

def bearerPattern : Regex :=
  seqs [caseless "bearer", plus (one isSpace), plus (one (!isSpace ·))]

def authorizationPattern : Regex :=
  seqs [caseless "authorization", spaces, character ':', spaces, plus (one (!isSpace ·))]

/-- `sk`, `pk` or `rk` -/
def providerPrefix : Regex := alts (["sk", "pk", "rk"].map caseless)

def githubKey : Regex :=
  seqs [boundary, alts (["github_pat", "ghp", "gho", "ghu", "ghs"].map caseless), character '_',
    atLeast (one isWord) 8, boundary]

def segmentedKey : Regex :=
  seqs [boundary, providerPrefix, character '-',
    alts (["live", "proj", "test", "dev", "prod", "org", "key", "secret"].map caseless), boundary,
    hyphenOrUnderscore, atLeast (one isWord) 4, boundary]

def bareKey : Regex :=
  seqs [boundary, providerPrefix, character '-', atLeast (one isWord) 9,
    notAhead hyphenOrUnderscore, boundary]

def labelledKey : Regex :=
  seqs [boundary, caseless "sk-", alts (["ant", "svcacct", "dc"].map caseless),
    hyphenOrUnderscore, atLeast (one isKeyChar) 8, boundary]

def stripeKey : Regex :=
  seqs [boundary, providerPrefix, character '_', alts (["live", "test"].map caseless),
    character '_', atLeast (one Char.isAlphanum) 8, boundary]

def geminiKey : Regex :=
  seqs [boundary, exactly "AIzaSy", atLeast (one isKeyChar) 10, boundary]

def rawJwt : Regex :=
  seqs [boundary, exactly "eyJ", atLeast (one isKeyChar) 10, character '.',
    atLeast (one isKeyChar) 10, character '.', atLeast (one isKeyChar) 10, boundary]

/-- The keywords of a secret in free text, in small letters only or in any case. -/
def keyword (text : String → Regex) : Regex :=
  alts [text "password", text "passwd", text "secret", text "token", text "access_token",
    seqs [text "api", opt hyphenOrUnderscore, text "key"]]

def freeText : Regex :=
  seqs [boundary, keyword caseless, plus (one isSpace),
    ahead (seq (atLeast (one isKeyChar) 8) boundary), star (one isKeyChar),
    one (fun c => c.isDigit || c = '_' || c = '-'), star (one isKeyChar), boundary]

def upperFreeText : Regex :=
  seqs [boundary, keyword exactly, plus (one isSpace), atLeast (one isUpperKeyChar) 8, boundary]

/-! ### Assignments, of which only the value is struck out -/

/-- `\s*=\s*` -/
def separator : Regex := seqs [spaces, character '=', spaces]

def sensitiveName : Regex :=
  alts [caseless "access_token", caseless "refresh_token", caseless "id_token",
    seqs [caseless "api", opt hyphenOrUnderscore, caseless "key"], caseless "apikey",
    caseless "secret", caseless "password", caseless "passwd", caseless "token",
    caseless "credential"]

def assignmentValue : Regex := plus (one isValueChar)

def sensitiveAssignment : Mask where
  keeps := seqs [boundary, sensitiveName, separator]
  drops := assignmentValue
  consumes := rfl

def querySensitiveAssignment : Mask where
  keeps := seqs [one (fun c => c = '?' || c = '&'), alts [caseless "code", caseless "key"],
    separator]
  drops := assignmentValue
  consumes := rfl

/-! ### The passes -/

/-- A pattern of which nothing is kept. -/
def whole (drops : Regex) (consumes : drops.nullable = false) : Mask := ⟨empty, drops, consumes⟩

/-- `SECRET_VALUE_PATTERNS` -/
def secretValuePatterns : List Mask :=
  [whole bearerPattern rfl, whole authorizationPattern rfl, whole githubKey rfl,
    whole segmentedKey rfl, whole bareKey rfl, whole labelledKey rfl, whole stripeKey rfl,
    whole geminiKey rfl, whole rawJwt rfl, whole freeText rfl, whole upperFreeText rfl]

def passes : List Mask :=
  secretValuePatterns ++ [sensitiveAssignment, querySensitiveAssignment]

def redact (text : List Char) : List Char :=
  passes.foldl (fun redacted pattern => pattern.replaceAll id marker redacted) text

def redactText (text : String) : String := String.ofList (redact text.toList)

example : redactText "Authorization: sk-live-abcdefgh1234" = "[redacted]" := by decide +kernel

example : redactText "use secret hunter2-hunter2 here" = "use [redacted] here" := by decide +kernel

end Workbench.ErrorSink
