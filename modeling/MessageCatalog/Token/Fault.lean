import MessageCatalog.Source.Symbol

/-!
# MessageCatalog.Token.Fault

What can be wrong with the characters of a message file (`Token.Fault`), and the wording of each
fault (`Token.Fault.message`).

Faults are what the scanner reports. A fault becomes the text of an invalid token, and that text is
all the reader knows of it: it passes it on as it is (`Cause.reported`). So the causes proper of
`MessageCatalog.Diagnostic`, which the reader finds itself, are a type of their own.

Where a fault names what stands at its place, it carries the symbol, or none at the end of the file.
The way a line break was written shows in that name, and nowhere else in a token.
-/

namespace MessageCatalog.Token

/-- A lexical fault. A fault with a parameter names what was found, or why a symbol is illegal
(`Symbol.Fault`). -/
inductive Fault
  | illegal (fault : Symbol.Fault)
  | unexpectedIndentation
  | headerOpening
  | sectionName
  | headerClosing
  | newlineAfterHeader
  | commentOpening
  | messageKey (found : Option Symbol)
  | colonAfterKey
  | newlineAfterKey
  | strayBrace
  | unclosedReplacement
  | nestingTooDeep
  | replacementKey
  | replacementType
  | optionName (found : Option Symbol)
  | literalClosing
  | unexpectedInReplacement (found : Symbol)
  deriving DecidableEq, Repr

/-- The wording of a `Token.Fault`. -/
def Fault.message : Fault → String
  | .illegal fault => fault.message
  | .unexpectedIndentation => "unexpected indentation"
  | .headerOpening => "'[[' expected"
  | .sectionName => "section name expected"
  | .headerClosing => "']]' expected"
  | .newlineAfterHeader => "newline expected after section header"
  | .commentOpening => "'//' expected"
  | .messageKey found => "message key expected, found " ++ Symbol.describe found
  | .colonAfterKey => "':' expected after message key"
  | .newlineAfterKey => "newline expected after message key"
  | .strayBrace => "unexpected '\x7d'"
  | .unclosedReplacement => "unclosed replacement ('\x7d' expected)"
  | .nestingTooDeep => "replacement nesting too deep"
  | .replacementKey => "replacement key expected"
  | .replacementType => "replacement type expected"
  | .optionName found => "replacement option name expected, found " ++ Symbol.describe found
  | .literalClosing => "']' expected"
  | .unexpectedInReplacement found =>
    "unexpected " ++ Symbol.describe (some found) ++ " in replacement"

end MessageCatalog.Token
