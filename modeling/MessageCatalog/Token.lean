import MessageCatalog.Source.Position
import MessageCatalog.Text.Quoted

/-!
# MessageCatalog.Token

The tokens of a message file (`Token`). A token carries the text it stands for and the position of
its first character; an invalid token carries the wording of a fault instead.

Tokens are all that the reader of messages gets to see. It tells them apart by their kind
(`Token.Kind`), puts their texts into messages, and passes their positions on.

A kind has a name (`Token.Kind.name`), by which a token without a text is described
(`Token.describe`); a name determines its kind (`Token.Kind.ofName?`).
-/

namespace MessageCatalog

namespace Token

/-- What a token is. An `optionEnd` and a `replacementEnd` are both a closing brace; which of them
it is depends on where the brace stands. -/
inductive Kind
  | invalid
  | eof
  | sectionHeader
  | messageKey
  | messageText
  | messageNewline
  | replacementStart
  | replacementType
  | optionStart
  | optionEnd
  | replacementEnd
  deriving DecidableEq, Repr

/-- The name of a kind of token. -/
def Kind.name : Kind → String
  | .invalid => "Invalid"
  | .eof => "Eof"
  | .sectionHeader => "SectionHeader"
  | .messageKey => "MessageKey"
  | .messageText => "MessageText"
  | .messageNewline => "MessageNewline"
  | .replacementStart => "ReplacementStart"
  | .replacementType => "ReplacementType"
  | .optionStart => "ReplacementOptionStart"
  | .optionEnd => "ReplacementOptionEnd"
  | .replacementEnd => "ReplacementEnd"

/-- All kinds of tokens, in the order of `Token.Kind`. -/
def Kind.all : List Kind :=
  [.invalid, .eof, .sectionHeader, .messageKey, .messageText, .messageNewline, .replacementStart,
    .replacementType, .optionStart, .optionEnd, .replacementEnd]

/-- The kind whose `Token.Kind.name` is just that, letter case included. -/
def Kind.ofName? (name : String) : Option Kind := Kind.all.find? (·.name = name)

end Token

/-- A token. The flag `aborts` marks the invalid token after which scanning was given up; nothing
but the commentary (`Event.scanAborted`) depends on it. -/
structure Token where
  kind : Token.Kind
  text : String := ""
  pos : Position
  aborts : Bool := false
  deriving DecidableEq, Repr

namespace Token

/-- The token as it is named in messages: by its text in quotes, or by its kind where it has no text
of its own. -/
def describe (t : Token) : String :=
  match t.kind with
  | .eof => "EOF"
  | .messageNewline => "newline"
  | .optionEnd | .replacementEnd => "\"\x7d\""
  | _ => if t.text.isEmpty then t.kind.name else Text.quote t.text

end Token

end MessageCatalog
