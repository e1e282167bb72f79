import MessageCatalog.Message
import MessageCatalog.Source.Position

/-!
# MessageCatalog.Details.Option

The options of a replacement, such as `.one{item}` or `.[0]{nothing}`: a name (`OptionName`) and a
body, which is a message.

What a name means depends on the kind of replacement (`MessageCatalog.Details.Draft`); only whether
it stands in brackets is the same for all.
-/

namespace MessageCatalog

/-- The name of an option: an identifier, or any text in brackets. -/
inductive OptionName
  | bare (name : String)
  | literal (text : String)
  deriving DecidableEq, Repr

namespace OptionName

/-- The name that an option token stands for, without its dot. Brackets count only as a pair; a text
that only opens one is a bare name with all its characters. -/
def ofText (s : String) : OptionName :=
  match s.toList with
  | '[' :: rest => if rest.getLast? = some ']' then .literal (.ofList rest.dropLast) else .bare s
  | _ => .bare s

/-- The name without brackets, which is the key of the body as a message. -/
def key : OptionName → String
  | .bare name => name
  | .literal text => text

/-- The name as it is written, with its brackets. -/
def source : OptionName → String
  | .bare name => name
  | .literal text => "[" ++ text ++ "]"

end OptionName

/-- An option of a replacement: its name, the position of its token, and its finished body. -/
structure ReplacementOption where
  name : OptionName
  pos : Position
  body : Message

end MessageCatalog
