import MessageCatalog.Details.Option
import MessageCatalog.Text.Quoted

/-!
# MessageCatalog.Diagnostic

Errors in message files: what is wrong (`Cause`), where (`Diagnostic`), and the wording of it
(`Cause.message`, `Diagnostic.render`).

A cause is data, so that what a list of errors says can be asked without looking at words: whether
an error concerns the shape of the file or the meaning of a replacement, which option it is about,
which key was found missing. The wording is a function of the cause and nothing else.

A file is reported error by error, or with one line that tells the first error and how many more
there are (`Diagnostic.summary`).
-/

namespace MessageCatalog

/-- What is wrong with a message file. The first one is a fault of the scanner, already in words;
the next three concern the shape of the stream of tokens, and the others what a replacement says. -/
inductive Cause
  /-- A fault with a wording of its own, as the scanner reports it. -/
  | reported (text : String)
  | unexpectedToken (found : String)
  | replacementClosing (found : String)
  | optionClosing (found : String)
  | invalidType (name : String)
  | invalidMoneyOption (name : OptionName)
  | currencyRepeated
  | currencyNotPlain
  | currencyEmpty
  | currencyRequired
  | invalidPluralOption (name : String)
  | pluralTypes (first second : PluralType)
  | categoryRepeated (category : PluralCategory)
  | invalidNumber (text : String)
  | numberRepeated (n : Int)
  | otherRequired
  | caseRepeated (value : String)
  | directiveRepeated (name : String)
  | directiveNotPlain (name : String)
  | unknownDefault (value : String)
  deriving DecidableEq, Repr

/-- The wording of an error. Names are shown as they were written, values in quotes. -/
def Cause.message : Cause → String
  | .reported text => text
  | .unexpectedToken found => "unexpected token " ++ found
  | .replacementClosing found => "'\x7d' expected at end of replacement, found " ++ found
  | .optionClosing found => "'\x7d' expected at end of replacement option, found " ++ found
  | .invalidType name => "invalid replacement type: " ++ name
  | .invalidMoneyOption name => "invalid money option: ." ++ name.source
  | .currencyRepeated => "money option .currency already defined"
  | .currencyNotPlain => "replacements not allowed in money option .currency"
  | .currencyEmpty => "money option .currency is empty"
  | .currencyRequired => "money option .currency required"
  | .invalidPluralOption name => "invalid plural option: ." ++ name
  | .pluralTypes first second =>
    "multiple plural types defined (" ++ first.name ++ " and " ++ second.name ++ ")"
  | .categoryRepeated category => "plural option ." ++ category.name ++ " already defined"
  | .invalidNumber text => "invalid custom plural option: .[" ++ text ++ "]"
  | .numberRepeated n => "custom plural option .[" ++ Text.showInt n ++ "] already defined"
  | .otherRequired => "plural option .other required"
  | .caseRepeated value => "select option .[" ++ value ++ "] already defined"
  | .directiveRepeated name => "select option ." ++ name ++ " already defined"
  | .directiveNotPlain name => "replacements not allowed in select option ." ++ name
  | .unknownDefault value =>
    "default value " ++ Text.quote value ++ " not found in select options"

/-- An error at a place: that of the token that was found, or of the option that is refused. -/
structure Diagnostic where
  cause : Cause
  pos : Position
  deriving DecidableEq, Repr

/-- The error with its place in front. -/
def Diagnostic.render (d : Diagnostic) : String := d.pos.render ++ ": " ++ d.cause.message

/-- One line for a list of errors: the first, and how many there are besides. -/
def Diagnostic.summary : List Diagnostic → String
  | [] => "no errors"
  | [d] => d.render
  | d :: rest => d.render ++ " (and " ++ Text.showNat rest.length ++ " more errors)"

end MessageCatalog
