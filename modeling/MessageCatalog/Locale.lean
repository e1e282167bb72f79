import MessageCatalog.Text.LetterCase
import MessageCatalog.Text.Quoted

/-!
# MessageCatalog.Locale

Locale tags such as `zh-Hant-TW`: a language, then perhaps a script, perhaps a region, and any
number of variants. Subtags are separated by a hyphen or an underscore and written in any case; the
normalized tag (`Locale.tag`) has hyphens and the customary case of each subtag. No locale data is
consulted: a tag is accepted for its form alone (`Locale.resolve`).

The forms of script and region exclude each other, and neither is the form of a variant, so a subtag
that has none of them where it stands is one that belongs further to the front, or nowhere. Which
tags are accepted, that the normalized tag resolves to the same locale, and that the locale has
everything but case and separators, is proved in `MessageCatalog.Proofs.Tags`.
-/

namespace MessageCatalog

/-- A locale, with its subtags in their customary case: the language in lower case, the script
capitalized, the region in upper case, and the variants in lower case. -/
structure Locale where
  language : String
  script : Option String
  region : Option String
  variants : List String
  deriving DecidableEq, Repr

namespace Locale

/-- Why a tag is no locale: its language, or the first subtag that is out of place. -/
inductive Reason
  | language
  | subtag (text : String)
  deriving DecidableEq, Repr

/-- A tag that is no locale, with the reason. -/
structure Error where
  id : String
  reason : Reason
  deriving DecidableEq, Repr

/-- The wording of a reason. -/
def Reason.message : Reason → String
  | .language => "invalid language subtag"
  | .subtag text => "invalid subtag " ++ Text.quote text

/-- The wording of the error. -/
def Error.message (e : Error) : String :=
  "cannot resolve locale " ++ Text.quote e.id ++ ": " ++ e.reason.message

/-! ### The forms of subtags -/

/-- Two or three letters. -/
def isLanguage (cs : List Char) : Bool :=
  (cs.length == 2 || cs.length == 3) && cs.all Char.isAlpha

/-- Four letters. -/
def isScript (cs : List Char) : Bool := cs.length == 4 && cs.all Char.isAlpha

/-- Two letters or three digits. -/
def isRegion (cs : List Char) : Bool :=
  (cs.length == 2 && cs.all Char.isAlpha) || (cs.length == 3 && cs.all Char.isDigit)

/-- Five to eight letters and digits, or four that start with a digit. -/
def isVariant (cs : List Char) : Bool :=
  cs.all Char.isAlphanum &&
    ((5 ≤ cs.length && cs.length ≤ 8) || (cs.length == 4 && cs.head?.any Char.isDigit))

/-! ### Case -/

/-- All letters small. -/
def lower (cs : List Char) : List Char := cs.map Char.toLower

/-- All letters capital. -/
def upper (cs : List Char) : List Char := cs.map Char.toUpper

/-- The first letter capital and the others small. -/
def title : List Char → List Char
  | [] => []
  | c :: cs => c.toUpper :: lower cs

/-! ### Resolving -/

/-- A hyphen or an underscore. Both separate alike, also within one tag. -/
def isSeparator (c : Char) : Bool := c = '-' || c = '_'

/-- The subtags of a tag: what stands between separators. There is always one at least, and there
are empty ones where separators are adjacent. -/
def subtags : List Char → List (List Char)
  | [] => [[]]
  | c :: rest =>
    if isSeparator c then [] :: subtags rest
    else
      match subtags rest with
      | first :: more => (c :: first) :: more
      | [] => [[c]]

/-- Takes the first subtag off if it has the form. Script and region are optional in this way. -/
def takeIf (form : List Char → Bool) : List (List Char) → Option (List Char) × List (List Char)
  | [] => (none, [])
  | s :: rest => if form s then (some s, rest) else (none, s :: rest)

/-- The locale of a tag, or why there is none. What is left behind the region has to be variants;
the first that is none is the one reported. -/
def resolve (id : String) : Except Error Locale :=
  match subtags id.toList with
  | [] => .error ⟨id, .language⟩
  | language :: rest =>
    if !isLanguage language then .error ⟨id, .language⟩
    else
      let (script, rest) := takeIf isScript rest
      let (region, rest) := takeIf isRegion rest
      match rest.find? (!isVariant ·) with
      | some s => .error ⟨id, .subtag (.ofList s)⟩
      | none =>
        .ok {
          language := .ofList (lower language)
          script := script.map (.ofList <| title ·)
          region := region.map (.ofList <| upper ·)
          variants := rest.map (.ofList <| lower ·) }

/-- The normalized tag of a locale. -/
def tag (l : Locale) : String :=
  String.join (l.language ::
    (l.script.toList ++ l.region.toList ++ l.variants).map ("-" ++ ·))

end Locale

end MessageCatalog
