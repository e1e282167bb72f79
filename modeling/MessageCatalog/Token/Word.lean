import MessageCatalog.Source.Layout
import MessageCatalog.Text.Numeric

/-!
# MessageCatalog.Token.Word

The runs of characters that tokens are made of:

* identifiers (`ident`), for keys, types and the names of options;
* dotted names (`dottedName`), for sections;
* text (`text`), up to what ends it in a body;
* literals (`literal`), the text of an option name in brackets.

Each function gives the longest run at the start of a list of symbols, as characters; a run is as
many symbols wide as it has characters, so its length says how far to move a cursor. That the run
really stands at the start of its input is the lemma `*_append` of each function. There is one more
measure here, `commentWidth`, which gives a width only: nobody reads a comment.

All of them stop in front of a line break, because a line break is no character in the alphabet of
symbols.
-/

namespace MessageCatalog.Word

/-- An identifier may start with the character `c`: an alphabetic one (`Text.isAlphabetic`) or an
underscore. -/
def startsIdent (c : Char) : Bool := Text.isAlphabetic c || c = '_'

/-- An identifier may go on with the character `c`: an alphabetic or numeric one
(`Text.isAlphanumeric`), an underscore or a hyphen. -/
def continuesIdent (c : Char) : Bool := Text.isAlphanumeric c || c = '_' || c = '-'

/-- The longest run of characters with the property `p`. -/
def charsWhile (p : Char → Bool) : List Symbol → List Char
  | .char c :: rest => if p c then c :: charsWhile p rest else []
  | _ => []

/-- The identifier at the start, empty if there is none. -/
def ident : List Symbol → List Char
  | .char c :: rest => if startsIdent c then c :: charsWhile continuesIdent rest else []
  | _ => []

/-- The rest of a dotted name. A dot belongs to it if an identifier follows, so a dot at the end is
left to what comes next. -/
def dottedRest : List Symbol → List Char
  | .char '.' :: .char c :: rest => if startsIdent c then '.' :: c :: dottedRest rest else []
  | .char c :: rest => if continuesIdent c then c :: dottedRest rest else []
  | _ => []

/-- The identifiers joined by dots at the start, empty if there is none. -/
def dottedName : List Symbol → List Char
  | .char c :: rest => if startsIdent c then c :: dottedRest rest else []
  | _ => []

/-- The message text at the start. It ends before a line break, a closing brace, the start of a
replacement, or an illegal symbol (`Symbol.fault?`). A dollar sign alone belongs to it. -/
def text : List Symbol → List Char
  | .char '$' :: .char '{' :: _ => []
  | .char c :: rest =>
    if c ≠ '}' ∧ (Symbol.char c).fault? = none then c :: text rest else []
  | _ => []

/-- The characters of a literal, up to its closing bracket, a line break or an illegal symbol. -/
def literal (input : List Symbol) : List Char :=
  charsWhile (fun c => c ≠ ']' && (Symbol.char c).fault?.isNone) input

/-- The width of the part of a comment up to a line break or an illegal symbol. -/
def commentWidth (input : List Symbol) : Nat :=
  (input.takeWhile fun s => !s.isNewline && s.fault?.isNone).length

/-! ### A run stands at the start of its input

The input is the run, and what is left when the run is dropped. The inductions follow the recursion
of the functions. -/

/-- The run of `charsWhile` stands at the start of the input. -/
theorem charsWhile_append (p : Char → Bool) (input : List Symbol) :
    (charsWhile p input).map .char ++ input.drop (charsWhile p input).length = input := by
  fun_induction charsWhile p input with
  | case1 c rest _ ih => simp [ih]
  | case2 => rfl
  | case3 => rfl

/-- The run of `ident` stands at the start of the input. -/
theorem ident_append (input : List Symbol) :
    (ident input).map .char ++ input.drop (ident input).length = input := by
  unfold ident
  split
  · split
    · simp [charsWhile_append]
    · rfl
  · rfl

/-- The run of `dottedRest` stands at the start of the input, dots included. -/
theorem dottedRest_append (input : List Symbol) :
    (dottedRest input).map .char ++ input.drop (dottedRest input).length = input := by
  fun_induction dottedRest input with
  | case1 c rest _ ih => simp [ih]
  | case2 => rfl
  | case3 c rest _ _ ih => simp [ih]
  | case4 => rfl
  | case5 => rfl

/-- The run of `dottedName` stands at the start of the input. -/
theorem dottedName_append (input : List Symbol) :
    (dottedName input).map .char ++ input.drop (dottedName input).length = input := by
  unfold dottedName
  split
  · split
    · simp [dottedRest_append]
    · rfl
  · rfl

/-- The run of `text` stands at the start of the input. -/
theorem text_append (input : List Symbol) :
    (text input).map .char ++ input.drop (text input).length = input := by
  fun_induction text input with
  | case1 => rfl
  | case2 c rest _ _ ih => simp [ih]
  | case3 => rfl
  | case4 => rfl

/-- Text is no longer than its input. -/
theorem length_text_le (input : List Symbol) : (text input).length ≤ input.length := by
  have := congrArg List.length (text_append input)
  simp only [List.length_append, List.length_map] at this
  omega

end MessageCatalog.Word
