import MessageCatalog.Proofs.Words

/-!
# MessageCatalog.Proofs.Grammar

The grammar of message files, stated without a scanner.

A file (`File`) is an optional byte order mark and the spelling of a list of symbols (`Spells`) that
is a sequence of items (`Items`). An item is a blank line, a section header, a comment or a message;
a message has a body, and a body holds text, continuations and replacements, which hold options,
which hold bodies again (`Derives`). Phrases are relations between an input and what they leave of
it, so that a phrase can ask for what follows it; none of them says how its end is found. Spaces in
front of text, for one, may be counted with the indentation or with the text.

So the grammar is ambiguous, and derivations differ in ways that no reader can tell. The lemmas
after the definitions read a derivation backwards, from the first symbol of the input, and say what
the rest of it is:

* `items_blanks`, `items_header`, `items_comment` and `items_message` for a sequence of items,
* `follows_text`, `follows_newline`, `follows_brace` and `follows_replacement` for a body with what
  may stand behind it (`Follows`),
* `derives_replacement`, `derives_options` and `fold_content` for a replacement.

They are equivalences, so that `MessageCatalog.Proofs.Acceptance` can walk through the step
functions of the scanner and replace what is derivable by what is looked at. The one that needs an
argument is `follows_newline`: however a derivation divides blank lines and spaces, the body goes on
if and only if the next line with content is indented.
-/

namespace MessageCatalog.Grammar

open MessageCatalog.Symbol (isSpace isNewline)
open Layout (Spaces Blanks NoSpace NoBlank)

/-! ### Spelling

Only well-formed UTF-8 spells anything, and a list of symbols has one spelling. -/

/-- The bytes spell the symbols in UTF-8, one constructor for each kind of symbol. A carriage return
in front of a line feed is one line break with it. There is no constructor for malformed bytes, so
that none are accepted; what the scanner reads of any bytes is `Reads`. -/
inductive Spells : List UInt8 → List Symbol → Prop
  | nil : Spells [] []
  | lf {bytes : List UInt8} {input : List Symbol} (h : Spells bytes input) :
    Spells (0x0A :: bytes) (.newline .lf :: input)
  | crlf {bytes : List UInt8} {input : List Symbol} (h : Spells bytes input) :
    Spells (0x0D :: 0x0A :: bytes) (.newline .crlf :: input)
  | cr {bytes : List UInt8} {input : List Symbol} (hlf : bytes.head? ≠ some 0x0A)
      (h : Spells bytes input) : Spells (0x0D :: bytes) (.newline .cr :: input)
  | char {c : Char} {bytes : List UInt8} {input : List Symbol} (hn : c ≠ '\n') (hr : c ≠ '\r')
      (h : Spells bytes input) : Spells (String.utf8EncodeChar c ++ bytes) (.char c :: input)

/-! ### Layout

How lines end and go on. Which line breaks there are does not matter anywhere. -/

/-- The end of a line: a line break, or the end of the input. Wherever the grammar ends a line, the
file may end too. What is behind the line is left for `Items`. -/
inductive Eol : List Symbol → List Symbol → Prop
  | newline (style : LineBreak) (rest : List Symbol) : Eol (.newline style :: rest) rest
  | eof : Eol [] []

/-- The end of a line is no space. -/
theorem Eol.noSpace {input rest : List Symbol} (h : Eol input rest) : NoSpace input := by
  cases h with
  | newline => exact Layout.noSpace_cons.mpr rfl
  | eof => exact Layout.noSpace_nil

/-- A line break, blank lines (`Blanks`), and the indentation of a line, which starts with a tab.
The line may not be empty, but more spaces may follow the tab, and it is left open how many of them
are counted with the indentation. -/
inductive Cont : List Symbol → List Symbol → Prop
  | mk (style : LineBreak) {lines run rest : List Symbol} {s : Symbol} (hlines : Blanks lines)
      (hrun : Spaces run) (hs : isNewline s = false) :
    Cont (.newline style :: (lines ++ .char '\t' :: (run ++ s :: rest))) (s :: rest)

/-- Spaces, and perhaps a line break with the indentation behind it (`Cont`). This is what may stand
between the parts of a replacement. -/
inductive Fold : List Symbol → List Symbol → Prop
  | spaces {run rest : List Symbol} (hrun : Spaces run) : Fold (run ++ rest) rest
  | cont {run input rest : List Symbol} (hrun : Spaces run) (h : Cont input rest) :
    Fold (run ++ input) rest

/-! ### Words

Identifiers, text and the names of options are those of `MessageCatalog.Proofs.Words`. -/

/-- Identifiers joined by dots, as they are in section headers. There is at least one. -/
inductive Dotted : List Char → Prop
  | ident {cs : List Char} (h : Word.isIdent cs = true) : Dotted cs
  | dot {cs ds : List Char} (hcs : Word.isIdent cs = true) (hds : Dotted ds) :
    Dotted (cs ++ '.' :: ds)

theorem Dotted.ne_nil {cs : List Char} (h : Dotted cs) : cs ≠ [] := by
  cases h with
  | ident h => exact Word.isIdent_ne_nil h
  | dot => simp

/-- The character may stand in a comment: it is legal in a file (`Symbol.fault?`), and no part of a
line break. -/
def isCommentChar (c : Char) : Bool := c != '\n' && c != '\r' && (Symbol.char c).fault?.isNone

/-! ### Bodies and replacements

The four phrases depend on each other, and on how many replacements are open around them. -/

/-- The phrases inside a message, for which `Derives` has its clauses. The options of a replacement
go up to its closing brace. -/
inductive Phrase
  | body
  | replacement
  | options
  | option

/-- The `Phrase` stands at the start of the input, inside of as many replacements as given, and
leaves the rest. One constructor for each clause. No more than 32 replacements may be open at once,
which is a condition of the clause that opens one. -/
inductive Derives : Phrase → Nat → List Symbol → List Symbol → Prop
  | nil {depth : Nat} {input : List Symbol} : Derives .body depth input input
  | text {depth : Nat} {cs : List Char} {input rest : List Symbol} (hne : cs ≠ [])
      (htext : Word.isText cs = true) (hend : Word.EndsText input)
      (h : Derives .body depth input rest) : Derives .body depth (cs.map .char ++ input) rest
  | cont {depth : Nat} {input mid rest : List Symbol} (hcont : Cont input mid)
      (h : Derives .body depth mid rest) : Derives .body depth input rest
  | replacement {depth : Nat} {input mid rest : List Symbol}
      (hreplacement : Derives .replacement depth input mid) (h : Derives .body depth mid rest) :
    Derives .body depth input rest
  | untyped {depth : Nat} {key : List Char} {input rest : List Symbol} (hdepth : depth < 32)
      (hkey : Word.isIdent key = true) (h : Derives .options (depth + 1) input rest) :
    Derives .replacement depth (.char '$' :: .char '{' :: (key.map .char ++ input)) rest
  | typed {depth : Nat} {key kind : List Char} {input rest : List Symbol} (hdepth : depth < 32)
      (hkey : Word.isIdent key = true) (hkind : Word.isIdent kind = true)
      (h : Derives .options (depth + 1) input rest) :
    Derives .replacement depth
      (.char '$' :: .char '{' :: (key.map .char ++ .char ':' :: (kind.map .char ++ input))) rest
  | close {depth : Nat} {input rest : List Symbol} (hfold : Fold input (.char '}' :: rest)) :
    Derives .options depth input rest
  | more {depth : Nat} {input mid mid' rest : List Symbol} (hfold : Fold input mid)
      (hoption : Derives .option depth mid mid') (h : Derives .options depth mid' rest) :
    Derives .options depth input rest
  | bare {depth : Nat} {name : List Char} {rest : List Symbol} (hname : Word.IsOptionName name) :
    Derives .option depth (.char '.' :: (name.map .char ++ rest)) rest
  | braced {depth : Nat} {name : List Char} {input rest : List Symbol}
      (hname : Word.IsOptionName name) (h : Derives .body depth input (.char '}' :: rest)) :
    Derives .option depth (.char '.' :: (name.map .char ++ .char '{' :: input)) rest

/-! ### Files

Items stand at the start of a line, each with its line break unless it is the last. -/

/-- An item of a file: a blank line, a section header, a comment, or a message. Each but the first
starts with a sign of its own, or with a key; what a message goes on with is a body in the sense of
`Derives`. -/
inductive Item : List Symbol → List Symbol → Prop
  | blank {run : List Symbol} (style : LineBreak) (rest : List Symbol) (hrun : Spaces run) :
    Item (run ++ .newline style :: rest) rest
  | header {run₁ run₂ run₃ input rest : List Symbol} {name : List Char} (h₁ : Spaces run₁)
      (hname : Dotted name) (h₂ : Spaces run₂) (h₃ : Spaces run₃) (heol : Eol input rest) :
    Item (.char '[' :: .char '[' ::
      (run₁ ++ (name.map .char ++ (run₂ ++ .char ']' :: .char ']' :: (run₃ ++ input))))) rest
  | comment {cs : List Char} {input rest : List Symbol} (hcs : cs.all isCommentChar = true)
      (heol : Eol input rest) :
    Item (.char '/' :: .char '/' :: (cs.map .char ++ input)) rest
  | key {key : List Char} {run input rest : List Symbol} (hkey : Word.isIdent key = true)
      (hrun : Spaces run) (heol : Eol input rest) :
    Item (key.map .char ++ .char ':' :: (run ++ input)) rest
  | message {key : List Char} {run input mid last rest : List Symbol}
      (hkey : Word.isIdent key = true) (hrun : Spaces run) (hcont : Cont input mid)
      (hbody : Derives .body 0 mid last) (heol : Eol last rest) :
    Item (key.map .char ++ .char ':' :: (run ++ input)) rest

/-- A sequence of items (`Item`), each at the start of a line, and spaces at the end. The last item
may end with the file. -/
inductive Items : List Symbol → Prop
  | stop {run : List Symbol} (hrun : Spaces run) : Items run
  | item {input rest : List Symbol} (hitem : Item input rest) (h : Items rest) : Items input

/-- A message file: bytes that spell (`Spells`) a sequence of `Items`, behind one byte order mark or
none. -/
inductive File : List UInt8 → Prop
  | plain {bytes : List UInt8} {input : List Symbol} (hspells : Spells bytes input)
      (hitems : Items input) : File bytes
  | marked {bytes : List UInt8} {input : List Symbol} (hspells : Spells bytes input)
      (hitems : Items input) : File (Utf8.byteOrderMark ++ bytes)

/-! ### Reading a derivation of items

The first symbol of the input tells which item it is, with blank lines set aside. -/

/-- There are no spaces in front of content that stands at the very start, so `run` is empty. -/
theorem spaces_append_eq_cons {run rest tail : List Symbol} {s : Symbol} (hrun : Spaces run)
    (hs : isSpace s = false) (h : run ++ rest = s :: tail) : run = [] ∧ rest = s :: tail := by
  cases run with
  | nil => exact ⟨rfl, h⟩
  | cons t run =>
    obtain ⟨rfl, -⟩ := List.cons.inj h
    rw [hrun t (by simp)] at hs
    cases hs

/-- What starts with a key starts with a character that may start one (`Word.startsIdent`), by which
lines are told apart. -/
theorem append_ne_of_startsIdent {key : List Char} {c : Char} (rest tail : List Symbol)
    (hkey : Word.isIdent key = true) (hc : Word.startsIdent c = false) :
    key.map .char ++ rest ≠ .char c :: tail := by
  intro h
  cases key with
  | nil => simp [Word.isIdent] at hkey
  | cons d key =>
    obtain ⟨hd, -⟩ := List.cons.inj h
    obtain rfl := Symbol.char.inj hd
    simp [Word.isIdent, hc] at hkey

theorem isSpace_eq_false_of_startsIdent {c : Char} (h : Word.startsIdent c = true) :
    isSpace (.char c) = false := by
  by_contra hspace
  rcases Symbol.isSpace_iff.mp (by simpa using hspace) with heq | heq
  · obtain rfl := Symbol.char.inj heq
    exact absurd h (by decide)
  · obtain rfl := Symbol.char.inj heq
    exact absurd h (by decide)

/-- An item that is not a blank line starts with content, so spaces in front of content make no
item. -/
theorem Item.blank_or_content {input rest : List Symbol} (h : Item input rest) :
    (∃ run style, Spaces run ∧ input = run ++ .newline style :: rest) ∨
      ∃ c tail, input = .char c :: tail ∧ isSpace (.char c) = false := by
  cases h with
  | blank style _ hrun => exact .inl ⟨_, style, hrun, rfl⟩
  | header => exact .inr ⟨_, _, rfl, rfl⟩
  | comment => exact .inr ⟨_, _, rfl, rfl⟩
  | @key key _ _ _ hkey _ _ | @message key _ _ _ _ _ hkey _ _ _ _ =>
    obtain ⟨c, cs, rfl⟩ := List.exists_cons_of_ne_nil (Word.isIdent_ne_nil hkey)
    simp only [Word.isIdent, Bool.and_eq_true] at hkey
    exact .inr ⟨c, _, rfl, isSpace_eq_false_of_startsIdent hkey.1⟩

/-- A blank line does not matter for `Items`, as it is an item and every other item starts with
content. -/
theorem items_blank {run : List Symbol} (hrun : Spaces run) (style : LineBreak)
    (rest : List Symbol) : Items (run ++ .newline style :: rest) ↔ Items rest := by
  constructor
  · intro h
    generalize hinput : run ++ .newline style :: rest = input at h
    have hdrop : input.dropWhile isSpace = .newline style :: rest := by
      rw [← hinput, Layout.dropWhile_spaces_append hrun]
      rfl
    cases h with
    | stop hspaces =>
      rw [List.dropWhile_eq_nil_iff.mpr hspaces] at hdrop
      cases hdrop
    | item hitem h =>
      rcases hitem.blank_or_content with ⟨run', style', hrun', rfl⟩ | ⟨c, tail, rfl, hc⟩
      · rw [Layout.dropWhile_spaces_append hrun'] at hdrop
        obtain ⟨-, rfl⟩ := List.cons.inj hdrop
        exact h
      · rw [(Layout.noSpace_cons.mpr hc).dropWhile_eq] at hdrop
        cases hdrop
  · exact .item (.blank style rest hrun)

/-- Blank lines do not matter for `Items`, however many there are. -/
theorem items_blanks {lines : List Symbol} (hlines : Blanks lines) (rest : List Symbol) :
    Items (lines ++ rest) ↔ Items rest := by
  induction hlines with
  | nil => rfl
  | cons style hrun _ ih =>
    rw [List.append_assoc, List.cons_append, items_blank hrun, ih]

theorem items_newline (style : LineBreak) (rest : List Symbol) :
    Items (.newline style :: rest) ↔ Items rest := items_blank Layout.spaces_nil style rest

/-- A line with content that starts with a space is no item, and so there are no `Items` that start
with it. -/
theorem not_items_of_indented {run rest : List Symbol} {s : Symbol} (hne : run ≠ [])
    (hrun : Spaces run) (hspace : isSpace s = false) (hnewline : isNewline s = false) :
    ¬ Items (run ++ s :: rest) := by
  intro h
  generalize hinput : run ++ s :: rest = input at h
  have hdrop : input.dropWhile isSpace = s :: rest := by
    rw [← hinput, Layout.dropWhile_spaces_append hrun,
      (Layout.noSpace_cons.mpr hspace).dropWhile_eq]
  cases h with
  | stop hspaces =>
    rw [List.dropWhile_eq_nil_iff.mpr hspaces] at hdrop
    cases hdrop
  | item hitem h =>
    rcases hitem.blank_or_content with ⟨run', style', hrun', rfl⟩ | ⟨c, tail, rfl, hc⟩
    · rw [Layout.dropWhile_spaces_append hrun'] at hdrop
      obtain ⟨rfl, -⟩ := List.cons.inj hdrop
      cases hnewline
    · exact hne (spaces_append_eq_cons hrun hc hinput).1

/-- Items that start with content start with an item that is not a blank line, and the rest are
`Items` again. -/
theorem items_content {c : Char} {tail : List Symbol} (hc : isSpace (.char c) = false)
    (h : Items (.char c :: tail)) : ∃ rest, Item (.char c :: tail) rest ∧ Items rest := by
  generalize hinput : Symbol.char c :: tail = input at h
  cases h with
  | stop hspaces =>
    subst hinput
    rw [hspaces _ (by simp)] at hc
    cases hc
  | item hitem h => exact ⟨_, hitem, h⟩

theorem Item.not_blank {c : Char} {tail run rest : List Symbol} {style : LineBreak}
    (hc : isSpace (.char c) = false) (hrun : Spaces run) :
    .char c :: tail ≠ run ++ .newline style :: rest := by
  intro heq
  obtain ⟨-, h⟩ := spaces_append_eq_cons hrun hc heq.symm
  cases h

/-- All `Items` that start with a bracket start with a section header. What the header consists of
is spelled out, since this is what the scanner reads. -/
theorem items_header {tail : List Symbol} :
    Items (.char '[' :: tail) ↔
      ∃ run₁ name run₂ run₃ input rest, Spaces run₁ ∧ Dotted name ∧ Spaces run₂ ∧ Spaces run₃ ∧
        Eol input rest ∧ Items rest ∧
        tail = .char '[' :: (run₁ ++ (name.map .char ++
          (run₂ ++ .char ']' :: .char ']' :: (run₃ ++ input)))) := by
  constructor
  · intro h
    obtain ⟨rest, hitem, hrest⟩ := items_content rfl h
    generalize hinput : Symbol.char '[' :: tail = input at hitem
    cases hitem with
    | blank style _ hrun => exact absurd hinput (Item.not_blank rfl hrun)
    | header h₁ hname h₂ h₃ heol =>
      exact ⟨_, _, _, _, _, _, h₁, hname, h₂, h₃, heol, hrest, (List.cons.inj hinput).2⟩
    | comment => cases hinput
    | key hkey | message hkey =>
      exact absurd hinput.symm (append_ne_of_startsIdent _ _ hkey (by decide))
  · intro h
    obtain ⟨run₁, name, run₂, run₃, input, rest, h₁, hname, h₂, h₃, heol, hrest, rfl⟩ := h
    exact .item (.header h₁ hname h₂ h₃ heol) hrest

/-- All `Items` that start with a slash start with a comment, which takes the rest of its line. -/
theorem items_comment {tail : List Symbol} :
    Items (.char '/' :: tail) ↔
      ∃ (cs : List Char) (input rest : List Symbol), cs.all isCommentChar = true ∧
        Eol input rest ∧ Items rest ∧
        tail = .char '/' :: (cs.map .char ++ input) := by
  constructor
  · intro h
    obtain ⟨rest, hitem, hrest⟩ := items_content rfl h
    generalize hinput : Symbol.char '/' :: tail = input at hitem
    cases hitem with
    | blank style _ hrun => exact absurd hinput (Item.not_blank rfl hrun)
    | header => cases hinput
    | comment hcs heol => exact ⟨_, _, _, hcs, heol, hrest, (List.cons.inj hinput).2⟩
    | key hkey | message hkey =>
      exact absurd hinput.symm (append_ne_of_startsIdent _ _ hkey (by decide))
  · intro h
    obtain ⟨cs, input, rest, hcs, heol, hrest, rfl⟩ := h
    exact .item (.comment hcs heol) hrest

/-! ### Reading a derivation of a body

A body is always read together with what stands behind it, for that decides where it may end: `next`
is what is expected behind the closing brace of an option body. -/

/-- What may stand behind a body: the end of its line and more items if it is that of a message, and
a closing brace with what follows it if it is that of an option. `next` says what may follow the
brace. -/
def Ends (nested : Bool) (next : List Symbol → Prop) : List Symbol → Prop
  | [] => nested = false
  | .newline _ :: rest => nested = false ∧ Items rest
  | .char '}' :: rest => nested = true ∧ next rest
  | _ => False

/-- The input is a body with the right thing behind it, in the sense of `Ends`. Where the body stops
is not said, since the scanner does not know either before it gets there. -/
def Follows (depth : Nat) (nested : Bool) (next : List Symbol → Prop) (input : List Symbol) :
    Prop :=
  ∃ rest, Derives .body depth input rest ∧ Ends nested next rest

section Follows

variable {depth : Nat} {nested : Bool} {next : List Symbol → Prop}

theorem Follows.of_ends {input : List Symbol} (h : Ends nested next input) :
    Follows depth nested next input := ⟨input, .nil, h⟩

theorem Follows.of_text {cs : List Char} {input : List Symbol} (hne : cs ≠ [])
    (htext : Word.isText cs = true) (hend : Word.EndsText input)
    (h : Follows depth nested next input) :
    Follows depth nested next (cs.map .char ++ input) := by
  obtain ⟨rest, hbody, hrest⟩ := h
  exact ⟨rest, .text hne htext hend hbody, hrest⟩

/-- A continuation (`Cont`) may come in front of a body. So may text, where the body behind it
starts with none, and a replacement. -/
theorem Follows.of_cont {input mid : List Symbol} (hcont : Cont input mid)
    (h : Follows depth nested next mid) : Follows depth nested next input := by
  obtain ⟨rest, hbody, hrest⟩ := h
  exact ⟨rest, .cont hcont hbody, hrest⟩

/-- A replacement may come in front of a body. -/
theorem Follows.of_replacement {input mid : List Symbol}
    (hreplacement : Derives .replacement depth input mid) (h : Follows depth nested next mid) :
    Follows depth nested next input := by
  obtain ⟨rest, hbody, hrest⟩ := h
  exact ⟨rest, .replacement hreplacement hbody, hrest⟩

/-- A body is empty, or starts with text, a line break or a replacement. These are the clauses of
`Derives` for bodies. -/
theorem Follows.cases {input : List Symbol} (h : Follows depth nested next input) :
    Ends nested next input ∨
      (∃ cs mid, input = cs.map .char ++ mid ∧ cs ≠ [] ∧ Word.isText cs = true ∧
        Word.EndsText mid ∧ Follows depth nested next mid) ∨
      (∃ mid, Cont input mid ∧ Follows depth nested next mid) ∨
      ∃ mid, Derives .replacement depth input mid ∧ Follows depth nested next mid := by
  obtain ⟨rest, hbody, hrest⟩ := h
  cases hbody with
  | nil => exact .inl hrest
  | text hne htext hend hbody => exact .inr (.inl ⟨_, _, rfl, hne, htext, hend, _, hbody, hrest⟩)
  | cont hcont hbody => exact .inr (.inr (.inl ⟨_, hcont, _, hbody, hrest⟩))
  | replacement hreplacement hbody =>
    exact .inr (.inr (.inr ⟨_, hreplacement, _, hbody, hrest⟩))

theorem Derives.head_replacement {input mid : List Symbol}
    (h : Derives .replacement depth input mid) :
    ∃ tail, input = .char '$' :: .char '{' :: tail := by
  cases h with
  | untyped => exact ⟨_, rfl⟩
  | typed => exact ⟨_, rfl⟩

theorem Cont.head {input mid : List Symbol} (h : Cont input mid) :
    ∃ style tail, input = .newline style :: tail := by
  cases h with
  | mk style => exact ⟨style, _, rfl⟩

/-- Where a body may end there is no text: `Ends` starts with a line break or a brace, or is at the
end. -/
theorem text_eq_nil_of_ends {input : List Symbol} (h : Ends nested next input) :
    Word.text input = [] := by
  unfold Ends at h
  split at h
  · rfl
  · rfl
  · rfl
  · exact absurd h id

/-- A body that starts with text goes on where `Word.text` stops, and there has to be an end of
text. No other text would do, as text is followed by `Word.EndsText` in the grammar. -/
theorem follows_text {input : List Symbol} (hclean : Symbol.Clean input)
    (hne : Word.text input ≠ []) :
    Follows depth nested next input ↔
      Word.EndsText (input.drop (Word.text input).length) ∧
        Follows depth nested next (input.drop (Word.text input).length) := by
  constructor
  · intro h
    rcases h.cases with h | ⟨cs, mid, rfl, -, htext, hend, hmid⟩ | ⟨mid, hcont, -⟩ |
      ⟨mid, hreplacement, -⟩
    · exact absurd (text_eq_nil_of_ends h) hne
    · rw [Word.text_append_of htext hend, ← List.length_map Symbol.char, List.drop_left]
      exact ⟨hend, hmid⟩
    · obtain ⟨style, tail, rfl⟩ := hcont.head
      exact absurd rfl hne
    · obtain ⟨tail, rfl⟩ := hreplacement.head_replacement
      exact absurd rfl hne
  · intro h
    obtain ⟨hend, h⟩ := h
    have := h.of_text hne (Word.isText_text hclean) hend
    rwa [Word.text_append] at this

/-- Where no text stands, a body starts with its end, a continuation (`Cont`) or a replacement. -/
theorem Follows.cases_of_text_eq_nil {input : List Symbol} (h : Follows depth nested next input)
    (hnil : Word.text input = []) :
    Ends nested next input ∨ (∃ mid, Cont input mid ∧ Follows depth nested next mid) ∨
      ∃ mid, Derives .replacement depth input mid ∧ Follows depth nested next mid := by
  rcases h.cases with h | ⟨cs, mid, rfl, hne, htext, hend, -⟩ | h | h
  · exact .inl h
  · rw [Word.text_append_of htext hend] at hnil
    exact absurd hnil hne
  · exact .inr (.inl h)
  · exact .inr (.inr h)

/-- Where no part of a body starts, neither text nor a line break nor a replacement, `Follows` can
only be its end. -/
theorem follows_iff_ends {input : List Symbol} (hnil : Word.text input = [])
    (hnewline : ∀ style tail, input ≠ .newline style :: tail)
    (hreplacement : ∀ tail, input ≠ .char '$' :: .char '{' :: tail) :
    Follows depth nested next input ↔ Ends nested next input := by
  refine ⟨fun h => ?_, fun h => .of_ends h⟩
  rcases h.cases_of_text_eq_nil hnil with h | ⟨mid, h, -⟩ | ⟨mid, h, -⟩
  · exact h
  · obtain ⟨style, tail, heq⟩ := h.head
    exact absurd heq (hnewline style tail)
  · obtain ⟨tail, heq⟩ := h.head_replacement
    exact absurd heq (hreplacement tail)

/-- At the end of the input the body of a message may end, and no other body may (`follows_brace` is
the converse). -/
theorem follows_nil : Follows depth nested next [] ↔ nested = false :=
  follows_iff_ends rfl (by simp) (by simp)

/-- At a closing brace the body of an option may end, and nothing else is derivable. -/
theorem follows_brace {rest : List Symbol} :
    Follows depth nested next (.char '}' :: rest) ↔ nested = true ∧ next rest :=
  follows_iff_ends rfl (by simp) (by simp)

/-- At the opening of a replacement a body goes on with that replacement, as `Derives` has it. -/
theorem follows_replacement {rest : List Symbol} :
    Follows depth nested next (.char '$' :: .char '{' :: rest) ↔
      ∃ mid, Derives .replacement depth (.char '$' :: .char '{' :: rest) mid ∧
        Follows depth nested next mid := by
  refine ⟨fun h => ?_, fun ⟨mid, h₁, h₂⟩ => h₂.of_replacement h₁⟩
  rcases h.cases_of_text_eq_nil rfl with h | ⟨mid, h, -⟩ | h
  · exact absurd h id
  · obtain ⟨style, tail, heq⟩ := h.head
    cases heq
  · exact h

/-- Spaces in front of a body may be counted with the indentation. In the grammar they are text of
the body otherwise (`Cont` leaves that open), so both readings are possible, and the scanner has the
longer indentation. -/
theorem Follows.of_spaces_append {run content : List Symbol} (hrun : Spaces run)
    (h : Follows depth nested next (run ++ content)) : Follows depth nested next content := by
  by_cases hne : run = []
  · subst hne
    exact h
  obtain ⟨s, run', hcons⟩ := List.exists_cons_of_ne_nil hne
  have hs : isSpace s = true := hrun s (by simp [hcons])
  rcases h.cases with h | ⟨cs, mid, heq, hcs, htext, hend, hmid⟩ | ⟨mid, hcont, -⟩ |
    ⟨mid, hreplacement, -⟩
  · rw [hcons] at h
    rcases Symbol.isSpace_iff.mp hs with rfl | rfl <;> exact absurd h id
  · -- the text reaches over all of the spaces, since none of them can end it
    rcases List.append_eq_append_iff.mp heq with ⟨bs, hmap, rfl⟩ | ⟨as, rfl, rfl⟩
    · obtain ⟨cs₁, cs', rfl, -, rfl⟩ := List.map_eq_append_iff.mp hmap
      by_cases hcs' : cs' = []
      · subst hcs'
        exact hmid
      · exact hmid.of_text hcs' (Word.isText_append.mp htext).2.1 hend
    · cases as with
      | nil => exact hmid
      | cons a as =>
        have ha : isSpace a = true := hrun a (by simp)
        rcases Symbol.isSpace_iff.mp ha with rfl | rfl <;> exact absurd hend id
  · obtain ⟨style, tail, heq⟩ := hcont.head
    rw [hcons] at heq
    obtain ⟨rfl, -⟩ := List.cons.inj heq
    cases hs
  · obtain ⟨tail, heq⟩ := hreplacement.head_replacement
    rw [hcons] at heq
    obtain ⟨rfl, -⟩ := List.cons.inj heq
    cases hs

/-- An indented line (`Layout.indentWidth?`) is no item. So a body that could go on behind a line
break does not end there. -/
theorem indentWidth?_eq_none_of_items {input : List Symbol} (h : Items input) :
    Layout.indentWidth? input = none := by
  cases hwidth : Layout.indentWidth? input with
  | none => rfl
  | some width =>
    obtain ⟨lines, run, s, rest, hlines, hrun, hspace, hnewline, rfl, -⟩ :=
      Layout.indentWidth?_eq_some_iff.mp hwidth
    rw [items_blanks hlines, ← List.cons_append] at h
    exact absurd h (not_items_of_indented (by simp) hrun.tab_cons hspace hnewline)

/-- In front of an indented line a line break is a continuation, with all the indentation that
`Layout.indentWidth?` finds. -/
theorem Cont.of_indentWidth? {rest : List Symbol} {width : Nat}
    (h : Layout.indentWidth? rest = some width) (style : LineBreak) :
    Cont (.newline style :: rest) (rest.drop width) := by
  obtain ⟨lines, run, s, tail, hlines, hrun, -, hnewline, rfl, rfl⟩ :=
    Layout.indentWidth?_eq_some_iff.mp h
  rw [Layout.drop_indent]
  exact .mk style hlines hrun hnewline

/-- A body at a line break: it goes on if the next line with content is indented, and else it ends,
if it is that of a message. Which of the two it is does not depend on how the indentation is
counted. -/
theorem follows_newline (style : LineBreak) (rest : List Symbol) :
    Follows depth nested next (.newline style :: rest) ↔
      match Layout.indentWidth? rest with
      | some width => Follows depth nested next (rest.drop width)
      | none => nested = false ∧ Items rest := by
  constructor
  -- the grammar may count blank lines to a continuation or not, so the induction is on the length
  · induction hn : rest.length using Nat.strongRecOn generalizing style rest with
    | ind n ih =>
      intro h
      rcases h.cases_of_text_eq_nil rfl with h | ⟨mid, hcont, hmid⟩ | ⟨mid, h, -⟩
      · rw [indentWidth?_eq_none_of_items h.2]
        exact h
      · generalize hinput : Symbol.newline style :: rest = input at hcont
        cases hcont with
        | @mk style' lines run tail s hlines hrun hs =>
          obtain ⟨-, rfl⟩ := List.cons.inj hinput
          -- what is left of the line decides whether it is blank after all
          obtain ⟨run', content, heq, hrun', hno⟩ := Layout.exists_spaces (s :: tail)
          rw [heq] at hmid hn ⊢
          replace hmid := hmid.of_spaces_append hrun'
          rw [← List.append_assoc run run'] at hn ⊢
          replace hrun := hrun.append hrun'
          generalize run ++ run' = run at hn hrun ⊢
          cases content with
          | nil =>
            rw [List.append_nil, Layout.indentWidth?_blanks_append hlines,
              Layout.indentWidth?_spaces hrun.tab_cons, items_blanks hlines]
            exact ⟨follows_nil.mp hmid, .stop hrun.tab_cons⟩
          | cons s' rest =>
            by_cases hnewline : isNewline s' = true
            · obtain ⟨style', rfl⟩ := Symbol.isNewline_iff.mp hnewline
              have hblanks := hlines.append (.singleton style' hrun.tab_cons)
              have hlt : rest.length < n := by
                rw [← hn]
                simp
                omega
              have hrest := ih _ hlt style' rest rfl hmid
              have hsplit : lines ++ .char '\t' :: (run ++ .newline style' :: rest) =
                  lines ++ (.char '\t' :: run ++ [.newline style']) ++ rest := by simp
              rw [hsplit, Layout.indentWidth?_blanks_append hblanks, items_blanks hblanks]
              cases hwidth : Layout.indentWidth? rest with
              | none =>
                rw [hwidth] at hrest
                exact hrest
              | some width =>
                rw [hwidth] at hrest
                simpa only [Option.map_some, List.drop_length_add_append] using hrest
            · have hwidth := Layout.indentWidth?_eq_some_iff.mpr
                ⟨lines, run, s', rest, hlines, hrun, Layout.noSpace_cons.mp hno,
                  by simpa using hnewline, rfl, rfl⟩
              rw [hwidth]
              simpa only [Layout.drop_indent] using hmid
      · obtain ⟨tail, heq⟩ := h.head_replacement
        cases heq
  · intro h
    split at h
    · rename_i width hwidth
      exact h.of_cont (.of_indentWidth? hwidth style)
    · exact .of_ends h

end Follows

/-! ### Reading a derivation of a message

A message is a key, a colon, and a body that has to start on a line of its own. -/

/-- The body of a message may end at the end of a line with `Items` behind it. -/
theorem ends_message {next : List Symbol → Prop} {input : List Symbol} :
    Ends false next input ↔ ∃ rest, Eol input rest ∧ Items rest := by
  constructor
  · intro h
    unfold Ends at h
    split at h
    · exact ⟨[], .eof, .stop Layout.spaces_nil⟩
    · exact ⟨_, .newline _ _, h.2⟩
    · exact absurd h.1 (by simp)
    · exact absurd h id
  · intro h
    obtain ⟨rest, heol, hrest⟩ := h
    cases heol with
    | newline => exact ⟨rfl, hrest⟩
    | eof => rfl

/-- All `Items` that start with none of the other signs start with a key, and the message goes on
behind its colon. -/
theorem items_message {next : List Symbol → Prop} {s : Symbol} {tail : List Symbol}
    (hspace : isSpace s = false) (hnewline : isNewline s = false) (hbracket : s ≠ .char '[')
    (hslash : s ≠ .char '/') :
    Items (s :: tail) ↔
      ∃ (key : List Char) (run input rest : List Symbol), Word.isIdent key = true ∧ Spaces run ∧
        Eol input rest ∧ Follows 0 false next input ∧
        s :: tail = key.map .char ++ .char ':' :: (run ++ input) := by
  constructor
  · intro h
    generalize hinput : s :: tail = input at h
    cases h with
    | stop hspaces =>
      rw [hspaces s (by simp [← hinput])] at hspace
      cases hspace
    | item hitem hrest =>
      cases hitem with
      | blank style _ hrun =>
        obtain ⟨-, heq⟩ := spaces_append_eq_cons hrun hspace hinput.symm
        obtain ⟨rfl, -⟩ := List.cons.inj heq
        cases hnewline
      | header => exact absurd (List.cons.inj hinput).1 hbracket
      | comment => exact absurd (List.cons.inj hinput).1 hslash
      | key hkey hrun heol =>
        exact ⟨_, _, _, _, hkey, hrun, heol, .of_ends (ends_message.mpr ⟨_, heol, hrest⟩), rfl⟩
      | message hkey hrun hcont hbody heol =>
        obtain ⟨style, tail', rfl⟩ := hcont.head
        exact ⟨_, _, _, _, hkey, hrun, .newline style tail',
          .of_cont hcont ⟨_, hbody, ends_message.mpr ⟨_, heol, hrest⟩⟩, rfl⟩
  · intro h
    obtain ⟨key, run, input, rest, hkey, hrun, heol, hbody, heq⟩ := h
    rw [heq]
    have hkeyItem {rest' : List Symbol} (heol : Eol input rest') (hrest : Items rest') :
        Items (key.map .char ++ .char ':' :: (run ++ input)) := .item (.key hkey hrun heol) hrest
    cases heol with
    | eof => exact hkeyItem .eof (.stop Layout.spaces_nil)
    | newline style =>
      rcases hbody.cases_of_text_eq_nil rfl with h | ⟨mid, hcont, last, hbody, hends⟩ | ⟨mid, h, -⟩
      · exact hkeyItem (.newline style rest) h.2
      · obtain ⟨rest', heol, hrest⟩ := ends_message.mp hends
        exact .item (.message hkey hrun hcont hbody heol) hrest
      · obtain ⟨tail', heq⟩ := h.head_replacement
        cases heq

/-! ### Reading a derivation of a replacement

Between the parts of a replacement there may be folds. A derivation may stop a fold anywhere among
spaces; in front of content it has to go over all of them. -/

/-- What stands behind the opening of a replacement: its key, perhaps a type, and its options, up to
the closing brace. It is the clause of `Derives` for a replacement, behind its first two symbols. -/
inductive Opened (depth : Nat) : List Symbol → List Symbol → Prop
  | untyped {key : List Char} {input rest : List Symbol} (hkey : Word.isIdent key = true)
      (h : Derives .options depth input rest) : Opened depth (key.map .char ++ input) rest
  | typed {key kind : List Char} {input rest : List Symbol} (hkey : Word.isIdent key = true)
      (hkind : Word.isIdent kind = true) (h : Derives .options depth input rest) :
    Opened depth (key.map .char ++ .char ':' :: (kind.map .char ++ input)) rest

/-- A replacement is its opening, with room for it, and what stands behind that (`Opened`), one
level deeper. -/
theorem derives_replacement {depth : Nat} {input rest : List Symbol} :
    Derives .replacement depth (.char '$' :: .char '{' :: input) rest ↔
      depth < 32 ∧ Opened (depth + 1) input rest := by
  constructor
  · intro h
    cases h with
    | untyped hdepth hkey h => exact ⟨hdepth, .untyped hkey h⟩
    | typed hdepth hkey hkind h => exact ⟨hdepth, .typed hkey hkind h⟩
  · intro h
    obtain ⟨hdepth, h⟩ := h
    cases h with
    | untyped hkey h => exact .untyped hdepth hkey h
    | typed hkey hkind h => exact .typed hdepth hkey hkind h

/-- What stands behind a fold inside a replacement: its end, or an option and more of them. So
`Next` is what the scanner looks for when it has passed over the fold. -/
inductive Next (depth : Nat) (line rest : List Symbol) : Prop
  | close (h : line = .char '}' :: rest)
  | option {mid : List Symbol} (hoption : Derives .option depth line mid)
      (h : Derives .options depth mid rest)

/-- Options are a `Fold`, and a closing brace or an option with more of them (`Next`). -/
theorem derives_options {depth : Nat} {input rest : List Symbol} :
    Derives .options depth input rest ↔ ∃ line, Fold input line ∧ Next depth line rest := by
  constructor
  · intro h
    cases h with
    | close hfold => exact ⟨_, hfold, .close rfl⟩
    | more hfold hoption h => exact ⟨_, hfold, .option hoption h⟩
  · intro h
    obtain ⟨line, hfold, hnext⟩ := h
    cases hnext with
    | close h =>
      subst h
      exact .close hfold
    | option hoption h => exact .more hfold hoption h

/-- Behind a fold inside a replacement there is content. -/
theorem Next.head {depth : Nat} {line rest : List Symbol} (h : Next depth line rest) :
    ∃ s tail, line = s :: tail ∧ isSpace s = false ∧ isNewline s = false := by
  cases h with
  | close h => exact ⟨_, _, h, rfl, rfl⟩
  | option hoption h =>
    cases hoption with
    | bare => exact ⟨_, _, rfl, rfl, rfl⟩
    | braced => exact ⟨_, _, rfl, rfl, rfl⟩

/-- A continuation (`Cont`) in front of content takes all of the indentation, since spaces are no
content. -/
theorem cont_content {style : LineBreak} {rest tail : List Symbol} {s : Symbol}
    (hspace : isSpace s = false) (h : Cont (.newline style :: rest) (s :: tail)) :
    ∃ width, Layout.indentWidth? rest = some width ∧ rest.drop width = s :: tail := by
  generalize hinput : Symbol.newline style :: rest = input at h
  generalize hmid : s :: tail = mid at h
  cases h with
  | @mk _ lines run _ _ hlines hrun hs =>
    obtain ⟨-, rfl⟩ := List.cons.inj hinput
    obtain ⟨rfl, rfl⟩ := List.cons.inj hmid
    exact ⟨_, Layout.indentWidth?_eq_some_iff.mpr
      ⟨lines, run, s, tail, hlines, hrun, hspace, hs, rfl, rfl⟩, Layout.drop_indent lines run _⟩

/-- Where a `Fold` in front of content leads: over all spaces, and on behind a line break if the
next line with content is indented. -/
def foldTo (input : List Symbol) : Option (List Symbol) :=
  match input.dropWhile isSpace with
  | .newline _ :: rest => (Layout.indentWidth? rest).map fun width => rest.drop width
  | line => some line

/-- A fold in front of content leads to one place only, which is that of `foldTo`. Elsewhere `Fold`
has a choice. -/
theorem fold_content {input tail : List Symbol} {s : Symbol} (hspace : isSpace s = false)
    (hnewline : isNewline s = false) :
    Fold input (s :: tail) ↔ foldTo input = some (s :: tail) := by
  have hno : NoSpace (s :: tail) := Layout.noSpace_cons.mpr hspace
  unfold foldTo
  constructor
  · intro h
    generalize hmid : s :: tail = mid at h hno
    cases h with
    | spaces hrun =>
      subst hmid
      rw [Layout.dropWhile_spaces_append hrun, hno.dropWhile_eq]
      split
      · rename_i heq
        obtain ⟨rfl, -⟩ := List.cons.inj heq
        cases hnewline
      · rfl
    | cont hrun hcont =>
      subst hmid
      obtain ⟨style, rest, rfl⟩ := hcont.head
      obtain ⟨width, hwidth, hdrop⟩ := cont_content hspace hcont
      rw [Layout.dropWhile_spaces_append hrun]
      exact Option.map_eq_some_iff.mpr ⟨width, hwidth, hdrop⟩
  · intro h
    obtain ⟨run, line, rfl, hrun, hline⟩ := Layout.exists_spaces input
    rw [Layout.dropWhile_spaces_append hrun, hline.dropWhile_eq] at h
    split at h
    · rename_i style rest
      obtain ⟨width, hwidth, hdrop⟩ := Option.map_eq_some_iff.mp h
      rw [← hdrop]
      exact .cont hrun (.of_indentWidth? hwidth style)
    · obtain rfl := Option.some.inj h
      exact .spaces hrun

/-- What options start with cannot continue a word, nor be taken for a type or a body. -/
theorem endsIdent_of_options {depth : Nat} {input rest : List Symbol}
    (h : Derives .options depth input rest) :
    Word.EndsIdent input ∧ (∀ tail, input ≠ .char ':' :: tail) ∧
      ∀ tail, input ≠ .char '{' :: tail := by
  obtain ⟨line, hfold, hnext⟩ := derives_options.mp h
  have hspaces {run tail : List Symbol} (hrun : Spaces run)
      (htail : Word.EndsIdent tail ∧ (∀ t, tail ≠ .char ':' :: t) ∧ ∀ t, tail ≠ .char '{' :: t) :
      Word.EndsIdent (run ++ tail) ∧ (∀ t, run ++ tail ≠ .char ':' :: t) ∧
        ∀ t, run ++ tail ≠ .char '{' :: t := by
    cases run with
    | nil => exact htail
    | cons s run =>
      rcases Symbol.isSpace_iff.mp (hrun s List.mem_cons_self) with rfl | rfl
      · exact ⟨show Word.continuesIdent ' ' = false by decide, by simp, by simp⟩
      · exact ⟨show Word.continuesIdent '\t' = false by decide, by simp, by simp⟩
  cases hfold with
  | spaces hrun =>
    refine hspaces hrun ?_
    cases hnext with
    | close h =>
      subst h
      exact ⟨show Word.continuesIdent '}' = false by decide, by simp, by simp⟩
    | option hoption h =>
      cases hoption with
      | bare => exact ⟨show Word.continuesIdent '.' = false by decide, by simp, by simp⟩
      | braced => exact ⟨show Word.continuesIdent '.' = false by decide, by simp, by simp⟩
  | cont hrun hcont =>
    obtain ⟨style, tail, rfl⟩ := hcont.head
    exact hspaces hrun ⟨trivial, by simp, by simp⟩

end MessageCatalog.Grammar
