import Mathlib.Data.List.Forall2
import MessageCatalog.Proofs.Restyling
import MessageCatalog.Proofs.Retelling

/-!
# MessageCatalog.Proofs.LineEndings

Two scans side by side: that of a file, and that of the same file with other line breaks. Both
cursors have read the same number of symbols, so they are on the same line and in the same column
(`Abreast`), and one step in each file yields tokens of the same kinds and texts and leaves the
scanners abreast (`Scanner.kept_step`). The scans then agree token by token (`Scanner.alike_run`),
and by `MessageCatalog.Proofs.Retelling` so do the messages and errors: `parse_restyle`.

Only two things show how a line break is written.

* A position that is taken at a line break (`AtBreak`) depends on its style: at a line feed it is
  the start of the next line, at a carriage return it is still on the line. The mode of a
  replacement remembers a position, so modes are related likewise (`Mode.Alike`).
* The wording of the fault of an option whose name is missing at the end of a line says which
  character stands there (`reworded`). All other wordings are left alone, which is seen from how
  they start, or from what they quote.
-/

namespace MessageCatalog

open Scanner (Moved)
open MessageCatalog.Symbol (Clean)

/-! ### Wordings

A fault is worded by what was found. A line break is found, and named, only where the name of an
option is missing; a key and what stands between options are never missed at a line break. -/

/-- The wording of a fault in a file whose line breaks start with a carriage return. A fault that
names a line feed (`Fault.message`) names the carriage return there; every other wording stays. -/
def reworded (text : String) : String :=
  if text = "replacement option name expected, found '\\n'" then
    "replacement option name expected, found '\\r'"
  else text

theorem Text.eq_newline_of_escapeChar {c : Char} (h : escapeChar '\'' c = ['\\', 'n']) :
    c = '\n' := by
  by_contra hc
  unfold escapeChar at h
  split_ifs at h <;> simp_all

/-- Only a line feed is quoted as one, so `reworded` finds it in no other wording. -/
theorem Text.quoteChar_ne {c : Char} (h : c ≠ '\n') : quoteChar c ≠ "'\\n'" := by
  intro hquote
  have hlist := congrArg String.toList hquote
  rw [quoteChar, String.toList_ofList] at hlist
  refine h (eq_newline_of_escapeChar ?_)
  exact List.append_cancel_right (List.cons.inj hlist).2

namespace Token.Fault

/-- A wording that starts another way is not `reworded`, whatever it says at its end. -/
theorem reworded_append {text : String} {c : Char} (hhead : text.toList.head? = some c)
    (hc : c ≠ 'r') (found : String) : reworded (text ++ found) = text ++ found := by
  rw [reworded, if_neg]
  intro heq
  have hr := congrArg (fun s => s.toList.head?) heq
  simp only [String.toList_append, List.head?_append, hhead, Option.some_or] at hr
  exact hc (Option.some.inj hr)

/-- The fault of an illegal symbol is not `reworded`, as no line break is illegal. Nor are the
faults of a line without a key and of what stands between options. -/
theorem reworded_illegal (fault : Symbol.Fault) :
    message (.illegal fault) = reworded (message (.illegal fault)) := by
  cases fault <;> decide

theorem reworded_messageKey (found : Option Symbol) :
    message (.messageKey found) = reworded (message (.messageKey found)) := by
  have hhead : "message key expected, found ".toList.head? = some 'm' := by decide
  have hmessage : message (.messageKey found) =
      "message key expected, found " ++ Symbol.describe found := rfl
  rw [hmessage, reworded_append hhead (by decide)]

theorem reworded_unexpected (found : Symbol) :
    message (.unexpectedInReplacement found) =
      reworded (message (.unexpectedInReplacement found)) := by
  have hhead : "unexpected ".toList.head? = some 'u' := by decide
  have hmessage : message (.unexpectedInReplacement found) =
      "unexpected " ++ Symbol.describe (some found) ++ " in replacement" := rfl
  rw [hmessage, String.append_assoc, reworded_append hhead (by decide)]

/-- The fault of an option without a name is worded by the line break that stands there. This is the
one fault that is `reworded`, since only there a line break is named. -/
theorem reworded_optionName {style : LineBreak} (hstyle : style ≠ .lf) {found : Option Symbol}
    (hclean : found ≠ some (.char '\n')) :
    message (.optionName (found.map (Symbol.restyle style))) =
      reworded (message (.optionName found)) := by
  symm
  have hreturn (style : LineBreak) (h : style ≠ .lf) :
      Symbol.describe (some (.newline style)) = "'\\r'" := by
    cases style with
    | lf => exact absurd rfl h
    | crlf | cr => decide
  -- what is not described as a line feed keeps its wording
  have hkeep {found : Option Symbol} (h : Symbol.describe found ≠ "'\\n'") :
      reworded ("replacement option name expected, found " ++ Symbol.describe found) =
        "replacement option name expected, found " ++ Symbol.describe found := by
    rw [reworded, if_neg]
    intro heq
    have hwhole : "replacement option name expected, found '\\n'" =
        "replacement option name expected, found " ++ "'\\n'" := by decide
    rw [hwhole] at heq
    exact h ((String.append_right_inj _).mp heq)
  have hmessage (found : Option Symbol) : message (.optionName found) =
      "replacement option name expected, found " ++ Symbol.describe found := rfl
  rw [hmessage, hmessage]
  cases found with
  | none => exact hkeep (by decide)
  | some s =>
    cases s with
    | malformed => exact hkeep (by decide)
    | char c =>
      have hc : c ≠ '\n' := fun hc => hclean (by rw [hc])
      exact hkeep (Text.quoteChar_ne hc)
    | newline style' =>
      rw [Option.map_some, Symbol.restyle, hreturn style hstyle]
      by_cases hlf : style' = .lf
      · subst hlf
        decide
      · rw [hreturn style' hlf]
        decide

end Token.Fault

/-! ### Cursors

A cursor is known by the symbols in front of it and by how far it has moved, which is the same
number of symbols in both files. -/

/-- The cursor `c'` stands in a file with line breaks of the style where `c` stands in the file that
starts at `c₀`: as many symbols have been passed over, and the same are ahead but for the line
breaks. -/
structure Abreast (style : LineBreak) (c₀ c c' : Cursor) : Prop where
  moved : Moved c₀ c
  rest : c'.rest = c.rest.map (Symbol.restyle style)
  level : c.pos.Level c'.pos

/-- The position is that of a line break of the file that starts at `c₀`. There a look at the next
symbol may differ in both files. -/
def AtBreak (c₀ : Cursor) (pos : Position) : Prop :=
  ∃ c style, Moved c₀ c ∧ c.rest.head? = some (.newline style) ∧ pos = c.nextPos

/-- The input does not start with a line break. Then the next symbols in both files are the same. -/
def NoBreak (input : List Symbol) : Prop := ∀ style, input.head? ≠ some (.newline style)

theorem noBreak_cons {s : Symbol} {rest : List Symbol} (h : s.isNewline = false) :
    NoBreak (s :: rest) := by
  intro style heq
  obtain rfl := Option.some.inj heq
  cases h

namespace Abreast

variable {style : LineBreak} {c₀ c c' : Cursor}

theorem start (style : LineBreak) (c₀ : Cursor) : Abreast style c₀ c₀ (c₀.restyle style) :=
  ⟨Moved.refl c₀, rfl, rfl, rfl⟩

/-- Passing over some symbols keeps two cursors `Abreast`. So does passing over spaces, lines and
blocks, which are as wide in both files. -/
theorem drop (h : Abreast style c₀ c c') (n : Nat) : Abreast style c₀ (c.drop n) (c'.drop n) where
  moved := h.moved.drop n
  rest := by rw [Cursor.rest_drop, Cursor.rest_drop, h.rest, List.map_drop]
  level := by
    rw [Cursor.drop, Cursor.drop, h.rest, ← List.map_take]
    exact h.level.afterAll style (c.rest.take n)

theorem skipSpace (h : Abreast style c₀ c c') : Abreast style c₀ c.skipSpace c'.skipSpace := by
  rw [Cursor.skipSpace, Cursor.skipSpace, h.rest, Layout.spaceWidth_restyle]
  exact h.drop _

theorem skipLine (h : Abreast style c₀ c c') : Abreast style c₀ c.skipLine c'.skipLine := by
  rw [Cursor.skipLine, Cursor.skipLine, h.rest, Layout.lineWidth_restyle]
  exact h.drop _

theorem skipBlock (h : Abreast style c₀ c c') : Abreast style c₀ c.skipBlock c'.skipBlock := by
  rw [Cursor.skipBlock, Cursor.skipBlock, h.rest, Layout.blockWidth_restyle]
  exact h.drop _

/-- The next symbol is the same, unless it is a line break (`NoBreak`). -/
theorem head? (h : Abreast style c₀ c c') (hhead : NoBreak c.rest) :
    c'.rest.head? = c.rest.head? := by
  rw [h.rest, List.head?_map]
  cases hs : c.rest.head? with
  | none => rfl
  | some s =>
    cases s with
    | newline style' => exact absurd hs (hhead style')
    | char | malformed => rfl

/-- An illegal symbol is the next one in both files or in neither. -/
theorem fault? (h : Abreast style c₀ c c') :
    c'.rest.head?.bind Symbol.fault? = c.rest.head?.bind Symbol.fault? := by
  rw [h.rest, Symbol.fault?_head?_restyle]

theorem eq_nil (h : Abreast style c₀ c c') : c'.rest = [] ↔ c.rest = [] := by
  rw [h.rest, List.map_eq_nil_iff]

/-- The next symbols have the same place, unless they are line breaks. Lines and columns are meant,
`Position.Level`; the offsets differ. -/
theorem nextPos (h : Abreast style c₀ c c') :
    AtBreak c₀ c.nextPos ∨ c.nextPos.Level c'.nextPos := by
  by_cases hbreak : ∃ style', c.rest.head? = some (.newline style')
  · obtain ⟨style', hbreak⟩ := hbreak
    exact .inl ⟨c, style', h.moved, hbreak, rfl⟩
  · refine .inr ?_
    rw [Cursor.nextPos, Cursor.nextPos, h.rest, List.head?_map]
    exact h.level.peeked style (not_exists.mp hbreak)

/-- Characters stand in both files, if they stand in one of them. -/
theorem cons (h : Abreast style c₀ c c') {d : Char} {rest : List Symbol}
    (hrest : c.rest = .char d :: rest) :
    c'.rest = .char d :: rest.map (Symbol.restyle style) := by
  rw [h.rest, hrest, List.map_cons, Symbol.restyle_char]

theorem cons₂ (h : Abreast style c₀ c c') {d e : Char} {rest : List Symbol}
    (hrest : c.rest = .char d :: .char e :: rest) :
    c'.rest = .char d :: .char e :: rest.map (Symbol.restyle style) := by
  rw [h.cons hrest, List.map_cons, Symbol.restyle_char]

theorem of_cons (h : Abreast style c₀ c c') {d : Char} {rest : List Symbol}
    (hrest : c'.rest = .char d :: rest) : ∃ tail, c.rest = .char d :: tail := by
  rw [h.rest] at hrest
  obtain ⟨tail, htail, -⟩ := Symbol.of_map_restyle style hrest
  exact ⟨tail, htail⟩

theorem of_cons₂ (h : Abreast style c₀ c c') {d e : Char} {rest : List Symbol}
    (hrest : c'.rest = .char d :: .char e :: rest) :
    ∃ tail, c.rest = .char d :: .char e :: tail := by
  rw [h.rest] at hrest
  obtain ⟨tail, htail, hrest⟩ := Symbol.of_map_restyle style hrest
  obtain ⟨tail, rfl, -⟩ := Symbol.of_map_restyle style hrest.symm
  exact ⟨tail, htail⟩

/-- A line break stands in both files, in the style of the second there: `Abreast` cursors look at
the same symbol but for that. -/
theorem newline (h : Abreast style c₀ c c') {style' : LineBreak} {rest : List Symbol}
    (hrest : c.rest = .newline style' :: rest) :
    c'.rest = .newline style :: rest.map (Symbol.restyle style) := by
  rw [h.rest, hrest, List.map_cons, Symbol.restyle]

theorem of_newline (h : Abreast style c₀ c c') {style' : LineBreak} {rest : List Symbol}
    (hrest : c'.rest = .newline style' :: rest) :
    ∃ style tail, c.rest = .newline style :: tail := by
  rw [h.rest] at hrest
  obtain ⟨s, tail, hs, hnewline, -⟩ := List.map_eq_cons_iff.mp hrest
  cases s with
  | newline style => exact ⟨style, tail, hs⟩
  | char | malformed => cases hnewline

end Abreast

/-! ### Tokens and scanners

Tokens are alike if they are the same but for positions at line breaks and the one wording. -/

/-- The token `t'` says in a file with other line breaks what `t` says in the file that starts at
`c₀`: its kind is the same, its text is, unless it is `reworded`, and its place is, unless that is
at a line break. -/
structure Token.Alike (c₀ : Cursor) (t t' : Token) : Prop where
  kind : t'.kind = t.kind
  text : t'.text = if t.kind = .invalid then reworded t.text else t.text
  aborts : t'.aborts = t.aborts
  pos : AtBreak c₀ t.pos ∨ t.pos.Level t'.pos

/-- Modes are the same, up to the place where a replacement started (`Stage.key`), which is at the
same line and column unless it is at a line break. -/
inductive Mode.Alike (c₀ : Cursor) : Mode → Mode → Prop
  | same (m : Mode) (h : ∀ pos, m ≠ .replacement (.key pos)) : Alike c₀ m m
  | key {pos pos' : Position} (h : AtBreak c₀ pos ∨ pos.Level pos') :
    Alike c₀ (.replacement (.key pos)) (.replacement (.key pos'))

namespace Scanner

variable (style : LineBreak) (c₀ : Cursor)

/-- The scanners stand at the same place of both files (`Abreast`), in modes that are alike. -/
structure Alike (s s' : Scanner) : Prop where
  cursor : Abreast style c₀ s.cursor s'.cursor
  stack : List.Forall₂ (Mode.Alike c₀) s.stack s'.stack

/-- The outcomes of one step in both files: tokens that are alike (`Token.Alike`), one by one, and
scanners that are. -/
def Kept (out out' : List Token × Scanner) : Prop :=
  List.Forall₂ (Token.Alike c₀) out.1 out'.1 ∧ Alike style c₀ out.2 out'.2

variable {style c₀} {c c' : Cursor}

/-- A token at the cursor is alike in both files (`Token.Alike`), as it is at the place of the next
symbol in both. -/
theorem alike_token (h : Abreast style c₀ c c') {kind : Token.Kind} (hkind : kind ≠ .invalid)
    (text : List Char) :
    Token.Alike c₀ (token kind text c.nextPos) (token kind text c'.nextPos) :=
  ⟨rfl, (if_neg hkind).symm, rfl, h.nextPos⟩

/-- A fault at the cursor is alike, if its wording is `reworded`. -/
theorem alike_invalid (h : Abreast style c₀ c c') {fault fault' : Token.Fault}
    (hfault : fault'.message = reworded fault.message) :
    Token.Alike c₀ (invalid fault c.nextPos) (invalid fault' c'.nextPos) :=
  ⟨rfl, hfault, rfl, h.nextPos⟩

/-- At the margin nothing else is open, so cursors that are `Abreast` are enough. -/
theorem alike_root (h : Abreast style c₀ c c') : Alike style c₀ ⟨c, [.root]⟩ ⟨c', [.root]⟩ :=
  ⟨h, .cons (.same .root nofun) .nil⟩

/-- A fault inside a message is `Kept`: both scanners go over the rest of the block. A fault that
ends the scan is too. -/
theorem kept_fail (h : Abreast style c₀ c c') {fault fault' : Token.Fault}
    (hfault : fault'.message = reworded fault.message) :
    Kept style c₀ (fail fault c) (fail fault' c') :=
  ⟨.cons (alike_invalid h hfault) .nil, alike_root h.skipBlock⟩

theorem kept_abort (h : Abreast style c₀ c c') {fault fault' : Token.Fault}
    (hfault : fault'.message = reworded fault.message) :
    Kept style c₀ (abort fault c) (abort fault' c') :=
  ⟨.cons ⟨rfl, hfault, rfl, h.nextPos⟩ .nil, h, .cons (.same .done nofun) .nil⟩

/-! ### At the margin

The functions that yield tokens give tokens that are alike, and the step functions outcomes that are
`Kept`. Each proof goes through the branches of its function and finds the cursor in both files at
the same symbols. -/

/-- The end of a line (`lineEnd`) is alike in both files, be it there or not. -/
theorem alike_lineEnd (h : Abreast style c₀ c c') {fault : Token.Fault}
    (hfault : fault.message = reworded fault.message) :
    List.Forall₂ (Token.Alike c₀) (lineEnd fault c) (lineEnd fault c') := by
  have hinvalid := List.Forall₂.cons (alike_invalid h hfault) .nil
  unfold lineEnd
  rw [h.rest]
  cases c.rest with
  | nil => exact .nil
  | cons s rest =>
    cases s with
    | newline => exact .nil
    | char | malformed => exact hinvalid

/-- The tokens of a section header (`headerTokens`) are alike, part by part; those of a comment are
alike as well. -/
theorem alike_headerTokens (h : Abreast style c₀ c c') :
    List.Forall₂ (Token.Alike c₀) (headerTokens c) (headerTokens c') := by
  unfold headerTokens
  split
  · rename_i tail hrest
    have hinner := (h.drop 2).skipSpace
    simp only [h.cons₂ hrest]
    generalize (c.drop 2).skipSpace = inner at hinner
    generalize (c'.drop 2).skipSpace = inner' at hinner
    rw [hinner.rest, Word.dottedName_restyle]
    split
    · exact .cons (alike_invalid hinner (by decide)) .nil
    · have hclose := (hinner.drop (Word.dottedName inner.rest).length).skipSpace
      generalize (inner.drop (Word.dottedName inner.rest).length).skipSpace = close at hclose
      generalize (inner'.drop (Word.dottedName inner.rest).length).skipSpace = close' at hclose
      split
      · rename_i tail hbrackets
        simp only [hclose.cons₂ hbrackets]
        exact .cons (alike_token h (by decide) _)
          (alike_lineEnd (hclose.drop 2).skipSpace (by decide))
      · rename_i hno
        split
        · rename_i tail hbrackets
          obtain ⟨tail, hbrackets⟩ := hclose.of_cons₂ hbrackets
          exact absurd hbrackets (hno tail)
        · exact .cons (alike_invalid hclose (by decide)) .nil
  · rename_i hno
    split
    · rename_i tail hrest
      obtain ⟨tail, hrest⟩ := h.of_cons₂ hrest
      exact absurd hrest (hno tail)
    · exact .cons (alike_invalid h (by decide)) .nil

theorem alike_commentTokens (h : Abreast style c₀ c c') :
    List.Forall₂ (Token.Alike c₀) (commentTokens c) (commentTokens c') := by
  have hafter := h.drop (Word.commentWidth c.rest)
  unfold commentTokens
  split
  · rename_i tail hrest
    have hwidth : Word.commentWidth c'.rest = Word.commentWidth c.rest := by
      rw [h.rest, Word.commentWidth_restyle]
    dsimp only
    rw [hwidth, hafter.fault?]
    simp only [h.cons₂ hrest]
    cases (c.drop (Word.commentWidth c.rest)).rest.head?.bind Symbol.fault? with
    | none => exact .nil
    | some fault => exact .cons (alike_invalid hafter (Token.Fault.reworded_illegal fault)) .nil
  · rename_i hno
    split
    · rename_i tail hrest
      obtain ⟨tail, hrest⟩ := h.of_cons₂ hrest
      exact absurd hrest (hno tail)
    · exact .cons (alike_invalid h (by decide)) .nil

/-- The fault of a line that is no message (`keyFault`) is not reworded, as such a line starts with
content. -/
theorem reworded_keyFault (input : List Symbol) :
    (keyFault input).message = reworded (keyFault input).message := by
  unfold keyFault
  split
  · exact Token.Fault.reworded_illegal _
  · exact Token.Fault.reworded_messageKey _

/-- A line with a key is `Kept`. The indentation of the next line with content is as wide in both
files. -/
theorem kept_keyStep (h : Abreast style c₀ c c') (hhead : NoBreak c.rest) {stack stack' : List Mode}
    (hstack : List.Forall₂ (Mode.Alike c₀) stack stack') :
    Kept style c₀ (keyStep c stack) (keyStep c' stack') := by
  have hfault : keyFault c'.rest = keyFault c.rest := by
    rw [keyFault, h.head? hhead, keyFault]
  unfold keyStep
  dsimp only
  rw [hfault, h.rest, Word.ident_restyle, h.skipLine.rest, Layout.indentWidth?_restyle]
  split
  · exact ⟨.cons (alike_invalid h (reworded_keyFault c.rest)) .nil, h.skipBlock, hstack⟩
  · have hstart := alike_token h (by decide : Token.Kind.messageKey ≠ .invalid) (Word.ident c.rest)
    have hafter := h.drop (Word.ident c.rest).length
    generalize c.drop (Word.ident c.rest).length = after at hafter
    generalize c'.drop (Word.ident c.rest).length = after' at hafter
    split
    · rename_i tail hcolon
      have hfaults := alike_lineEnd (hafter.drop 1).skipSpace
        (by decide : Token.Fault.newlineAfterKey.message = _)
      simp only [hafter.cons hcolon]
      cases Layout.indentWidth? c.skipLine.rest with
      | some width =>
        exact ⟨.cons hstart hfaults, h.skipLine.drop width, .cons (.same _ nofun) hstack⟩
      | none => exact ⟨.cons hstart hfaults, h.skipLine, hstack⟩
    · rename_i hno
      split
      · rename_i tail hcolon
        obtain ⟨tail, hcolon⟩ := hafter.of_cons hcolon
        exact absurd hcolon (hno tail)
      · exact ⟨.cons hstart (.cons (alike_invalid hafter (by decide)) .nil), h.skipBlock, hstack⟩

/-- Behind the blank lines there is no line break. -/
theorem noBreak_drop_blankWidth (input : List Symbol) :
    NoBreak (input.drop (Layout.blankWidth input)) := by
  obtain ⟨lines, rest, rfl, -, hblank, hwidth⟩ := Layout.exists_blanks input
  rw [hwidth, List.drop_left]
  intro style hhead
  obtain ⟨tail, rfl⟩ := List.head?_eq_some_iff.mp hhead
  exact hblank style tail rfl

/-- The steps at the margin are `Kept`. Blank lines are passed over first, so the next symbol is no
line break. -/
theorem kept_rootStep (h : Abreast style c₀ c c') {stack stack' : List Mode}
    (hstack : List.Forall₂ (Mode.Alike c₀) stack stack') :
    Kept style c₀ (rootStep c stack) (rootStep c' stack') := by
  have hline := h.drop (Layout.blankWidth c.rest)
  have hhead := noBreak_drop_blankWidth c.rest
  rw [← Cursor.rest_drop] at hhead
  unfold rootStep
  dsimp only
  rw [h.rest, Layout.blankWidth_restyle]
  generalize c.drop (Layout.blankWidth c.rest) = line at hline hhead
  generalize c'.drop (Layout.blankWidth c.rest) = line' at hline
  simp only [hline.skipSpace.eq_nil]
  rw [hline.rest, Layout.spaceWidth_restyle, ← hline.rest]
  split
  · exact ⟨.cons (alike_token hline.skipSpace (by decide) []) .nil, hline.skipSpace,
      .cons (.same .done nofun) .nil⟩
  · split
    · exact kept_abort hline (by decide)
    · split
      · rename_i rest hrest
        simp only [hline.cons hrest]
        exact ⟨alike_headerTokens hline, hline.skipLine, hstack⟩
      · rename_i rest hrest
        simp only [hline.cons hrest]
        exact ⟨alike_commentTokens hline, hline.skipLine, hstack⟩
      · rename_i hbracket hslash
        split
        · rename_i rest hrest
          obtain ⟨tail, hrest⟩ := hline.of_cons hrest
          exact absurd hrest (hbracket tail)
        · rename_i rest hrest
          obtain ⟨tail, hrest⟩ := hline.of_cons hrest
          exact absurd hrest (hslash tail)
        · exact kept_keyStep hline hhead hstack

/-! ### In a body

A line break in a body is a token with a position of its own, taken at the line break. -/

/-- As many replacements are open in both files, so that `nesting` reaches its bound in both. -/
theorem nesting_alike {stack stack' : List Mode} (h : List.Forall₂ (Mode.Alike c₀) stack stack') :
    nesting stack' = nesting stack := by
  induction h with
  | nil => rfl
  | @cons m m' _ _ hmode _ ih =>
    cases hmode with
    | same _ hkey =>
      cases m with
      | replacement stage => rw [nesting_replacement, nesting_replacement, ih]
      | _ => simpa [nesting] using ih
    | key => rw [nesting_replacement, nesting_replacement, ih]

/-- A run of text is `Kept`: it is the same in both files, as no line break is text. -/
theorem kept_textStep (h : Abreast style c₀ c c') (nested produced : Bool)
    {below below' : List Mode} (hbelow : List.Forall₂ (Mode.Alike c₀) below below') :
    Kept style c₀ (textStep c nested produced below) (textStep c' nested produced below') := by
  have hafter := h.drop (Word.text c.rest).length
  have hrun : List.Forall₂ (Token.Alike c₀)
      (if Word.text c.rest = [] then [] else [token .messageText (Word.text c.rest) c.nextPos])
      (if Word.text c.rest = [] then [] else [token .messageText (Word.text c.rest) c'.nextPos])
      := by
    split
    · exact .nil
    · exact .cons (alike_token h (by decide) _) .nil
  unfold textStep
  dsimp only
  rw [h.rest, Word.text_restyle, hafter.fault?]
  cases (c.drop (Word.text c.rest).length).rest.head?.bind Symbol.fault? with
  | some fault =>
    have hfault := alike_invalid hafter (Token.Fault.reworded_illegal fault)
    exact ⟨List.rel_append hrun (.cons hfault .nil), alike_root hafter.skipBlock⟩
  | none => exact ⟨hrun, hafter, .cons (.same _ nofun) hbelow⟩

/-- The steps in a body are `Kept`, by what stands first. -/
theorem kept_bodyStep (h : Abreast style c₀ c c') (nested produced : Bool)
    {below below' : List Mode} (hbelow : List.Forall₂ (Mode.Alike c₀) below below') :
    Kept style c₀ (bodyStep c nested produced below) (bodyStep c' nested produced below') := by
  unfold bodyStep
  split
  -- the end of the file
  · rename_i hrest
    simp only [h.eq_nil.mpr hrest]
    split
    · exact kept_abort h (by decide)
    · exact ⟨.nil, h, hbelow⟩
  -- a line break
  · rename_i hrest
    have hwidth : Layout.continuationWidth? c'.rest = Layout.continuationWidth? c.rest := by
      rw [h.rest, Layout.continuationWidth?_restyle]
    rw [hwidth]
    simp only [h.newline hrest]
    cases Layout.continuationWidth? c.rest with
    | some width =>
      refine ⟨?_, h.drop width, .cons (.same _ nofun) hbelow⟩
      dsimp only
      split
      · exact .cons (alike_token h (by decide) []) .nil
      · exact .nil
    | none =>
      dsimp only
      split
      · exact kept_fail h (by decide)
      · exact ⟨.nil, h, hbelow⟩
  -- a brace
  · rename_i hrest
    simp only [h.cons hrest]
    split
    · exact ⟨.nil, h, hbelow⟩
    · exact kept_fail h (by decide)
  -- the start of a replacement
  · rename_i hrest
    simp only [h.cons₂ hrest, nesting_alike hbelow]
    split
    · exact kept_abort h (by decide)
    · exact ⟨.nil, h.drop 2, .cons (.key h.nextPos) (.cons (.same _ nofun) hbelow)⟩
  -- text
  · rename_i hnil hnewline hbrace hopen
    split
    · rename_i hrest
      exact absurd (h.eq_nil.mp hrest) hnil
    · rename_i hrest
      obtain ⟨style', tail, hrest⟩ := h.of_newline hrest
      exact absurd hrest (hnewline style' tail)
    · rename_i hrest
      obtain ⟨tail, hrest⟩ := h.of_cons hrest
      exact absurd hrest (hbrace tail)
    · rename_i hrest
      obtain ⟨tail, hrest⟩ := h.of_cons₂ hrest
      exact absurd hrest (hopen tail)
    · exact kept_textStep h nested produced hbelow

/-! ### In a replacement

This is where the style of a line break can be seen in a wording. -/

/-- The key of a replacement is `Kept`, with the position it holds. -/
theorem kept_replacementKeyStep (h : Abreast style c₀ c c') {pos pos' : Position}
    (hpos : AtBreak c₀ pos ∨ pos.Level pos') {below below' : List Mode}
    (hbelow : List.Forall₂ (Mode.Alike c₀) below below') :
    Kept style c₀ (replacementKeyStep pos c below) (replacementKeyStep pos' c' below') := by
  unfold replacementKeyStep
  dsimp only
  rw [h.rest, Word.ident_restyle]
  split
  · exact kept_fail h (by decide)
  · have hstart : Token.Alike c₀ (token .replacementStart (Word.ident c.rest) pos)
        (token .replacementStart (Word.ident c.rest) pos') := ⟨rfl, rfl, rfl, hpos⟩
    have hafter := h.drop (Word.ident c.rest).length
    generalize c.drop (Word.ident c.rest).length = after at hafter
    generalize c'.drop (Word.ident c.rest).length = after' at hafter
    split
    · rename_i hcolon
      have hinner := hafter.drop 1
      simp only [hafter.cons hcolon]
      rw [hinner.rest, Word.ident_restyle]
      split
      · refine ⟨.cons hstart (.cons (alike_invalid hinner ?_) .nil), alike_root hinner.skipBlock⟩
        decide
      · have hkind := alike_token hinner (by decide : Token.Kind.replacementType ≠ .invalid)
          (Word.ident (after.drop 1).rest)
        exact ⟨.cons hstart (.cons hkind .nil), hinner.drop _, .cons (.same _ nofun) hbelow⟩
    · rename_i hno
      split
      · rename_i hcolon
        obtain ⟨tail, hcolon⟩ := hafter.of_cons hcolon
        exact absurd hcolon (hno tail)
      · exact ⟨.cons hstart .nil, hafter, .cons (.same _ nofun) hbelow⟩

/-- What `optionName` reads is the same in both files, and so is the width of what stands in front
of a fault. -/
theorem optionName_restyle (hstyle : style ≠ .lf) {input : List Symbol} (hclean : Clean input) :
    (∃ name, optionName input = .ok name ∧
      optionName (input.map (Symbol.restyle style)) = .ok name) ∨
    ∃ width fault fault', optionName input = .error (width, fault) ∧
      optionName (input.map (Symbol.restyle style)) = .error (width, fault') ∧
      fault'.message = reworded fault.message := by
  unfold optionName
  split
  -- a literal
  · rename_i rest
    simp only [List.map_cons, Symbol.restyle_char, Word.literal_restyle, ← List.map_drop]
    generalize rest.drop (Word.literal rest).length = after
    have hfault := Symbol.fault?_head?_restyle style after
    split
    · exact .inl ⟨_, rfl, rfl⟩
    · rename_i hno
      have hno' : ∀ tail, after.map (Symbol.restyle style) ≠ .char ']' :: tail := by
        intro tail hrest
        obtain ⟨tail, rfl, -⟩ := Symbol.of_map_restyle style hrest
        exact hno tail rfl
      cases hcase : after.head?.bind Symbol.fault? with
      | some fault =>
        refine .inr ⟨_, .illegal fault, .illegal fault, rfl, ?_,
          Token.Fault.reworded_illegal fault⟩
        split
        · rename_i hrest
          exact absurd hrest (hno' _)
        · rw [hfault, hcase]
      | none =>
        refine .inr ⟨_, .literalClosing, .literalClosing, rfl, ?_, by decide⟩
        split
        · rename_i hrest
          exact absurd hrest (hno' _)
        · rw [hfault, hcase]
  -- an identifier
  · rename_i hno
    split
    · rename_i hrest
      obtain ⟨tail, rfl, -⟩ := Symbol.of_map_restyle style hrest
      exact absurd rfl (hno tail)
    · rw [Word.ident_restyle, List.head?_map]
      dsimp only
      split
      · have hlf : input.head? ≠ some (.char '\n') := by
          intro hhead
          exact (hclean '\n' (List.mem_of_mem_head? hhead)).1 rfl
        exact .inr ⟨_, _, _, rfl, rfl, Token.Fault.reworded_optionName hstyle hlf⟩
      · exact .inl ⟨_, rfl, rfl⟩

/-- An option, or the end of the options, is `Kept`. Here the style matters, for the wording of a
missing name. -/
theorem kept_optionStep (hstyle : style ≠ .lf) (h : Abreast style c₀ c c') (hclean : Clean c.rest)
    (hhead : NoBreak c.rest) {below below' : List Mode}
    (hbelow : List.Forall₂ (Mode.Alike c₀) below below') :
    Kept style c₀ (optionStep c below) (optionStep c' below') := by
  have hoptions : List.Forall₂ (Mode.Alike c₀) (.replacement .options :: below)
      (.replacement .options :: below') := .cons (.same _ nofun) hbelow
  unfold optionStep
  split
  -- the end of the file
  · rename_i hrest
    simp only [h.eq_nil.mpr hrest]
    exact kept_abort h (by decide)
  -- an option
  · rename_i rest hrest
    have hinner := h.drop 1
    have hclean := hclean.of_suffix (Cursor.rest_drop_suffix c 1)
    simp only [h.cons hrest]
    generalize c.drop 1 = inner at hinner hclean
    generalize c'.drop 1 = inner' at hinner
    rcases optionName_restyle hstyle hclean with ⟨name, hname, hname'⟩ |
      ⟨width, fault, fault', hname, hname', hfault⟩
    · rw [← hinner.rest] at hname'
      have hstart := alike_token hinner (by decide : Token.Kind.optionStart ≠ .invalid) name
      have hafter := hinner.drop name.length
      simp only [hname, hname']
      generalize inner.drop name.length = after at hafter
      generalize inner'.drop name.length = after' at hafter
      split
      · rename_i hbrace
        simp only [hafter.cons hbrace]
        exact ⟨.cons hstart .nil, hafter.drop 1,
          .cons (.same _ nofun) (.cons (.same _ nofun) hbelow)⟩
      · rename_i hno
        split
        · rename_i hbrace
          obtain ⟨tail, hbrace⟩ := hafter.of_cons hbrace
          exact absurd hbrace (hno tail)
        · exact ⟨.cons hstart (.cons (alike_token hafter (by decide) []) .nil), hafter, hoptions⟩
    · rw [← hinner.rest] at hname'
      simp only [hname, hname']
      exact kept_fail (hinner.drop width) hfault
  -- the closing brace
  · rename_i hrest
    simp only [h.cons hrest]
    exact ⟨.cons (alike_token h (by decide) _) .nil, h.drop 1, hbelow⟩
  -- anything else
  · rename_i s rest hdot hbrace hrest
    have hs := h.head? hhead
    rw [hrest, List.head?_cons] at hs
    obtain ⟨rest', hrest'⟩ := List.head?_eq_some_iff.mp hs
    rw [hrest']
    split
    · contradiction
    · rename_i heq
      exact absurd (List.cons.inj heq).1 hdot
    · rename_i heq
      exact absurd (List.cons.inj heq).1 hbrace
    · rename_i heq
      obtain ⟨rfl, -⟩ := List.cons.inj heq
      exact kept_fail h (Token.Fault.reworded_unexpected s)

/-- What stands between options is `Kept`: spaces and continuations are as wide in both files. -/
theorem kept_foldStep (hstyle : style ≠ .lf) (h : Abreast style c₀ c c') (hclean : Clean c.rest)
    {below below' : List Mode} (hbelow : List.Forall₂ (Mode.Alike c₀) below below') :
    Kept style c₀ (foldStep c below) (foldStep c' below') := by
  have hline := h.skipSpace
  have hclean := hclean.of_suffix (Cursor.rest_drop_suffix c (Layout.spaceWidth c.rest))
  unfold foldStep
  dsimp only
  rw [← Cursor.skipSpace] at hclean
  generalize c.skipSpace = line at hline hclean
  generalize c'.skipSpace = line' at hline
  split
  · rename_i hrest
    have hwidth : Layout.continuationWidth? line'.rest = Layout.continuationWidth? line.rest := by
      rw [hline.rest, Layout.continuationWidth?_restyle]
    rw [hwidth]
    simp only [hline.newline hrest]
    cases hwidth : Layout.continuationWidth? line.rest with
    | some width =>
      -- the look-ahead stops at content
      obtain ⟨s, rest, hdrop, -, hnewline⟩ := Layout.head_drop_continuationWidth? hwidth
      have hhead : NoBreak (line.drop width).rest := by
        rw [Cursor.rest_drop, hdrop]
        exact noBreak_cons hnewline
      exact kept_optionStep hstyle (hline.drop width)
        (hclean.of_suffix (Cursor.rest_drop_suffix line width)) hhead hbelow
    | none => exact kept_fail hline (by decide)
  · rename_i hno
    split
    · rename_i hrest
      obtain ⟨style', tail, hrest⟩ := hline.of_newline hrest
      exact absurd hrest (hno style' tail)
    · refine kept_optionStep hstyle hline hclean ?_ hbelow
      intro style' hhead
      obtain ⟨tail, hrest⟩ := List.head?_eq_some_iff.mp hhead
      exact hno style' tail hrest

/-- The end of an option body. -/
theorem kept_optionEndStep (h : Abreast style c₀ c c') {below below' : List Mode}
    (hbelow : List.Forall₂ (Mode.Alike c₀) below below') :
    Kept style c₀ (optionEndStep c below) (optionEndStep c' below') := by
  unfold optionEndStep
  split
  · rename_i hrest
    simp only [h.cons hrest]
    exact ⟨.cons (alike_token h (by decide) _) .nil, h.drop 1, .cons (.same _ nofun) hbelow⟩
  · rename_i hno
    split
    · rename_i hrest
      obtain ⟨tail, hrest⟩ := h.of_cons hrest
      exact absurd hrest (hno tail)
    · exact kept_fail h (by decide)

/-! ### The scans

The stacks are alike mode by mode, so the same step function is called in both files. -/

variable {s s' : Scanner}

/-- Both scans are over at once. -/
theorem isDone_alike (h : Alike style c₀ s s') : s'.isDone = s.isDone := by
  obtain ⟨c, stack⟩ := s
  obtain ⟨c', stack'⟩ := s'
  obtain ⟨-, hstack⟩ := h
  cases hstack with
  | nil => rfl
  | @cons m _ _ _ hmode _ =>
    cases hmode with
    | key => rfl
    | same => cases m <;> rfl

/-- A step in one file is a step in the other (`Kept`), whatever the mode. The style is not that of
the first file. -/
theorem kept_step (hstyle : style ≠ .lf) (h : Alike style c₀ s s') (hclean : Clean s.cursor.rest) :
    Kept style c₀ s.step s'.step := by
  obtain ⟨c, stack⟩ := s
  obtain ⟨c', stack'⟩ := s'
  obtain ⟨hcursor, hstack⟩ := h
  cases hstack with
  | nil => exact ⟨.nil, hcursor, .nil⟩
  | @cons m _ _ _ hmode hbelow =>
    cases hmode with
    | key hpos => exact kept_replacementKeyStep hcursor hpos hbelow
    | same _ hkey =>
      have hstack := List.Forall₂.cons (.same m hkey) hbelow
      match m with
      | .root => exact kept_rootStep hcursor hstack
      | .body nested produced => exact kept_bodyStep hcursor nested produced hbelow
      | .replacement (.key pos) => exact absurd rfl (hkey pos)
      | .replacement .options => exact kept_foldStep hstyle hcursor hclean hbelow
      | .replacement .optionBody => exact kept_optionEndStep hcursor hbelow
      | .done => exact ⟨.nil, hcursor, hstack⟩

/-- Scanners that are `Alike` stay so to the end, so their tokens are alike one by one. By recursion
on the scan. -/
theorem alike_run (hstyle : style ≠ .lf) (h : Alike style c₀ s s') (hclean : Clean s.cursor.rest) :
    List.Forall₂ (Token.Alike c₀) s.run s'.run := by
  induction s using step_induction generalizing s' with
  | stop s hdone =>
    have hdone' := isDone_alike h
    rw [hdone] at hdone'
    rw [run_of_isDone hdone, run_of_isDone hdone']
    exact .nil
  | go s hdone ih =>
    have hdone' := isDone_alike h
    rw [hdone] at hdone'
    obtain ⟨hyield, hnext⟩ := kept_step hstyle h hclean
    rw [run_of_not_isDone hdone, run_of_not_isDone hdone']
    exact List.rel_append hyield (ih hnext (hclean.of_suffix (rest_step_suffix s)))

end Scanner

/-- The `tokens` of both files are alike, one by one. The first file has no carriage returns, so all
its line breaks are line feeds. -/
theorem alike_tokens {style : LineBreak} (hstyle : style ≠ .lf) (file : String)
    {bytes : List UInt8} (hcr : 0x0D ∉ bytes) :
    List.Forall₂ (Token.Alike (Cursor.start file bytes)) (tokens file bytes)
      (tokens file (restyle style bytes)) := by
  refine Scanner.alike_run hstyle ?_ (Symbol.clean_ofRunes _)
  rw [Scanner.start, Scanner.start, start_restyle style file hcr]
  exact Scanner.alike_root (Abreast.start style _)

/-! ### Files

Told without positions, and with the wordings of the second file, the two streams are equal. -/

/-- The cause of an error in a file whose line breaks start with a carriage return. Only what an
invalid token has reported is `reworded`. -/
def Cause.reworded : Cause → Cause
  | .reported text => .reported (MessageCatalog.reworded text)
  | cause => cause

/-- Tells a stream without positions, and with another wording. Reading looks at neither, which is a
lemma on `Retelling`. -/
def unplaced (wording : String → String) : Retelling := ⟨fun _ => {}, wording⟩

/-- Tokens that are alike are told alike, when positions are left out and the wording of one is
`reworded`. -/
theorem Token.Alike.told {c₀ : Cursor} {t t' : Token} (h : Alike c₀ t t') :
    (unplaced reworded).token t = (unplaced id).token t' := by
  have htext : (if t.kind = .invalid then reworded t.text else t.text) =
      if t'.kind = .invalid then id t'.text else t'.text := by
    rw [id, ite_self, h.text]
  rw [Retelling.token, Retelling.token, Token.mk.injEq]
  exact ⟨h.kind.symm, htext, rfl, h.aborts.symm⟩

/-- The cause of an error is told with its wording. -/
theorem cause_unplaced_reworded (cause : Cause) :
    (unplaced reworded).cause cause = cause.reworded := by
  cases cause <;> rfl

/-- A file whose line feeds are written as carriage returns, with or without line feeds behind them
(`restyle`), is read as the file is. The tokens are the same in kind and text, up to the name of the
line break where that of an option is missing (`reworded`), and they are in the same places, except
those that stand at a line break. The messages are the same, and so are the errors. -/
theorem parse_restyle {style : LineBreak} (hstyle : style ≠ .lf) (file : String)
    {bytes : List UInt8} (hcr : 0x0D ∉ bytes) :
    List.Forall₂
        (fun t t' : Token => t'.kind = t.kind ∧
          t'.text = (if t.kind = .invalid then reworded t.text else t.text) ∧
          (bytes[t.pos.offset.toNat]? ≠ some 0x0A →
            t'.pos.line = t.pos.line ∧ t'.pos.column = t.pos.column))
        (tokens file bytes) (tokens file (restyle style bytes)) ∧
      (parse file (restyle style bytes)).messages = (parse file bytes).messages ∧
      (parse file (restyle style bytes)).errors.map (·.cause) =
        (parse file bytes).errors.map (·.cause.reworded) := by
  have halike := alike_tokens hstyle file hcr
  constructor
  · refine halike.imp fun t t' h => ⟨h.kind, h.text, fun hbyte => ?_⟩
    rcases h.pos with ⟨c, style', ⟨n, rfl⟩, hbreak, hpos⟩ | hlevel
    · rw [hpos] at hbyte
      exact absurd (getElem?_of_newline hcr hbreak) hbyte
    · exact hlevel
  · have htold : (tokens file bytes).map (unplaced reworded).token =
        (tokens file (restyle style bytes)).map (unplaced id).token := by
      rw [← List.forall₂_eq_eq_eq, List.forall₂_map_left_iff, List.forall₂_map_right_iff]
      exact halike.imp fun _ _ h => h.told
    have hread := congrArg readTokens htold
    rw [readTokens_map_token rfl, readTokens_map_token rfl] at hread
    refine ⟨(congrArg Parsed.messages hread).symm, ?_⟩
    have herrors := congrArg (fun p => p.errors.map (·.cause)) hread
    have hcause (cause : Cause) : (unplaced id).cause cause = cause := Retelling.cause_id _ cause
    simpa [parse, Retelling.parsed, Retelling.diagnostic, Function.comp_def,
      cause_unplaced_reworded, hcause] using herrors.symm

/-- An option whose name is missing at the end of its line, in a file with line breaks of two
characters. -/
theorem parse_restyle_of_missing_name :
    (parse "f" (restyle .crlf (Utf8.encode "k:\n\ta $\x7bn:plural.\n"))).errors.map (·.cause) =
        [.reported "replacement option name expected, found '\\r'", .otherRequired] ∧
      (parse "f" (restyle .crlf (Utf8.encode "k:\n\ta $\x7bn:plural.\n"))).messages =
        (parse "f" (Utf8.encode "k:\n\ta $\x7bn:plural.\n")).messages := by
  obtain ⟨-, hmessages, herrors⟩ := @parse_restyle .crlf (by decide) "f"
    (Utf8.encode "k:\n\ta $\x7bn:plural.\n") (by decide)
  refine ⟨herrors.trans ?_, hmessages⟩
  rw [parse, tokens_eq_runFor]
  decide +kernel

end MessageCatalog
