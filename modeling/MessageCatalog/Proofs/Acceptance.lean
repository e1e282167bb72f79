import MessageCatalog.Proofs.Moves
import MessageCatalog.Proofs.Spelling

/-!
# MessageCatalog.Proofs.Acceptance

The scanner accepts exactly the files of the grammar: `tokens_valid_iff`.

For each stack of modes there is a language of what may be left to read (`Scanner.Completes`), put
together from the phrases of the grammar: at the margin a sequence of items, in a body what follows
it up to the end of the body and then what completes the stack below, and so on outwards. A step of
the scanner is exact for it (`Scanner.Exact`): what is left before the step is in the language if
and only if the step reports no fault (`Scanner.Valid`) and what is left after it is in the language
of the new stack.

Every step is exact (`exact_step`), by one lemma for each step function. They use what
`MessageCatalog.Proofs.Grammar` says about the first symbol of a derivation and what
`MessageCatalog.Proofs.Words` says about the words that are read, and go through the branches of the
function:

* a branch that reports a fault is exact because nothing is derivable there (`exact_of_fault`),
* a branch that reports none passes over a part that every derivation has to start with.

Both directions of the theorem are so proved at once. It follows by induction over the scan
(`valid_run`), which goes down on the measure of the scanner; at its start the stack is the margin,
whose language is that of the grammar.
-/

namespace MessageCatalog

open MessageCatalog.Symbol (Clean isSpace isNewline)
open Layout (Spaces Blanks NoSpace NoBlank)
open Grammar

/-! ### Dotted names

The name of a section is the only word that the grammar builds from identifiers. -/

namespace Word

/-- The input cannot continue a dotted name (`dottedRest`): neither an identifier nor a dot with
another name behind it. -/
def EndsName (input : List Symbol) : Prop :=
  ∀ c tail, input = .char c :: tail → continuesIdent c = false ∧ c ≠ '.'

/-- What may continue an identifier continues a dotted name, so `dottedRest` reads over it. -/
theorem dottedRest_continues {cs : List Char} (h : cs.all continuesIdent = true)
    (rest : List Symbol) : dottedRest (cs.map .char ++ rest) = cs ++ dottedRest rest := by
  induction cs with
  | nil => rfl
  | cons c cs ih =>
    simp only [List.all_cons, Bool.and_eq_true] at h
    have hdot : c ≠ '.' := by
      rintro rfl
      exact absurd h.1 (by decide)
    rw [List.map_cons, List.cons_append, dottedRest, if_pos h.1, ih h.2, List.cons_append]
    exact fun _ _ _ hc => absurd hc hdot

theorem dottedRest_of_endsName {rest : List Symbol} (h : EndsName rest) : dottedRest rest = [] := by
  unfold dottedRest
  split
  · exact absurd rfl (h _ _ rfl).2
  · rw [if_neg (by simp [(h _ _ rfl).1])]
  · rfl

/-- A dotted name starts with an identifier: `dottedName` reads that first and goes on with
`dottedRest`. -/
theorem dottedName_ident_append {cs : List Char} (h : isIdent cs = true) (rest : List Symbol) :
    dottedName (cs.map .char ++ rest) = cs ++ dottedRest rest := by
  cases cs with
  | nil => simp [isIdent] at h
  | cons c cs =>
    simp only [isIdent, Bool.and_eq_true] at h
    rw [List.map_cons, List.cons_append, dottedName, if_pos h.1, dottedRest_continues h.2,
      List.cons_append]

/-- A dot continues a dotted name if another name follows. -/
theorem dottedRest_dot {input : List Symbol} (h : dottedName input ≠ []) :
    dottedRest (.char '.' :: input) = '.' :: dottedName input := by
  match input with
  | .char c :: rest =>
    rw [dottedName] at h ⊢
    by_cases hc : startsIdent c = true
    · rw [dottedRest, if_pos hc, if_pos hc]
    · rw [if_neg hc] at h
      exact absurd rfl h
  | .newline _ :: _ | .malformed :: _ | [] => exact absurd rfl h

/-- A dotted name in front of something that cannot continue it is read whole by `dottedName`. -/
theorem dottedName_append_of {name : List Char} {rest : List Symbol} (h : Dotted name)
    (hrest : EndsName rest) : dottedName (name.map .char ++ rest) = name := by
  induction h with
  | ident h => rw [dottedName_ident_append h, dottedRest_of_endsName hrest, List.append_nil]
  | dot hcs hds ih =>
    rw [List.map_append, List.append_assoc, dottedName_ident_append hcs, List.map_cons,
      List.cons_append, dottedRest_dot (by rw [ih]; exact hds.ne_nil), ih]

/-- An identifier and what `dottedRest` reads behind it are a dotted name (`Dotted`). -/
theorem dotted_append_dottedRest (input : List Symbol) :
    ∀ {cs : List Char}, isIdent cs = true → Dotted (cs ++ dottedRest input) := by
  fun_induction dottedRest input with
  | case1 c rest hc ih =>
    intro cs hcs
    have hone : isIdent [c] = true := by simpa [isIdent] using hc
    exact .dot hcs (ih hone)
  | case2 | case4 | case5 =>
    intro cs hcs
    rw [List.append_nil]
    exact .ident hcs
  | case3 c rest _ hc ih =>
    intro cs hcs
    rw [List.append_cons]
    refine ih ?_
    cases cs with
    | nil => simp [isIdent] at hcs
    | cons d cs => simp_all [isIdent]

/-- What `dottedName` reads is `Dotted`, unless nothing is read. -/
theorem dotted_dottedName {input : List Symbol} (h : dottedName input ≠ []) :
    Dotted (dottedName input) := by
  unfold dottedName at h ⊢
  split at h
  · rename_i c rest
    split at h
    · rename_i hc
      simp only [if_pos hc]
      have hone : isIdent [c] = true := by simpa [isIdent] using hc
      exact dotted_append_dottedRest rest hone
    · exact absurd rfl h
  · exact absurd rfl h

end Word

/-! ### The language of a stack

The language is defined by recursion on the stack, from the innermost mode outwards. The position
that a stage of a replacement holds does not matter, nor whether a body has produced anything. -/

namespace Scanner

/-- No token reports a fault (`Token.Kind.invalid`). -/
def Valid (yield : List Token) : Prop := ∀ t ∈ yield, t.kind ≠ .invalid

theorem valid_nil : Valid [] := fun _ h => absurd h List.not_mem_nil

theorem valid_cons {t : Token} {yield : List Token} :
    Valid (t :: yield) ↔ t.kind ≠ .invalid ∧ Valid yield := List.forall_mem_cons

theorem valid_append {xs ys : List Token} : Valid (xs ++ ys) ↔ Valid xs ∧ Valid ys :=
  List.forall_mem_append

theorem not_valid_invalid (fault : Token.Fault) (pos : Position) (more : List Token) :
    ¬ Valid (invalid fault pos :: more) := fun h => h _ List.mem_cons_self rfl

/-- The input completes what the scanner is inside of: for each mode of the stack, from the
innermost on, what `Grammar` still asks for. At the margin these are items; in a body, what
`Follows`; in a replacement, what is left of it. -/
def Completes : List Mode → List Symbol → Prop
  | [], _ => False
  | .done :: _, _ => True
  | .root :: _, input => Items input
  | .body nested _ :: below, input =>
    Follows (nesting below) nested (fun rest => Completes below (.char '}' :: rest)) input
  | .replacement (.key _) :: below, input =>
    ∃ rest, Opened (nesting below + 1) input rest ∧ Completes below rest
  | .replacement .options :: below, input =>
    ∃ rest, Derives .options (nesting below + 1) input rest ∧ Completes below rest
  | .replacement .optionBody :: below, input =>
    ∃ mid rest, input = .char '}' :: mid ∧ Derives .options (nesting below + 1) mid rest ∧
      Completes below rest

/-- The outcome of a step is exact: the input completes the stack if and only if there is no fault
and the rest of the input completes the new stack. One step at a time, this is what the scanner has
to do with the grammar. -/
def Exact (stack : List Mode) (input : List Symbol) (out : List Token × Scanner) : Prop :=
  Completes stack input ↔ Valid out.1 ∧ Completes out.2.stack out.2.cursor.rest

/-- A step that reports a fault is `Exact` where nothing completes the stack. -/
theorem exact_of_fault {stack : List Mode} {input : List Symbol} {out : List Token × Scanner}
    (hvalid : ¬ Valid out.1) (h : ¬ Completes stack input) : Exact stack input out :=
  ⟨fun h' => absurd h' h, fun h' => absurd h'.1 hvalid⟩

/-! ### At the margin

Lines at the margin are read as a whole, so what they yield is compared with the grammar before it
is asked what stands behind them. -/

/-- Nothing is reported where a line ends: `lineEnd` is silent exactly at `Eol`. -/
theorem valid_lineEnd {fault : Token.Fault} {c : Cursor} :
    Valid (lineEnd fault c) ↔ ∃ rest, Eol c.rest rest := by
  unfold lineEnd
  split
  · rename_i hrest
    rw [hrest]
    exact iff_of_true valid_nil ⟨_, .eof⟩
  · rename_i hrest
    rw [hrest]
    exact iff_of_true valid_nil ⟨_, .newline _ _⟩
  · rename_i hnil hnewline
    refine iff_of_false (not_valid_invalid _ _ _) ?_
    intro h
    obtain ⟨rest, heol⟩ := h
    generalize hinput : c.rest = input at heol
    cases heol with
    | newline style => exact hnewline _ _ hinput
    | eof => exact hnil hinput

/-- A line ends where its end is, so `Cursor.skipLine` leaves what `Eol` leaves. -/
theorem rest_skipLine {c : Cursor} {line input rest : List Symbol} (hc : c.rest = line ++ input)
    (hline : ∀ s ∈ line, isNewline s = false) (heol : Eol input rest) :
    c.skipLine.rest = rest := by
  rw [Cursor.skipLine, Cursor.rest_drop, hc]
  cases heol with
  | newline style =>
    rw [Layout.lineWidth_append hline, List.append_cons]
    exact List.drop_left' (by simp)
  | eof => rw [List.append_nil, Layout.lineWidth_eq_length hline, List.drop_length]

theorem isNewline_map_char (cs : List Char) : ∀ s ∈ cs.map Symbol.char, isNewline s = false := by
  intro s hs
  obtain ⟨c, -, rfl⟩ := List.mem_map.mp hs
  rfl

/-- An identifier starts with content, and so does a dotted name. No spaces are skipped in front of
either. -/
theorem noSpace_ident_append {cs : List Char} (h : Word.isIdent cs = true) (rest : List Symbol) :
    NoSpace (cs.map .char ++ rest) := by
  cases cs with
  | nil => simp [Word.isIdent] at h
  | cons c cs =>
    simp only [Word.isIdent, Bool.and_eq_true] at h
    exact Layout.noSpace_cons.mpr (isSpace_eq_false_of_startsIdent h.1)

theorem noSpace_dotted_append {name : List Char} (h : Dotted name) (rest : List Symbol) :
    NoSpace (name.map .char ++ rest) := by
  cases h with
  | ident h => exact noSpace_ident_append h rest
  | dot h =>
    rw [List.map_append, List.append_assoc]
    exact noSpace_ident_append h _

/-- Spaces and a closing bracket cannot continue a dotted name (`EndsName`); so in a header the name
is read whole. -/
theorem endsName_spaces_append {run tail : List Symbol} (hrun : Spaces run) :
    Word.EndsName (run ++ .char ']' :: tail) := by
  intro c rest heq
  cases run with
  | nil =>
    obtain rfl := Symbol.char.inj (List.cons.inj heq).1
    decide
  | cons s run =>
    obtain ⟨rfl, -⟩ := List.cons.inj heq
    rcases Symbol.isSpace_iff.mp (hrun _ List.mem_cons_self) with h | h
    · obtain rfl := Symbol.char.inj h
      decide
    · obtain rfl := Symbol.char.inj h
      decide

/-- What `Cursor.skipSpace` passes over is the spaces at the start. -/
theorem rest_skipSpace (c : Cursor) : c.skipSpace.rest = c.rest.dropWhile isSpace := by
  rw [Cursor.skipSpace, Cursor.rest_drop, Layout.drop_spaceWidth]

/-- Skipping spaces (`Cursor.skipSpace`) leads to the content behind them. Headers and keys are read
part by part with this. -/
theorem rest_skipSpace_eq {c : Cursor} {run rest : List Symbol} (h : c.rest = run ++ rest)
    (hrun : Spaces run) (hrest : NoSpace rest) : c.skipSpace.rest = rest := by
  rw [rest_skipSpace, h, Layout.dropWhile_spaces_append hrun, hrest.dropWhile_eq]

theorem lineEnd_of_eol {fault : Token.Fault} {c : Cursor} {rest : List Symbol}
    (h : Eol c.rest rest) : lineEnd fault c = [] := by
  unfold lineEnd
  generalize c.rest = input at h
  cases h <;> rfl

/-- A section header is one token of `headerTokens`: the scanner passes over each part of it, and
finds the next one. -/
theorem headerTokens_of_header {c : Cursor} {run₁ run₂ run₃ input rest : List Symbol}
    {name : List Char} (h₁ : Spaces run₁) (hname : Dotted name) (h₂ : Spaces run₂)
    (h₃ : Spaces run₃) (heol : Eol input rest)
    (hrest : c.rest = .char '[' :: .char '[' :: (run₁ ++ (name.map .char ++
      (run₂ ++ .char ']' :: .char ']' :: (run₃ ++ input))))) :
    headerTokens c = [token .sectionHeader name c.nextPos] := by
  have hinner : (c.drop 2).skipSpace.rest = _ :=
    rest_skipSpace_eq (by rw [Cursor.rest_drop, hrest]; rfl) h₁ (noSpace_dotted_append hname _)
  unfold headerTokens
  simp only [hrest]
  generalize (c.drop 2).skipSpace = inner at hinner ⊢
  have hdotted : Word.dottedName inner.rest = name := by
    rw [hinner, Word.dottedName_append_of hname (endsName_spaces_append h₂)]
  have hclose : (inner.drop name.length).skipSpace.rest =
      .char ']' :: .char ']' :: (run₃ ++ input) :=
    rest_skipSpace_eq (by rw [Cursor.rest_drop, hinner, List.drop_left' (by simp)]) h₂
      (Layout.noSpace_cons.mpr rfl)
  rw [hdotted, if_neg hname.ne_nil]
  generalize (inner.drop name.length).skipSpace = close at hclose ⊢
  have hend : (close.drop 2).skipSpace.rest = input :=
    rest_skipSpace_eq (by rw [Cursor.rest_drop, hclose]; rfl) h₃ heol.noSpace
  simp only [hclose]
  rw [lineEnd_of_eol (by rw [hend]; exact heol)]

/-- A header line is without a fault if and only if it is a section header. Each fault that
`headerTokens` can report is one part of the header that is not there. -/
theorem valid_headerTokens {c : Cursor} :
    Valid (headerTokens c) ↔
      ∃ run₁ name run₂ run₃ input rest, Spaces run₁ ∧ Dotted name ∧ Spaces run₂ ∧ Spaces run₃ ∧
        Eol input rest ∧
        c.rest = .char '[' :: .char '[' :: (run₁ ++ (name.map .char ++
          (run₂ ++ .char ']' :: .char ']' :: (run₃ ++ input)))) := by
  constructor
  · intro h
    unfold headerTokens at h
    split at h
    · rename_i tail hrest
      -- each part of the header is what the scanner has just passed over
      obtain ⟨run₁, tail₁, rfl, h₁, hno₁⟩ := Layout.exists_spaces tail
      have hinner : (c.drop 2).skipSpace.rest = tail₁ := by
        rw [rest_skipSpace_eq (by rw [Cursor.rest_drop, hrest]; rfl) h₁ hno₁]
      dsimp only at h
      generalize (c.drop 2).skipSpace = inner at h hinner
      split at h
      · exact absurd h (not_valid_invalid _ _ _)
      · rename_i hname
        have hdotted := Word.dotted_dottedName hname
        have hsplit := Word.dottedName_append inner.rest
        rw [← Cursor.rest_drop] at hsplit
        obtain ⟨run₂, tail₂, htail₂, h₂, hno₂⟩ :=
          Layout.exists_spaces (inner.drop (Word.dottedName inner.rest).length).rest
        have hclose := rest_skipSpace_eq htail₂ h₂ hno₂
        generalize (inner.drop (Word.dottedName inner.rest).length).skipSpace = close at h hclose
        split at h
        · rename_i tail₃ hbrackets
          obtain ⟨run₃, input, rfl, h₃, hno₃⟩ := Layout.exists_spaces tail₃
          have hend : (close.drop 2).skipSpace.rest = input :=
            rest_skipSpace_eq (by rw [Cursor.rest_drop, hbrackets]; rfl) h₃ hno₃
          obtain ⟨rest, heol⟩ := valid_lineEnd.mp (valid_cons.mp h).2
          rw [hend] at heol
          refine ⟨run₁, _, run₂, run₃, input, rest, h₁, hdotted, h₂, h₃, heol, ?_⟩
          rw [hrest, ← hbrackets, hclose, ← htail₂, hsplit, hinner]
        · exact absurd h (not_valid_invalid _ _ _)
    · exact absurd h (not_valid_invalid _ _ _)
  · intro h
    obtain ⟨run₁, name, run₂, run₃, input, rest, h₁, hname, h₂, h₃, heol, hrest⟩ := h
    rw [headerTokens_of_header h₁ hname h₂ h₃ heol hrest]
    exact valid_cons.mpr ⟨by simp [token], valid_nil⟩

theorem isCommentChar_iff {c : Char} :
    isCommentChar c = true ↔ c ≠ '\n' ∧ c ≠ '\r' ∧ (Symbol.char c).fault? = none := by
  simp [isCommentChar, Option.isNone_iff_eq_none, and_assoc]

theorem commentWidth_cons {c : Char} (h : (Symbol.char c).fault? = none) (rest : List Symbol) :
    Word.commentWidth (.char c :: rest) = Word.commentWidth rest + 1 := by
  simp [Word.commentWidth, h]

/-- The part of a comment up to the end of its line or an illegal symbol, of which
`Word.commentWidth` is the width. -/
theorem exists_comment {input : List Symbol} (hclean : Clean input) :
    ∃ (cs : List Char) (rest : List Symbol), input = cs.map .char ++ rest ∧
      cs.all isCommentChar = true ∧ Word.commentWidth input = cs.length ∧
      ((∃ rest', Eol rest rest') ∨ (rest.head?.bind Symbol.fault?).isSome) := by
  induction input with
  | nil => exact ⟨[], [], rfl, rfl, rfl, .inl ⟨[], .eof⟩⟩
  | cons s input ih =>
    cases s with
    | newline style => exact ⟨[], _, rfl, rfl, rfl, .inl ⟨input, .newline style input⟩⟩
    | malformed => exact ⟨[], _, rfl, rfl, rfl, .inr rfl⟩
    | char c =>
      cases hfault : (Symbol.char c).fault? with
      | some fault =>
        exact ⟨[], _, rfl, rfl, by simp [Word.commentWidth, hfault], .inr (by simp [hfault])⟩
      | none =>
        obtain ⟨cs, rest, rfl, hcs, hwidth, hrest⟩ := ih (hclean.of_suffix (List.suffix_cons _ _))
        have hc := hclean c (by simp)
        refine ⟨c :: cs, rest, rfl, ?_, ?_, hrest⟩
        · rw [List.all_cons, hcs, isCommentChar_iff.mpr ⟨hc.1, hc.2, hfault⟩]
          rfl
        · rw [commentWidth_cons hfault, hwidth, List.length_cons]

/-- A comment is as wide as it has characters, up to the end of its line. -/
theorem commentWidth_append_of {cs : List Char} {input rest : List Symbol}
    (hcs : cs.all isCommentChar = true) (heol : Eol input rest) :
    Word.commentWidth (cs.map .char ++ input) = cs.length := by
  induction cs with
  | nil =>
    cases heol with
    | newline => rfl
    | eof => rfl
  | cons c cs ih =>
    simp only [List.all_cons, Bool.and_eq_true] at hcs
    rw [List.map_cons, List.cons_append, commentWidth_cons (isCommentChar_iff.mp hcs.1).2.2,
      ih hcs.2, List.length_cons]

/-- A comment line is `Valid` if and only if it is a comment. -/
theorem valid_commentTokens {c : Cursor} (hclean : Clean c.rest) :
    Valid (commentTokens c) ↔
      ∃ (cs : List Char) (input rest : List Symbol), cs.all isCommentChar = true ∧
        Eol input rest ∧ c.rest = .char '/' :: .char '/' :: (cs.map .char ++ input) := by
  have hslash : (Symbol.char '/').fault? = none := by decide
  constructor
  · intro h
    unfold commentTokens at h
    split at h
    · rename_i tail hrest
      rw [hrest] at hclean
      obtain ⟨cs, input, rfl, hcs, hwidth, hinput⟩ :=
        exists_comment (hclean.of_suffix (List.suffix_append [.char '/', .char '/'] tail))
      have hafter : (c.drop (Word.commentWidth c.rest)).rest = input := by
        rw [Cursor.rest_drop, hrest, commentWidth_cons hslash, commentWidth_cons hslash, hwidth]
        exact List.drop_left' (by simp)
      dsimp only at h
      rw [hafter] at h
      rcases hinput with ⟨rest, heol⟩ | hfault
      · exact ⟨cs, input, rest, hcs, heol, hrest⟩
      · obtain ⟨fault, hfault⟩ := Option.isSome_iff_exists.mp hfault
        rw [hfault] at h
        exact absurd h (not_valid_invalid _ _ _)
    · exact absurd h (not_valid_invalid _ _ _)
  · intro h
    obtain ⟨cs, input, rest, hcs, heol, hrest⟩ := h
    have hafter : (c.drop (Word.commentWidth c.rest)).rest = input := by
      rw [Cursor.rest_drop, hrest, commentWidth_cons hslash, commentWidth_cons hslash,
        commentWidth_append_of hcs heol]
      exact List.drop_left' (by simp)
    unfold commentTokens
    dsimp only
    rw [hafter]
    simp only [hrest]
    cases heol with
    | newline => exact valid_nil
    | eof => exact valid_nil

/-! ### Exact steps at the margin

The language at the margin is `Grammar.Items`, so each branch is a lemma on the first item. -/

/-- A line that starts with a bracket is a section header or a fault, so the step is `Exact`. Either
way the line is passed over as a whole. -/
theorem exact_header {c : Cursor} {tail : List Symbol} (hrest : c.rest = .char '[' :: tail) :
    Exact [.root] c.rest (headerTokens c, ⟨c.skipLine, [.root]⟩) := by
  have hskip {run₁ run₂ run₃ input rest : List Symbol} {name : List Char} (h₁ : Spaces run₁)
      (h₂ : Spaces run₂) (h₃ : Spaces run₃) (heol : Eol input rest)
      (h : c.rest = .char '[' :: .char '[' :: (run₁ ++ (name.map .char ++
        (run₂ ++ .char ']' :: .char ']' :: (run₃ ++ input))))) : c.skipLine.rest = rest := by
    have hline : c.rest = .char '[' :: .char '[' :: (run₁ ++ (name.map .char ++
        (run₂ ++ .char ']' :: .char ']' :: run₃))) ++ input := by simpa using h
    refine rest_skipLine hline ?_ heol
    simp only [List.forall_mem_cons, List.forall_mem_append, Symbol.isNewline_char, true_and]
    exact ⟨h₁.isNewline_eq_false, isNewline_map_char name, h₂.isNewline_eq_false,
      h₃.isNewline_eq_false⟩
  show Items c.rest ↔ Valid (headerTokens c) ∧ Items c.skipLine.rest
  rw [valid_headerTokens]
  constructor
  · intro h
    rw [hrest, items_header] at h
    obtain ⟨run₁, name, run₂, run₃, input, rest, h₁, hname, h₂, h₃, heol, hitems, rfl⟩ := h
    rw [hskip h₁ h₂ h₃ heol hrest]
    exact ⟨⟨run₁, name, run₂, run₃, input, rest, h₁, hname, h₂, h₃, heol, hrest⟩, hitems⟩
  · intro h
    obtain ⟨⟨run₁, name, run₂, run₃, input, rest, h₁, hname, h₂, h₃, heol, heq⟩, hitems⟩ := h
    rw [hskip h₁ h₂ h₃ heol heq] at hitems
    rw [heq]
    exact items_header.mpr
      ⟨run₁, name, run₂, run₃, input, rest, h₁, hname, h₂, h₃, heol, hitems, rfl⟩

/-- A line that starts with a slash is a comment or a fault, so the step is `Exact`. -/
theorem exact_comment {c : Cursor} {tail : List Symbol} (hclean : Clean c.rest)
    (hrest : c.rest = .char '/' :: tail) :
    Exact [.root] c.rest (commentTokens c, ⟨c.skipLine, [.root]⟩) := by
  have hskip {cs : List Char} {input rest : List Symbol} (heol : Eol input rest)
      (h : c.rest = .char '/' :: .char '/' :: (cs.map Symbol.char ++ input)) :
      c.skipLine.rest = rest :=
    rest_skipLine (show c.rest = ('/' :: '/' :: cs).map .char ++ input from h)
      (isNewline_map_char _) heol
  show Items c.rest ↔ Valid (commentTokens c) ∧ Items c.skipLine.rest
  rw [valid_commentTokens hclean]
  constructor
  · intro h
    rw [hrest, items_comment] at h
    obtain ⟨cs, input, rest, hcs, heol, hitems, rfl⟩ := h
    rw [hskip heol hrest]
    exact ⟨⟨cs, input, rest, hcs, heol, hrest⟩, hitems⟩
  · intro h
    obtain ⟨⟨cs, input, rest, hcs, heol, heq⟩, hitems⟩ := h
    rw [hskip heol heq] at hitems
    rw [heq]
    exact items_comment.mpr ⟨cs, input, rest, hcs, heol, hitems, rfl⟩

theorem endsIdent_colon (rest : List Symbol) : Word.EndsIdent (.char ':' :: rest) := by
  show Word.continuesIdent ':' = false
  decide

/-- Behind a key the body goes on if the next line with content is indented (`Layout.indentWidth?`).
Otherwise it is empty, and the line has ended. -/
theorem follows_eol {depth : Nat} {next : List Symbol → Prop} {input rest : List Symbol}
    (h : Eol input rest) :
    Follows depth false next input ↔
      match Layout.indentWidth? rest with
      | some width => Follows depth false next (rest.drop width)
      | none => Items rest := by
  cases h with
  | newline style =>
    rw [follows_newline]
    cases Layout.indentWidth? rest with
    | none => simp
    | some width => rfl
  | eof =>
    rw [follows_nil, Layout.indentWidth?_spaces Layout.spaces_nil]
    exact iff_of_true rfl (.stop Layout.spaces_nil)

theorem endsIdent_brace (rest : List Symbol) : Word.EndsIdent (.char '{' :: rest) := by
  show Word.continuesIdent '{' = false
  decide

/-- A line that starts with any other sign is a message or a fault: `keyStep` asks for a key, a
colon and the end of the line, as `items_message` does, and then looks for an indented line. -/
theorem exact_keyStep {c : Cursor} {s : Symbol} {tail : List Symbol} (hrest : c.rest = s :: tail)
    (hspace : isSpace s = false) (hnewline : isNewline s = false) (hbracket : s ≠ .char '[')
    (hslash : s ≠ .char '/') : Exact [.root] c.rest (keyStep c [.root]) := by
  have hitems := @items_message (fun rest => Completes [.root] (.char '}' :: rest)) s tail hspace
    hnewline hbracket hslash
  rw [← hrest] at hitems
  unfold keyStep
  dsimp only
  split
  -- no key, no message
  · rename_i hkey
    refine exact_of_fault (not_valid_invalid _ _ _) ?_
    intro h
    obtain ⟨key, run, input, rest, hident, -, -, -, heq⟩ := hitems.mp h
    rw [heq, Word.ident_append_of hident (endsIdent_colon _)] at hkey
    exact Word.isIdent_ne_nil hident hkey
  · rename_i hkey
    have hident := Word.isIdent_ident hkey
    have hsplit := Word.ident_append c.rest
    rw [← Cursor.rest_drop] at hsplit
    have hafter : ∀ {key : List Char} {tail : List Symbol}, Word.isIdent key = true →
        c.rest = key.map .char ++ .char ':' :: tail →
        (c.drop (Word.ident c.rest).length).rest = .char ':' :: tail := by
      intro key tail hkey heq
      rw [Cursor.rest_drop, heq, Word.ident_append_of hkey (endsIdent_colon _)]
      exact List.drop_left' (by simp)
    generalize c.drop (Word.ident c.rest).length = after at hsplit hafter ⊢
    split
    · rename_i tail hcolon
      obtain ⟨run, input, rfl, hrun, hno⟩ := Layout.exists_spaces tail
      have hinput : (after.drop 1).skipSpace.rest = input :=
        rest_skipSpace_eq (by rw [Cursor.rest_drop, hcolon]; rfl) hrun hno
      have hmessage : Items c.rest ↔ (∃ rest, Eol input rest) ∧
          Follows 0 false (fun rest => Completes [.root] (.char '}' :: rest)) input := by
        rw [hitems]
        constructor
        · intro h
          obtain ⟨key, run', input', rest, hkey, hrun', heol, hbody, heq⟩ := h
          have htail := hcolon.symm.trans (hafter hkey heq)
          have hdrop := congrArg (List.dropWhile isSpace) (List.cons.inj htail).2
          rw [Layout.dropWhile_spaces_append hrun, Layout.dropWhile_spaces_append hrun',
            hno.dropWhile_eq, heol.noSpace.dropWhile_eq] at hdrop
          subst hdrop
          exact ⟨⟨rest, heol⟩, hbody⟩
        · intro h
          obtain ⟨⟨rest, heol⟩, hbody⟩ := h
          exact ⟨_, run, input, rest, hident, hrun, heol, hbody, by rw [← hcolon, hsplit]⟩
      -- anything but the end of the line behind the colon is a fault
      by_cases heol : ∃ rest, Eol input rest
      · obtain ⟨rest, heol⟩ := heol
        have hnext : c.skipLine.rest = rest := by
          have hline : c.rest = (Word.ident c.rest).map .char ++ .char ':' :: run ++ input := by
            rw [List.append_assoc, List.cons_append, ← hcolon, hsplit]
          refine rest_skipLine hline (List.forall_mem_append.mpr ⟨isNewline_map_char _, ?_⟩) heol
          exact List.forall_mem_cons.mpr ⟨rfl, hrun.isNewline_eq_false⟩
        have hvalid (pos : Position) : Valid (token .messageKey (Word.ident c.rest) pos ::
            lineEnd .newlineAfterKey (after.drop 1).skipSpace) :=
          valid_cons.mpr ⟨by simp [token], valid_lineEnd.mpr ⟨rest, hinput ▸ heol⟩⟩
        rw [follows_eol heol, and_iff_right ⟨rest, heol⟩] at hmessage
        rw [hnext]
        split
        · rename_i width hwidth
          rw [hwidth] at hmessage
          rw [Exact, and_iff_right (hvalid _), Cursor.rest_drop, hnext]
          exact hmessage
        · rename_i hwidth
          rw [hwidth] at hmessage
          rw [Exact, and_iff_right (hvalid _), hnext]
          exact hmessage
      · refine exact_of_fault (fun h => ?_) fun h => heol (hmessage.mp h).1
        rw [← hinput] at heol
        split at h
        · exact heol (valid_lineEnd.mp (valid_cons.mp h).2)
        · exact heol (valid_lineEnd.mp (valid_cons.mp h).2)
    -- a key without a colon
    · rename_i hcolon
      refine exact_of_fault (fun h => ?_) fun h => ?_
      · exact not_valid_invalid _ _ _ (valid_cons.mp h).2
      · obtain ⟨key, run, input, rest, hkey, -, -, -, heq⟩ := hitems.mp h
        exact hcolon _ (hafter hkey heq)

/-- The steps at the margin are `Exact`, by the first symbol of the line. -/
theorem exact_rootStep {c : Cursor} (hclean : Clean c.rest) :
    Exact [.root] c.rest (rootStep c [.root]) := by
  -- blank lines may come or go on both sides
  obtain ⟨lines, rest, heq, hlines, hblank, hwidth⟩ := Layout.exists_blanks c.rest
  have hline : (c.drop (Layout.blankWidth c.rest)).rest = rest := by
    rw [Cursor.rest_drop, hwidth, heq, List.drop_left]
  have hitems : Completes [.root] c.rest ↔ Completes [.root] rest := by
    rw [heq]
    exact items_blanks hlines rest
  have hclean := hclean.of_suffix (Cursor.rest_drop_suffix c (Layout.blankWidth c.rest))
  rw [Exact, hitems, ← hline]
  unfold rootStep
  dsimp only
  generalize c.drop (Layout.blankWidth c.rest) = line at hline hclean ⊢
  subst hline
  obtain ⟨run, content, hsplit, hrun, hno⟩ := Layout.exists_spaces line.rest
  rw [rest_skipSpace_eq hsplit hrun hno]
  split
  -- only spaces are left
  · rename_i hnil
    subst hnil
    rw [List.append_nil] at hsplit
    rw [hsplit]
    exact iff_of_true (Items.stop hrun) ⟨by simp [Valid, token], trivial⟩
  · rename_i hne
    obtain ⟨s, tail, rfl⟩ := List.exists_cons_of_ne_nil hne
    have hspace := Layout.noSpace_cons.mp hno
    have hnewline : isNewline s = false := by
      cases s with
      | newline style =>
        refine absurd ?_ (hblank style tail)
        rw [hsplit, Layout.dropWhile_spaces_append hrun, hno.dropWhile_eq]
      | char c => rfl
      | malformed => rfl
    split
    -- a line that is indented is no item
    · rename_i hindent
      refine exact_of_fault (fun h => h _ List.mem_cons_self rfl) ?_
      rw [hsplit]
      refine not_items_of_indented ?_ hrun hspace hnewline
      rintro rfl
      rw [hsplit, Layout.spaceWidth_append hrun hno] at hindent
      exact hindent rfl
    -- a line at the margin
    · rename_i hindent
      obtain rfl : run = [] := by
        rw [hsplit, Layout.spaceWidth_append hrun hno, Classical.not_not] at hindent
        exact List.length_eq_zero_iff.mp hindent
      rw [List.nil_append] at hsplit
      split
      · rename_i hbracket
        exact exact_header hbracket
      · rename_i hslash
        exact exact_comment hclean hslash
      · rename_i hbracket hslash
        refine exact_keyStep hsplit hspace hnewline ?_ ?_
        · rintro rfl
          exact hbracket _ hsplit
        · rintro rfl
          exact hslash _ hsplit

/-! ### Exact steps in a body

What ends a body depends on whether it is that of an option; nothing else about the stack below
matters for the step. -/

/-- The stack below a body: a message stands at the margin, and a nested body in an option. Anything
else is on no stack that is `Stacked`. -/
def Below : (nested : Bool) → List Mode → Prop
  | false, below => below = [.root]
  | true, below => ∃ outer, below = .replacement .optionBody :: outer

/-- Where text ends there is no illegal symbol. -/
theorem endsText_fault {input : List Symbol} (h : Word.EndsText input) :
    input.head?.bind Symbol.fault? = none := by
  unfold Word.EndsText at h
  split at h
  · rfl
  · rfl
  · exact show (Symbol.char '}').fault? = none by decide
  · exact show (Symbol.char '$').fault? = none by decide
  · exact absurd h id

/-- A body (`Follows`) does not start with an illegal symbol, nor is there one behind it. -/
theorem fault_eq_none_of_follows {depth : Nat} {nested : Bool} {next : List Symbol → Prop}
    {input : List Symbol} (h : Follows depth nested next input) (hnil : Word.text input = []) :
    input.head?.bind Symbol.fault? = none := by
  rcases h.cases_of_text_eq_nil hnil with h | ⟨mid, hcont, -⟩ | ⟨mid, hreplacement, -⟩
  · unfold Ends at h
    split at h
    · rfl
    · rfl
    · exact show (Symbol.char '}').fault? = none by decide
    · exact absurd h id
  · obtain ⟨style, tail, rfl⟩ := hcont.head
    rfl
  · obtain ⟨tail, rfl⟩ := hreplacement.head_replacement
    exact show (Symbol.char '$').fault? = none by decide

/-- A run of text is exact: `textStep` reads it whole, and a body cannot go on at an illegal symbol.
-/
theorem exact_textStep {c : Cursor} (nested produced : Bool) (below : List Mode)
    (hclean : Clean c.rest)
    (h : Word.text c.rest ≠ [] ∨ (c.rest.head?.bind Symbol.fault?).isSome) :
    Exact (.body nested produced :: below) c.rest (textStep c nested produced below) := by
  have hafter := Word.drop_text c.rest
  rw [← Cursor.rest_drop] at hafter
  unfold textStep
  dsimp only
  split
  · rename_i fault hfault
    refine exact_of_fault (fun h => ?_) fun hfollows => ?_
    · exact not_valid_invalid _ _ _ (valid_append.mp h).2
    · by_cases hnil : Word.text c.rest = []
      · rw [hnil, List.length_nil, Cursor.drop_zero,
          fault_eq_none_of_follows hfollows hnil] at hfault
        cases hfault
      · have hend := ((follows_text hclean hnil).mp hfollows).1
        rw [← Cursor.rest_drop] at hend
        rw [endsText_fault hend] at hfault
        cases hfault
  · rename_i hnone
    have hne : Word.text c.rest ≠ [] := by
      rcases h with h | h
      · exact h
      · intro hnil
        rw [hnil, List.length_nil, Cursor.drop_zero] at hnone
        rw [hnone] at h
        cases h
    have hend := hafter.resolve_right (by rw [hnone]; simp)
    have hvalid (pos : Position) : Valid [token .messageText (Word.text c.rest) pos] :=
      valid_cons.mpr ⟨by simp [token], valid_nil⟩
    rw [if_neg hne, Exact, and_iff_right (hvalid _)]
    exact (follows_text hclean hne).trans (and_iff_right hend)

/-- The steps in a body are exact, by what stands first: an end, a line break, a replacement or
text. Each has its lemma on `Follows`. -/
theorem exact_bodyStep {c : Cursor} {nested : Bool} (produced : Bool) {below : List Mode}
    (hclean : Clean c.rest) (hbelow : Below nested below) :
    Exact (.body nested produced :: below) c.rest (bodyStep c nested produced below) := by
  unfold bodyStep
  split
  -- the end of the input ends a message, but not an option
  · rename_i hrest
    rw [hrest]
    cases nested with
    | false =>
      obtain rfl := hbelow
      rw [if_neg (by simp), Exact, and_iff_right valid_nil, hrest]
      exact iff_of_true (follows_nil.mpr rfl) (Items.stop Layout.spaces_nil)
    | true =>
      rw [if_pos rfl]
      refine exact_of_fault (fun h => h _ List.mem_cons_self rfl) fun h => ?_
      exact absurd (follows_nil.mp h) (by simp)
  -- a line break goes on in the body if the next line is indented
  · rename_i style rest hrest
    have hnewline := @follows_newline (nesting below) nested
      (fun rest => Completes below (.char '}' :: rest)) style rest
    rw [hrest, Layout.continuationWidth?]
    cases hwidth : Layout.indentWidth? rest with
    | some width =>
      rw [hwidth] at hnewline
      have hvalid (pos : Position) :
          Valid (if produced then [token .messageNewline [] pos] else []) := by
        split <;> simp [Valid, token]
      dsimp only [Option.map_some]
      rw [Exact, and_iff_right (hvalid _), Cursor.rest_drop, hrest, List.drop_succ_cons]
      exact hnewline
    | none =>
      rw [hwidth] at hnewline
      dsimp only [Option.map_none]
      cases nested with
      | false =>
        obtain rfl := hbelow
        rw [if_neg (by simp), Exact, and_iff_right valid_nil, hrest]
        exact (hnewline.trans (and_iff_right rfl)).trans (items_newline style rest).symm
      | true =>
        rw [if_pos rfl]
        refine exact_of_fault (not_valid_invalid _ _ _) fun h => ?_
        exact absurd (hnewline.mp h).1 (by simp)
  -- a brace ends an option, but not a message
  · rename_i rest hrest
    rw [hrest]
    cases nested with
    | false =>
      rw [if_neg (by simp)]
      refine exact_of_fault (not_valid_invalid _ _ _) fun h => ?_
      exact absurd (follows_brace.mp h).1 (by simp)
    | true =>
      rw [if_pos rfl, Exact, and_iff_right valid_nil, hrest]
      exact follows_brace.trans (and_iff_right rfl)
  -- a replacement, if there is room for it
  · rename_i rest hrest
    rw [hrest]
    split
    · rename_i hdeep
      refine exact_of_fault (fun h => h _ List.mem_cons_self rfl) fun h => ?_
      obtain ⟨mid, h, -⟩ := follows_replacement.mp h
      exact absurd (derives_replacement.mp h).1 (Nat.not_lt.mpr hdeep)
    · rename_i hroom
      have hdepth : nesting below < 32 := Nat.lt_of_not_le hroom
      have hopened (mid : List Symbol) := @derives_replacement (nesting below) rest mid
      rw [Exact, and_iff_right valid_nil, Cursor.rest_drop, hrest]
      refine follows_replacement.trans ?_
      simp only [hopened, and_iff_right hdepth, Completes, nesting_body, List.drop_succ_cons,
        List.drop_zero]
  -- text
  · rename_i h₁ h₂ h₃ h₄
    exact exact_textStep nested produced below hclean (text_or_fault h₁ h₂ h₃ h₄)

/-! ### Exact steps in a replacement

Behind the key of a replacement nothing of it can be mistaken: a colon is that of a type, a dot that
of an option, a brace that of a body or the closing one. -/

/-- A key is read whole (`Word.ident`) in front of something that cannot continue it, and what is
left is what stands behind it. -/
theorem ident_key {key : List Char} {tail : List Symbol} {c : Cursor}
    (hkey : Word.isIdent key = true) (htail : Word.EndsIdent tail)
    (h : c.rest = key.map .char ++ tail) :
    Word.ident c.rest = key ∧ (c.drop (Word.ident c.rest).length).rest = tail := by
  have hident : Word.ident c.rest = key := by rw [h, Word.ident_append_of hkey htail]
  refine ⟨hident, ?_⟩
  rw [hident, Cursor.rest_drop, h]
  exact List.drop_left' (by simp)

/-- What is `Opened`: a key with options behind it, or with a type and options. Both words are those
that `Word.ident` reads. -/
theorem opened_iff {depth : Nat} {c : Cursor} {rest : List Symbol} :
    Opened depth c.rest rest ↔
      Word.ident c.rest ≠ [] ∧
        (Derives .options depth (c.drop (Word.ident c.rest).length).rest rest ∨
          ∃ inner : List Symbol,
            (c.drop (Word.ident c.rest).length).rest = .char ':' :: inner ∧ Word.ident inner ≠ [] ∧
              Derives .options depth (inner.drop (Word.ident inner).length) rest) := by
  constructor
  · intro h
    generalize hinput : c.rest = input at h
    cases h with
    | untyped hkey h =>
      obtain ⟨hident, hafter⟩ := ident_key hkey (endsIdent_of_options h).1 hinput
      rw [← hinput, hafter, hident]
      exact ⟨Word.isIdent_ne_nil hkey, .inl h⟩
    | @typed key kind input _ hkey hkind h =>
      obtain ⟨hident, hafter⟩ := ident_key hkey (endsIdent_colon _) hinput
      have hinner := Word.ident_append_of hkind (endsIdent_of_options h).1
      rw [← hinput, hafter, hident]
      refine ⟨Word.isIdent_ne_nil hkey, .inr ⟨_, rfl, ?_, ?_⟩⟩
      · rw [hinner]
        exact Word.isIdent_ne_nil hkind
      · rw [hinner, List.drop_left' (by simp)]
        exact h
  · intro h
    obtain ⟨hkey, h⟩ := h
    have hsplit := Word.ident_append c.rest
    rw [← Cursor.rest_drop] at hsplit
    rw [← hsplit]
    rcases h with h | ⟨inner, hinner, hkind, h⟩
    · exact .untyped (Word.isIdent_ident hkey) h
    · rw [hinner, ← Word.ident_append inner]
      exact .typed (Word.isIdent_ident hkey) (Word.isIdent_ident hkind) h

/-- The key of a replacement, with its type, is exact. By `opened_iff` the scanner asks for what the
grammar asks for. -/
theorem exact_replacementKeyStep (pos : Position) (c : Cursor) (below : List Mode) :
    Exact (.replacement (.key pos) :: below) c.rest (replacementKeyStep pos c below) := by
  have hstart (key : List Char) (more : List Token) :
      Valid (token .replacementStart key pos :: more) ↔ Valid more :=
    valid_cons.trans (and_iff_right (by simp [token]))
  have hopened (rest : List Symbol) := @opened_iff (nesting below + 1) c rest
  unfold replacementKeyStep
  dsimp only
  split
  · rename_i hkey
    refine exact_of_fault (not_valid_invalid _ _ _) ?_
    intro h
    obtain ⟨rest, h, -⟩ := h
    exact ((hopened rest).mp h).1 hkey
  · rename_i hkey
    simp only [hkey, ne_eq, not_false_eq_true, true_and] at hopened
    generalize c.drop (Word.ident c.rest).length = after at hopened ⊢
    split
    · rename_i inner hcolon
      have hinner : (after.drop 1).rest = inner := by rw [Cursor.rest_drop, hcolon]; rfl
      -- options do not start with a colon, so a type must follow
      have htyped (rest : List Symbol) : Opened (nesting below + 1) c.rest rest ↔
          Word.ident inner ≠ [] ∧
            Derives .options (nesting below + 1) (inner.drop (Word.ident inner).length) rest := by
        rw [hopened, hcolon]
        constructor
        · rintro (h | ⟨inner', heq, h⟩)
          · exact absurd rfl ((endsIdent_of_options h).2.1 inner)
          · obtain ⟨-, rfl⟩ := List.cons.inj heq
            exact h
        · exact fun h => .inr ⟨inner, rfl, h⟩
      rw [hinner]
      split
      · rename_i hkind
        refine exact_of_fault (fun h => not_valid_invalid _ _ _ ((hstart _ _).mp h)) ?_
        intro h
        obtain ⟨rest, h, -⟩ := h
        exact ((htyped rest).mp h).1 hkind
      · rename_i hkind
        have hvalid (typePos : Position) : Valid [token .replacementStart (Word.ident c.rest) pos,
            token .replacementType (Word.ident inner) typePos] := by simp [Valid, token]
        rw [Exact, and_iff_right (hvalid _), Cursor.rest_drop, hinner]
        simp only [Completes, htyped, ne_eq, hkind, not_false_eq_true, true_and]
    · rename_i hcolon
      have huntyped (rest : List Symbol) : Opened (nesting below + 1) c.rest rest ↔
          Derives .options (nesting below + 1) after.rest rest := by
        rw [hopened]
        refine or_iff_left ?_
        intro h
        obtain ⟨inner, heq, -⟩ := h
        exact hcolon inner heq
      rw [Exact, and_iff_right (by simp [Valid, token])]
      simp only [Completes, huntyped]

/-- The name of an option is read whole by `optionName`, whether it is an identifier or a literal.
-/
theorem optionName_append_of {name : List Char} {rest : List Symbol}
    (h : Word.IsOptionName name) (hrest : Word.EndsIdent rest) :
    optionName (name.map .char ++ rest) = .ok name := by
  rcases h with h | ⟨cs, hcs, rfl⟩
  · have hident := Word.ident_append_of h hrest
    have hne := Word.isIdent_ne_nil h
    cases name with
    | nil => exact absurd rfl hne
    | cons c cs =>
      unfold optionName
      split
      · rename_i tail heq
        obtain rfl := Symbol.char.inj (List.cons.inj heq).1
        simp only [Word.isIdent, Bool.and_eq_true] at h
        exact absurd h.1 (by decide)
      · simp only [hident, if_neg hne]
  · have hliteral := @Word.literal_append_of cs rest hcs
    have hsplit : List.map Symbol.char ('[' :: cs ++ [']']) ++ rest =
        .char '[' :: (cs.map .char ++ .char ']' :: rest) := by simp
    rw [hsplit, optionName]
    simp only [hliteral]
    rw [List.drop_left' (by simp)]
    rfl

/-- An option in the sense of `Next`: its name, and a body or nothing behind it. -/
theorem next_option {depth : Nat} {input rest : List Symbol} (hclean : Clean input) :
    Next depth (.char '.' :: input) rest ↔
      ∃ name, optionName input = .ok name ∧
        (Derives .options depth (input.drop name.length) rest ∨
          ∃ inner mid, input.drop name.length = .char '{' :: inner ∧
            Derives .body depth inner (.char '}' :: mid) ∧ Derives .options depth mid rest) := by
  constructor
  · intro h
    generalize hline : Symbol.char '.' :: input = line at h
    cases h with
    | close h =>
      subst h
      cases hline
    | option hoption h =>
      cases hoption with
      | bare hname =>
        obtain ⟨-, rfl⟩ := List.cons.inj hline
        refine ⟨_, optionName_append_of hname (endsIdent_of_options h).1, .inl ?_⟩
        rw [List.drop_left' (by simp)]
        exact h
      | braced hname hbody =>
        obtain ⟨-, rfl⟩ := List.cons.inj hline
        refine ⟨_, optionName_append_of hname (endsIdent_brace _), .inr ⟨_, _, ?_, hbody, h⟩⟩
        rw [List.drop_left' (by simp)]
  · intro h
    obtain ⟨name, hname, h⟩ := h
    have hoption := isOptionName_of_optionName hclean hname
    rw [optionName_append hname]
    rcases h with h | ⟨inner, mid, hbrace, hbody, h⟩
    · exact .option (.bare hoption) h
    · rw [hbrace]
      exact .option (.braced hoption hbody) h

/-- The body of an option may end only at a closing brace, where `Ends` asks for what follows. -/
theorem ends_option {next : List Symbol → Prop} {input : List Symbol} :
    Ends true next input ↔ ∃ rest, input = .char '}' :: rest ∧ next rest := by
  constructor
  · intro h
    unfold Ends at h
    split at h
    · exact absurd h (by simp)
    · exact absurd h.1 (by simp)
    · exact ⟨_, rfl, h.2⟩
    · exact absurd h id
  · intro h
    obtain ⟨rest, rfl, h⟩ := h
    exact ⟨rfl, h⟩

/-- The body of an option `Completes` with its closing brace and the rest of the replacement. -/
theorem completes_option {produced : Bool} {below : List Mode} {input : List Symbol} :
    Completes (.body true produced :: .replacement .optionBody :: below) input ↔
      ∃ mid rest, Derives .body (nesting below + 1) input (.char '}' :: mid) ∧
        Derives .options (nesting below + 1) mid rest ∧ Completes below rest := by
  simp only [Completes, Follows, nesting_replacement, ends_option]
  constructor
  · intro h
    obtain ⟨_, hbody, mid, rfl, _, rest, heq, h⟩ := h
    obtain ⟨-, rfl⟩ := List.cons.inj heq
    exact ⟨mid, rest, hbody, h⟩
  · intro h
    obtain ⟨mid, rest, hbody, h⟩ := h
    exact ⟨_, hbody, mid, rfl, mid, rest, rfl, h⟩

/-- An option is exact, or the end of the options. Behind its name there is a body or not, and
`next_option` has the same two cases. -/
theorem exact_optionStep {c : Cursor} (below : List Mode) (hclean : Clean c.rest) :
    (∃ rest, Next (nesting below + 1) c.rest rest ∧ Completes below rest) ↔
      Valid (optionStep c below).1 ∧
        Completes (optionStep c below).2.stack (optionStep c below).2.cursor.rest := by
  have hfault {out : List Token × Scanner} (hvalid : ¬ Valid out.1)
      (h : ∀ rest, ¬ Next (nesting below + 1) c.rest rest) :
      (∃ rest, Next (nesting below + 1) c.rest rest ∧ Completes below rest) ↔
        Valid out.1 ∧ Completes out.2.stack out.2.cursor.rest := by
    constructor
    · intro hnext
      obtain ⟨rest, hnext, -⟩ := hnext
      exact absurd hnext (h rest)
    · intro hout
      exact absurd hout.1 hvalid
  unfold optionStep
  split
  -- the end of the input
  · rename_i hrest
    refine hfault (fun h => h _ List.mem_cons_self rfl) fun rest h => ?_
    obtain ⟨s, tail, heq, -⟩ := h.head
    rw [hrest] at heq
    cases heq
  -- a dot: the name decides, and whether a brace follows it
  · rename_i input hrest
    have hinner : (c.drop 1).rest = input := by rw [Cursor.rest_drop, hrest]; rfl
    rw [hrest] at hclean
    have hnext (rest : List Symbol) := @next_option (nesting below + 1) input rest
      (hclean.of_suffix (List.suffix_cons _ _))
    simp only [hinner]
    cases hname : optionName input with
    | error out =>
      obtain ⟨width, fault⟩ := out
      refine hfault (not_valid_invalid _ _ _) fun rest h => ?_
      rw [hrest] at h
      obtain ⟨name, hok, -⟩ := (hnext rest).mp h
      rw [hname] at hok
      cases hok
    | ok name =>
      dsimp only
      have hstart (pos : Position) (more : List Token) :
          Valid (token .optionStart name pos :: more) ↔ Valid more :=
        valid_cons.trans (and_iff_right (by simp [token]))
      simp only [hname, Except.ok.injEq, exists_eq_left'] at hnext
      have hafter : ((c.drop 1).drop name.length).rest = input.drop name.length := by
        rw [Cursor.rest_drop, hinner]
      rw [hrest]
      simp only [hnext, ← hafter]
      generalize (c.drop 1).drop name.length = after
      split
      · rename_i inner hbrace
        have hinner : (after.drop 1).rest = inner := by rw [Cursor.rest_drop, hbrace]; rfl
        rw [and_iff_right (by simp [Valid, token]), hinner, completes_option]
        constructor
        · intro h
          obtain ⟨rest, h | ⟨inner', mid, heq, hbody, hoptions⟩, hrest⟩ := h
          · exact absurd hbrace ((endsIdent_of_options h).2.2 inner)
          · rw [hbrace] at heq
            obtain ⟨-, rfl⟩ := List.cons.inj heq
            exact ⟨mid, rest, hbody, hoptions, hrest⟩
        · intro h
          obtain ⟨mid, rest, hbody, hoptions, hrest⟩ := h
          exact ⟨rest, .inr ⟨inner, mid, hbrace, hbody, hoptions⟩, hrest⟩
      · rename_i hbrace
        have hbare (rest : List Symbol) : ¬ ∃ inner mid, after.rest = .char '{' :: inner ∧
            Derives .body (nesting below + 1) inner (.char '}' :: mid) ∧
            Derives .options (nesting below + 1) mid rest := by
          intro h
          obtain ⟨inner, _, h, -⟩ := h
          exact hbrace inner h
        rw [and_iff_right (by simp [Valid, token])]
        simp only [Completes, or_iff_left (hbare _)]
  -- the closing brace
  · rename_i tail hrest
    have htail : (c.drop 1).rest = tail := by rw [Cursor.rest_drop, hrest]; rfl
    rw [and_iff_right (by simp [Valid, token]), htail, hrest]
    constructor
    · intro h
      obtain ⟨rest, h, hcompletes⟩ := h
      generalize hline : Symbol.char '}' :: tail = line at h
      cases h with
      | close h =>
        subst h
        obtain ⟨-, rfl⟩ := List.cons.inj hline
        exact hcompletes
      | option hoption _ =>
        subst hline
        cases hoption
    · exact fun h => ⟨tail, .close rfl, h⟩
  -- neither a dot nor a brace
  · rename_i s tail hdot hbrace hrest
    refine hfault (not_valid_invalid _ _ _) fun rest h => ?_
    cases h with
    | close h => exact hbrace (List.cons.inj (hrest.symm.trans h)).1
    | option hoption _ =>
      generalize hline : c.rest = line at hoption
      cases hoption with
      | bare => exact hdot (List.cons.inj (hrest.symm.trans hline)).1
      | braced => exact hdot (List.cons.inj (hrest.symm.trans hline)).1

/-- A fold leads to the one place where the scanner looks for an option, which is that of `foldTo`.
-/
theorem completes_options {below : List Mode} {input : List Symbol} :
    Completes (.replacement .options :: below) input ↔
      ∃ line, foldTo input = some line ∧
        ∃ rest, Next (nesting below + 1) line rest ∧ Completes below rest := by
  simp only [Completes, derives_options]
  constructor
  · intro h
    obtain ⟨rest, ⟨line, hfold, hnext⟩, h⟩ := h
    obtain ⟨s, tail, rfl, hspace, hnewline⟩ := hnext.head
    exact ⟨_, (fold_content hspace hnewline).mp hfold, rest, hnext, h⟩
  · intro h
    obtain ⟨line, hfold, rest, hnext, h⟩ := h
    obtain ⟨s, tail, rfl, hspace, hnewline⟩ := hnext.head
    exact ⟨rest, ⟨_, (fold_content hspace hnewline).mpr hfold, hnext⟩, h⟩

/-- What stands between options is exact: `foldStep` passes over what `foldTo` passes over. -/
theorem exact_foldStep {c : Cursor} (below : List Mode) (hclean : Clean c.rest) :
    Exact (.replacement .options :: below) c.rest (foldStep c below) := by
  have hclean : Clean c.skipSpace.rest := hclean.of_suffix (Cursor.rest_drop_suffix c _)
  rw [Exact, completes_options, foldTo, ← rest_skipSpace]
  unfold foldStep
  dsimp only
  generalize c.skipSpace = line at hclean ⊢
  split
  · rename_i style rest hrest
    simp only [hrest, Layout.continuationWidth?]
    cases hwidth : Layout.indentWidth? rest with
    | some width =>
      have hdrop : (line.drop (width + 1)).rest = rest.drop width := by
        rw [Cursor.rest_drop, hrest, List.drop_succ_cons]
      have hstep := exact_optionStep below
        (hclean.of_suffix (Cursor.rest_drop_suffix _ (width + 1)))
      rw [hdrop] at hstep
      simp only [Option.map_some, Option.some.injEq, exists_eq_left']
      exact hstep
    | none =>
      simp only [Option.map_none, reduceCtorEq, false_and, exists_false, false_iff]
      exact fun h => not_valid_invalid _ _ _ h.1
  · simp only [Option.some.injEq, exists_eq_left']
    exact exact_optionStep below hclean

/-- The end of an option body is `Exact`: a closing brace is what the stack waits for. -/
theorem exact_optionEndStep (c : Cursor) (below : List Mode) :
    Exact (.replacement .optionBody :: below) c.rest (optionEndStep c below) := by
  unfold optionEndStep
  split
  · rename_i tail hrest
    rw [Exact, and_iff_right (by simp [Valid, token]), Cursor.rest_drop, hrest]
    constructor
    · intro h
      obtain ⟨mid, rest, heq, h⟩ := h
      obtain ⟨-, rfl⟩ := List.cons.inj heq
      exact ⟨rest, h⟩
    · intro h
      obtain ⟨rest, h⟩ := h
      exact ⟨tail, rest, rfl, h⟩
  · rename_i hbrace
    refine exact_of_fault (not_valid_invalid _ _ _) ?_
    intro h
    obtain ⟨mid, rest, heq, -⟩ := h
    exact hbrace mid heq

/-! ### The machine

The stacks of a scan have the shape that the lemmas on bodies suppose (`Scanner.Stacked`). -/

/-- On a stack that is `Stacked`, below a body there is what its kind asks for. -/
theorem below_of_bodies {nested produced : Bool} {below : List Mode} {depth : Nat}
    (h : Bodies (.body nested produced :: below) depth) : Below nested below := by
  cases h with
  | message => rfl
  | option => exact ⟨_, rfl⟩

/-- Every step of a scan is `Exact`, whatever the innermost mode. -/
theorem exact_step {s : Scanner} (hdone : s.isDone = false) (hstack : Stacked s.stack)
    (hclean : Clean s.cursor.rest) : Exact s.stack s.cursor.rest s.step := by
  obtain ⟨c, stack⟩ := s
  match stack with
  | [] => simp [isDone] at hdone
  | .done :: _ => simp [isDone] at hdone
  | .root :: below =>
    obtain rfl := hstack.of_root
    exact exact_rootStep hclean
  | .body nested produced :: below =>
    obtain ⟨depth, hbodies⟩ := hstack.of_body
    exact exact_bodyStep produced hclean (below_of_bodies hbodies)
  | .replacement (.key pos) :: below => exact exact_replacementKeyStep pos c below
  | .replacement .options :: below => exact exact_foldStep below hclean
  | .replacement .optionBody :: below => exact exact_optionEndStep c below

/-- A scan reports no fault if and only if the input completes its stack. By recursion on the scan,
one `exact_step` after the other. -/
theorem valid_run {s : Scanner} (hstack : Stacked s.stack) (hclean : Clean s.cursor.rest) :
    Valid s.run ↔ Completes s.stack s.cursor.rest := by
  induction s using step_induction with
  | stop s hdone =>
    rw [run_of_isDone hdone, hstack.of_done hdone]
    exact iff_of_true valid_nil trivial
  | go s hdone ih =>
    have hmove := move_step hdone hclean
    have hrest := hclean.of_suffix (rest_step_suffix s)
    rw [run_of_not_isDone hdone, valid_append, ih (hmove.stacked hstack) hrest]
    exact (exact_step hdone hstack hclean).symm

end Scanner

/-- The scanner accepts exactly the files of the grammar: none of the `tokens` of a byte string
reports a fault if and only if the bytes are a `Grammar.File`. -/
theorem tokens_valid_iff (file : String) (bytes : List UInt8) :
    (∀ t ∈ tokens file bytes, t.kind ≠ .invalid) ↔ Grammar.File bytes :=
  (Scanner.valid_run .root (Symbol.clean_ofRunes _)).trans (file_iff bytes).symm

end MessageCatalog
