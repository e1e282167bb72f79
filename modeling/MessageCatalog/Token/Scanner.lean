import MessageCatalog.Token
import MessageCatalog.Token.Fault
import MessageCatalog.Token.Word

/-!
# MessageCatalog.Token.Scanner

The scanner: a machine with a cursor and a stack of modes (`Scanner`). One step looks at the
innermost mode, yields the tokens it recognises there, and moves on (`Scanner.step`). A file's
tokens are those of all steps, one behind the other (`tokens`).

## Modes

Between messages the scanner is at the margin (`Mode.root`). A key opens a body; in a body a
replacement may open, in a replacement an option, and an option has a body of its own. So above the
margin bodies and replacements alternate on the stack, and the options that surround what is being
read can be read off it. A replacement goes through stages (`Stage`): its key and type, then its
options; while the body of an option is read the replacement below it waits for the closing brace of
that option.

## Faults

A fault is reported as an invalid token (`Scanner.invalid`). Most faults skip the rest of the block
they stand in, and scanning goes on at the margin (`Scanner.fail`, `Scanner.recover`). Three of them
end the scan without an end-of-file token (`Scanner.abort`): unexpected indentation at the margin, a
replacement that is open at the end of the file, and replacements nested too deep
(`Scanner.maxNesting`). At the margin a fault does not end its line's share of tokens: the fault of
a section header or of a comment is one more token of that line.

## Termination

Each step either reads a symbol or closes a mode, so a scan ends: `measure_step_lt`. The recursion
of `Scanner.run` is on that measure.
-/

namespace MessageCatalog

/-- The part of a replacement that is read next. The step for each is `replacementKeyStep`,
`foldStep` and `optionEndStep`. -/
inductive Stage
  /-- The key; the replacement started at `pos`. -/
  | key (pos : Position)
  /-- The options and the closing brace. -/
  | options
  /-- The closing brace of an option whose body has been read. -/
  | optionBody
  deriving DecidableEq, Repr

/-- What the scanner is inside of. The innermost mode decides which function `Scanner.step` goes on
with. -/
inductive Mode
  /-- Between messages, at the margin. -/
  | root
  /-- A message body, or the body of an option if `nested`. `produced` tells whether it has
  yielded text or a replacement. -/
  | body (nested produced : Bool)
  /-- A replacement. -/
  | replacement (stage : Stage)
  /-- Past the end of the scan. -/
  | done
  deriving DecidableEq, Repr

/-- A scanner: where it reads, and what it is inside of, the innermost first. The stack is never
empty in a scan; `Mode.done` on top of it means that the scan is over. -/
structure Scanner where
  cursor : Cursor
  stack : List Mode
  deriving DecidableEq, Repr

namespace Scanner

/-- The greatest number of replacements that may be open at once. -/
def maxNesting : Nat := 32

/-- The number of replacements in a stack of modes, which `maxNesting` bounds. -/
def nesting (stack : List Mode) : Nat :=
  stack.countP fun
    | .replacement _ => true
    | _ => false

/-- The scanner at the start of a file: at the margin, behind a byte order mark (`Cursor.start`). -/
def start (file : String) (bytes : List UInt8) : Scanner :=
  { cursor := .start file bytes, stack := [.root] }

/-! ### Tokens and faults

What a step yields is put together from these. A fault is always reported for the next symbol
(`Cursor.nextPos`), so that where it stands is where the cursor stood when it was noticed. -/

/-- A token with the given characters as its text. -/
def token (kind : Token.Kind) (text : List Char) (pos : Position) : Token :=
  { kind, text := String.ofList text, pos }

/-- The invalid token that reports a fault: its text is the wording of the fault (`Fault.message`).
-/
def invalid (fault : Token.Fault) (pos : Position) : Token :=
  { kind := .invalid, text := fault.message, pos }

/-- Leaves everything and goes on at the margin after the current block (`Cursor.skipBlock`). -/
def recover (c : Cursor) : Scanner := { cursor := c.skipBlock, stack := [.root] }

/-- Reports a fault at the cursor and goes on behind the block (`recover`). -/
def fail (fault : Token.Fault) (c : Cursor) : List Token × Scanner :=
  ([invalid fault c.nextPos], recover c)

/-- Reports a fault at the cursor and gives up. The token is marked (`Token.aborts`), and the stack
says that the scan is over. -/
def abort (fault : Token.Fault) (c : Cursor) : List Token × Scanner :=
  ([{ invalid fault c.nextPos with aborts := true }], { cursor := c, stack := [.done] })

/-! ### At the margin

A step at the margin passes blank lines and reads the next line with content: a section header, a
comment, or the key of a message. It reads the whole line, with whatever faults there are on it, and
only a key may open a mode. -/

/-- The fault of a line on which anything but its end is left, none if it has ended. -/
def lineEnd (fault : Token.Fault) (c : Cursor) : List Token :=
  match c.rest with
  | [] => []
  | .newline _ :: _ => []
  | _ => [invalid fault c.nextPos]

/-- The tokens of a line that starts with a bracket: a section header, and a fault behind it if the
line goes on (`lineEnd`). A line that breaks off earlier yields only its fault. -/
def headerTokens (c : Cursor) : List Token :=
  match c.rest with
  | .char '[' :: .char '[' :: _ =>
    let inner := (c.drop 2).skipSpace
    let name := Word.dottedName inner.rest
    if name = [] then [invalid .sectionName inner.nextPos]
    else
      let close := (inner.drop name.length).skipSpace
      match close.rest with
      | .char ']' :: .char ']' :: _ =>
        token .sectionHeader name c.nextPos ::
          lineEnd .newlineAfterHeader (close.drop 2).skipSpace
      -- without its closing brackets the line names no section
      | _ => [invalid .headerClosing close.nextPos]
  | _ => [invalid .headerOpening c.nextPos]

/-- The tokens of a line that starts with a slash: none, if it is a comment of legal symbols, which
`Word.commentWidth` measures. -/
def commentTokens (c : Cursor) : List Token :=
  match c.rest with
  | .char '/' :: .char '/' :: _ =>
    let after := c.drop (Word.commentWidth c.rest)
    match after.rest.head?.bind Symbol.fault? with
    | some fault => [invalid (.illegal fault) after.nextPos]
    | none => []
  | _ => [invalid .commentOpening c.nextPos]

/-- The fault of a line that starts with no key: that of an illegal symbol (`Symbol.fault?`), or
that something else was found where a key should stand. -/
def keyFault (input : List Symbol) : Token.Fault :=
  match input.head?.bind Symbol.fault? with
  | some fault => .illegal fault
  | none => .messageKey input.head?

/-- Reads a message key and enters the body below it, if there is one (`Layout.indentWidth?`).
Without a colon behind the key the block is skipped, but the key counts. -/
def keyStep (c : Cursor) (stack : List Mode) : List Token × Scanner :=
  let key := Word.ident c.rest
  if key = [] then
    ([invalid (keyFault c.rest) c.nextPos], ⟨c.skipBlock, stack⟩)
  else
    let start := token .messageKey key c.nextPos
    let after := c.drop key.length
    match after.rest with
    | .char ':' :: _ =>
      -- what else stands on the line of the key is a fault, and the body starts below all the same
      let faults := lineEnd .newlineAfterKey (after.drop 1).skipSpace
      let next := c.skipLine
      match Layout.indentWidth? next.rest with
      | some width => (start :: faults, ⟨next.drop width, .body false false :: stack⟩)
      | none => (start :: faults, ⟨next, stack⟩)
    | _ => ([start, invalid .colonAfterKey after.nextPos], ⟨c.skipBlock, stack⟩)

/-- Reads the next line with content, by `headerTokens`, `commentTokens` or `keyStep`. The end of
the file is the only place where the scan ends with an end-of-file token. -/
def rootStep (c : Cursor) (stack : List Mode) : List Token × Scanner :=
  let line := c.drop (Layout.blankWidth c.rest)
  let content := line.skipSpace
  -- a last line of spaces without a line break is no indented line
  if content.rest = [] then
    ([token .eof [] content.nextPos], ⟨content, [.done]⟩)
  else if Layout.spaceWidth line.rest ≠ 0 then
    abort .unexpectedIndentation line
  else
    match line.rest with
    | .char '[' :: _ => (headerTokens line, ⟨line.skipLine, stack⟩)
    | .char '/' :: _ => (commentTokens line, ⟨line.skipLine, stack⟩)
    | _ => keyStep line stack

/-! ### In a body

Text goes up to what ends it. The body of an option ends at a closing brace, that of a message where
the next line is not indented; a step that ends a body yields nothing and leaves the symbol to the
mode below. -/

/-- Reads a run of text (`Word.text`), and reports the illegal symbol behind it if there is one. -/
def textStep (c : Cursor) (nested produced : Bool) (below : List Mode) : List Token × Scanner :=
  let text := Word.text c.rest
  let run := if text = [] then [] else [token .messageText text c.nextPos]
  let after := c.drop text.length
  match after.rest.head?.bind Symbol.fault? with
  | some fault => (run ++ [invalid (.illegal fault) after.nextPos], recover after)
  | none => (run, ⟨after, .body nested (produced || text ≠ []) :: below⟩)

/-- Reads on in a body. A line break that is followed by an indented line
(`Layout.continuationWidth?`) is a token if the body has yielded anything before, so that leading
blank lines yield none. -/
def bodyStep (c : Cursor) (nested produced : Bool) (below : List Mode) : List Token × Scanner :=
  match c.rest with
  | [] => if nested then abort .unclosedReplacement c else ([], ⟨c, below⟩)
  | .newline _ :: _ =>
    match Layout.continuationWidth? c.rest with
    | some width =>
      (if produced then [token .messageNewline [] c.nextPos] else [],
        ⟨c.drop width, .body nested produced :: below⟩)
    | none => if nested then fail .unclosedReplacement c else ([], ⟨c, below⟩)
  | .char '}' :: _ => if nested then ([], ⟨c, below⟩) else fail .strayBrace c
  | .char '$' :: .char '{' :: _ =>
    if maxNesting ≤ nesting below then abort .nestingTooDeep c
    -- the body counts as having produced something before the replacement is complete
    else ([], ⟨c.drop 2, .replacement (.key c.nextPos) :: .body nested true :: below⟩)
  | _ => textStep c nested produced below

/-! ### In a replacement

A replacement is a key, perhaps a type, options, and a closing brace. The key and the type stand
close together; from there on spaces and a line break may stand in front of every part, as long as
the next line is indented. -/

/-- Reads the key and the type of a replacement that started at `pos`. The start of a replacement is
known before its key; the token has that earlier position. -/
def replacementKeyStep (pos : Position) (c : Cursor) (below : List Mode) :
    List Token × Scanner :=
  let key := Word.ident c.rest
  if key = [] then fail .replacementKey c
  else
    let start := token .replacementStart key pos
    let after := c.drop key.length
    match after.rest with
    | .char ':' :: _ =>
      let inner := after.drop 1
      let kind := Word.ident inner.rest
      -- the start has been recognised, so it is yielded also where no type follows
      if kind = [] then ([start, invalid .replacementType inner.nextPos], recover inner)
      else
        ([start, token .replacementType kind inner.nextPos],
          ⟨inner.drop kind.length, .replacement .options :: below⟩)
    | _ => ([start], ⟨after, .replacement .options :: below⟩)

/-- The name of an option: an identifier (`Word.ident`), or a literal with its brackets
(`Word.literal`). A fault comes with the number of symbols in front of it. -/
def optionName (input : List Symbol) : Except (Nat × Token.Fault) (List Char) :=
  match input with
  | .char '[' :: rest =>
    let text := Word.literal rest
    match rest.drop text.length with
    | .char ']' :: _ => .ok ('[' :: text ++ [']'])
    -- a literal stops in front of an illegal symbol, a line break or the end of the file
    | after =>
      match after.head?.bind Symbol.fault? with
      | some fault => .error (text.length + 1, .illegal fault)
      | none => .error (text.length + 1, .literalClosing)
  | _ =>
    let name := Word.ident input
    if name = [] then .error (0, .optionName input.head?) else .ok name

/-- Reads an option, or the closing brace of the replacement. An option without a body yields both
its tokens at once; one with a body waits for it at `Stage.optionBody`. -/
def optionStep (c : Cursor) (below : List Mode) : List Token × Scanner :=
  match c.rest with
  | [] => abort .unclosedReplacement c
  | .char '.' :: _ =>
    let inner := c.drop 1
    match optionName inner.rest with
    | .error (width, fault) => fail fault (inner.drop width)
    | .ok name =>
      let start := token .optionStart name inner.nextPos
      let after := inner.drop name.length
      match after.rest with
      | .char '{' :: _ =>
        ([start], ⟨after.drop 1, .body true false :: .replacement .optionBody :: below⟩)
      | _ =>
        ([start, token .optionEnd [] after.nextPos], ⟨after, .replacement .options :: below⟩)
  | .char '}' :: _ => ([token .replacementEnd ['}'] c.nextPos], ⟨c.drop 1, below⟩)
  | s :: _ => fail (.unexpectedInReplacement s) c

/-- Passes spaces and a line break in front of an option. The line after the break must be indented
(`Layout.continuationWidth?`). -/
def foldStep (c : Cursor) (below : List Mode) : List Token × Scanner :=
  let line := c.skipSpace
  match line.rest with
  | .newline _ :: _ =>
    match Layout.continuationWidth? line.rest with
    | some width => optionStep (line.drop width) below
    | none => fail .unclosedReplacement line
  | _ => optionStep line below

/-- Reads the closing brace of an option, which the end of its body has left there (`bodyStep`). -/
def optionEndStep (c : Cursor) (below : List Mode) : List Token × Scanner :=
  match c.rest with
  | .char '}' :: _ =>
    ([token .optionEnd ['}'] c.nextPos], ⟨c.drop 1, .replacement .options :: below⟩)
  | _ => fail .unclosedReplacement c

/-! ### The machine

The stack decides what a step does. When a scan is over, a step does nothing. -/

/-- One step: the tokens it yields, and the scanner behind it. One function for each `Mode`, and for
a replacement one for each `Stage`. -/
def step (s : Scanner) : List Token × Scanner :=
  match s.stack with
  | .root :: _ => rootStep s.cursor s.stack
  | .body nested produced :: below => bodyStep s.cursor nested produced below
  | .replacement (.key pos) :: below => replacementKeyStep pos s.cursor below
  | .replacement .options :: below => foldStep s.cursor below
  | .replacement .optionBody :: below => optionEndStep s.cursor below
  | .done :: _ => ([], s)
  | [] => ([], s)

/-- The scan is over: `Mode.done` is on top of the stack. -/
def isDone (s : Scanner) : Bool :=
  match s.stack with
  | [] => true
  | .done :: _ => true
  | _ => false

/-! ### The scan ends

A symbol weighs three and an open mode at most two, so a step that reads a symbol may open one
mode and still lose weight. -/

/-- The weight of a mode. -/
def weight : Mode → Nat
  | .done => 0
  | .root => 1
  | .body _ _ => 2
  | .replacement _ => 2

/-- The weight of a stack of modes, the sum of their weights. -/
def stackWeight : List Mode → Nat
  | [] => 0
  | m :: below => weight m + stackWeight below

/-- The weight of what is left to read and to close: three for every symbol, and that of the stack
(`stackWeight`). -/
def measure (s : Scanner) : Nat := 3 * s.cursor.rest.length + stackWeight s.stack

@[simp] theorem measure_mk (c : Cursor) (stack : List Mode) :
    measure ⟨c, stack⟩ = 3 * c.rest.length + stackWeight stack := rfl

/-- Dropping something shortens a list that is not empty. -/
theorem length_drop_lt {α : Type} {n : Nat} {l : List α} (hn : 0 < n) (h : l ≠ []) :
    (l.drop n).length < l.length := by
  have := List.length_pos_iff.mpr h
  simp only [List.length_drop]
  omega

/-- Passing over a line (`Cursor.skipLine`) makes progress. -/
theorem length_skipLine_lt {c : Cursor} (h : c.rest ≠ []) :
    c.skipLine.rest.length < c.rest.length :=
  length_drop_lt (Layout.lineWidth_pos h) h

/-- Passing over a block makes progress. -/
theorem length_skipBlock_lt {c : Cursor} (h : c.rest ≠ []) :
    c.skipBlock.rest.length < c.rest.length :=
  length_drop_lt (Layout.blockWidth_pos h) h

theorem length_rest_drop_le (c : Cursor) (n : Nat) : (c.drop n).rest.length ≤ c.rest.length := by
  simp

/-- After a fault only the margin and what is left to read weigh anything, since `recover` clears
the stack. -/
theorem measure_recover_le (c : Cursor) : measure (recover c) ≤ 3 * c.rest.length + 1 := by
  have : c.skipBlock.rest.length ≤ c.rest.length := length_rest_drop_le c _
  simp only [recover, measure_mk, stackWeight, weight]
  omega

/-- A line with a key is read, which weighs more than the body it opens. -/
theorem measure_keyStep_lt {c : Cursor} (stack : List Mode) (h : c.rest ≠ []) :
    measure (keyStep c stack).2 < measure ⟨c, stack⟩ := by
  have hblock := length_skipBlock_lt h
  have hline := length_skipLine_lt h
  unfold keyStep
  dsimp only
  -- without a key or a colon the block is passed over, which is a line at least
  split
  · simp only [measure_mk]; omega
  · split
    · split
      · rename_i width _
        have := length_rest_drop_le c.skipLine width
        simp only [measure_mk, stackWeight, weight]
        omega
      · simp only [measure_mk]; omega
    · simp only [measure_mk]; omega

/-- At the margin a line is read, or the end of the file is reached and the margin is left. -/
theorem measure_rootStep_lt (c : Cursor) (below : List Mode) :
    measure (rootStep c (.root :: below)).2 < measure ⟨c, .root :: below⟩ := by
  have hline := length_rest_drop_le c (Layout.blankWidth c.rest)
  unfold rootStep
  dsimp only
  generalize c.drop (Layout.blankWidth c.rest) = line at hline ⊢
  have hcontent : line.skipSpace.rest.length ≤ line.rest.length := length_rest_drop_le line _
  -- the end of the file, spaces in front of the line, and then the line by its first symbol
  split
  · simp only [measure_mk, stackWeight, weight]
    omega
  · rename_i hne
    have hne : line.rest ≠ [] := fun h => hne (by simp [Cursor.skipSpace, h])
    have hskip := length_skipLine_lt hne
    split
    · simp only [abort, measure_mk, stackWeight, weight]
      omega
    · split
      · simp only [measure_mk]; omega
      · simp only [measure_mk]; omega
      · have := measure_keyStep_lt (.root :: below) hne
        simp only [measure_mk] at this ⊢
        omega

/-- Where a body goes on with text, there is text (`Word.text`) or an illegal symbol. -/
theorem text_ne_nil {s : Symbol} {rest : List Symbol} (hnl : ∀ style, s ≠ .newline style)
    (hbrace : s ≠ .char '}') (hopen : ∀ tail, s = .char '$' → rest ≠ .char '{' :: tail)
    (hlegal : s.fault? = none) : Word.text (s :: rest) ≠ [] := by
  cases s with
  | newline style => exact absurd rfl (hnl style)
  | malformed => simp [Symbol.fault?] at hlegal
  | char c =>
    unfold Word.text
    split
    · rename_i tail heq
      obtain ⟨h₁, h₂⟩ := List.cons.inj heq
      exact absurd h₂ (hopen tail h₁)
    · rename_i heq
      obtain ⟨h₁, -⟩ := List.cons.inj heq
      obtain rfl := Symbol.char.inj h₁
      have hb : c ≠ '}' := fun h => hbrace (by rw [h])
      rw [if_pos ⟨hb, hlegal⟩]
      simp
    · rename_i hno
      exact absurd rfl (hno c rest)

/-- Where there is text, or an illegal symbol that ends the body, a step loses weight. -/
theorem measure_textStep_lt {c : Cursor} (nested produced : Bool) (below : List Mode)
    (h : Word.text c.rest ≠ [] ∨ (c.rest.head?.bind Symbol.fault?).isSome) :
    measure (textStep c nested produced below).2 <
      measure ⟨c, .body nested produced :: below⟩ := by
  have hlen := Word.length_text_le c.rest
  have hafter := length_rest_drop_le c (Word.text c.rest).length
  unfold textStep
  dsimp only
  -- an illegal symbol ends the body; otherwise there must be text
  split
  · have := measure_recover_le (c.drop (Word.text c.rest).length)
    simp only [measure_mk, stackWeight, weight]
    omega
  · rename_i hnone
    have htext : Word.text c.rest ≠ [] := by
      rcases h with h | h
      · exact h
      · intro hnil
        simp only [hnil, List.length_nil, Cursor.drop_zero] at hnone
        simp [hnone] at h
    have := List.length_pos_iff.mpr htext
    simp only [measure_mk, Cursor.rest_drop, List.length_drop, stackWeight, weight]
    omega

/-- In a body something is read, or the body is left. The last case is that of text, and it needs
the cases before it: what is no line break, no brace and no start of a replacement is text or
illegal (`text_ne_nil`). -/
theorem measure_bodyStep_lt (c : Cursor) (nested produced : Bool) (below : List Mode) :
    measure (bodyStep c nested produced below).2 <
      measure ⟨c, .body nested produced :: below⟩ := by
  have hrecover := measure_recover_le c
  unfold bodyStep
  -- the end of the file, a line break, a brace, the start of a replacement, and text
  split
  · split <;>
      simp only [abort, measure_mk, stackWeight, weight] <;> omega
  · rename_i hrest
    split
    · rename_i width hwidth
      have h₁ := Layout.continuationWidth?_pos hwidth
      have h₂ := length_drop_lt h₁ (by simp [hrest] : c.rest ≠ [])
      simp only [measure_mk, Cursor.rest_drop, stackWeight, weight]
      omega
    · split <;> simp only [fail, measure_mk, stackWeight, weight] <;> omega
  · split <;> simp only [fail, measure_mk, stackWeight, weight] <;> omega
  · rename_i hrest
    have hlen := congrArg List.length hrest
    simp only [List.length_cons] at hlen
    split <;>
      simp only [abort, measure_mk, Cursor.rest_drop, List.length_drop, stackWeight, weight] <;>
      omega
  · rename_i h₁ h₂ h₃ h₄
    apply measure_textStep_lt
    cases hrest : c.rest with
    | nil => exact absurd hrest h₁
    | cons s rest =>
      cases hfault : s.fault? with
      | some fault => exact .inr (by simp [hfault])
      | none =>
        refine .inl (text_ne_nil ?_ ?_ ?_ hfault)
        · rintro style rfl
          exact h₂ _ _ hrest
        · rintro rfl
          exact h₃ _ hrest
        · rintro tail rfl rfl
          exact h₄ _ hrest

/-- A key is read, or the replacement is given up. -/
theorem measure_replacementKeyStep_lt (pos : Position) (c : Cursor) (below : List Mode) :
    measure (replacementKeyStep pos c below).2 <
      measure ⟨c, .replacement (.key pos) :: below⟩ := by
  have hrecover := measure_recover_le c
  unfold replacementKeyStep
  dsimp only
  -- without a key the replacement goes; with one, the key pays for whatever comes behind it
  split
  · simp only [fail, measure_mk, stackWeight, weight]
    omega
  · rename_i hkey
    have hne : c.rest ≠ [] := fun h => hkey (by simp [h, Word.ident])
    have hafter := length_drop_lt (List.length_pos_iff.mpr hkey) hne
    rw [← Cursor.rest_drop] at hafter
    generalize c.drop (Word.ident c.rest).length = after at hafter ⊢
    have hinner := length_rest_drop_le after 1
    split
    · split
      · have := measure_recover_le (after.drop 1)
        simp only [measure_mk, stackWeight, weight]
        omega
      · have := length_rest_drop_le (after.drop 1) (Word.ident (after.drop 1).rest).length
        simp only [measure_mk, stackWeight, weight]
        omega
    · simp only [measure_mk, stackWeight, weight]
      omega

/-- An option opens two modes at most, and its dot and its brace are two symbols. -/
theorem measure_optionStep_lt (c : Cursor) (stage : Stage) (below : List Mode) :
    measure (optionStep c below).2 < measure ⟨c, .replacement stage :: below⟩ := by
  have hrecover := measure_recover_le c
  unfold optionStep
  -- the end of the file, an option, the closing brace, or anything else
  split
  · simp only [abort, measure_mk, stackWeight, weight]
    omega
  · rename_i hrest
    have hinner := length_drop_lt Nat.one_pos (by simp [hrest] : c.rest ≠ [])
    rw [← Cursor.rest_drop] at hinner
    dsimp only
    generalize c.drop 1 = inner at hinner ⊢
    split
    · rename_i width fault _
      have h₁ := measure_recover_le (inner.drop width)
      have h₂ := length_rest_drop_le inner width
      simp only [fail, measure_mk, stackWeight, weight]
      omega
    · rename_i name hname
      have hafter := length_rest_drop_le inner name.length
      split
      · rename_i hbrace
        have hne : (inner.drop name.length).rest ≠ [] := by
          rw [hbrace]
          simp
        have := length_drop_lt Nat.one_pos hne
        rw [← Cursor.rest_drop] at this
        simp only [measure_mk, stackWeight, weight]
        omega
      · simp only [measure_mk, stackWeight, weight]
        omega
  · have := length_rest_drop_le c 1
    simp only [measure_mk, stackWeight, weight]
    omega
  · simp only [fail, measure_mk, stackWeight, weight]
    omega

/-- What stands in front of an option does not add weight, so this is `measure_optionStep_lt`
further on. -/
theorem measure_foldStep_lt (c : Cursor) (below : List Mode) :
    measure (foldStep c below).2 < measure ⟨c, .replacement .options :: below⟩ := by
  have hline : c.skipSpace.rest.length ≤ c.rest.length := length_rest_drop_le c _
  unfold foldStep
  dsimp only
  generalize c.skipSpace = line at hline ⊢
  split
  · split
    · rename_i width _
      have h₁ := measure_optionStep_lt (line.drop width) .options below
      have h₂ := length_rest_drop_le line width
      simp only [measure_mk, stackWeight, weight] at h₁ ⊢
      omega
    · have := measure_recover_le line
      simp only [fail, measure_mk, stackWeight, weight]
      omega
  · have := measure_optionStep_lt line .options below
    simp only [measure_mk, stackWeight, weight] at this ⊢
    omega

/-- The closing brace of an option is read, or the replacement is given up. -/
theorem measure_optionEndStep_lt (c : Cursor) (below : List Mode) :
    measure (optionEndStep c below).2 < measure ⟨c, .replacement .optionBody :: below⟩ := by
  have hrecover := measure_recover_le c
  unfold optionEndStep
  split
  · rename_i hrest
    have := length_drop_lt Nat.one_pos (by simp [hrest] : c.rest ≠ [])
    rw [← Cursor.rest_drop] at this
    simp only [measure_mk, stackWeight, weight]
    omega
  · simp only [fail, measure_mk, stackWeight, weight]
    omega

/-- Every step of a scan that is not over loses weight (`measure`). One lemma for each function
above. -/
theorem measure_step_lt {s : Scanner} (h : s.isDone = false) : measure s.step.2 < measure s := by
  obtain ⟨c, stack⟩ := s
  match stack with
  | [] => simp [isDone] at h
  | .done :: _ => simp [isDone] at h
  | .root :: below => exact measure_rootStep_lt c below
  | .body nested produced :: below => exact measure_bodyStep_lt c nested produced below
  | .replacement (.key pos) :: below => exact measure_replacementKeyStep_lt pos c below
  | .replacement .options :: below => exact measure_foldStep_lt c below
  | .replacement .optionBody :: below => exact measure_optionEndStep_lt c below

/-! ### The scan

All tokens of a file are those of the steps until the scan is over. The two equations below are how
proofs unfold a scan. -/

/-- The tokens of the rest of a scan. The measure goes down by `measure_step_lt`. -/
def run (s : Scanner) : List Token :=
  if h : s.isDone then []
  else
    have : measure s.step.2 < measure s := measure_step_lt (by simpa using h)
    s.step.1 ++ run s.step.2
termination_by measure s

/-- When the scan is over (`isDone`) there are no more tokens. -/
theorem run_of_isDone {s : Scanner} (h : s.isDone = true) : s.run = [] := by
  rw [run, dif_pos h]

/-- Until then there are those of one `step`, and those of the scan behind it. -/
theorem run_of_not_isDone {s : Scanner} (h : s.isDone = false) :
    s.run = s.step.1 ++ s.step.2.run := by
  rw [run, dif_neg (by simp [h])]

/-- What holds of a scanner that is done, and of any other if it holds behind its step, holds of
every scanner. The recursion of `run` as an induction principle. -/
theorem step_induction {motive : Scanner → Prop}
    (stop : ∀ s : Scanner, s.isDone = true → motive s)
    (go : ∀ s : Scanner, s.isDone = false → motive s.step.2 → motive s) (s : Scanner) :
    motive s := by
  induction hn : s.measure using Nat.strongRecOn generalizing s with
  | ind n ih =>
    cases hdone : s.isDone with
    | true => exact stop s hdone
    | false => exact go s hdone (ih _ (hn ▸ measure_step_lt hdone) _ rfl)

end Scanner

/-- The tokens of the file `file` with the bytes `bytes`. -/
def tokens (file : String) (bytes : List UInt8) : List Token := (Scanner.start file bytes).run

end MessageCatalog
