import MessageCatalog.Proofs.Moves

/-!
# MessageCatalog.Proofs.Place

A piece of a file in its place. A `Place` tells how many lines and bytes stand in front of the piece
and which symbols stand behind it; `Place.scanner` puts a scanner of the piece into the file, with
its positions shifted (`Position.shift`) and what stands behind the piece left to read.

Scanning does not depend on the place of a piece as long as the piece ends in a line break
(`Closed`) and what stands behind it starts with content at the margin (`AtMargin`). A step in the
place is then the step of the piece, with its tokens shifted (`kept_step`), up to the end of the
piece, where the scanner is at the margin. The scan follows by induction: `run_scanner`.

The look-aheads make this delicate, for they read what is behind the piece too. Each of them stops
at the first line break, or at the next line with content. So it is enough that inside a message the
last line break of the piece is always still to be read (`Place.Seam`), while at the margin nothing
or whole lines are left of it (`Place.Lines`). That is the invariant, `Place.Ready`.

The module goes through the layers of the scanner with it: words end in their line, so `Seam` keeps
them (`Seam.ident`, `Seam.text` and so on); layout ends at the margin (`Lines.blankWidth`,
`Lines.indentWidth?`); a cursor that moves inside the piece moves in the file (`cursor_drop`); and
then the step functions one by one (`kept_rootStep`, `kept_bodyStep` and so on).
-/

namespace MessageCatalog

open MessageCatalog.Symbol (isSpace isNewline)

/-! ### Places

Everything that holds a position has a counterpart in the file. Columns are not shifted, since a
piece starts at the start of a line. -/

/-- Where a piece of a file stands: how many lines and bytes are in front of it, and which symbols
are behind it (`Place.tail`). Everything that is read in the piece has an image in the file:
`Place.pos`, `Place.token`, `Place.cursor` and `Place.scanner`. -/
structure Place where
  lines : Nat
  bytes : Nat
  tail : List Symbol

/-- Moves a position down by some lines and bytes; the column is the same, since pieces start at the
margin. -/
def Position.shift (lines bytes : Nat) (pos : Position) : Position :=
  { pos with line := pos.line + lines, offset := pos.offset + bytes }

/-- Moves a token down by some lines and bytes, by `Position.shift`. Its kind and its text are the
same. -/
def Token.shift (lines bytes : Nat) (t : Token) : Token :=
  { t with pos := t.pos.shift lines bytes }

namespace Place

/-- A position of the piece in the file: so many lines and bytes further down. -/
def pos (p : Place) (pos : Position) : Position := pos.shift p.lines p.bytes

/-- A token of the piece in the file: `Token.shift`, so it stands further down and says the same. -/
def token (p : Place) (t : Token) : Token := t.shift p.lines p.bytes

/-- A cursor in the piece as a cursor in the file, which has the `tail` of the place behind the rest
of the piece. -/
def cursor (p : Place) (c : Cursor) : Cursor := { rest := c.rest ++ p.tail, pos := p.pos c.pos }

/-- A mode of the piece in the file. Only `Stage.key` holds a position, where the replacement
started, and that is shifted too. -/
def mode (p : Place) : Mode → Mode
  | .replacement (.key pos) => .replacement (.key (p.pos pos))
  | m => m

/-- A scanner in the piece as a scanner in the file. It has more to read, and is otherwise in the
same modes. -/
def scanner (p : Place) (s : Scanner) : Scanner :=
  { cursor := p.cursor s.cursor, stack := s.stack.map p.mode }

/-- The outcome of a step in the piece as one in the file. That steps and `outcome` can be exchanged
is what is proved for each step below. -/
def outcome (p : Place) (out : List Token × Scanner) : List Token × Scanner :=
  (out.1.map p.token, p.scanner out.2)

variable (p : Place)

@[simp] theorem rest_cursor (c : Cursor) : (p.cursor c).rest = c.rest ++ p.tail := rfl

@[simp] theorem pos_cursor (c : Cursor) : (p.cursor c).pos = p.pos c.pos := rfl

/-- Moving over a character (`Position.advance`) commutes with the place: the column is moved by the
same, and the shift is not in the column. The same goes for bytes, for line breaks and for whole
runs of symbols. -/
theorem pos_advance (pos : Position) (c : Char) :
    (p.pos pos).advance c = p.pos (pos.advance c) := by
  unfold Position.advance
  split
  · simp only [Place.pos, Position.shift, Position.mk.injEq, true_and]
    omega
  · simp only [Place.pos, Position.shift, Position.mk.injEq, true_and]
    omega

theorem pos_advanceByte (pos : Position) : (p.pos pos).advanceByte = p.pos pos.advanceByte := by
  simp only [Position.advanceByte, Place.pos, Position.shift, Position.mk.injEq, true_and]
  omega

theorem pos_breakLine (pos : Position) : (p.pos pos).breakLine = p.pos pos.breakLine := by
  simp only [Position.breakLine, Place.pos, Position.shift, Position.mk.injEq, true_and, and_true]
  omega

/-- Moving over a symbol (`Position.after`) commutes with the place, whichever of the three sorts
the symbol is. -/
theorem pos_after (pos : Position) (s : Symbol) : (p.pos pos).after s = p.pos (pos.after s) := by
  unfold Position.after
  split
  · exact p.pos_advance pos _
  · exact p.pos_advance pos _
  · rw [p.pos_advance, p.pos_advance]
  · rw [p.pos_advance, p.pos_breakLine]
  · exact p.pos_advanceByte pos

theorem pos_afterAll (pos : Position) (run : List Symbol) :
    (p.pos pos).afterAll run = p.pos (pos.afterAll run) := by
  induction run generalizing pos with
  | nil => rfl
  | cons s run ih => rw [Position.afterAll_cons, pos_after, ih, Position.afterAll_cons]

/-- A look at the next symbol, `Position.peeked`, commutes with the place. -/
theorem pos_peeked (pos : Position) (s : Option Symbol) :
    (p.pos pos).peeked s = p.pos (pos.peeked s) := by
  unfold Position.peeked
  split
  · exact p.pos_advance pos _
  · exact p.pos_advance pos _
  · exact p.pos_advance pos _
  · exact p.pos_advanceByte pos
  · exact p.pos_advanceByte pos

/-- A cursor that moves inside the piece moves in the file, as long as `Cursor.drop` does not move
it over the end of the piece. -/
theorem cursor_drop {c : Cursor} {n : Nat} (h : n ≤ c.rest.length) :
    (p.cursor c).drop n = p.cursor (c.drop n) := by
  simp only [Cursor.drop, cursor, List.drop_append_of_le_length h, List.take_append_of_le_length h,
    pos_afterAll]

theorem nesting_map_mode (stack : List Mode) :
    Scanner.nesting (stack.map p.mode) = Scanner.nesting stack := by
  unfold Scanner.nesting
  rw [List.countP_map]
  congr 1
  funext m
  cases m with
  | replacement stage => cases stage <;> rfl
  | _ => rfl

/-- A scan is over in the file when it is over in the piece, since `Place.mode` changes positions
only. -/
theorem isDone_scanner (s : Scanner) : (p.scanner s).isDone = s.isDone := by
  obtain ⟨c, stack⟩ := s
  match stack with
  | [] => rfl
  | .root :: _ | .done :: _ | .body _ _ :: _ => rfl
  | .replacement (.key _) :: _ => rfl
  | .replacement .options :: _ | .replacement .optionBody :: _ => rfl

end Place

/-! ### Whole lines

A piece is a number of whole lines. What is left of it while it is scanned is any end of it. -/

/-- The input ends in a line break. So it is made of whole lines, and there is at least one. -/
def Closed (input : List Symbol) : Prop := ∃ style, input.getLast? = some (.newline style)

/-- The input starts at the margin with content, if there is any: with neither a space nor a line
break. This is what the `tail` of a place has to be for `run_scanner`. -/
def AtMargin (input : List Symbol) : Prop :=
  ∀ s ∈ input.head?, isSpace s = false ∧ isNewline s = false

theorem not_closed_nil : ¬ Closed [] := fun ⟨_, h⟩ => by cases h

theorem Closed.of_append {xs ys : List Symbol} (h : Closed (xs ++ ys)) (hne : ys ≠ []) :
    Closed ys := by
  obtain ⟨style, hlast⟩ := h
  refine ⟨style, ?_⟩
  rw [List.getLast?_append, List.getLast?_eq_some_getLast hne] at hlast
  rw [List.getLast?_eq_some_getLast hne]
  exact hlast

/-- What is left of a closed piece is closed as long as anything is left. -/
theorem Closed.of_suffix {xs ys : List Symbol} (h : Closed ys) (hs : xs <:+ ys) (hne : xs ≠ []) :
    Closed xs := by
  obtain ⟨zs, rfl⟩ := hs
  exact h.of_append hne

/-- There is a line break in a closed piece. -/
theorem Closed.exists_newline {input : List Symbol} (h : Closed input) :
    ∃ s ∈ input, isNewline s = true := by
  obtain ⟨style, hlast⟩ := h
  exact ⟨_, List.mem_of_getLast? hlast, rfl⟩

/-- What stands behind symbols that break no line is still `Closed`: the last line break has not
been passed over. -/
theorem Closed.drop {input : List Symbol} {n : Nat} (h : Closed input)
    (hn : ∀ s ∈ input.take n, isNewline s = false) : Closed (input.drop n) := by
  have hsplit := List.take_append_drop n input
  by_cases hnil : input.drop n = []
  · rw [hnil, List.append_nil] at hsplit
    obtain ⟨s, hs, hnewline⟩ := h.exists_newline
    rw [← hsplit] at hs
    rw [hn s hs] at hnewline
    cases hnewline
  · exact h.of_suffix (List.drop_suffix n input) hnil

/-- What is left of whole lines ends in a line break, or is nothing. Unlike `Closed.of_suffix` it
holds of an empty piece. -/
theorem whole_of_suffix {xs ys : List Symbol} (h : ys = [] ∨ Closed ys) (hs : xs <:+ ys) :
    xs = [] ∨ Closed xs := by
  by_cases hne : xs = []
  · exact .inl hne
  · rcases h with rfl | h
    · exact absurd (List.suffix_nil.mp hs) hne
    · exact .inr (h.of_suffix hs hne)

namespace Place

variable {p : Place}

/-- The piece may stand in its place: nothing is behind it, or it ends in a line break (`Closed`)
and what is behind it starts at the margin (`AtMargin`). This is what keeps the scanner from reading
over the end of the piece in the middle of something. -/
def Seam (p : Place) (input : List Symbol) : Prop :=
  p.tail = [] ∨ Closed input ∧ AtMargin p.tail

/-- Passing over symbols that break no line keeps the `Seam`. The lemmas for characters and for
single symbols are cases of this. -/
theorem Seam.drop {input : List Symbol} {n : Nat} (h : Seam p input)
    (hn : ∀ s ∈ input.take n, isNewline s = false) : Seam p (input.drop n) :=
  h.imp_right fun ⟨hclosed, hmargin⟩ => ⟨hclosed.drop hn, hmargin⟩

/-- What is left of the piece is a `Seam` as long as anything is left, for it is the end of it that
counts. -/
theorem Seam.of_suffix {xs ys : List Symbol} (h : Seam p ys) (hs : xs <:+ ys) (hne : xs ≠ []) :
    Seam p xs :=
  h.imp_right fun ⟨hclosed, hmargin⟩ => ⟨hclosed.of_suffix hs hne, hmargin⟩

theorem Seam.of_chars {cs : List Char} {rest : List Symbol} (h : Seam p (cs.map .char ++ rest)) :
    Seam p rest := by
  have := h.drop (n := cs.length) (by
    intro s hs
    rw [List.take_left' (by simp)] at hs
    obtain ⟨c, -, rfl⟩ := List.mem_map.mp hs
    rfl)
  rwa [List.drop_left' (by simp)] at this

theorem Seam.of_cons {s : Symbol} {rest : List Symbol} (h : Seam p (s :: rest))
    (hs : isNewline s = false) : Seam p rest :=
  h.drop (n := 1) (by simpa using hs)

/-- Inside a message the piece is used up only if nothing is behind it: an empty piece has no line
break to end in. -/
theorem Seam.tail_eq_nil (h : Seam p []) : p.tail = [] :=
  h.resolve_right fun ⟨hclosed, _⟩ => not_closed_nil hclosed

/-- The first symbol of the file from here on is that of the piece. So whatever is decided by a
first symbol is decided alike. -/
theorem Seam.cons {input rest : List Symbol} {s : Symbol} (h : Seam p input)
    (heq : input ++ p.tail = s :: rest) : ∃ rest', input = s :: rest' ∧ rest = rest' ++ p.tail := by
  cases input with
  | nil =>
    rw [h.tail_eq_nil] at heq
    cases heq
  | cons s' rest' =>
    obtain ⟨rfl, rfl⟩ := List.cons.inj heq
    exact ⟨rest', rfl, rfl⟩

/-- The first two symbols are those of the piece, unless the first breaks the line. Openings and
brackets are read like this, two symbols at a time. -/
theorem Seam.cons₂ {input rest : List Symbol} {s s' : Symbol} (h : Seam p input)
    (heq : input ++ p.tail = s :: s' :: rest) (hs : isNewline s = false) :
    ∃ rest', input = s :: s' :: rest' ∧ rest = rest' ++ p.tail := by
  obtain ⟨rest₁, rfl, hrest⟩ := h.cons heq
  obtain ⟨rest₂, rfl, rfl⟩ := (h.of_cons hs).cons hrest.symm
  exact ⟨rest₂, rfl, rfl⟩

/-- The next symbol is that of the piece. -/
theorem Seam.head? {input : List Symbol} (h : Seam p input) :
    (input ++ p.tail).head? = input.head? := by
  cases input with
  | nil =>
    rw [h.tail_eq_nil]
    rfl
  | cons s rest => rfl

theorem Seam.eq_nil {input : List Symbol} (h : Seam p input) :
    input ++ p.tail = [] ↔ input = [] := by
  rw [← List.head?_eq_none_iff, h.head?, List.head?_eq_none_iff]

/-- The next position (`Cursor.nextPos`) in the file is that in the piece, shifted, as the next
symbol is the same. -/
theorem nextPos_cursor {c : Cursor} (h : Seam p c.rest) :
    (p.cursor c).nextPos = p.pos c.nextPos := by
  rw [Cursor.nextPos, rest_cursor, h.head?, pos_cursor, pos_peeked, Cursor.nextPos]

/-! ### Words end in their line

No word holds a line break, so what is read of the piece is not changed by what stands behind it.
All these lemmas have one form: with a seam, a function gives for the file what it gives for the
piece. -/

/-- A test that no line break passes is over at the line break, so it never gets to the `tail`. All
words end like that, and so do spaces and lines. -/
theorem Seam.takeWhile {input : List Symbol} (h : Seam p input) {q : Symbol → Bool}
    (hq : ∀ style, q (.newline style) = false) :
    (input ++ p.tail).takeWhile q = input.takeWhile q := by
  induction input with
  | nil =>
    rw [h.tail_eq_nil]
    rfl
  | cons s rest ih =>
    rw [List.cons_append, List.takeWhile_cons, List.takeWhile_cons]
    split
    · rename_i hs
      have hnewline : isNewline s = false := by
        cases s with
        | newline style => rw [hq] at hs; cases hs
        | _ => rfl
      rw [ih (h.of_cons hnewline)]
    · rfl

/-- Runs of characters (`Word.charsWhile`) end in the piece, whatever the test: a line break is no
character. -/
theorem Seam.charsWhile {input : List Symbol} (h : Seam p input) (q : Char → Bool) :
    Word.charsWhile q (input ++ p.tail) = Word.charsWhile q input := by
  induction input with
  | nil =>
    rw [h.tail_eq_nil]
    rfl
  | cons s rest ih =>
    cases s with
    | char c => rw [List.cons_append, Word.charsWhile, Word.charsWhile, ih (h.of_cons rfl)]
    | _ => rfl

/-- Identifiers end in the piece: `Word.ident` reads the same in the file. So do dotted names,
literals and comments. -/
theorem Seam.ident {input : List Symbol} (h : Seam p input) :
    Word.ident (input ++ p.tail) = Word.ident input := by
  cases input with
  | nil =>
    rw [h.tail_eq_nil]
    rfl
  | cons s rest =>
    cases s with
    | char c => rw [List.cons_append, Word.ident, Word.ident, (h.of_cons rfl).charsWhile]
    | _ => rfl

theorem Seam.dottedRest {input : List Symbol} (h : Seam p input) :
    Word.dottedRest (input ++ p.tail) = Word.dottedRest input := by
  fun_induction Word.dottedRest input with
  | case1 c rest hc ih =>
    rw [List.cons_append, List.cons_append, Word.dottedRest, if_pos hc,
      ih ((h.of_cons rfl).of_cons rfl)]
  | case2 c rest hc => rw [List.cons_append, List.cons_append, Word.dottedRest, if_neg hc]
  | case3 c rest hdot hc ih =>
    rw [List.cons_append, Word.dottedRest, if_pos hc, ih (h.of_cons rfl)]
    intro c' rest' heq hc'
    obtain ⟨rest'', rfl, -⟩ := (h.of_cons rfl).cons heq
    exact hdot c' rest'' rfl hc'
  | case4 c rest hdot hc =>
    rw [List.cons_append, Word.dottedRest, if_neg hc]
    intro c' rest' heq hc'
    obtain ⟨rest'', rfl, -⟩ := (h.of_cons rfl).cons heq
    exact hdot c' rest'' rfl hc'
  | case5 input _ hchar =>
    cases input with
    | nil =>
      rw [h.tail_eq_nil]
      rfl
    | cons s rest =>
      cases s with
      | char c => exact absurd rfl (hchar c rest)
      | _ => rfl

theorem Seam.dottedName {input : List Symbol} (h : Seam p input) :
    Word.dottedName (input ++ p.tail) = Word.dottedName input := by
  cases input with
  | nil =>
    rw [h.tail_eq_nil]
    rfl
  | cons s rest =>
    cases s with
    | char c =>
      rw [List.cons_append, Word.dottedName, Word.dottedName, (h.of_cons rfl).dottedRest]
    | _ => rfl

/-- Text ends in the piece. By induction, since `Word.text` looks at what stands behind a dollar
sign. -/
theorem Seam.text {input : List Symbol} (h : Seam p input) :
    Word.text (input ++ p.tail) = Word.text input := by
  fun_induction Word.text input with
  | case1 => rfl
  | case2 c rest hopen hc ih =>
    rw [List.cons_append, Word.text, if_pos hc, ih (h.of_cons rfl)]
    intro rest' heq hc'
    obtain ⟨rest'', rfl, -⟩ := (h.of_cons rfl).cons heq
    exact hopen rest'' rfl hc'
  | case3 c rest hopen hc =>
    rw [List.cons_append, Word.text, if_neg hc]
    intro rest' heq hc'
    obtain ⟨rest'', rfl, -⟩ := (h.of_cons rfl).cons heq
    exact hopen rest'' rfl hc'
  | case4 input _ hchar =>
    cases input with
    | nil =>
      rw [h.tail_eq_nil]
      rfl
    | cons s rest =>
      cases s with
      | char c => exact absurd rfl (hchar c rest)
      | _ => rfl

theorem Seam.literal {input : List Symbol} (h : Seam p input) :
    Word.literal (input ++ p.tail) = Word.literal input := h.charsWhile _

theorem Seam.commentWidth {input : List Symbol} (h : Seam p input) :
    Word.commentWidth (input ++ p.tail) = Word.commentWidth input := by
  rw [Word.commentWidth, h.takeWhile (by simp), Word.commentWidth]

/-! ### Layout ends at the margin

A look-ahead over blank lines may come to the end of the piece. It stops there, because content at
the margin is neither a blank line nor an indented one. -/

theorem Seam.spaceWidth {input : List Symbol} (h : Seam p input) :
    Layout.spaceWidth (input ++ p.tail) = Layout.spaceWidth input := by
  rw [Layout.spaceWidth, h.takeWhile (by simp), Layout.spaceWidth]

/-- A line ends in the piece. -/
theorem Seam.lineWidth {input : List Symbol} (h : Seam p input) :
    Layout.lineWidth (input ++ p.tail) = Layout.lineWidth input := by
  induction input with
  | nil =>
    rw [h.tail_eq_nil]
    rfl
  | cons s rest ih =>
    cases s with
    | newline style => rfl
    | _ => simp only [List.cons_append, Layout.lineWidth, ih (h.of_cons rfl)]

/-- The piece is made of whole lines, or nothing is behind it. In contrast to a `Seam` it may be
empty with something behind it, which is so at the margin only. -/
def Lines (p : Place) (input : List Symbol) : Prop :=
  p.tail = [] ∨ (input = [] ∨ Closed input) ∧ AtMargin p.tail

/-- A piece that ends in a line break is made of whole lines, so a `Seam` is enough for all that
holds of `Lines`. -/
theorem Seam.lines {input : List Symbol} (h : Seam p input) : Lines p input :=
  h.imp_right fun ⟨hclosed, hmargin⟩ => ⟨.inr hclosed, hmargin⟩

/-- Whole lines end in a line break, if there are any. So `Lines` and `Seam` differ for the empty
piece alone. -/
theorem Lines.seam {input : List Symbol} (h : Lines p input) (hne : input ≠ []) : Seam p input :=
  h.imp_right fun ⟨hclosed, hmargin⟩ => ⟨hclosed.resolve_left hne, hmargin⟩

/-- What is left of whole `Lines` is whole lines, except that the first of them may have been cut.
-/
theorem Lines.of_suffix {xs ys : List Symbol} (h : Lines p ys) (hs : xs <:+ ys) : Lines p xs :=
  h.imp_right fun ⟨hwhole, hmargin⟩ => ⟨whole_of_suffix hwhole hs, hmargin⟩

/-- Behind whole lines there is content at the margin (`AtMargin`), or nothing. -/
theorem Lines.atMargin {input : List Symbol} (h : Lines p input) : AtMargin p.tail := by
  rcases h with h | ⟨-, h⟩
  · rw [h]
    simp [AtMargin]
  · exact h

/-- Blank lines are not counted over content at the margin (`AtMargin`). By induction on the input,
with the spaces that are pending. -/
theorem blankWidthFrom_append {tail : List Symbol} (h : AtMargin tail) (input : List Symbol) :
    ∀ pending, Layout.blankWidthFrom pending (input ++ tail) =
      Layout.blankWidthFrom pending input := by
  induction input with
  | nil =>
    intro pending
    match tail with
    | [] => rfl
    | .newline style :: _ => exact absurd (h _ rfl).2 (by simp)
    | .char c :: rest =>
      simp [Layout.blankWidthFrom, (h _ rfl).1]
    | .malformed :: _ => rfl
  | cons s rest ih =>
    intro pending
    cases s with
    | _ => simp only [List.cons_append, Layout.blankWidthFrom, ih]

/-- Blank lines end in the piece, or with it, so `Layout.blankWidth` counts the same. -/
theorem Lines.blankWidth {input : List Symbol} (h : Lines p input) :
    Layout.blankWidth (input ++ p.tail) = Layout.blankWidth input :=
  blankWidthFrom_append h.atMargin input 0

/-- Content at the margin does not go on with a message, which is what `Layout.opensInside` asks at
the start of a line. -/
theorem opensInside_append {input : List Symbol} (h : Lines p input) :
    Layout.opensInside (input ++ p.tail) = Layout.opensInside input := by
  cases input with
  | nil =>
    have hmargin := h.atMargin
    rw [List.nil_append]
    cases htail : p.tail with
    | nil => rfl
    | cons s rest =>
      rw [htail] at hmargin
      simp [Layout.opensInside, hmargin s rfl]
  | cons s rest => rfl

/-- A block (`Layout.blockWidth`) ends in the piece, or with it. By induction on its lines, as each
of them may be the last of the piece. -/
theorem Seam.blockWidth {input : List Symbol} (h : Seam p input) :
    Layout.blockWidth (input ++ p.tail) = Layout.blockWidth input := by
  induction input with
  | nil =>
    rw [h.tail_eq_nil]
    rfl
  | cons s rest ih =>
    cases s with
    | newline style =>
      have hrest := h.lines.of_suffix (List.suffix_cons _ rest)
      rw [List.cons_append, Layout.blockWidth, Layout.blockWidth, opensInside_append hrest]
      split
      · rename_i hopens
        have hne : rest ≠ [] := by
          rintro rfl
          cases hopens
        rw [ih (hrest.seam hne)]
      · rfl
    | _ => simp only [List.cons_append, Layout.blockWidth, ih (h.of_cons rfl)]

/-- The next indented line is one of the piece: what is behind it starts at the margin, or is
nothing. So `Layout.indentWidth?` gives the same in the file. -/
theorem Lines.indentWidth? {input : List Symbol} (h : Lines p input) :
    Layout.indentWidth? (input ++ p.tail) = Layout.indentWidth? input := by
  have hle := Layout.blankWidthFrom_le input 0
  have hrest := h.of_suffix (List.drop_suffix (Layout.blankWidth input) input)
  simp only [Layout.indentWidth?, h.blankWidth,
    List.drop_append_of_le_length (show Layout.blankWidth input ≤ input.length from hle)]
  generalize input.drop (Layout.blankWidth input) = line at hrest
  by_cases hline : line = []
  · subst hline
    have htab : p.tail.head? ≠ some (.char '\t') :=
      fun htab => absurd (hrest.atMargin _ htab).1 (by decide)
    rw [List.nil_append, if_neg (fun h => htab h.1), if_neg (by simp)]
  · have hseam := hrest.seam hline
    have hspace : (line ++ p.tail).drop (Layout.spaceWidth line) = [] ↔
        line.drop (Layout.spaceWidth line) = [] := by
      rw [List.drop_append_of_le_length (Layout.spaceWidth_le line)]
      refine (hseam.drop ?_).eq_nil
      rw [Layout.take_spaceWidth]
      exact (Layout.spaces_takeWhile line).isNewline_eq_false
    simp only [hseam.head?, hseam.spaceWidth, ne_eq, hspace]

/-- A continuation is one of the piece, by `Lines.indentWidth?` of what stands behind the line
break. -/
theorem Seam.continuationWidth? {input : List Symbol} (h : Seam p input) :
    Layout.continuationWidth? (input ++ p.tail) = Layout.continuationWidth? input := by
  cases input with
  | nil =>
    rw [h.tail_eq_nil]
    rfl
  | cons s rest =>
    cases s with
    | newline style =>
      have hrest := h.lines.of_suffix (List.suffix_cons _ rest)
      rw [List.cons_append, Layout.continuationWidth?, Layout.continuationWidth?,
        hrest.indentWidth?]
    | _ => rfl

/-! ### Moving a cursor in its place

What the scanner passes over at once, it passes over in the piece. -/

/-- Spaces are skipped in the piece, and so are lines and blocks: `Place.cursor` commutes with all
three ways of skipping. -/
theorem cursor_skipSpace {c : Cursor} (h : Seam p c.rest) :
    (p.cursor c).skipSpace = p.cursor c.skipSpace := by
  rw [Cursor.skipSpace, rest_cursor, h.spaceWidth, cursor_drop p (Layout.spaceWidth_le c.rest),
    Cursor.skipSpace]

/-- Skipping spaces keeps the last line break. -/
theorem Seam.skipSpace {c : Cursor} (h : Seam p c.rest) : Seam p c.skipSpace.rest := by
  refine h.drop ?_
  rw [Layout.take_spaceWidth]
  exact (Layout.spaces_takeWhile c.rest).isNewline_eq_false

theorem cursor_skipLine {c : Cursor} (h : Seam p c.rest) :
    (p.cursor c).skipLine = p.cursor c.skipLine := by
  rw [Cursor.skipLine, rest_cursor, h.lineWidth, cursor_drop p (Layout.lineWidth_le c.rest),
    Cursor.skipLine]

theorem cursor_skipBlock {c : Cursor} (h : Seam p c.rest) :
    (p.cursor c).skipBlock = p.cursor c.skipBlock := by
  rw [Cursor.skipBlock, rest_cursor, h.blockWidth, cursor_drop p (Layout.blockWidth_le c.rest),
    Cursor.skipBlock]

/-- A word of characters in front of the cursor may be passed over, as it breaks no line and so
leaves the `Seam` ahead. -/
theorem Seam.drop_chars {c : Cursor} {cs : List Char} {rest : List Symbol} (h : Seam p c.rest)
    (hrest : cs.map .char ++ rest = c.rest) : Seam p (c.drop cs.length).rest := by
  rw [Cursor.rest_drop, ← hrest, List.drop_left' (by simp)]
  rw [← hrest] at h
  exact h.of_chars

/-- A word is passed over in the piece. For one symbol, or two, it is the same. -/
theorem cursor_drop_chars {c : Cursor} {cs : List Char} {rest : List Symbol}
    (hrest : cs.map .char ++ rest = c.rest) :
    (p.cursor c).drop cs.length = p.cursor (c.drop cs.length) :=
  cursor_drop p (by rw [← hrest]; simp)

theorem cursor_drop_cons {c : Cursor} {s : Symbol} {rest : List Symbol} (h : c.rest = s :: rest) :
    (p.cursor c).drop 1 = p.cursor (c.drop 1) :=
  cursor_drop p (by rw [h]; simp)

theorem Seam.drop_cons {c : Cursor} {s : Symbol} {rest : List Symbol} (h : Seam p c.rest)
    (hrest : c.rest = s :: rest) (hs : isNewline s = false) : Seam p (c.drop 1).rest := by
  rw [Cursor.rest_drop, hrest]
  rw [hrest] at h
  exact h.of_cons hs

/-! ### Steps at the margin

For each function of the scanner that yields tokens there is a lemma that it commutes with the
place, and for each step function one that the outcome is `Kept`. -/

open Scanner (invalid lineEnd headerTokens commentTokens keyStep rootStep)

/-- The scanner may stand in its place: at the margin the rest of the piece is made of whole lines
(`Lines`), and inside a message there is at least a line break left (`Seam`). -/
def Ready (p : Place) (s : Scanner) : Prop :=
  match s.stack with
  | .root :: _ | .done :: _ => Lines p s.cursor.rest
  | _ => Seam p s.cursor.rest

/-- A step in the place is the step of the piece, and the scanner may go on in its place, as it is
`Ready`. One lemma for each step follows. -/
def Kept (p : Place) (out' out : List Token × Scanner) : Prop :=
  out' = p.outcome out ∧ Ready p out.2

@[simp] theorem token_token (kind : Token.Kind) (text : List Char) (pos : Position) :
    p.token (Scanner.token kind text pos) = Scanner.token kind text (p.pos pos) := rfl

@[simp] theorem token_invalid (fault : Token.Fault) (pos : Position) :
    p.token (invalid fault pos) = invalid fault (p.pos pos) := rfl

/-- The end of a line commutes with the place: `lineEnd` reports the same, further down. -/
theorem lineEnd_cursor (fault : Token.Fault) {c : Cursor} (h : Seam p c.rest) :
    lineEnd fault (p.cursor c) = (lineEnd fault c).map p.token := by
  have hpos := nextPos_cursor h
  unfold lineEnd
  rw [rest_cursor]
  cases hrest : c.rest with
  | nil =>
    rw [hrest] at h
    rw [h.tail_eq_nil]
    rfl
  | cons s rest =>
    cases s with
    | newline style => rfl
    | _ => simp only [List.cons_append, hpos, List.map_cons, List.map_nil, token_invalid]

theorem cursor_drop_two {c : Cursor} {s s' : Symbol} {rest : List Symbol}
    (h : c.rest = s :: s' :: rest) : (p.cursor c).drop 2 = p.cursor (c.drop 2) :=
  cursor_drop p (by rw [h]; simp)

theorem Seam.drop_two {c : Cursor} {s s' : Symbol} {rest : List Symbol} (h : Seam p c.rest)
    (hrest : c.rest = s :: s' :: rest) (hs : isNewline s = false) (hs' : isNewline s' = false) :
    Seam p (c.drop 2).rest := by
  rw [Cursor.rest_drop, hrest]
  rw [hrest] at h
  exact (h.of_cons hs).of_cons hs'

/-- Reading a header (`headerTokens`) commutes with the place. Each part of the header is in the
piece, and what is behind it too. -/
theorem headerTokens_cursor {c : Cursor} (h : Seam p c.rest) :
    headerTokens (p.cursor c) = (headerTokens c).map p.token := by
  unfold headerTokens
  split
  · rename_i tail heq
    obtain ⟨tail, hrest, rfl⟩ := h.cons₂ heq rfl
    have htwo := h.drop_two hrest rfl rfl
    have hinner := htwo.skipSpace
    simp only [hrest, cursor_drop_two hrest, cursor_skipSpace htwo, rest_cursor, hinner.dottedName,
      nextPos_cursor hinner]
    generalize (c.drop 2).skipSpace = inner at hinner
    split
    · rfl
    · have hsplit := Word.dottedName_append inner.rest
      have hafter := hinner.drop_chars hsplit
      have hclose := hafter.skipSpace
      simp only [cursor_drop_chars hsplit, cursor_skipSpace hafter, rest_cursor]
      generalize (inner.drop (Word.dottedName inner.rest).length).skipSpace = close at hclose
      split
      · rename_i heq
        obtain ⟨tail, hbrackets, rfl⟩ := hclose.cons₂ heq rfl
        have hend := hclose.drop_two hbrackets rfl rfl
        simp only [hbrackets, cursor_drop_two hbrackets, cursor_skipSpace hend,
          lineEnd_cursor _ hend.skipSpace, nextPos_cursor h, List.map_cons, token_token]
      · rename_i hno
        split
        · rename_i tail hbrackets
          exact absurd (by rw [hbrackets]; rfl) (hno (tail ++ p.tail))
        · rw [nextPos_cursor hclose, List.map_cons, List.map_nil, token_invalid]
  · rename_i hno
    split
    · rename_i tail hrest
      exact absurd (by rw [rest_cursor, hrest]; rfl) (hno (tail ++ p.tail))
    · rw [nextPos_cursor h, List.map_cons, List.map_nil, token_invalid]

/-- A comment is passed over up to its line break. -/
theorem Seam.drop_comment {c : Cursor} (h : Seam p c.rest) :
    Seam p (c.drop (Word.commentWidth c.rest)).rest := by
  refine h.drop ?_
  rw [Word.commentWidth, ← List.prefix_iff_eq_take.mp (List.takeWhile_prefix _)]
  intro s hs
  have := List.mem_takeWhile_imp hs
  simp only [Bool.and_eq_true, Bool.not_eq_true'] at this
  exact this.1

/-- Reading a comment (`commentTokens`) commutes with the place, since a comment ends with its line.
-/
theorem commentTokens_cursor {c : Cursor} (h : Seam p c.rest) :
    commentTokens (p.cursor c) = (commentTokens c).map p.token := by
  have hle : Word.commentWidth c.rest ≤ c.rest.length :=
    (List.takeWhile_prefix _).length_le
  have hafter := h.drop_comment
  have hcursor : (p.cursor c).drop (Word.commentWidth (p.cursor c).rest) =
      p.cursor (c.drop (Word.commentWidth c.rest)) := by
    rw [rest_cursor, h.commentWidth, cursor_drop p hle]
  unfold commentTokens
  dsimp only
  rw [hcursor]
  generalize c.drop (Word.commentWidth c.rest) = after at hafter
  rw [rest_cursor, rest_cursor, hafter.head?, nextPos_cursor hafter, nextPos_cursor h]
  split
  · rename_i tail heq
    obtain ⟨tail, hrest, rfl⟩ := h.cons₂ heq rfl
    simp only [hrest]
    split
    · rfl
    · rfl
  · rename_i hno
    split
    · rename_i tail hrest
      exact absurd (by rw [hrest]; rfl) (hno (tail ++ p.tail))
    · rfl

theorem keyFault_append {input : List Symbol} (h : Seam p input) :
    Scanner.keyFault (input ++ p.tail) = Scanner.keyFault input := by
  rw [Scanner.keyFault, h.head?, Scanner.keyFault]

/-- Where something is left no more has been dropped than there was. -/
theorem le_length_of_drop_eq_cons {input rest : List Symbol} {n : Nat} {s : Symbol}
    (h : input.drop n = s :: rest) : n ≤ input.length := by
  by_contra hlt
  rw [List.drop_eq_nil_of_le (by omega)] at h
  cases h

/-- Behind the indentation of a line there is still its line break, since an indented line has
content. This is how `Lines` in front of a body become a `Seam` in it. -/
theorem Lines.drop_indent {c : Cursor} {width : Nat} (h : Lines p c.rest)
    (hwidth : Layout.indentWidth? c.rest = some width) : Seam p (c.drop width).rest := by
  obtain ⟨s, rest, hdrop, -⟩ := Layout.head_drop_indentWidth? hwidth
  refine (h.of_suffix (Cursor.rest_drop_suffix c width)).seam ?_
  rw [Cursor.rest_drop, hdrop]
  simp

theorem cursor_drop_indent {c : Cursor} {width : Nat}
    (hwidth : Layout.indentWidth? c.rest = some width) :
    (p.cursor c).drop width = p.cursor (c.drop width) := by
  obtain ⟨s, rest, hdrop, -⟩ := Layout.head_drop_indentWidth? hwidth
  exact cursor_drop p (le_length_of_drop_eq_cons hdrop)

/-- A line with a key is kept. Whether a body follows is told from the next line with content, by
`Lines.indentWidth?`. -/
theorem kept_keyStep {c : Cursor} (h : Seam p c.rest) :
    Kept p (keyStep (p.cursor c) [.root]) (keyStep c [.root]) := by
  have hsplit := Word.ident_append c.rest
  have hafter := h.drop_chars hsplit
  have hblock : Lines p c.skipBlock.rest := h.lines.of_suffix (Cursor.rest_drop_suffix c _)
  have hline : Lines p c.skipLine.rest := h.lines.of_suffix (Cursor.rest_drop_suffix c _)
  unfold keyStep
  simp only [rest_cursor, h.ident, keyFault_append h, nextPos_cursor h, cursor_skipBlock h,
    cursor_skipLine h, cursor_drop_chars hsplit, hline.indentWidth?]
  split
  · exact ⟨rfl, hblock⟩
  · generalize c.drop (Word.ident c.rest).length = after at hafter
    split
    · rename_i heq
      obtain ⟨tail, hcolon, rfl⟩ := hafter.cons heq
      have hinner := hafter.drop_cons hcolon rfl
      simp only [hcolon, cursor_drop_cons hcolon, cursor_skipSpace hinner,
        lineEnd_cursor _ hinner.skipSpace]
      cases hwidth : Layout.indentWidth? c.skipLine.rest with
      | some width =>
        dsimp only
        rw [cursor_drop_indent hwidth]
        exact ⟨rfl, hline.drop_indent hwidth⟩
      | none => exact ⟨rfl, hline⟩
    · rename_i hno
      split
      · rename_i tail hcolon
        exact absurd (by rw [hcolon]; rfl) (hno (tail ++ p.tail))
      · rw [nextPos_cursor hafter]
        exact ⟨rfl, hblock⟩

/-- A step at the margin is `Kept`, unless only blank lines are left. Then the piece has come to its
end, and what the scanner does in the file is a step of what is behind it. -/
theorem kept_rootStep {c : Cursor} (h : Lines p c.rest)
    (hcontent : p.tail = [] ∨ ¬ Layout.Blanks c.rest) :
    Kept p (rootStep (p.cursor c) [.root]) (rootStep c [.root]) := by
  have hle : Layout.blankWidth c.rest ≤ c.rest.length := Layout.blankWidthFrom_le c.rest 0
  have hline : Lines p (c.drop (Layout.blankWidth c.rest)).rest :=
    h.of_suffix (Cursor.rest_drop_suffix c _)
  -- if something follows the piece, a line with content is left of it
  have hne : p.tail = [] ∨ (c.drop (Layout.blankWidth c.rest)).rest ≠ [] := by
    refine hcontent.imp_right fun hblank hnil => hblank ?_
    obtain ⟨lines, rest, heq, hlines, -, hwidth⟩ := Layout.exists_blanks c.rest
    rw [Cursor.rest_drop, hwidth, heq, List.drop_left] at hnil
    rw [heq, hnil, List.append_nil]
    exact hlines
  unfold rootStep
  simp only [rest_cursor, h.blankWidth, cursor_drop p hle]
  generalize c.drop (Layout.blankWidth c.rest) = line at hline hne
  have hseam : Seam p line.rest := by
    rcases hne with hne | hne
    · exact .inl hne
    · exact hline.seam hne
  have hspace := hseam.skipSpace
  have hskip : Lines p line.skipLine.rest := hline.of_suffix (Cursor.rest_drop_suffix line _)
  simp only [cursor_skipSpace hseam, rest_cursor, hspace.eq_nil, hseam.spaceWidth,
    nextPos_cursor hspace, cursor_skipLine hseam, headerTokens_cursor hseam,
    commentTokens_cursor hseam]
  split
  · exact ⟨rfl, hspace.lines⟩
  · split
    · refine ⟨?_, hline⟩
      simp only [Scanner.abort, nextPos_cursor hseam]
      rfl
    · split
      · rename_i heq
        obtain ⟨rest, hrest, -⟩ := hseam.cons heq
        simp only [hrest]
        exact ⟨rfl, hskip⟩
      · rename_i heq
        obtain ⟨rest, hrest, -⟩ := hseam.cons heq
        simp only [hrest]
        exact ⟨rfl, hskip⟩
      -- what follows the piece does not make a header or a comment of a key
      · rename_i hbracket hslash
        split
        · rename_i tail hrest
          exact absurd (by rw [hrest]; rfl) (hbracket (tail ++ p.tail))
        · rename_i tail hrest
          exact absurd (by rw [hrest]; rfl) (hslash (tail ++ p.tail))
        · exact kept_keyStep hseam

/-! ### Steps in a body

Inside a message the scanner stands in front of a line break of the piece, so it meets neither the
end of the piece nor what is behind it. -/

open Scanner (recover fail abort textStep bodyStep)

/-- Recovery commutes with the place: `recover` goes over the rest of the block. -/
theorem recover_cursor {c : Cursor} (h : Seam p c.rest) :
    recover (p.cursor c) = p.scanner (recover c) := by
  rw [recover, cursor_skipBlock h]
  rfl

theorem ready_recover {c : Cursor} (h : Seam p c.rest) : Ready p (recover c) :=
  h.lines.of_suffix (Cursor.rest_drop_suffix c _)

/-- A fault inside a message is `Kept`, with the recovery behind it. A fault that ends the scan
needs none. -/
theorem kept_fail (fault : Token.Fault) {c : Cursor} (h : Seam p c.rest) :
    Kept p (fail fault (p.cursor c)) (fail fault c) := by
  refine ⟨?_, ready_recover h⟩
  rw [fail, nextPos_cursor h, recover_cursor h]
  rfl

theorem kept_abort (fault : Token.Fault) {c : Cursor} (h : Seam p c.rest) :
    Kept p (abort fault (p.cursor c)) (abort fault c) := by
  refine ⟨?_, h.lines⟩
  rw [abort, nextPos_cursor h]
  rfl

/-- A run of text is `Kept`, also one that ends at an illegal symbol. -/
theorem kept_textStep {c : Cursor} (nested produced : Bool) (below : List Mode)
    (h : Seam p c.rest) :
    Kept p (textStep (p.cursor c) nested produced (below.map p.mode))
      (textStep c nested produced below) := by
  have hsplit := Word.text_append c.rest
  have hafter := h.drop_chars hsplit
  have hrun (pos : Position) :
      (if Word.text c.rest = [] then [] else
          [Scanner.token .messageText (Word.text c.rest) (p.pos pos)]) =
        (if Word.text c.rest = [] then [] else
          [Scanner.token .messageText (Word.text c.rest) pos]).map p.token := by
    split <;> rfl
  unfold textStep
  simp only [rest_cursor, h.text, cursor_drop_chars hsplit, nextPos_cursor h]
  generalize c.drop (Word.text c.rest).length = after at hafter
  rw [hafter.head?, hrun]
  cases hfault : after.rest.head?.bind Symbol.fault? with
  | some fault =>
    refine ⟨?_, ready_recover hafter⟩
    dsimp only
    rw [nextPos_cursor hafter, recover_cursor hafter]
    simp [outcome]
  | none => exact ⟨rfl, hafter⟩

/-- Behind a continuation there is still the line break of the next line, as it has content. -/
theorem Seam.drop_continuation {c : Cursor} {width : Nat} (h : Seam p c.rest)
    (hwidth : Layout.continuationWidth? c.rest = some width) : Seam p (c.drop width).rest := by
  obtain ⟨s, rest, hdrop, -⟩ := Layout.head_drop_continuationWidth? hwidth
  refine h.of_suffix (Cursor.rest_drop_suffix c width) ?_
  rw [Cursor.rest_drop, hdrop]
  simp

theorem cursor_drop_continuation {c : Cursor} {width : Nat}
    (hwidth : Layout.continuationWidth? c.rest = some width) :
    (p.cursor c).drop width = p.cursor (c.drop width) := by
  obtain ⟨s, rest, hdrop, -⟩ := Layout.head_drop_continuationWidth? hwidth
  exact cursor_drop p (le_length_of_drop_eq_cons hdrop)

/-- A scanner that still has a `Seam` in front of it is `Ready`, whatever its mode. -/
theorem Seam.ready {s : Scanner} (h : Seam p s.cursor.rest) : Ready p s := by
  unfold Ready
  split
  · exact h.lines
  · exact h.lines
  · exact h

/-- A step in a body is `Kept`. By what stands first, it is one at an end, at a line break, at a
replacement or at text. -/
theorem kept_bodyStep {c : Cursor} (nested produced : Bool) (below : List Mode)
    (h : Seam p c.rest) :
    Kept p (bodyStep (p.cursor c) nested produced (below.map p.mode))
      (bodyStep c nested produced below) := by
  unfold bodyStep
  split
  -- the end of the file
  · rename_i heq
    have hrest := h.eq_nil.mp heq
    simp only [hrest]
    split
    · exact kept_abort _ h
    · exact ⟨rfl, h.ready⟩
  -- a line break
  · rename_i heq
    obtain ⟨rest, hrest, -⟩ := h.cons heq
    rw [rest_cursor, h.continuationWidth?, nextPos_cursor h]
    cases hwidth : Layout.continuationWidth? c.rest with
    | some width =>
      simp only [hrest, cursor_drop_continuation hwidth]
      refine ⟨?_, h.drop_continuation hwidth⟩
      cases produced <;> rfl
    | none =>
      simp only [hrest]
      split
      · exact kept_fail _ h
      · exact ⟨rfl, h.ready⟩
  -- a brace
  · rename_i heq
    obtain ⟨rest, hrest, -⟩ := h.cons heq
    simp only [hrest]
    split
    · exact ⟨rfl, h.ready⟩
    · exact kept_fail _ h
  -- the start of a replacement, which is not cut in two by the end of the piece
  · rename_i heq
    obtain ⟨rest, hrest, -⟩ := h.cons₂ heq rfl
    simp only [hrest, nesting_map_mode, cursor_drop_two hrest, nextPos_cursor h]
    split
    · exact kept_abort _ h
    · exact ⟨rfl, h.drop_two hrest rfl rfl⟩
  -- text
  · rename_i hnil hnewline hbrace hopen
    split
    · rename_i hrest
      exact absurd (h.eq_nil.mpr hrest) hnil
    · rename_i style rest hrest
      exact absurd (by rw [rest_cursor, hrest]; rfl) (hnewline style (rest ++ p.tail))
    · rename_i rest hrest
      exact absurd (by rw [rest_cursor, hrest]; rfl) (hbrace (rest ++ p.tail))
    · rename_i rest hrest
      exact absurd (by rw [rest_cursor, hrest]; rfl) (hopen (rest ++ p.tail))
    · exact kept_textStep nested produced below h

/-! ### Steps in a replacement

A fold may end the line, and goes on only if the next line with content is one of the piece. -/

open Scanner (replacementKeyStep optionName optionStep foldStep optionEndStep)

/-- The key of a replacement is `Kept`, with the position it holds (`Place.mode`). -/
theorem kept_replacementKeyStep (pos : Position) {c : Cursor} (below : List Mode)
    (h : Seam p c.rest) :
    Kept p (replacementKeyStep (p.pos pos) (p.cursor c) (below.map p.mode))
      (replacementKeyStep pos c below) := by
  have hsplit := Word.ident_append c.rest
  have hafter := h.drop_chars hsplit
  unfold replacementKeyStep
  simp only [rest_cursor, h.ident, cursor_drop_chars hsplit]
  split
  · exact kept_fail _ h
  · generalize c.drop (Word.ident c.rest).length = after at hafter
    split
    · rename_i heq
      obtain ⟨inner, hcolon, -⟩ := hafter.cons heq
      have hinner := hafter.drop_cons hcolon rfl
      have hsplit := Word.ident_append (after.drop 1).rest
      simp only [hcolon, cursor_drop_cons hcolon, rest_cursor, hinner.ident]
      split
      · refine ⟨?_, ready_recover hinner⟩
        rw [nextPos_cursor hinner, recover_cursor hinner]
        rfl
      · refine ⟨?_, hinner.drop_chars hsplit⟩
        rw [nextPos_cursor hinner, cursor_drop_chars hsplit]
        rfl
    · rename_i hno
      split
      · rename_i inner hcolon
        exact absurd (by rw [hcolon]; rfl) (hno (inner ++ p.tail))
      · exact ⟨rfl, hafter⟩

/-- What `optionName` reads ends in the piece, as an identifier or a literal does. So do its faults.
-/
theorem optionName_place {input : List Symbol} (h : Seam p input) :
    optionName (input ++ p.tail) = optionName input := by
  unfold optionName
  split
  · rename_i heq
    obtain ⟨rest, rfl, rfl⟩ := h.cons heq
    have hrest := h.of_cons rfl
    have hsplit : (Word.literal rest).map .char ++ rest.drop (Word.literal rest).length = rest :=
      Word.charsWhile_append _ rest
    have hle : (Word.literal rest).length ≤ rest.length := by
      rw [← List.length_map Symbol.char]
      exact List.IsPrefix.length_le ⟨_, hsplit⟩
    have hafter : Seam p (rest.drop (Word.literal rest).length) := by
      rw [← hsplit] at hrest
      exact hrest.of_chars
    simp only [hrest.literal, List.drop_append_of_le_length hle]
    generalize rest.drop (Word.literal rest).length = after at hafter
    split
    · rename_i heq
      obtain ⟨tail, rfl, -⟩ := hafter.cons heq
      rfl
    · rename_i hno
      rw [hafter.head?]
      cases hfault : after.head?.bind Symbol.fault? with
      | none | some fault =>
        dsimp only
        split
        · rename_i tail
          exact absurd rfl (hno (tail ++ p.tail))
        · rw [hfault]
  · rename_i hno
    split
    · rename_i rest
      exact absurd rfl (hno (rest ++ p.tail))
    · rw [h.ident, h.head?]

/-- An option is `Kept`, with a body or without one, and so is the closing brace of a replacement.
-/
theorem kept_optionStep {c : Cursor} (below : List Mode) (h : Seam p c.rest) :
    Kept p (optionStep (p.cursor c) (below.map p.mode)) (optionStep c below) := by
  unfold optionStep
  split
  -- the end of the file
  · rename_i heq
    have hrest := h.eq_nil.mp heq
    simp only [hrest]
    exact kept_abort _ h
  -- an option
  · rename_i heq
    obtain ⟨input, hrest, -⟩ := h.cons heq
    have hinner := h.drop_cons hrest rfl
    simp only [hrest, cursor_drop_cons hrest, rest_cursor, optionName_place hinner]
    generalize c.drop 1 = inner at hinner
    cases hname : optionName inner.rest with
    | error out =>
      obtain ⟨width, fault⟩ := out
      obtain ⟨cs, ⟨rest, hsplit⟩, rfl⟩ := Scanner.optionName_error hname
      dsimp only
      rw [cursor_drop_chars hsplit]
      exact kept_fail _ (hinner.drop_chars hsplit)
    | ok name =>
      have hsplit := (Scanner.optionName_append hname).symm
      have hafter := hinner.drop_chars hsplit
      dsimp only
      rw [cursor_drop_chars hsplit, nextPos_cursor hinner, rest_cursor]
      generalize inner.drop name.length = after at hafter
      split
      · rename_i heq
        obtain ⟨body, hbody, -⟩ := hafter.cons heq
        simp only [hbody, cursor_drop_cons hbody]
        exact ⟨rfl, hafter.drop_cons hbody rfl⟩
      · rename_i hno
        split
        · rename_i body hbody
          exact absurd (by rw [hbody]; rfl) (hno (body ++ p.tail))
        · rw [nextPos_cursor hafter]
          exact ⟨rfl, hafter⟩
  -- the closing brace
  · rename_i heq
    obtain ⟨rest, hrest, -⟩ := h.cons heq
    simp only [hrest, cursor_drop_cons hrest, nextPos_cursor h]
    exact ⟨rfl, (h.drop_cons hrest rfl).ready⟩
  -- anything else
  · rename_i s rest hdot hbrace heq
    obtain ⟨tail, hrest, -⟩ := h.cons heq
    split
    · rename_i hrest'
      rw [hrest] at hrest'
      cases hrest'
    · rename_i hrest'
      exact absurd (List.cons.inj (hrest.symm.trans hrest')).1 hdot
    · rename_i hrest'
      exact absurd (List.cons.inj (hrest.symm.trans hrest')).1 hbrace
    · rename_i s' rest' _ _ hrest'
      rw [(List.cons.inj (hrest.symm.trans hrest')).1]
      exact kept_fail _ h

/-- What stands between options is kept. -/
theorem kept_foldStep {c : Cursor} (below : List Mode) (h : Seam p c.rest) :
    Kept p (foldStep (p.cursor c) (below.map p.mode)) (foldStep c below) := by
  have hline := h.skipSpace
  unfold foldStep
  simp only [cursor_skipSpace h, rest_cursor, hline.continuationWidth?]
  generalize c.skipSpace = line at hline
  split
  · rename_i heq
    obtain ⟨rest, hrest, -⟩ := hline.cons heq
    cases hwidth : Layout.continuationWidth? line.rest with
    | some width =>
      simp only [hrest, cursor_drop_continuation hwidth]
      exact kept_optionStep below (hline.drop_continuation hwidth)
    | none =>
      simp only [hrest]
      exact kept_fail _ hline
  · rename_i hno
    split
    · rename_i style rest hrest
      exact absurd (by rw [hrest]; rfl) (hno style (rest ++ p.tail))
    · exact kept_optionStep below hline

/-- The end of an option body is kept. -/
theorem kept_optionEndStep {c : Cursor} (below : List Mode) (h : Seam p c.rest) :
    Kept p (optionEndStep (p.cursor c) (below.map p.mode)) (optionEndStep c below) := by
  unfold optionEndStep
  split
  · rename_i heq
    obtain ⟨rest, hrest, -⟩ := h.cons heq
    simp only [hrest, cursor_drop_cons hrest, nextPos_cursor h]
    exact ⟨rfl, h.drop_cons hrest rfl⟩
  · rename_i hno
    split
    · rename_i rest hrest
      exact absurd (by rw [rest_cursor, hrest]; rfl) (hno (rest ++ p.tail))
    · exact kept_fail _ h

/-- A step in the place is the step of the piece (`Kept`), unless the scanner is at the margin and
only blank lines are left of the piece. -/
theorem kept_step {s : Scanner} (hdone : s.isDone = false) (hstack : Scanner.Stacked s.stack)
    (h : Ready p s) (hcontent : p.tail = [] ∨ s.stack ≠ [.root] ∨ ¬ Layout.Blanks s.cursor.rest) :
    Kept p (p.scanner s).step s.step := by
  obtain ⟨c, stack⟩ := s
  match stack with
  | [] => simp [Scanner.isDone] at hdone
  | .done :: _ => simp [Scanner.isDone] at hdone
  | .root :: below =>
    obtain rfl := hstack.of_root
    exact kept_rootStep h (hcontent.imp_right fun h => h.resolve_left (by simp))
  | .body nested produced :: below => exact kept_bodyStep nested produced below h
  | .replacement (.key pos) :: below => exact kept_replacementKeyStep pos below h
  | .replacement .options :: below => exact kept_foldStep below h
  | .replacement .optionBody :: below => exact kept_optionEndStep below h

/-! ### The scan of a piece

A piece is scanned in its place step by step until it is used up, or until the scan is given up
inside of it. -/

/-- The position behind everything that is left to read, by `Position.afterAll`. It is where the
next piece starts. -/
def endPos (c : Cursor) : Position := c.pos.afterAll c.rest

/-- The end of a piece does not depend on how far it has been read, so it stays the same over a
whole scan. -/
theorem endPos_of_moved {c₀ c : Cursor} (h : Scanner.Moved c₀ c) : endPos c = endPos c₀ := by
  obtain ⟨n, rfl⟩ := h
  rw [endPos, Cursor.drop, ← Position.afterAll_append, List.take_append_drop, endPos]

/-- Positions are all that the place of a whole file changes, when its `tail` is empty. By recursion
on the scan, with `kept_step` for each step. -/
theorem run_scanner_of_tail_eq_nil (htail : p.tail = []) {s : Scanner}
    (hstack : Scanner.Stacked s.stack) (hclean : Symbol.Clean s.cursor.rest) :
    (p.scanner s).run = s.run.map p.token := by
  induction s using Scanner.step_induction with
  | stop s hdone =>
    have hdone' : (p.scanner s).isDone = true := by rw [p.isDone_scanner, hdone]
    rw [Scanner.run_of_isDone hdone, Scanner.run_of_isDone hdone', List.map_nil]
  | go s hdone ih =>
    have hdone' : (p.scanner s).isDone = false := by rw [p.isDone_scanner, hdone]
    obtain ⟨hstep, -⟩ := kept_step hdone hstack (Seam.ready (.inl htail)) (.inl htail)
    have hmove := Scanner.move_step hdone hclean
    rw [Scanner.run_of_not_isDone hdone, Scanner.run_of_not_isDone hdone', hstep, List.map_append,
      ← ih (hmove.stacked hstack) (hclean.of_suffix (Scanner.rest_step_suffix s))]
    rfl

/-- At the margin blank lines do not matter: `rootStep` starts by passing over them. -/
theorem rootStep_congr {c c' : Cursor}
    (h : c.drop (Layout.blankWidth c.rest) = c'.drop (Layout.blankWidth c'.rest))
    (stack : List Mode) : rootStep c stack = rootStep c' stack := by
  unfold rootStep
  rw [h]

/-- Where only blank lines are left of a piece the scanner goes on behind it, at the margin and at
`endPos` of the piece. -/
theorem run_scanner_of_blanks {c : Cursor} (hmargin : AtMargin p.tail)
    (hblank : Layout.Blanks c.rest) :
    Scanner.run (p.scanner ⟨c, [.root]⟩) =
      Scanner.run ⟨⟨p.tail, p.pos (endPos c)⟩, [.root]⟩ := by
  have hwidth : Layout.blankWidth p.tail = 0 := blankWidthFrom_append hmargin [] 0
  have hwidth' : Layout.blankWidth (p.cursor c).rest = c.rest.length := by
    rw [rest_cursor, Layout.blankWidth_append hblank, hwidth, Nat.add_zero]
  have hline : (p.cursor c).drop (Layout.blankWidth (p.cursor c).rest) =
      Cursor.drop ⟨p.tail, p.pos (endPos c)⟩ (Layout.blankWidth p.tail) := by
    rw [hwidth', hwidth, Cursor.drop_zero, cursor_drop p (Nat.le_refl _)]
    simp [cursor, Cursor.drop, endPos]
  have hstep : Scanner.step (p.scanner ⟨c, [.root]⟩) =
      Scanner.step ⟨⟨p.tail, p.pos (endPos c)⟩, [.root]⟩ := rootStep_congr hline [.root]
  have hdone : (p.scanner ⟨c, [.root]⟩).isDone = false := rfl
  rw [Scanner.run_of_not_isDone hdone, hstep]
  exact (Scanner.run_of_not_isDone rfl).symm

/-- Whole lines of spaces are blank lines. -/
theorem blanks_of_spaces {lines run : List Symbol} (hlines : Layout.Blanks lines)
    (hrun : Layout.Spaces run) (h : lines ++ run = [] ∨ Closed (lines ++ run)) :
    Layout.Blanks (lines ++ run) := by
  by_cases hnil : run = []
  · rw [hnil, List.append_nil]
    exact hlines
  · rcases h with h | h
    · exact absurd (List.append_eq_nil_iff.mp h).2 hnil
    · obtain ⟨s, hs, hnewline⟩ := (h.of_append hnil).exists_newline
      rw [hrun.isNewline_eq_false s hs] at hnewline
      cases hnewline

/-- Blank lines are scanned as the end of the file, with no token but the one that says so
(`Token.Kind.eof`). -/
theorem run_of_blanks {c : Cursor} (h : Layout.Blanks c.rest) :
    ∃ eof, Scanner.run ⟨c, [.root]⟩ = [eof] ∧ eof.kind = .eof := by
  have hwidth := Layout.blankWidth_append h []
  rw [List.append_nil, show Layout.blankWidth [] = 0 from rfl, Nat.add_zero] at hwidth
  have hend : (c.drop (Layout.blankWidth c.rest)).skipSpace.rest = [] := by
    simp [Cursor.skipSpace, hwidth]
  have hstep : Scanner.step ⟨c, [.root]⟩ =
      ([Scanner.token .eof [] (c.drop (Layout.blankWidth c.rest)).skipSpace.nextPos],
        ⟨(c.drop (Layout.blankWidth c.rest)).skipSpace, [.done]⟩) := by
    show rootStep c [.root] = _
    unfold rootStep
    dsimp only
    rw [hend]
    rfl
  rw [Scanner.run_of_not_isDone rfl, hstep, Scanner.run_of_isDone rfl]
  exact ⟨_, rfl, rfl⟩

/-- The scan of a piece of whole lines in its place: up to its end it is the scan of the piece, as
each step is `Kept`. If that comes to the end of the piece, the scan goes on at the margin behind
it, at `endPos`; otherwise it has been given up, and nothing that follows matters. -/
theorem run_scanner (hmargin : AtMargin p.tail) {s : Scanner} (hstack : Scanner.Stacked s.stack)
    (hclean : Symbol.Clean s.cursor.rest) (hready : Ready p s)
    (hlines : s.cursor.rest = [] ∨ Closed s.cursor.rest) :
    (∃ tokens eof, s.run = tokens ++ [eof] ∧ eof.kind = .eof ∧
      (p.scanner s).run =
        tokens.map p.token ++ Scanner.run ⟨⟨p.tail, p.pos (endPos s.cursor)⟩, [.root]⟩) ∨
      ((∀ t ∈ s.run, t.kind ≠ .eof) ∧ (p.scanner s).run = s.run.map p.token) := by
  induction s using Scanner.step_induction with
  | stop s hdone =>
    have hdone' : (p.scanner s).isDone = true := by rw [p.isDone_scanner, hdone]
    rw [Scanner.run_of_isDone hdone, Scanner.run_of_isDone hdone']
    exact .inr ⟨by simp, rfl⟩
  | go s hdone ih =>
    have hdone' : (p.scanner s).isDone = false := by rw [p.isDone_scanner, hdone]
    have hmove := Scanner.move_step hdone hclean
    by_cases hblank : s.stack = [.root] ∧ Layout.Blanks s.cursor.rest
    -- only blank lines are left of the piece: the scan goes on behind them
    · obtain ⟨c, stack⟩ := s
      obtain ⟨rfl, hblank⟩ := hblank
      obtain ⟨eof, hrun, heof⟩ := run_of_blanks hblank
      exact .inl ⟨[], eof, hrun, heof, run_scanner_of_blanks hmargin hblank⟩
    · have hcontent : s.stack ≠ [.root] ∨ ¬ Layout.Blanks s.cursor.rest := by
        rw [← Classical.not_and_iff_not_or_not]
        exact hblank
      obtain ⟨hstep, hready'⟩ := kept_step hdone hstack hready (.inr hcontent)
      -- a step that yields the end of the file would have found only blank lines
      rcases hmove.eof with heof | ⟨below, pos, hroot, -, -, lines, run, hl, hr, hrest⟩
      · rw [Scanner.run_of_not_isDone hdone, Scanner.run_of_not_isDone hdone', hstep]
        rcases ih (hmove.stacked hstack)
          (hclean.of_suffix (Scanner.rest_step_suffix s)) hready'
          (whole_of_suffix hlines (Scanner.rest_step_suffix s)) with
          ⟨tokens, eof, hrun, hkind, hrun'⟩ | ⟨hno, hrun'⟩
        · refine .inl ⟨s.step.1 ++ tokens, eof, by rw [hrun, List.append_assoc], hkind, ?_⟩
          rw [endPos_of_moved (Scanner.moved_step s)] at hrun'
          rw [List.map_append, List.append_assoc, ← hrun']
          rfl
        · refine .inr ⟨List.forall_mem_append.mpr ⟨heof, hno⟩, ?_⟩
          rw [List.map_append, ← hrun']
          rfl
      · have hroot' : s.stack = [.root] := by
          rw [hroot] at hstack ⊢
          rw [hstack.of_root]
        rw [hrest] at hlines hblank
        exact absurd ⟨hroot', blanks_of_spaces hl hr hlines⟩ hblank

end Place

end MessageCatalog
