import MessageCatalog.Proofs.Moves
import MessageCatalog.Proofs.Symbols

/-!
# MessageCatalog.Proofs.Restyling

Files whose line breaks are written another way. `restyle` writes every line feed of a byte string
as a line break of a given style. If the bytes hold no carriage return, then the symbols change in
the style of their line breaks only (`start_restyle`), however the bytes around a line break are
broken: no window of the decoder reaches over one (`decodeChar_restyle_eq_none`).

No measure of `Layout` or `Word` looks at the style of a line break. There is one lemma for each,
all of the same form and tagged for `simp`, so that a step of the scanner on restyled symbols
simplifies to the step on the symbols. Positions are not the same, for a line break of two bytes
takes the offset further; what stays is the line and the column (`Position.Level`).

The scans of the two files are compared in `MessageCatalog.Proofs.LineEndings`.
-/

namespace MessageCatalog

open MessageCatalog.Symbol (ofRunes isSpace isNewline)
open Utf8 (runes)

/-! ### Bytes

Restyling goes byte by byte, so it says nothing about characters. That characters survive is the
point of the lemmas on prefixes. -/

/-- The bytes of a line break in its style: one byte, or two. -/
def LineBreak.bytes : LineBreak → List UInt8
  | .lf => [0x0A]
  | .crlf => [0x0D, 0x0A]
  | .cr => [0x0D]

/-- The bytes with every line feed written as a line break of the style (`LineBreak.bytes`). -/
def restyle (style : LineBreak) (bytes : List UInt8) : List UInt8 :=
  bytes.flatMap fun b => if b = 0x0A then style.bytes else [b]

section

variable (style : LineBreak)

/-- A line feed becomes a line break of the style, and any other byte stays as it is. -/
theorem restyle_lf (bytes : List UInt8) :
    restyle style (0x0A :: bytes) = style.bytes ++ restyle style bytes := by
  rw [restyle, List.flatMap_cons, if_pos rfl, restyle]

theorem restyle_cons {b : UInt8} (h : b ≠ 0x0A) (bytes : List UInt8) :
    restyle style (b :: bytes) = b :: restyle style bytes := by
  rw [restyle, List.flatMap_cons, if_neg h, restyle, List.singleton_append]

/-- What holds no line feed is left as it is by `restyle`. So encodings of characters stay whole. -/
theorem restyle_append {xs : List UInt8} (h : ∀ x ∈ xs, x ≠ 0x0A) (bytes : List UInt8) :
    restyle style (xs ++ bytes) = xs ++ restyle style bytes := by
  induction xs with
  | nil => rfl
  | cons x xs ih =>
    obtain ⟨hx, hxs⟩ := List.forall_mem_cons.mp h
    rw [List.cons_append, restyle_cons style hx, ih hxs, List.cons_append]

/-- With carriage returns for line breaks there is no line feed left by `restyle`, so that no
carriage return gets one behind it. -/
theorem head?_restyle_cr (bytes : List UInt8) : (restyle .cr bytes).head? ≠ some 0x0A := by
  cases bytes with
  | nil => simp [restyle]
  | cons b bytes =>
    by_cases hb : b = 0x0A
    · subst hb
      rw [restyle_lf]
      simp [LineBreak.bytes]
    · rw [restyle_cons _ hb]
      simpa using hb

variable {style}

/-- A run in front of the first line break stands at the start of both: what `restyle` leaves there
was there before. -/
theorem prefix_of_prefix_restyle {xs : List UInt8} (hxs : ∀ x ∈ xs, x ≠ 0x0A ∧ x ≠ 0x0D) :
    ∀ {bytes : List UInt8}, xs <+: restyle style bytes → xs <+: bytes := by
  induction xs with
  | nil => exact fun _ => List.nil_prefix
  | cons x xs ih =>
    intro bytes h
    obtain ⟨⟨hlf, hcr⟩, hxs⟩ := List.forall_mem_cons.mp hxs
    cases bytes with
    | nil => exact absurd (List.prefix_nil.mp h) (List.cons_ne_nil x xs)
    | cons b bytes =>
      by_cases hb : b = 0x0A
      -- the run would start with a line break
      · subst hb
        rw [restyle_lf] at h
        cases style with
        | lf => exact absurd (List.cons_prefix_cons.mp h).1 hlf
        | crlf => exact absurd (List.cons_prefix_cons.mp h).1 hcr
        | cr => exact absurd (List.cons_prefix_cons.mp h).1 hcr
      · rw [restyle_cons style hb] at h
        obtain ⟨rfl, htail⟩ := List.cons_prefix_cons.mp h
        exact List.cons_prefix_cons.mpr ⟨rfl, ih hxs htail⟩

/-- A run without line breaks stands at the start of both or of neither: `restyle` changes nothing
before the first line break. This is so of encodings, and of the byte order mark. -/
theorem prefix_restyle_iff {xs bytes : List UInt8} (hxs : ∀ x ∈ xs, x ≠ 0x0A ∧ x ≠ 0x0D) :
    xs <+: restyle style bytes ↔ xs <+: bytes := by
  refine ⟨prefix_of_prefix_restyle hxs, ?_⟩
  rintro ⟨rest, rfl⟩
  rw [restyle_append style fun x hx => (hxs x hx).1]
  exact List.prefix_append _ _

/-- A byte that starts no character (`Utf8.decodeChar`) starts none when the line breaks behind it
change, as no encoding reaches over one. -/
theorem decodeChar_restyle_eq_none {b : UInt8} {bytes : List UInt8}
    (h : Utf8.decodeChar (b :: bytes) = none) :
    Utf8.decodeChar (b :: restyle style bytes) = none := by
  cases hc : Utf8.decodeChar (b :: restyle style bytes) with
  | none => rfl
  | some c =>
    have hb : ¬ b.toNat < 0x80 := fun hlt => Utf8.decodeChar_ne_none_of_lt hlt h
    have hprefix := Utf8.decodeChar_eq_some_iff.mp hc
    -- the character is no line break, so its encoding stands in front of the first one
    have hlead {d : Char} {x : UInt8} (hd : String.utf8EncodeChar d = [x]) (hx : x.toNat < 0x80) :
        c ≠ d := by
      rintro rfl
      rw [hd] at hprefix
      rw [(List.cons_prefix_cons.mp hprefix).1] at hx
      exact hb hx
    have hbreak := ne_of_mem_encodeChar (hlead (d := '\n') (x := 0x0A) (by decide) (by decide))
      (hlead (d := '\r') (x := 0x0D) (by decide) (by decide))
    have hlf : b ≠ 0x0A := fun heq => hb (by rw [heq]; decide)
    rw [← restyle_cons style hlf, prefix_restyle_iff hbreak] at hprefix
    rw [Utf8.decodeChar_eq_some_iff.mpr hprefix] at h
    cases h

end

/-! ### Symbols

With line feeds only, a line break is one symbol before and after. -/

/-- The symbol with a line break of the style in place of any other. Symbols are restyled one by
one, and bytes are not. -/
def Symbol.restyle (style : LineBreak) : Symbol → Symbol
  | .newline _ => .newline style
  | s => s

/-- Bytes without carriage returns are read the same way with other line breaks: `restyle` of the
bytes is read as `Symbol.restyle` of the symbols. -/
theorem Reads.restyle (style : LineBreak) {bytes : List UInt8} {input : List Symbol}
    (h : Reads bytes input) (hcr : 0x0D ∉ bytes) :
    Reads (MessageCatalog.restyle style bytes) (input.map (Symbol.restyle style)) := by
  induction h with
  | nil => exact .nil
  | lf _ ih =>
    have hrest := ih fun hmem => hcr (List.mem_cons_of_mem _ hmem)
    rw [restyle_lf]
    cases style with
    | lf => exact .lf hrest
    | crlf => exact .crlf hrest
    | cr => exact .cr (head?_restyle_cr _) hrest
  | crlf | cr => exact absurd List.mem_cons_self hcr
  | char hn hr _ ih =>
    have hrest := ih fun hmem => hcr (List.mem_append_right _ hmem)
    rw [restyle_append style fun x hx => (ne_of_mem_encodeChar hn hr x hx).1]
    exact .char hn hr hrest
  | @malformed b bytes input hb _ ih =>
    have hrest := ih fun hmem => hcr (List.mem_cons_of_mem _ hmem)
    have hlf : b ≠ 0x0A := by
      rintro rfl
      exact Utf8.decodeChar_ne_none_of_lt (by decide) hb
    rw [restyle_cons style hlf]
    exact .malformed (decodeChar_restyle_eq_none hb) hrest

/-- Where a line break is read, there is a line feed, if there is no carriage return: as many bytes
behind the start as the offset has grown. By induction on `Reads`. -/
theorem Reads.getElem?_of_newline {bytes : List UInt8} {input : List Symbol} (h : Reads bytes input)
    (hcr : 0x0D ∉ bytes) :
    ∀ {n : Nat} {style : LineBreak} (pos : Position), input[n]? = some (.newline style) →
      ∃ k : Nat, (pos.afterAll (input.take n)).offset = pos.offset + k ∧ bytes[k]? = some 0x0A := by
  induction h with
  | nil => intro n style pos hn; simp at hn
  | @lf bytes input _ ih =>
    intro n style pos hn
    cases n with
    | zero => exact ⟨0, by simp, rfl⟩
    | succ n =>
      obtain ⟨k, hk, hbyte⟩ := ih (fun hmem => hcr (List.mem_cons_of_mem _ hmem))
        (pos.after (.newline .lf)) (by simpa using hn)
      refine ⟨k + 1, ?_, by simpa using hbyte⟩
      rw [List.take_succ_cons, Position.afterAll_cons, hk]
      have hsize : '\n'.utf8Size = 1 := by decide
      simp only [Position.after, Position.advance, if_true, hsize]
      omega
  | crlf | cr => exact absurd List.mem_cons_self hcr
  | @char c bytes input hn' hr _ ih =>
    intro n style pos hn
    cases n with
    | zero => simp at hn
    | succ n =>
      obtain ⟨k, hk, hbyte⟩ := ih (fun hmem => hcr (List.mem_append_right _ hmem))
        (pos.after (.char c)) (by simpa using hn)
      refine ⟨(String.utf8EncodeChar c).length + k, ?_, ?_⟩
      · rw [List.take_succ_cons, Position.afterAll_cons, hk, String.length_utf8EncodeChar]
        simp only [Position.after, Position.advance, if_neg hn']
        omega
      · rw [List.getElem?_append_right (Nat.le_add_right _ _), Nat.add_sub_cancel_left, hbyte]
  | @malformed b bytes input hb _ ih =>
    intro n style pos hn
    cases n with
    | zero => simp at hn
    | succ n =>
      obtain ⟨k, hk, hbyte⟩ := ih (fun hmem => hcr (List.mem_cons_of_mem _ hmem))
        (pos.after .malformed) (by simpa using hn)
      refine ⟨k + 1, ?_, by simpa using hbyte⟩
      rw [List.take_succ_cons, Position.afterAll_cons, hk]
      simp only [Position.after, Position.advanceByte]
      omega

/-! ### Measures

Every function that the scanner looks ahead with is invariant. -/

section

variable (style : LineBreak)

/-- A line break of any style is no space, and it stays a line break. Nothing becomes one. -/
@[simp] theorem Symbol.isSpace_restyle (s : Symbol) : isSpace (s.restyle style) = isSpace s := by
  cases s <;> rfl

@[simp] theorem Symbol.isNewline_restyle (s : Symbol) :
    isNewline (s.restyle style) = isNewline s := by
  cases s <;> rfl

/-- A line break of any style is legal, so `Symbol.fault?` is the same. -/
@[simp] theorem Symbol.fault?_restyle (s : Symbol) : (s.restyle style).fault? = s.fault? := by
  cases s <;> rfl

/-- An illegal symbol (`Symbol.fault?`) stands at the start of both or of neither. -/
theorem Symbol.fault?_head?_restyle (input : List Symbol) :
    (input.map (Symbol.restyle style)).head?.bind fault? = input.head?.bind fault? := by
  rw [List.head?_map]
  cases input.head? with
  | none => rfl
  | some s => exact s.fault?_restyle style

@[simp] theorem Symbol.restyle_char (c : Char) :
    (Symbol.char c).restyle style = .char c := rfl

/-- A character stands where it stood, as no line break becomes one. -/
theorem Symbol.restyle_eq_char {s : Symbol} {c : Char} (h : s.restyle style = .char c) :
    s = .char c := by
  cases s with
  | char d => exact h
  | newline | malformed => cases h

/-- A character at the start stood there before. -/
theorem Symbol.of_map_restyle {input rest : List Symbol} {c : Char}
    (h : input.map (Symbol.restyle style) = .char c :: rest) :
    ∃ tail, input = .char c :: tail ∧ rest = tail.map (Symbol.restyle style) := by
  obtain ⟨s, tail, rfl, hs, htail⟩ := List.map_eq_cons_iff.mp h
  exact ⟨tail, by rw [restyle_eq_char style hs], htail.symm⟩

namespace Layout

/-- Spaces have the same width (`spaceWidth`). So have lines, blocks and blank lines, in symbols. -/
@[simp] theorem spaceWidth_restyle (input : List Symbol) :
    spaceWidth (input.map (Symbol.restyle style)) = spaceWidth input := by
  rw [spaceWidth, List.takeWhile_map, List.length_map, spaceWidth]
  congr 2
  funext s
  exact s.isSpace_restyle style

@[simp] theorem lineWidth_restyle (input : List Symbol) :
    lineWidth (input.map (Symbol.restyle style)) = lineWidth input := by
  induction input with
  | nil => rfl
  | cons s rest ih =>
    cases s with
    | newline => rfl
    | char | malformed => simpa [lineWidth, Symbol.restyle] using ih

theorem opensInside_restyle (input : List Symbol) :
    opensInside (input.map (Symbol.restyle style)) = opensInside input := by
  cases input with
  | nil => rfl
  | cons s rest => simp [opensInside]

/-- Blocks have the same width in symbols (`blockWidth`), as whether a line goes on with a message
does not depend on the style. -/
@[simp] theorem blockWidth_restyle (input : List Symbol) :
    blockWidth (input.map (Symbol.restyle style)) = blockWidth input := by
  induction input with
  | nil => rfl
  | cons s rest ih =>
    cases s with
    | newline => simp [blockWidth, Symbol.restyle, opensInside_restyle, ih]
    | char | malformed => simpa [blockWidth, Symbol.restyle] using ih

theorem blankWidthFrom_restyle (input : List Symbol) :
    ∀ pending, blankWidthFrom pending (input.map (Symbol.restyle style)) =
      blankWidthFrom pending input := by
  induction input with
  | nil => exact fun _ => rfl
  | cons s rest ih =>
    intro pending
    cases s with
    | newline => simp [blankWidthFrom, Symbol.restyle, ih]
    | char c => simp [blankWidthFrom, Symbol.restyle, ih]
    | malformed => rfl

/-- Blank lines have the same width in symbols. -/
@[simp] theorem blankWidth_restyle (input : List Symbol) :
    blankWidth (input.map (Symbol.restyle style)) = blankWidth input :=
  blankWidthFrom_restyle style input 0

/-- Indented lines are found in the same place by `indentWidth?`, and so are continuations. -/
@[simp] theorem indentWidth?_restyle (input : List Symbol) :
    indentWidth? (input.map (Symbol.restyle style)) = indentWidth? input := by
  have hhead (line : List Symbol) :
      (line.map (Symbol.restyle style)).head? = some (.char '\t') ↔
        line.head? = some (.char '\t') := by
    cases line with
    | nil => simp
    | cons s rest => cases s <;> simp [Symbol.restyle]
  unfold indentWidth?
  dsimp only
  simp only [blankWidth_restyle, ← List.map_drop, spaceWidth_restyle, ne_eq, List.map_eq_nil_iff,
    hhead]

@[simp] theorem continuationWidth?_restyle (input : List Symbol) :
    continuationWidth? (input.map (Symbol.restyle style)) = continuationWidth? input := by
  cases input with
  | nil => rfl
  | cons s rest => cases s <;> simp [continuationWidth?, Symbol.restyle]

end Layout

namespace Word

/-- Runs of characters (`charsWhile`) are the same, whatever the test. Therefore identifiers and
literals are too. -/
theorem charsWhile_restyle (p : Char → Bool) (input : List Symbol) :
    charsWhile p (input.map (Symbol.restyle style)) = charsWhile p input := by
  induction input with
  | nil => rfl
  | cons s rest ih => cases s <;> simp [charsWhile, Symbol.restyle, ih]

@[simp] theorem ident_restyle (input : List Symbol) :
    ident (input.map (Symbol.restyle style)) = ident input := by
  cases input with
  | nil => rfl
  | cons s rest => cases s <;> simp [ident, Symbol.restyle, charsWhile_restyle]

theorem dottedRest_restyle (input : List Symbol) :
    dottedRest (input.map (Symbol.restyle style)) = dottedRest input := by
  fun_induction dottedRest input with
  | case1 c rest hc ih => simp [dottedRest, hc, ih]
  | case2 c rest hc => simp [dottedRest, hc]
  | case3 c rest hdot hc ih =>
    rw [List.map_cons, Symbol.restyle_char, dottedRest, if_pos hc, ih]
    intro c' rest' heq hc'
    obtain ⟨tail, rfl, -⟩ := Symbol.of_map_restyle style heq
    exact hdot c' tail rfl hc'
  | case4 c rest hdot hc =>
    rw [List.map_cons, Symbol.restyle_char, dottedRest, if_neg hc]
    intro c' rest' heq hc'
    obtain ⟨tail, rfl, -⟩ := Symbol.of_map_restyle style heq
    exact hdot c' tail rfl hc'
  | case5 input _ hchar =>
    cases input with
    | nil => rfl
    | cons s rest =>
      cases s with
      | char c => exact absurd rfl (hchar c rest)
      | _ => rfl

@[simp] theorem dottedName_restyle (input : List Symbol) :
    dottedName (input.map (Symbol.restyle style)) = dottedName input := by
  cases input with
  | nil => rfl
  | cons s rest => cases s <;> simp [dottedName, Symbol.restyle, dottedRest_restyle]

/-- Text is the same. By induction on the symbols, as `text` looks ahead at a dollar sign. -/
@[simp] theorem text_restyle (input : List Symbol) :
    text (input.map (Symbol.restyle style)) = text input := by
  fun_induction text input with
  | case1 rest => rfl
  | case2 c rest hopen hc ih =>
    rw [List.map_cons, Symbol.restyle_char, text, if_pos hc, ih]
    intro rest' heq hc'
    obtain ⟨tail, rfl, -⟩ := Symbol.of_map_restyle style heq
    exact hopen tail rfl hc'
  | case3 c rest hopen hc =>
    rw [List.map_cons, Symbol.restyle_char, text, if_neg hc]
    intro rest' heq hc'
    obtain ⟨tail, rfl, -⟩ := Symbol.of_map_restyle style heq
    exact hopen tail rfl hc'
  | case4 input _ hchar =>
    cases input with
    | nil => rfl
    | cons s rest =>
      cases s with
      | char c => exact absurd rfl (hchar c rest)
      | _ => rfl

@[simp] theorem literal_restyle (input : List Symbol) :
    literal (input.map (Symbol.restyle style)) = literal input :=
  charsWhile_restyle style _ input

@[simp] theorem commentWidth_restyle (input : List Symbol) :
    commentWidth (input.map (Symbol.restyle style)) = commentWidth input := by
  rw [commentWidth, List.takeWhile_map, List.length_map, commentWidth]
  congr 2
  funext s
  simp

end Word

end

/-! ### Positions

Lines and columns are kept by every symbol, whatever the style of a line break. Offsets are not. -/

/-- The positions are on the same line and in the same column. Their offsets may differ, as line
breaks are of different lengths. -/
def Position.Level (pos pos' : Position) : Prop :=
  pos'.line = pos.line ∧ pos'.column = pos.column

namespace Position.Level

variable {pos pos' : Position}

/-- Over a character two positions stay `Level`, and over a byte that is malformed too. -/
theorem advance (h : Level pos pos') (c : Char) : Level (pos.advance c) (pos'.advance c) := by
  unfold Position.advance
  split
  · exact ⟨congrArg (· + 1) h.1, rfl⟩
  · exact ⟨h.1, congrArg (· + 1) h.2⟩

theorem advanceByte (h : Level pos pos') : Level pos.advanceByte pos'.advanceByte :=
  ⟨h.1, congrArg (· + 1) h.2⟩

/-- Every line break leads to the start of the next line, whatever its style. -/
theorem newline (h : Level pos pos') (style style' : LineBreak) :
    Level (pos.after (.newline style)) (pos'.after (.newline style')) := by
  cases style <;> cases style' <;> exact ⟨congrArg (· + 1) h.1, rfl⟩

/-- Over a symbol, in its style, two positions stay `Level`. -/
theorem after (h : Level pos pos') (style : LineBreak) (s : Symbol) :
    Level (pos.after s) (pos'.after (s.restyle style)) := by
  cases s with
  | char c => exact h.advance c
  | newline style' => exact h.newline style' style
  | malformed => exact h.advanceByte

/-- Over symbols, in their style, positions stay `Level`. -/
theorem afterAll (style : LineBreak) (run : List Symbol) :
    ∀ {pos pos' : Position}, Level pos pos' →
      Level (pos.afterAll run) (pos'.afterAll (run.map (Symbol.restyle style))) := by
  induction run with
  | nil => exact fun h => h
  | cons s run ih => exact fun h => ih (h.after style s)

/-- At the next symbol two positions are `Level`, unless that is a line break. -/
theorem peeked (h : Level pos pos') (style : LineBreak) {next : Option Symbol}
    (hnext : ∀ style', next ≠ some (.newline style')) :
    Level (pos.peeked next) (pos'.peeked (next.map (Symbol.restyle style))) := by
  cases next with
  | none => exact h.advanceByte
  | some s =>
    cases s with
    | char c => exact h.advance c
    | newline style' => exact absurd rfl (hnext style')
    | malformed => exact h.advanceByte

end Position.Level

/-! ### Files

A byte order mark holds no line break, so it stays where it is. -/

/-- The cursor with line breaks of the style in front of it (`Symbol.restyle`). Its position stays.
-/
def Cursor.restyle (style : LineBreak) (c : Cursor) : Cursor :=
  { c with rest := c.rest.map (Symbol.restyle style) }

theorem ne_of_mem_byteOrderMark : ∀ x ∈ Utf8.byteOrderMark, x ≠ 0x0A ∧ x ≠ 0x0D := by
  simp [Utf8.byteOrderMark]

/-- A byte order mark (`Utf8.markWidth`) stands in front of both files or of neither, as it holds no
line break. -/
theorem markWidth_restyle (style : LineBreak) (bytes : List UInt8) :
    Utf8.markWidth (restyle style bytes) = Utf8.markWidth bytes := by
  have hprefix : Utf8.byteOrderMark.isPrefixOf (restyle style bytes) =
      Utf8.byteOrderMark.isPrefixOf bytes := by
    rw [Bool.eq_iff_iff, List.isPrefixOf_iff_prefix, List.isPrefixOf_iff_prefix,
      prefix_restyle_iff ne_of_mem_byteOrderMark]
  rw [Utf8.markWidth, hprefix, Utf8.markWidth]

/-- Restyling does not touch the mark, so what is behind it is restyled by itself. -/
theorem drop_markWidth_restyle (style : LineBreak) (bytes : List UInt8) :
    (restyle style bytes).drop (Utf8.markWidth bytes) =
      restyle style (bytes.drop (Utf8.markWidth bytes)) := by
  unfold Utf8.markWidth
  split
  · rename_i hmark
    obtain ⟨rest, rfl⟩ := List.isPrefixOf_iff_prefix.mp hmark
    rw [restyle_append style fun x hx => (ne_of_mem_byteOrderMark x hx).1, List.drop_left,
      List.drop_left]
  · rfl

/-- A file without carriage returns is the same file with other line breaks: a `Cursor.start` of the
one is that of the other, restyled. -/
theorem start_restyle (style : LineBreak) (file : String) {bytes : List UInt8}
    (hcr : 0x0D ∉ bytes) :
    Cursor.start file (restyle style bytes) = (Cursor.start file bytes).restyle style := by
  have hreads := (reads_ofRunes_runes (bytes.drop (Utf8.markWidth bytes))).restyle style
    fun hmem => hcr (List.mem_of_mem_drop hmem)
  simp only [Cursor.start, Cursor.restyle, markWidth_restyle, drop_markWidth_restyle,
    ← hreads.eq_ofRunes]

/-- In a file without carriage returns, the position of a line break (`Cursor.nextPos`) is that of a
line feed, wherever the cursor is. -/
theorem getElem?_of_newline {file : String} {bytes : List UInt8} (hcr : 0x0D ∉ bytes) {n : Nat}
    {style : LineBreak}
    (h : ((Cursor.start file bytes).drop n).rest.head? = some (.newline style)) :
    bytes[((Cursor.start file bytes).drop n).nextPos.offset.toNat]? = some 0x0A := by
  have hreads := reads_ofRunes_runes (bytes.drop (Utf8.markWidth bytes))
  obtain ⟨k, hk, hbyte⟩ := @Reads.getElem?_of_newline _ _ hreads
    (fun hmem => hcr (List.mem_of_mem_drop hmem)) n style (Cursor.start file bytes).pos
    (by rwa [Cursor.rest_drop, List.head?_drop] at h)
  have hoffset :
      ((Cursor.start file bytes).drop n).nextPos.offset = (Utf8.markWidth bytes + k : Nat) := by
    have hstart : (Cursor.start file bytes).pos.offset = -1 + (Utf8.markWidth bytes : Int) := rfl
    have hpeek : ∀ pos : Position,
        (pos.peeked (some (.newline style))).offset = pos.offset + 1 := by
      intro pos
      cases style <;> rfl
    rw [Cursor.nextPos, h, hpeek]
    refine (congrArg (· + 1) hk).trans ?_
    rw [hstart]
    omega
  rw [hoffset, Int.toNat_natCast, ← List.getElem?_drop]
  exact hbyte

end MessageCatalog
