import MessageCatalog.Proofs.Locality
import MessageCatalog.Proofs.Rereading

/-!
# MessageCatalog.Proofs.RoundTrip

The round trip through canonical source. Let `m` be a message of a file without errors. Its key,
with its canonical form as the body, is a file without errors that holds one message: `m` in normal
form (`parse_canonical`).

The canonical form is one line (`oneLine_canonical`), so the file is the line of the key and the
indented line of the body (`rest_start_encode`). The key is read at the margin (`keyStep_line`), the
body is read back as any other is (`goes_body`), and the end of the file closes the message
(`run_blanks_body`). The message is closed as it was read, for it does not end in a blank.

What is needed of `m` is that it is sound (`SoundMessage`), which the messages of files without
errors are.
-/

namespace MessageCatalog

open Piece
open Scanner (maxNesting nesting)
open Layout (Blanks)

/-! ### One line

A line break is neither an identifier, nor text, nor part of a literal, so nothing that is written
in canonical form holds one. The induction is on the room for nested replacements. -/

/-- The text has no line break. Below its key, a message in canonical form must be one line, since
`parse` reads it from there. -/
def OneLine (t : String) : Prop := ∀ c ∈ t.toList, c ≠ '\n' ∧ c ≠ '\r'

/-- Two texts without line breaks are one line together, so `OneLine` is shown part by part. -/
theorem OneLine.append {t t' : String} (h : OneLine t) (h' : OneLine t') : OneLine (t ++ t') := by
  intro c hc
  rw [String.toList_append] at hc
  rcases List.mem_append.mp hc with hc | hc
  · exact h c hc
  · exact h' c hc

/-- An identifier is one line. So are a run of text and a literal. -/
theorem oneLine_of_isIdent {t : String} (h : Word.isIdent t.toList = true) : OneLine t := by
  intro c hc
  constructor
  · rintro rfl
    exact absurd (Word.of_mem_isIdent h hc) (by decide)
  · rintro rfl
    exact absurd (Word.of_mem_isIdent h hc) (by decide)

theorem oneLine_of_isText {t : String} (h : Word.isText t.toList = true) : OneLine t := by
  intro c hc
  rw [Word.isText, Bool.and_eq_true, List.all_eq_true] at h
  obtain ⟨-, hn, hr, -⟩ := Word.isTextChar_iff.mp (h.1 c hc)
  exact ⟨hn, hr⟩

theorem oneLine_of_literal {t : String} (h : t.toList.all Word.isLiteralChar = true) :
    OneLine t := by
  intro c hc
  obtain ⟨-, hn, hr, -⟩ := Word.isLiteralChar_iff.mp (List.all_eq_true.mp h c hc)
  exact ⟨hn, hr⟩

/-- An option is one line if its name and its body are, as `optionSource` adds signs only. -/
theorem oneLine_optionSource {name body : String} (hname : OneLine name) (hbody : OneLine body) :
    OneLine (optionSource name body) := by
  have hpunctuation : OneLine "." ∧ OneLine "\x7b" ∧ OneLine "\x7d" := by
    simp [OneLine]
  obtain ⟨hdot, hopen, hclose⟩ := hpunctuation
  exact (((hdot.append hname).append hopen).append hbody).append hclose

theorem oneLine_literalSource {t : String} (h : OneLine t) : OneLine (literalSource t) := by
  have hbrackets : OneLine "[" ∧ OneLine "]" := by simp [OneLine]
  exact (hbrackets.1.append h).append hbrackets.2

/-- Bodies for numbers (`canonicalNumbers`) are one line if each of them is, and so are bodies for
categories and cases. -/
theorem oneLine_canonicalNumbers {es : List (Int × Message)} (h : ∀ e ∈ es, OneLine e.2.canonical) :
    OneLine (canonicalNumbers es) := by
  induction es with
  | nil => simp [canonicalNumbers, OneLine]
  | cons e es ih =>
    rw [canonicalNumbers]
    refine (oneLine_optionSource (oneLine_literalSource ?_) (h e List.mem_cons_self)).append
      (ih fun e' he' => h e' (List.mem_cons_of_mem e he'))
    exact oneLine_of_literal (isLiteralChar_showInt e.1)

theorem oneLine_canonicalCategories {es : List (PluralCategory × Message)}
    (h : ∀ e ∈ es, OneLine e.2.canonical) : OneLine (canonicalCategories es) := by
  induction es with
  | nil => simp [canonicalCategories, OneLine]
  | cons e es ih =>
    rw [canonicalCategories]
    exact (oneLine_optionSource (oneLine_of_isIdent e.1.isIdent_name)
      (h e List.mem_cons_self)).append (ih fun e' he' => h e' (List.mem_cons_of_mem e he'))

theorem oneLine_canonicalCases {es : List (String × Message)}
    (h : ∀ e ∈ es, OneLine e.1 ∧ OneLine e.2.canonical) : OneLine (canonicalCases es) := by
  induction es with
  | nil => simp [canonicalCases, OneLine]
  | cons e es ih =>
    obtain ⟨hvalue, hbody⟩ := h e List.mem_cons_self
    rw [canonicalCases]
    exact (oneLine_optionSource (oneLine_literalSource hvalue) hbody).append
      (ih fun e' he' => h e' (List.mem_cons_of_mem e he'))

/-- Options are one line if their bodies are. One case for each kind of `Sound` details. -/
theorem oneLine_details {kind : ReplacementKind} {details : Details}
    (h : Sound (fun body => OneLine body.canonical) kind details) : OneLine details.canonical := by
  have hempty : OneLine "" := by simp [OneLine]
  cases h with
  | none =>
    rw [Details.canonical]
    exact hempty
  | money hcurrency =>
    rw [Details.canonical]
    exact oneLine_optionSource (by simp [OneLine]) (oneLine_of_isText hcurrency.1.2)
  | @plural type variants custom _ _ hbodies hnumbers _ =>
    rw [Details.canonical]
    refine OneLine.append (OneLine.append ?_ ?_) (oneLine_canonicalCategories hbodies)
    · cases type <;> simp [OneLine, PluralType.name]
    · exact oneLine_canonicalNumbers fun e he => (hnumbers e he).2
  | @select cases fallback _ hbodies hfallback =>
    rw [Details.canonical]
    refine OneLine.append (oneLine_canonicalCases fun e he => ?_) ?_
    · exact ⟨oneLine_of_literal (hbodies e he).1, (hbodies e he).2.2⟩
    · rcases hfallback with rfl | ⟨hplain, -⟩
      · exact hempty
      · split
        · exact hempty
        · exact oneLine_optionSource (by simp [OneLine]) (oneLine_of_isText hplain.1.2)

/-- A replacement is one line if its options are. -/
theorem oneLine_replacement {r : Replacement} (hkey : Word.isIdent r.key.toList = true)
    (h : OneLine r.details.canonical) : OneLine r.canonical := by
  obtain ⟨key, textPos, kind, details⟩ := r
  have hbraces : OneLine "$\x7b" ∧ OneLine "\x7d" := by simp [OneLine]
  rw [Replacement.canonical]
  refine ((hbraces.1.append (oneLine_of_isIdent hkey)).append ?_ |>.append h).append hbraces.2
  cases kind <;> simp [OneLine, ReplacementKind.name]

/-- A message is one line if its replacements are: what it is `Built` of are runs of text and
replacements. -/
theorem oneLine_canonical {m : Message} (h : Built (fun r => OneLine r.canonical) m) :
    OneLine m.canonical := by
  obtain ⟨ps, hwoven, -, hmarks⟩ := h
  have hgood := hwoven.good
  rw [Message.canonical_eq_render, Message.render, hwoven.pieces_eq]
  clear hwoven
  induction ps with
  | nil => simp [OneLine, String.join]
  | cons x ps ih =>
    rw [List.map_cons, String.join_cons]
    have hrest := ih (fun r hr => hmarks r (List.mem_cons_of_mem x hr)) fun t ht =>
      hgood t (mem_texts.mpr (List.mem_cons_of_mem x (mem_texts.mp ht)))
    refine OneLine.append ?_ hrest
    cases x with
    | inl t => exact oneLine_of_isText (hgood t List.mem_cons_self).2
    | inr r => exact hmarks r List.mem_cons_self

/-- A replacement of a file without errors (`Allowed`) is written on one line. By recursion on the
room that it takes. -/
theorem oneLine_of_allowed {room : Nat} : ∀ {r : Replacement}, Allowed room r →
    OneLine r.canonical := by
  induction room with
  | zero => intro r h; exact absurd h id
  | succ room ih =>
    intro r ⟨hkey, hsound⟩
    refine oneLine_replacement hkey (oneLine_details (hsound.mono ?_))
    intro body hbody
    obtain ⟨-, ps, hwoven, hfinished, hallowed⟩ := hbody
    exact oneLine_canonical ⟨ps, hwoven, hfinished, fun r hr => ih (hallowed r hr)⟩

/-! ### The file of a message

The symbols of the file, and the steps at the margin that lead into the body and out of it. -/

/-- A byte order mark is the encoding of a character (`Utf8.encode`), so a text that starts with
another one has none in front. -/
theorem not_mark_prefix_encode {t : String} (h : t.toList.head? ≠ some '\uFEFF') :
    ¬ Utf8.byteOrderMark <+: Utf8.encode t := by
  intro hmark
  have hencode : String.utf8EncodeChar '\uFEFF' = Utf8.byteOrderMark := by decide
  rw [← hencode] at hmark
  have hdecode := Utf8.decodeChar_eq_some_iff.mpr hmark
  cases ht : t.toList with
  | nil =>
    rw [Utf8.encode, ht, List.flatMap_nil, List.prefix_nil] at hmark
    exact String.utf8EncodeChar_ne_nil hmark
  | cons d ds =>
    rw [Utf8.encode, ht, List.flatMap_cons, Utf8.decodeChar_encodeChar] at hdecode
    rw [ht, List.head?_cons] at h
    exact h hdecode

/-- The symbols of an encoded text are its characters, if no byte order mark opens it, with the line
breaks gathered by `Symbol.ofRunes`. -/
theorem rest_start_of_head {t : String} (h : t.toList.head? ≠ some '\uFEFF') (file : String) :
    (Cursor.start file (Utf8.encode t)).rest = Symbol.ofRunes (t.toList.map .char) := by
  rw [Cursor.start]
  dsimp only
  rw [markWidth_eq_zero (not_mark_prefix_encode h), List.drop_zero, Utf8.runes_encode]

/-- A text that starts with an identifier has the first character of that, which is no byte order
mark. -/
theorem head?_of_isIdent {key : String} (hkey : Word.isIdent key.toList = true) (t : String) :
    ∃ d, (key ++ t).toList.head? = some d ∧ Word.startsIdent d = true := by
  cases hcs : key.toList with
  | nil => simp [hcs, Word.isIdent] at hkey
  | cons d ds =>
    rw [hcs, Word.isIdent, Bool.and_eq_true] at hkey
    exact ⟨d, by rw [String.toList_append, hcs]; rfl, hkey.1⟩

/-- No byte order mark opens a text that starts with an identifier. -/
theorem head?_ne_mark_of_isIdent {key : String} (hkey : Word.isIdent key.toList = true)
    (t : String) : (key ++ t).toList.head? ≠ some '\uFEFF' := by
  obtain ⟨d, hhead, hd⟩ := head?_of_isIdent hkey t
  rw [hhead]
  intro heq
  rw [Option.some.inj heq] at hd
  exact absurd hd (by decide +kernel)

/-- The symbols of a key line and an indented line, which is what a message in canonical form is set
in. -/
theorem rest_start_encode {key body : String} (hkey : Word.isIdent key.toList = true)
    (hbody : OneLine body) (file : String) :
    (Cursor.start file (Utf8.encode (key ++ ":\n\t" ++ body ++ "\n"))).rest =
      symbols key ++
        .char ':' :: .newline .lf :: .char '\t' :: (symbols body ++ [.newline .lf]) := by
  have hlist : (key ++ ":\n\t" ++ body ++ "\n").toList =
      key.toList ++ ':' :: '\n' :: '\t' :: (body.toList ++ ['\n']) := by
    simp
  have hhead : (key ++ ":\n\t" ++ body ++ "\n").toList.head? ≠ some '\uFEFF' := by
    rw [String.append_assoc, String.append_assoc]
    exact head?_ne_mark_of_isIdent hkey _
  rw [rest_start_of_head hhead, hlist, List.map_append,
    Symbol.ofRunes_chars_append (oneLine_of_isIdent hkey)]
  simp only [List.map_cons, List.map_append]
  rw [Symbol.ofRunes_char_cons (by decide) (by decide), Symbol.ofRunes,
    Symbol.ofRunes_char_cons (by decide) (by decide), Symbol.ofRunes_chars_append hbody]
  rfl

/-- A line with content at the margin is a header, a comment, or starts with a key, as `rootStep`
tells from its first symbols. -/
theorem rootStep_of_content {c : Cursor} {s : Symbol} {rest : List Symbol} (hc : c.rest = s :: rest)
    (hspace : s.isSpace = false) (hnewline : s.isNewline = false) (stack : List Mode) :
    Scanner.rootStep c stack =
      match c.rest with
      | .char '[' :: _ => (Scanner.headerTokens c, ⟨c.skipLine, stack⟩)
      | .char '/' :: _ => (Scanner.commentTokens c, ⟨c.skipLine, stack⟩)
      | _ => Scanner.keyStep c stack := by
  have hblank : Layout.blankWidth c.rest = 0 := by
    rw [hc]
    exact Layout.blankWidth_eq_zero (Layout.noBlank_of_noSpace hspace hnewline)
  have hwidth : Layout.spaceWidth c.rest = 0 := by
    rw [hc, Layout.spaceWidth, List.takeWhile_cons_of_neg (by simp [hspace])]
    rfl
  unfold Scanner.rootStep
  dsimp only
  rw [hblank, Cursor.drop_zero, Cursor.skipSpace, hwidth, Cursor.drop_zero, if_neg (by simp [hc])]
  exact if_neg (by simp)

/-- A line that starts with an identifier is read as a key, by `Scanner.keyStep`. -/
theorem step_root_ident {c : Cursor} {key : List Char} {rest : List Symbol}
    (hc : c.rest = key.map .char ++ rest) (hkey : Word.isIdent key = true) :
    Scanner.step ⟨c, [.root]⟩ = Scanner.keyStep c [.root] := by
  cases key with
  | nil => simp [Word.isIdent] at hkey
  | cons d ds =>
    rw [Word.isIdent, Bool.and_eq_true] at hkey
    have hspace := Grammar.isSpace_eq_false_of_startsIdent hkey.1
    refine (rootStep_of_content hc hspace rfl [.root]).trans ?_
    split
    · rename_i hbracket
      rw [hc] at hbracket
      obtain rfl := Symbol.char.inj (List.cons.inj hbracket).1
      exact absurd hkey.1 (by decide)
    · rename_i hslash
      rw [hc] at hslash
      obtain rfl := Symbol.char.inj (List.cons.inj hslash).1
      exact absurd hkey.1 (by decide)
    · rfl

/-- A key line with nothing behind its colon. The body below it is entered if it is indented, which
`Layout.indentWidth?` tells. -/
theorem keyStep_line {c : Cursor} {key : List Char} {rest : List Symbol}
    (hc : c.rest = key.map .char ++ .char ':' :: .newline .lf :: rest)
    (hkey : Word.isIdent key = true) :
    ∃ next : Cursor, next.rest = rest ∧
      Scanner.keyStep c [.root] =
        match Layout.indentWidth? rest with
        | some width =>
          ([Scanner.token .messageKey key c.nextPos], ⟨next.drop width, [.body false false, .root]⟩)
        | none => ([Scanner.token .messageKey key c.nextPos], ⟨next, [.root]⟩) := by
  have hline : c.rest = (key ++ [':']).map .char ++ .newline .lf :: rest := by
    rw [hc]
    simp
  have hnext : c.skipLine.rest = rest :=
    Scanner.rest_skipLine hline (Scanner.isNewline_map_char _) (.newline .lf rest)
  obtain ⟨hident, hafter⟩ := Scanner.ident_key hkey (Scanner.endsIdent_colon _) hc
  rw [hident] at hafter
  have hcolon : ((c.drop key.length).drop 1).rest = [] ++ .newline .lf :: rest := by
    rw [Cursor.rest_drop, hafter]
    rfl
  have hend := Scanner.rest_skipSpace_eq hcolon Layout.spaces_nil (Layout.noSpace_cons.mpr rfl)
  refine ⟨c.skipLine, hnext, ?_⟩
  unfold Scanner.keyStep
  dsimp only
  rw [hident, if_neg (Word.isIdent_ne_nil hkey), hafter]
  rw [Scanner.lineEnd, hend, hnext]
  cases Layout.indentWidth? rest <;> rfl

/-- The end of the body of a message, at a line break with nothing indented behind it: it `Goes` to
the margin with the message still open. -/
theorem goes_leave {produced : Bool} {m : Message} {frames : List Frame} :
    Goes ⟨[.newline .lf], [.body false produced, .root], .body m frames⟩
      ⟨[.newline .lf], [.root], .body m frames⟩ := by
  refine Goes.of_step (fun _ => rfl) fun c q hc hq => ?_
  have hstep : Scanner.step ⟨c, [.body false produced, .root]⟩ = ([], ⟨c, [.root]⟩) := by
    show Scanner.bodyStep c false produced [.root] = _
    simp only [Scanner.bodyStep, hc]
    rfl
  refine ⟨[], c, ⟨_, _, _⟩, q.lastPos, hstep, by simp, hc, ?_, .refl _⟩
  rw [Reader.feed_nil, ← hq]

/-- The first symbol of a body is not a space (`NoIndent`), if it has one. So no space of the body
is taken for its indentation. -/
theorem head_canonical {m : Message} {ps : List Piece} (hwoven : Woven m ps)
    (hindent : NoIndent ps) :
    ps = [] ∨
      ∃ c tail, symbols m.canonical = .char c :: tail ∧ Symbol.isSpace (.char c) = false := by
  rw [hwoven.symbols_canonical]
  match ps with
  | [] => exact .inl rfl
  | .inr r :: ps =>
    obtain ⟨tail, htail⟩ := symbols_replacement r
    rw [sources, List.flatMap_cons, Piece.source, htail]
    exact .inr ⟨'$', _, rfl, by decide⟩
  | .inl t :: ps =>
    have hgood := hwoven.good t List.mem_cons_self
    have hspace := hindent t rfl
    cases hcs : t.toList with
    | nil => exact absurd (String.toList_eq_nil_iff.mp hcs) hgood.1
    | cons c cs =>
      rw [hcs] at hspace
      rw [sources, List.flatMap_cons, Piece.source, symbols, hcs]
      exact .inr ⟨c, _, rfl, hspace c rfl⟩

/-- The end of the file closes the message, and adds no errors. This is what is left when the body
has been read by `Goes`. -/
theorem run_blanks_body {c : Cursor} {q : Reader} {m : Message} (hc : Blanks c.rest)
    (hfocus : q.focus = .body m []) :
    (q.run (Scanner.run ⟨c, [.root]⟩)).errors = q.report.errors ∧
      (q.run (Scanner.run ⟨c, [.root]⟩)).messages = q.messages ++ [m.trimTrailing] := by
  obtain ⟨eof, hrun, heof⟩ := Place.run_of_blanks hc
  rw [hrun, Reader.run_eof heof]
  simp only [Reader.finish, Reader.makeRoom, hfocus, Reader.unwind, Reader.unwindBody]
  exact ⟨rfl, rfl⟩

/-- The body of a message (`SoundMessage`) is read back below its key, from the tab in front of it
to the end of the file. -/
theorem run_keyed_body {m : Message} (h : SoundMessage m) {c : Cursor} {q : Reader}
    (hc : c.rest = .char '\t' :: (symbols m.canonical ++ [.newline .lf]))
    (hfocus : q.focus = .body (.empty "" m.key) []) :
    let next : Scanner :=
      match Layout.indentWidth? c.rest with
      | some width => ⟨c.drop width, [.body false false, .root]⟩
      | none => ⟨c, [.root]⟩
    (q.run next.run).errors = q.report.errors ∧
      (q.run next.run).messages = q.messages ++ [m.reread m.key] := by
  obtain ⟨hkey, ps, hwoven, hfinished, hindent, hallowed⟩ := h
  have hbuilt : Built (Rereads (nesting [.root])) m :=
    ⟨ps, hwoven, hfinished, fun r hr => rereads_of_allowed (Nat.le_refl _) (hallowed r hr)⟩
  obtain ⟨produced, hgoes, htrim⟩ :=
    @goes_body false false [.root] [] [.newline .lf] m trivial hbuilt m.key
  rcases head_canonical hwoven hindent with rfl | ⟨d, tail, hd, hspace⟩
  · -- nothing is below the key, so the reader closes the message as it has opened it
    have hnone : symbols m.canonical = [] := hwoven.symbols_canonical
    have hempty : m.reread m.key = .empty "" m.key := by
      obtain ⟨sectionName, key, text, replacements⟩ := m
      obtain rfl : text = [] := hwoven.text
      obtain rfl : replacements = [] := hwoven.replacements
      rfl
    have hblanks : Blanks c.rest := by
      rw [hc, hnone]
      exact Blanks.singleton .lf Layout.spaces_nil.tab_cons
    have hwidth : Layout.indentWidth? c.rest = none := by
      rw [hc, hnone]
      rfl
    rw [hwidth, hempty]
    exact run_blanks_body hblanks hfocus
  -- the body is read back, and ends at the line break
  · have hwidth : Layout.indentWidth? c.rest = some 1 := by
      refine Layout.indentWidth?_eq_some_iff.mpr
        ⟨[], [], .char d, tail ++ [.newline .lf], .nil, Layout.spaces_nil, hspace, rfl, ?_, rfl⟩
      rw [hc, hd]
      rfl
    rw [hwidth]
    have hbody : (c.drop 1).rest = symbols m.canonical ++ [.newline .lf] := by
      rw [Cursor.rest_drop, hc]
      rfl
    obtain ⟨c', pos, hc', hrun⟩ := (hgoes.trans goes_leave) (c.drop 1) q hbody hfocus
    have hlast := @run_blanks_body c' { q with focus := .body (m.reread m.key) [], lastPos := pos }
      (m.reread m.key) (by rw [hc']; exact Blanks.singleton .lf Layout.spaces_nil) rfl
    rw [htrim] at hlast
    dsimp only at hrun ⊢
    rw [hrun]
    exact hlast

/-- A sound message is read back from its canonical form, as `Message.reread` says: without errors,
and alone. -/
theorem parse_of_sound {m : Message} (h : SoundMessage m) (file : String) :
    (parse file (Utf8.encode (m.key ++ ":\n\t" ++ m.canonical ++ "\n"))).errors = [] ∧
      (parse file (Utf8.encode (m.key ++ ":\n\t" ++ m.canonical ++ "\n"))).messages =
        [m.reread m.key] := by
  obtain ⟨hkey, ps, hwoven, hfinished, hindent, hallowed⟩ := id h
  have hline : OneLine m.canonical :=
    oneLine_canonical ⟨ps, hwoven, hfinished, fun r hr => oneLine_of_allowed (hallowed r hr)⟩
  have hrest := rest_start_encode hkey hline file
  generalize Utf8.encode (m.key ++ ":\n\t" ++ m.canonical ++ "\n") = bytes at hrest
  obtain ⟨next, hnext, hstep⟩ := keyStep_line hrest hkey
  rw [← hnext] at hstep
  have hread : parse file bytes = Reader.run {} (Scanner.run ⟨Cursor.start file bytes, [.root]⟩) :=
    rfl
  have hbody := @run_keyed_body m h next
    (Reader.step {} (Scanner.token .messageKey m.key.toList (Cursor.start file bytes).nextPos))
    hnext
  rw [hread, Scanner.run_of_not_isDone rfl, step_root_ident hrest hkey, hstep]
  cases hwidth : Layout.indentWidth? next.rest with
  | none =>
    rw [hwidth] at hbody
    rw [Reader.run_append (by simp [Scanner.token])]
    exact hbody (by simp [Scanner.token]; rfl)
  | some width =>
    rw [hwidth] at hbody
    rw [Reader.run_append (by simp [Scanner.token])]
    exact hbody (by simp [Scanner.token]; rfl)

/-! ### The round trip

All messages of a file without errors are sound, and a sound message is read back. -/

/-- The message of a file without errors, set in canonical form below its key, is read back: without
errors, alone, and in normal form (`Message.normal`), outside of any section. So it is the same
message if its plural options were written in canonical spelling (`Message.Spelled`), and in any
case it has the same canonical form. -/
theorem parse_canonical {file : String} {bytes : List UInt8} (h : (parse file bytes).errors = [])
    {m : Message} (hm : m ∈ (parse file bytes).messages) (file' : String) :
    let again := parse file' (Utf8.encode (m.key ++ ":\n\t" ++ m.canonical ++ "\n"))
    again.errors = [] ∧ again.messages = [{ m.normal with sectionName := "" }] ∧
      (m.Spelled → again.messages = [{ m with sectionName := "" }]) ∧
      ∀ m' ∈ again.messages, m'.canonical = m.canonical := by
  obtain ⟨herrors, hmessages⟩ := parse_of_sound (sound_of_mem_messages h m hm) file'
  have hreread : m.reread m.key = { m.normal with sectionName := "" } := by
    obtain ⟨sectionName, key, text, replacements⟩ := m
    rfl
  rw [hreread] at hmessages
  refine ⟨herrors, hmessages, fun hspelled => ?_, fun m' hm' => ?_⟩
  · rw [hmessages, m.normal_eq_self hspelled]
  · rw [hmessages] at hm'
    rw [List.mem_singleton.mp hm', ← m.canonical_normal]
    obtain ⟨sectionName, key, text, replacements⟩ := m
    rw [Message.normal, Message.canonical, Message.canonical]

/-- A message with the option `.ONE` comes back with the option `.one`. -/
theorem parse_canonical_of_spelling :
    (parse "a" (Utf8.encode "k:\n\t$\x7bn:plural.ONE\x7ba\x7d.other\x7b\x7d\x7d\n")).messages.map
        Message.canonical = ["$\x7bn:plural.one\x7ba\x7d.other\x7b\x7d\x7d"] ∧
      ∀ m ∈ (parse "a"
          (Utf8.encode "k:\n\t$\x7bn:plural.ONE\x7ba\x7d.other\x7b\x7d\x7d\n")).messages,
        (parse "b" (Utf8.encode (m.key ++ ":\n\t" ++ m.canonical ++ "\n"))).messages =
          [{ m.normal with sectionName := "" }] := by
  refine ⟨?_, fun m hm => (parse_canonical ?_ hm "b").2.1⟩
  · rw [parse, tokens_eq_runFor]
    decide +kernel
  · rw [parse, tokens_eq_runFor]
    decide +kernel

end MessageCatalog
