import Mathlib.Data.List.Forall2
import MessageCatalog.Compile
import MessageCatalog.Dump
import MessageCatalog.Proofs.Conservation
import MessageCatalog.Proofs.RoundTrip

/-!
# MessageCatalog.Proofs.TextDump

The text dump of a catalog loses nothing. A catalog of files without errors is written as the line
of its locale and one line for each message, and from that line alone the message can be read back
(`dump_text`): `DumpEntry.ofLine?` takes the line apart, and `DumpEntry.source` is a file that holds
the message.

A line can be taken apart (`DumpEntry.WellFormed.ofLine?_line`) because the separators stand in none
of its parts but the last: the name of a section is a dotted name wherever it comes from
(`section_of_mem_messages`), and a key is an identifier. And it is one line because no part of a
message holds a line break (`OneLine`).

What the file of an entry is read as follows from the round trip (`parse_of_sound`), set behind a
section header where there is a section. The header is a file of its own in front of the file of the
message, so the two are put together by `parse_append`.
-/

namespace MessageCatalog

open Grammar (Dotted)

/-! ### Taking a line apart

The two separators are a bracket with a blank and a colon with a blank. The first occurrence of each
is the one that was written. -/

/-- Splits a text at the first occurrence of a separator. None if it does not occur. -/
def splitFirst (sep : List Char) : List Char → Option (List Char × List Char)
  | [] => none
  | c :: cs =>
    if sep.isPrefixOf (c :: cs) then some ([], (c :: cs).drop sep.length)
    else (splitFirst sep cs).map fun (front, back) => (c :: front, back)

/-- What stands in front of the first separator does not hold its first character, so `splitFirst`
does not stop earlier. -/
theorem splitFirst_append {d e : Char} {front : List Char} (h : d ∉ front) (back : List Char) :
    splitFirst [d, e] (front ++ d :: e :: back) = some (front, back) := by
  induction front with
  | nil => simp [splitFirst]
  | cons c front ih =>
    obtain ⟨hc, hfront⟩ : d ≠ c ∧ d ∉ front := by simpa using h
    rw [List.cons_append, splitFirst, if_neg, ih hfront]
    · rfl
    · simp [hc]

/-- What a line of the dump holds: the section of a message, if it has one, its key and its body. It
can be taken off the line again, see `WellFormed.ofLine?_line`. -/
structure DumpEntry where
  sectionName? : Option String
  key : String
  body : String
  deriving DecidableEq, Repr

namespace DumpEntry

/-- Reads a line of the form `[section] key: body` or `key: body`. This is how a reader of a dump
would do it, without knowing of messages. -/
def ofLine? (line : String) : Option DumpEntry :=
  match line.toList with
  | '[' :: rest =>
    (splitFirst [']', ' '] rest).bind fun (name, rest) =>
      (splitFirst [':', ' '] rest).map fun (key, body) =>
        ⟨some (.ofList name), .ofList key, .ofList body⟩
  | rest =>
    (splitFirst [':', ' '] rest).map fun (key, body) => ⟨none, .ofList key, .ofList body⟩

/-- The file of one message: a section header, if there is a section, the key, and the body below
it, as they stand in a `DumpEntry`. -/
def source (e : DumpEntry) : String :=
  (match e.sectionName? with
    | some name => "[[" ++ name ++ "]]\n"
    | none => "") ++ e.key ++ ":\n\t" ++ e.body ++ "\n"

end DumpEntry

/-! ### Names of sections

A section is announced by a header, and the scanner yields headers with dotted names only. So the
name of a section holds no bracket and no line break. -/

/-- The characters of a dotted name (`Dotted`) are those of identifiers, and dots. So it holds
neither a bracket nor a line break. -/
theorem Grammar.Dotted.of_mem {cs : List Char} (h : Dotted cs) {c : Char} (hc : c ∈ cs) :
    c = '.' ∨ Word.startsIdent c = true ∨ Word.continuesIdent c = true := by
  induction h with
  | ident hcs => exact .inr (Word.of_mem_isIdent hcs hc)
  | dot hcs _ ih =>
    rcases List.mem_append.mp hc with hc | hc
    · exact .inr (Word.of_mem_isIdent hcs hc)
    · rcases List.mem_cons.mp hc with rfl | hc
      · exact .inl rfl
      · exact ih hc

namespace Scanner

/-- The header that a line yields has a dotted name, as `headerTokens` reads one. -/
theorem dotted_of_mem_headerTokens {c : Cursor} {t : Token} (ht : t ∈ headerTokens c)
    (hkind : t.kind = .sectionHeader) : Dotted t.text.toList := by
  have hfault {fault : Token.Fault} {pos : Position} (ht : t ∈ [invalid fault pos]) :
      Dotted t.text.toList := by
    obtain rfl := List.mem_singleton.mp ht
    cases hkind
  unfold headerTokens at ht
  split at ht
  · dsimp only at ht
    split at ht
    · exact hfault ht
    · rename_i hname
      split at ht
      · rcases List.mem_cons.mp ht with rfl | ht
        · rw [token, String.toList_ofList]
          exact Word.dotted_dottedName hname
        · rw [reports_of_mem_lineEnd ht] at hkind
          cases hkind
      · exact hfault ht
  · exact hfault ht

theorem kind_ne_of_mem_keyStep (c : Cursor) (stack : List Mode) :
    ∀ t ∈ (keyStep c stack).1, t.kind ≠ .sectionHeader := by
  have hfaults (fault : Token.Fault) (c : Cursor) :
      ∀ t ∈ lineEnd fault c, t.kind ≠ .sectionHeader := by
    intro t ht
    rw [reports_of_mem_lineEnd ht]
    decide
  unfold keyStep
  dsimp only
  split
  · exact List.forall_mem_singleton.mpr nofun
  · split
    · split <;> exact List.forall_mem_cons.mpr ⟨nofun, hfaults _ _⟩
    · exact List.forall_mem_cons.mpr ⟨nofun, List.forall_mem_singleton.mpr nofun⟩

/-- A header is yielded at the margin, with a dotted name (`Dotted`). A line that starts with a key
yields none. -/
theorem dotted_of_mem_rootStep {c : Cursor} {stack : List Mode} {t : Token}
    (ht : t ∈ (rootStep c stack).1) (hkind : t.kind = .sectionHeader) : Dotted t.text.toList := by
  unfold rootStep at ht
  dsimp only at ht
  split at ht
  · obtain rfl := List.mem_singleton.mp ht
    cases hkind
  · split at ht
    · obtain rfl := List.mem_singleton.mp ht
      cases hkind
    · split at ht
      · exact dotted_of_mem_headerTokens ht hkind
      · rw [reports_of_mem_commentTokens ht] at hkind
        cases hkind
      · exact absurd hkind (kind_ne_of_mem_keyStep _ _ t ht)

end Scanner

/-- The sections of a file have dotted names (`Dotted`). Only steps at the margin yield them. -/
theorem dotted_of_mem_tokens (file : String) (bytes : List UInt8) :
    ∀ t ∈ tokens file bytes, t.kind = .sectionHeader → Dotted t.text.toList := by
  refine Scanner.forall_mem_run_of_step ?_ (Symbol.clean_ofRunes _)
  intro s hdone hclean t ht hkind
  obtain ⟨c, stack⟩ := s
  obtain ⟨⟨below, hstack⟩, -⟩ :=
    Scanner.sectionHeader_cases (Scanner.move_step hdone hclean) t ht hkind
  obtain rfl : stack = .root :: below := hstack
  exact Scanner.dotted_of_mem_rootStep ht hkind

/-- What `lastSection` gives is no section, or the text of a header, which is in the stream. -/
theorem lastSection_cases (stream : List Token) :
    lastSection stream = "" ∨
      ∃ t ∈ stream, t.kind = .sectionHeader ∧ lastSection stream = t.text := by
  unfold lastSection
  cases hlast : (stream.filter (·.kind = .sectionHeader)).getLast? with
  | none => exact .inl rfl
  | some t =>
    obtain ⟨ht, hkind⟩ := List.mem_filter.mp (List.mem_of_getLast? hlast)
    exact .inr ⟨t, ht, by simpa using hkind, rfl⟩

/-- A message stands in no section or in one with a dotted name, since its section is the
`lastSection` in front of its key. -/
theorem section_of_mem_messages {file : String} {bytes : List UInt8} {m : Message}
    (hm : m ∈ (parse file bytes).messages) : m.sectionName = "" ∨ Dotted m.sectionName.toList := by
  obtain ⟨found, hfinish⟩ := Reader.exists_run_eq_finish (tokens file bytes) {}
  have hmem : m.address ∈ announced (beforeEof (tokens file bytes)) := by
    rw [← Reader.begun_feed, ← Reader.address_finish _ found, ← hfinish]
    exact List.mem_map_of_mem hm
  obtain ⟨⟨t, i⟩, -, ht⟩ := List.mem_filterMap.mp hmem
  dsimp only at ht
  split at ht
  · have hsection := congrArg Prod.fst (Option.some.inj ht)
    rw [show m.address.1 = m.sectionName from rfl] at hsection
    rw [← hsection]
    refine (lastSection_cases _).imp_right fun ⟨t, ht, hkind, htext⟩ => ?_
    rw [htext]
    refine dotted_of_mem_tokens file bytes t ?_ hkind
    exact (List.takeWhile_sublist _).subset (List.mem_of_mem_take ht)
  · cases ht

theorem oneLine_of_dotted {t : String} (h : Dotted t.toList) : OneLine t := by
  intro c hc
  constructor
  · rintro rfl
    exact absurd (h.of_mem hc) (by decide)
  · rintro rfl
    exact absurd (h.of_mem hc) (by decide)

/-! ### The file of an entry

A section header in front of a message, scanned and read. -/

/-- A line with a section header is scanned as one token (`Token.Kind.sectionHeader`), and the end
of the file behind it. -/
theorem run_header {name : List Char} (hname : Dotted name) {c : Cursor}
    (hc : c.rest = .char '[' :: .char '[' :: (name.map .char ++
      [.char ']', .char ']', .newline .lf])) :
    ∃ eof, eof.kind = .eof ∧
      Scanner.run ⟨c, [.root]⟩ = [Scanner.token .sectionHeader name c.nextPos] ++ [eof] := by
  have htoken := Scanner.headerTokens_of_header Layout.spaces_nil hname Layout.spaces_nil
    Layout.spaces_nil (.newline .lf []) hc
  -- behind the header there is nothing
  have hline : c.skipLine.rest = [] := by
    refine @Scanner.rest_skipLine c (('[' :: '[' :: (name ++ [']', ']'])).map .char)
      [.newline .lf] [] ?_ (Scanner.isNewline_map_char _) (.newline .lf [])
    rw [hc]
    simp
  have hblanks : Layout.Blanks c.skipLine.rest := by
    rw [hline]
    exact .nil
  obtain ⟨eof, hrun, heof⟩ := Place.run_of_blanks hblanks
  have hstep : Scanner.step ⟨c, [.root]⟩ = _ := rootStep_of_content hc rfl rfl [.root]
  simp only [hc, htoken] at hstep
  refine ⟨eof, heof, ?_⟩
  rw [Scanner.run_of_not_isDone rfl, hstep, ← hrun]

/-- The symbols of a line with a section header, as the scanner finds them. -/
theorem rest_start_header {name : String} (hname : Dotted name.toList) (file : String) :
    (Cursor.start file (Utf8.encode ("[[" ++ name ++ "]]\n"))).rest =
      .char '[' :: .char '[' :: (name.toList.map .char ++
        [.char ']', .char ']', .newline .lf]) := by
  have hlist : ("[[" ++ name ++ "]]\n").toList =
      '[' :: '[' :: (name.toList ++ [']', ']', '\n']) := by
    simp
  have hhead : ("[[" ++ name ++ "]]\n").toList.head? ≠ some '\uFEFF' := by
    rw [hlist, List.head?_cons]
    decide
  rw [rest_start_of_head hhead, hlist]
  simp only [List.map_cons, List.map_append, List.map_nil]
  rw [Symbol.ofRunes_char_cons (by decide) (by decide),
    Symbol.ofRunes_char_cons (by decide) (by decide),
    Symbol.ofRunes_chars_append (oneLine_of_dotted hname)]
  rfl

/-- A file without errors behind a section header is read in that section: this is `parse_append`
for the header as a first part. -/
theorem parse_header_append {name : String} (hname : Dotted name.toList) {file : String}
    {bytes : List UInt8} (hstart : ∀ b ∈ bytes.head?, b ≠ 0x20 ∧ b ≠ 0x09 ∧ b ≠ 0x0A ∧ b ≠ 0x0D)
    (hmark : ¬ Utf8.byteOrderMark <+: bytes) (hnone : (parse file bytes).errors = []) :
    (parse file (Utf8.encode ("[[" ++ name ++ "]]\n") ++ bytes)).errors = [] ∧
      (parse file (Utf8.encode ("[[" ++ name ++ "]]\n") ++ bytes)).messages =
        (parse file bytes).messages.map (Message.inSection name) := by
  obtain ⟨eof, heof, htokens⟩ := run_header hname (rest_start_header hname file)
  have hlast : (Utf8.encode ("[[" ++ name ++ "]]\n")).getLast? = some 0x0A := by
    have hlist : ("[[" ++ name ++ "]]\n").toList = ("[[" ++ name ++ "]]").toList ++ ['\n'] := by
      simp
    rw [Utf8.encode, hlist, List.flatMap_append, List.getLast?_append]
    rfl
  obtain ⟨taken, eof', htokens', heof', hwhole⟩ :=
    (tokens_append hlast (.inl rfl) file hstart hmark).resolve_right fun hno =>
      hno.1 eof (by rw [tokens, Scanner.start, htokens]; simp) heof
  obtain ⟨rfl, -⟩ := List.append_inj' (htokens'.symm.trans htokens) rfl
  obtain ⟨hnoEof, hsettled⟩ := settled_of_tokens htokens' heof'
  obtain ⟨hmessages, herrors⟩ := parse_eq_readTokens_dropFaults file bytes
  rw [hnone] at herrors
  obtain ⟨hlead, hrest⟩ := List.append_eq_nil_iff.mp herrors.symm
  -- the reader has nothing but the section when it gets to the file
  obtain ⟨after, hafter, hm, he⟩ := Reader.run_restart hsettled
    (lineBreaks (Utf8.encode ("[[" ++ name ++ "]]\n")))
    (Utf8.encode ("[[" ++ name ++ "]]\n")).length ⟨"", {}⟩ (text_ne_of_mem_tokens file bytes)
    (outside_dropFaults_tokens file bytes)
  obtain rfl : after = [] := (List.nil_append after).symm.trans hafter.symm
  have hsection : (Reader.feed {} [Scanner.token .sectionHeader name.toList (Cursor.start file
      (Utf8.encode ("[[" ++ name ++ "]]\n"))).nextPos]).sectionName = name := String.ofList_toList
  rw [parse, hwhole, readTokens, Reader.run_append hnoEof, he, hm, hlead, hrest, ← hmessages,
    hsection]
  exact ⟨rfl, rfl⟩

/-- The bytes of a text that starts with an identifier start with content, so the text may stand
behind another part of a file, as `parse_append` asks. -/
theorem head?_encode_of_isIdent {key : String} (hkey : Word.isIdent key.toList = true)
    (t : String) :
    ∀ b ∈ (Utf8.encode (key ++ t)).head?, b ≠ 0x20 ∧ b ≠ 0x09 ∧ b ≠ 0x0A ∧ b ≠ 0x0D := by
  obtain ⟨d, hhead, hd⟩ := head?_of_isIdent hkey t
  obtain ⟨ds, hds⟩ := List.head?_eq_some_iff.mp hhead
  intro b hb
  have hmem : b ∈ String.utf8EncodeChar d := by
    rw [Utf8.encode, hds, List.flatMap_cons, List.head?_append_of_ne_nil _
      String.utf8EncodeChar_ne_nil] at hb
    exact List.mem_of_mem_head? hb
  -- an ASCII byte is the character itself
  have hne {x : UInt8} (hx : x.toNat < 0x80)
      (hident : Word.startsIdent (Char.ofNat x.toNat) = false) : b ≠ x := by
    rintro rfl
    rw [Utf8.eq_of_mem_encodeChar hmem hx, hident] at hd
    cases hd
  exact ⟨hne (by decide) (by decide), hne (by decide) (by decide), hne (by decide) (by decide),
    hne (by decide) (by decide)⟩

/-- A message as it stands in a dump: its section, its key and its canonical form. -/
def Message.entry (m : Message) : DumpEntry :=
  { sectionName? := if m.sectionName.isEmpty then none else some m.sectionName
    key := m.key
    body := m.canonical }

/-- The line of a message, without its line break. The section is in brackets in front of the key,
if there is one. -/
def DumpEntry.line (e : DumpEntry) : String :=
  (match e.sectionName? with
    | some name => "[" ++ name ++ "] "
    | none => "") ++ e.key ++ ": " ++ e.body

/-- The line that `Message.line` writes is that of its entry, with a line break. -/
theorem Message.line_eq (m : Message) : m.line = m.entry.line ++ "\n" := by
  unfold Message.line Message.entry DumpEntry.line
  split
  · rfl
  · rfl

/-- What the entries of a catalog are like: keys and sections hold no colon and no bracket, so a
line can be taken apart (`splitFirst`). -/
structure DumpEntry.WellFormed (e : DumpEntry) : Prop where
  dotted : ∀ name ∈ e.sectionName?, Dotted name.toList
  key : Word.isIdent e.key.toList = true
  body : OneLine e.body

namespace DumpEntry

variable {e : DumpEntry}

/-- A line can be taken apart: `ofLine?` finds the entry of which it is the line. -/
theorem WellFormed.ofLine?_line (h : e.WellFormed) : ofLine? e.line = some e := by
  obtain ⟨sectionName?, key, body⟩ := e
  have hkey : ':' ∉ key.toList := fun hc => absurd (Word.of_mem_isIdent h.key hc) (by decide)
  have hentry : splitFirst [':', ' '] (key ++ ": " ++ body).toList =
      some (key.toList, body.toList) := by
    have hlist : (key ++ ": " ++ body).toList = key.toList ++ ':' :: ' ' :: body.toList := by simp
    rw [hlist, splitFirst_append hkey]
  cases sectionName? with
  | some name =>
    have hname : ']' ∉ name.toList := fun hc => absurd ((h.dotted name rfl).of_mem hc) (by decide)
    have hlist : (line ⟨some name, key, body⟩).toList =
        '[' :: (name.toList ++ ']' :: ' ' :: (key ++ ": " ++ body).toList) := by
      simp [line]
    simp only [ofLine?, hlist, splitFirst_append hname, Option.bind_some, hentry, Option.map_some,
      String.ofList_toList]
  | none =>
    have hline : line ⟨none, key, body⟩ = key ++ ": " ++ body := by
      simp [line]
    obtain ⟨d, hhead, hd⟩ := head?_of_isIdent h.key (": " ++ body)
    rw [← String.append_assoc] at hhead
    rw [ofLine?, hline]
    split
    · rename_i hbracket
      rw [hbracket] at hhead
      obtain rfl := Option.some.inj hhead
      exact absurd hd (by decide)
    · simp only [hentry, Option.map_some, String.ofList_toList]

/-- The line of an entry is one line (`OneLine`), so the lines of a dump are those of its entries.
-/
theorem WellFormed.oneLine (h : e.WellFormed) : OneLine e.line := by
  have hseparators : OneLine "[" ∧ OneLine "] " ∧ OneLine ": " := by simp [OneLine]
  refine ((OneLine.append ?_ (oneLine_of_isIdent h.key)).append hseparators.2.2).append h.body
  cases hname : e.sectionName? with
  | none => simp [OneLine]
  | some name =>
    exact (hseparators.1.append (oneLine_of_dotted (h.dotted name hname))).append hseparators.2.1

end DumpEntry

theorem encode_append (t t' : String) :
    Utf8.encode (t ++ t') = Utf8.encode t ++ Utf8.encode t' := by
  rw [Utf8.encode, String.toList_append, List.flatMap_append, Utf8.encode, Utf8.encode]

/-- The file of an entry holds the message, in normal form, and no other; by `parse_of_sound` and,
if there is a section, `parse_header_append`. -/
theorem parse_entry {m : Message} (hsound : SoundMessage m)
    (hsection : m.sectionName = "" ∨ Dotted m.sectionName.toList) (file : String) :
    (parse file (Utf8.encode m.entry.source)).errors = [] ∧
      (parse file (Utf8.encode m.entry.source)).messages = [m.normal] := by
  obtain ⟨herrors, hmessages⟩ := parse_of_sound hsound file
  have hassoc : m.key ++ ":\n\t" ++ m.canonical ++ "\n" =
      m.key ++ (":\n\t" ++ (m.canonical ++ "\n")) := by
    rw [String.append_assoc, String.append_assoc]
  by_cases hempty : m.sectionName = ""
  · have hsource : m.entry.source = m.key ++ ":\n\t" ++ m.canonical ++ "\n" := by
      simp [Message.entry, DumpEntry.source, hempty]
    rw [hsource, hmessages]
    refine ⟨herrors, ?_⟩
    obtain ⟨sectionName, key, text, replacements⟩ := m
    obtain rfl : sectionName = "" := hempty
    rfl
  · have hsource : m.entry.source = "[[" ++ m.sectionName ++ "]]\n" ++
        (m.key ++ ":\n\t" ++ m.canonical ++ "\n") := by
      simp [Message.entry, DumpEntry.source, hempty, String.append_assoc]
    have hstart := head?_encode_of_isIdent hsound.1 (":\n\t" ++ (m.canonical ++ "\n"))
    have hmark := not_mark_prefix_encode
      (head?_ne_mark_of_isIdent hsound.1 (":\n\t" ++ (m.canonical ++ "\n")))
    rw [← hassoc] at hstart hmark
    obtain ⟨herrors', hmessages'⟩ :=
      parse_header_append (hsection.resolve_left hempty) hstart hmark herrors
    rw [hsource, encode_append, hmessages', hmessages]
    refine ⟨herrors', ?_⟩
    obtain ⟨sectionName, key, text, replacements⟩ := m
    rfl

/-- The entries of a catalog without errors are well-formed (`DumpEntry.WellFormed`). -/
theorem wellFormed_entry {m : Message} (hsound : SoundMessage m)
    (hsection : m.sectionName = "" ∨ Dotted m.sectionName.toList) : m.entry.WellFormed := by
  obtain ⟨hkey, ps, hwoven, hfinished, -, hallowed⟩ := hsound
  refine ⟨fun name hname => ?_, hkey, ?_⟩
  · unfold Message.entry at hname
    dsimp only at hname
    split at hname
    · cases hname
    · rename_i hempty
      obtain rfl := Option.some.inj hname
      exact hsection.resolve_left fun h => hempty (by simp [h])
  · exact oneLine_canonical ⟨ps, hwoven, hfinished, fun r hr => oneLine_of_allowed (hallowed r hr)⟩

/-! ### The line of the locale

The tag of a locale is made of letters, digits and hyphens, since that is what was resolved. -/

/-- Texts that are joined are one line if each of them is. So `OneLine` is shown part by part. -/
theorem oneLine_join {ts : List String} (h : ∀ t ∈ ts, OneLine t) : OneLine (String.join ts) := by
  intro c hc
  rw [String.toList_join] at hc
  obtain ⟨t, ht, hc⟩ := List.mem_flatMap.mp hc
  exact h t ht c hc

namespace Locale

/-- A small letter comes no earlier than the digits if the letter does not, and a capital letter
neither. -/
theorem le_toLower {c : Char} (h : '0' ≤ c) : '0' ≤ c.toLower := by
  unfold Char.toLower
  split
  · rename_i hc
    rw [Char.le_def] at h ⊢
    grind
  · exact h

theorem le_toUpper {c : Char} (h : '0' ≤ c) : '0' ≤ c.toUpper := by
  unfold Char.toUpper
  split
  · rename_i hc
    rw [Char.le_def] at h ⊢
    grind
  · exact h

/-- Letters and digits come no earlier than the digits, and line breaks do. -/
theorem le_of_isAlphanum {c : Char} (h : c.isAlphanum = true) : '0' ≤ c := by
  rw [Char.le_def]
  obtain halpha | hdigit := (Bool.or_eq_true _ _).mp h
  · obtain hupper | hlower := (Bool.or_eq_true _ _).mp halpha
    · have hle : 'A'.val ≤ c.val := (of_decide_eq_true hupper).1
      grind
    · have hle : 'a'.val ≤ c.val := of_decide_eq_true (Bool.and_elim_left hlower)
      grind
  · exact of_decide_eq_true (Bool.and_elim_left hdigit)

/-- Letters and digits are no line breaks, in whatever case they are written, so a text made of them
is `OneLine`. -/
theorem oneLine_of_le {cs : List Char} (h : ∀ c ∈ cs, '0' ≤ c) : OneLine (.ofList cs) := by
  intro c hc
  rw [String.toList_ofList] at hc
  have hle := h c hc
  constructor
  · rintro rfl
    exact absurd hle (by decide)
  · rintro rfl
    exact absurd hle (by decide)

theorem oneLine_lower {cs : List Char} (h : ∀ c ∈ cs, '0' ≤ c) : OneLine (.ofList (lower cs)) :=
  oneLine_of_le (List.forall_mem_map.mpr fun c hc => le_toLower (h c hc))

theorem oneLine_upper {cs : List Char} (h : ∀ c ∈ cs, '0' ≤ c) : OneLine (.ofList (upper cs)) :=
  oneLine_of_le (List.forall_mem_map.mpr fun c hc => le_toUpper (h c hc))

/-- A capitalized subtag is one line. -/
theorem oneLine_title {cs : List Char} (h : ∀ c ∈ cs, '0' ≤ c) : OneLine (.ofList (title cs)) := by
  cases cs with
  | nil => simp [title, OneLine]
  | cons c cs =>
    obtain ⟨hc, hcs⟩ := List.forall_mem_cons.mp h
    refine oneLine_of_le (List.forall_mem_cons.mpr ⟨le_toUpper hc, ?_⟩)
    exact List.forall_mem_map.mpr fun c hc => le_toLower (hcs c hc)

/-- A form that allows only letters and digits keeps line breaks out, as those come before the
digits. -/
theorem le_of_all {p : Char → Bool} (hp : ∀ c, p c = true → c.isAlphanum = true) {cs : List Char}
    (h : cs.all p = true) : ∀ c ∈ cs, '0' ≤ c :=
  fun c hc => le_of_isAlphanum (hp c (List.all_eq_true.mp h c hc))

theorem form_of_takeIf {form : List Char → Bool} {subtags : List (List Char)} {cs : List Char}
    (h : (takeIf form subtags).1 = some cs) : form cs = true := by
  unfold takeIf at h
  split at h
  · cases h
  · split at h
    · obtain rfl := Option.some.inj h
      assumption
    · cases h

/-- A locale that `Locale.resolve` has given has a tag of one line: it is made of letters, digits
and hyphens. -/
theorem oneLine_tag {id : String} {l : Locale} (h : resolve id = .ok l) : OneLine l.tag := by
  have halpha : ∀ c : Char, c.isAlpha = true → c.isAlphanum = true :=
    fun c hc => (Bool.or_eq_true _ _).mpr (.inl hc)
  have hdigit : ∀ c : Char, c.isDigit = true → c.isAlphanum = true :=
    fun c hc => (Bool.or_eq_true _ _).mpr (.inr hc)
  unfold resolve at h
  split at h
  · cases h
  · rename_i language rest _
    split at h
    · cases h
    · rename_i hlanguage
      dsimp only at h
      split at h
      · cases h
      · rename_i hvariants
        obtain rfl := Except.ok.inj h
        refine oneLine_join (List.forall_mem_cons.mpr ⟨?_, List.forall_mem_map.mpr fun t ht => ?_⟩)
        · simp only [isLanguage, Bool.not_eq_true', Bool.not_eq_false,
            Bool.and_eq_true] at hlanguage
          exact oneLine_lower (le_of_all halpha hlanguage.2)
        · refine OneLine.append (by simp [OneLine]) ?_
          simp only [List.mem_append, Option.mem_toList, Option.map_eq_some_iff, List.mem_map] at ht
          rcases ht with (⟨cs, hcs, rfl⟩ | ⟨cs, hcs, rfl⟩) | ⟨cs, hcs, rfl⟩
          · have hform := form_of_takeIf hcs
            simp only [isScript, Bool.and_eq_true] at hform
            exact oneLine_title (le_of_all halpha hform.2)
          · have hform := form_of_takeIf hcs
            simp only [isRegion, Bool.and_eq_true, Bool.or_eq_true] at hform
            rcases hform with hform | hform
            · exact oneLine_upper (le_of_all halpha hform.2)
            · exact oneLine_upper (le_of_all hdigit hform.2)
          · have hform := List.find?_eq_none.mp hvariants cs hcs
            simp only [isVariant, Bool.not_eq_true', Bool.not_eq_false, Bool.and_eq_true] at hform
            exact oneLine_lower (le_of_all (fun _ hc => hc) hform.1)

end Locale

/-! ### The dump

The lines of the dump are told apart by their line breaks, of which none is part of a line. -/

/-- Lines can be told apart, if each is `OneLine`: joined with a line break behind each, they are
what lies between the line breaks. -/
theorem splitOn_lines {lines : List String} (h : ∀ line ∈ lines, OneLine line) :
    (String.join (lines.map (· ++ "\n"))).toList.splitOn '\n' =
      lines.map String.toList ++ [[]] := by
  induction lines with
  | nil => rfl
  | cons line lines ih =>
    obtain ⟨hline, hlines⟩ := List.forall_mem_cons.mp h
    have hlist : (String.join ((line :: lines).map (· ++ "\n"))).toList =
        line.toList ++ '\n' :: (String.join (lines.map (· ++ "\n"))).toList := by
      simp [String.join_cons]
    rw [hlist, List.splitOn, List.splitOnP_append_cons_of_forall_mem _ '\n' (by decide)]
    · exact congrArg _ (ih hlines)
    · intro c hc
      simpa using (hline c hc).1

/-- The dump is made of lines, each with its line break: one for the locale, and one for each entry.
-/
theorem Catalog.toText_eq (c : Catalog) :
    c.toText = String.join
      ((("# locale: " ++ c.locale.tag) :: c.messages.map (·.entry.line)).map (· ++ "\n")) := by
  rw [Catalog.toText, List.map_cons, String.join_cons, List.map_map]
  congr 2
  exact List.map_congr_left fun m _ => m.line_eq

/-- What a sink has taken of a text dump is all of it, if `dumpInto` reports no failure. -/
theorem Catalog.eq_toText_of_dumpInto {c : Catalog} {sink : Sink} {D : String}
    (h : c.dumpInto .text sink = .ok D) : D = c.toText :=
  Catalog.eq_dump_of_dumpInto h

/-- In a compilation that succeeds (`Compilation.succeeded`) no file has errors, so every message of
the catalog is sound. -/
theorem errors_eq_nil_of_succeeded {l : Locale} {sources : List Source}
    (h : (compileFor l sources).succeeded = true) : ∀ s ∈ sources, s.parse.errors = [] := by
  intro s hs
  have hnone : s.failure? = none :=
    List.filterMap_eq_nil_iff.mp (List.isEmpty_iff.mp h) s hs
  unfold Source.failure? at hnone
  dsimp only at hnone
  split at hnone
  · rename_i hempty
    exact List.isEmpty_iff.mp hempty
  · cases hnone

/-- The text dump of a catalog loses nothing. If all files are without errors, then the dump is a
line with the locale and a line for each message, in their order; no message writes a line break of
its own (`OneLine`); and what `DumpEntry.ofLine?` takes from the line of a message alone makes a
file without errors that holds this one message, in normal form. -/
theorem dump_text {locale : String} {sources : List Source} {c : Compilation} {sink : Sink}
    {D : String} (hc : compile locale sources = .ok c) (hok : c.succeeded = true)
    (hD : c.catalog.dumpInto .text sink = .ok D) (file : String) :
    ∃ lines : List String,
      D.toList.splitOn '\n' =
        (("# locale: " ++ c.catalog.locale.tag) :: lines).map String.toList ++ [[]] ∧
      List.Forall₂
        (fun m line => OneLine line ∧ ∃ entry, DumpEntry.ofLine? line = some entry ∧
          (parse file (Utf8.encode entry.source)).errors = [] ∧
          (parse file (Utf8.encode entry.source)).messages = [m.normal])
        c.catalog.messages lines := by
  obtain rfl := Catalog.eq_toText_of_dumpInto hD
  cases hresolve : Locale.resolve locale with
  | error e =>
    rw [compile, hresolve] at hc
    cases hc
  | ok l =>
    rw [compile, hresolve] at hc
    obtain rfl := Except.ok.inj hc
    -- what is known of every message of the files
    have hmessages : ∀ m ∈ (compileFor l sources).catalog.messages,
        SoundMessage m ∧ (m.sectionName = "" ∨ Dotted m.sectionName.toList) := by
      intro m hm
      obtain ⟨s, hs, hm⟩ := List.mem_flatMap.mp hm
      exact ⟨sound_of_mem_messages (errors_eq_nil_of_succeeded hok s hs) m hm,
        section_of_mem_messages hm⟩
    refine ⟨(compileFor l sources).catalog.messages.map (·.entry.line), ?_, ?_⟩
    · rw [Catalog.toText_eq]
      refine splitOn_lines (List.forall_mem_cons.mpr ⟨?_, List.forall_mem_map.mpr fun m hm => ?_⟩)
      · exact OneLine.append (by simp [OneLine]) (Locale.oneLine_tag hresolve)
      · exact (wellFormed_entry (hmessages m hm).1 (hmessages m hm).2).oneLine
    · rw [List.forall₂_map_right_iff, List.forall₂_same]
      intro m hm
      obtain ⟨hsound, hsection⟩ := hmessages m hm
      have hentry := wellFormed_entry hsound hsection
      exact ⟨hentry.oneLine, m.entry, hentry.ofLine?_line, parse_entry hsound hsection file⟩

/-- A file with a message outside of any section and one in a section: its dump has three lines, and
nothing stands behind the last line break. -/
theorem dump_text_of_section :
    let bytes := Utf8.encode
      "x:\n\t1\n[[s.t]]\nk:\n\t$\x7bn:plural.ONE\x7ba\x7d.other\x7b\x7d\x7d\n"
    let c := compileFor ⟨"en", none, some "US", []⟩ [⟨"a", bytes⟩]
    compile "en_us" [⟨"a", bytes⟩] = .ok c ∧ c.succeeded = true ∧
      ∃ lines : List String, lines.length = 2 ∧
        (c.catalog.dump .text).toList.splitOn '\n' =
          ("# locale: en-US" :: lines).map String.toList ++ [[]] := by
  intro bytes c
  have hparse : (parse "a" bytes).errors = [] ∧ (parse "a" bytes).messages.length = 2 := by
    rw [parse, tokens_eq_runFor]
    decide +kernel
  have hc : compile "en_us" [⟨"a", bytes⟩] = .ok c := by
    have hresolve : Locale.resolve "en_us" = .ok ⟨"en", none, some "US", []⟩ := by decide +kernel
    rw [compile, hresolve]
    rfl
  have hok : c.succeeded = true := by
    simp [c, Compilation.succeeded, compileFor, Source.failure?, Source.parse, hparse.1]
  have hcount : c.catalog.messages.length = 2 := by
    simp [c, compileFor, Source.parse, hparse.2]
  have hD : c.catalog.dumpInto .text ⟨(c.catalog.dump .text).utf8ByteSize, ""⟩ =
      .ok (c.catalog.dump .text) := if_pos (by simp [Sink.takes])
  obtain ⟨lines, hlines, hforall⟩ := dump_text hc hok hD "b"
  exact ⟨hc, hok, lines, hforall.length_eq.symm.trans hcount, hlines⟩

end MessageCatalog
