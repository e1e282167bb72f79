import MessageCatalog.Proofs.Normal
import MessageCatalog.Proofs.Passage

/-!
# MessageCatalog.Proofs.Rereading

The canonical form of a replacement is read back: `rereads_of_allowed`.

A replacement is read back (`Rereads`) if the two machines pass over its canonical form and attach
its normal form to the body. That is so wherever there is room for it and all that is nested in it.
The induction is on the room: the bodies of its options hold replacements with less room, and a body
is read back piece by piece (`goes_pieces`), text as it is and replacements by the induction
hypothesis.

Between the two are the options. In canonical form they come in the order of their maps, so each is
behind all that have been taken, and is added at the end (`PluralDraft.add_number` and its like); a
whole map is read back by one lemma for all three kinds of keys (`goes_entries`). Numbers,
categories and cases differ in how their names are written and read: a number is written in decimal
and read as it was written (`Text.readInt64_showInt`), a case stands in brackets
(`OptionName.ofText_literalSource`).

`MessageCatalog.Proofs.RoundTrip` puts the body below its key.
-/

namespace MessageCatalog

open Piece
open Entries (Sorted)
open Scanner (maxNesting nesting)

/-! ### Numbers

What is written of a number is a literal, and it is read as that number. -/

namespace Text

theorem isBlank_eq_false_of_isDigit {c : Char} (h : c.isDigit = true) : isBlank c = false := by
  simp only [Char.isDigit, Bool.and_eq_true, decide_eq_true_eq] at h
  have h₁ : 48 ≤ c.toNat := h.1
  have h₂ : c.toNat ≤ 57 := h.2
  rw [← Bool.not_eq_true, isBlank, CodeRanges.covers_iff]
  simp only [blank, List.mem_cons, List.not_mem_nil, or_false]
  intro h
  obtain ⟨r, hr, hc⟩ := h
  rcases hr with rfl | rfl | rfl | rfl | rfl | rfl | rfl | rfl | rfl | rfl <;>
    dsimp only at hc <;> omega

/-- The characters of a number: digits, with a minus sign below zero. All that follows about
`showInt` is by these two cases. -/
theorem showInt_cases (n : Int) :
    (∃ k : Nat, n = k ∧ (showInt n).toList = natDigits k) ∨
      ∃ k : Nat, n = -(k : Int) ∧ (showInt n).toList = '-' :: natDigits k := by
  cases n with
  | ofNat k => exact .inl ⟨k, rfl, by simp [showInt, showNat]⟩
  | negSucc k => exact .inr ⟨k + 1, rfl, by simp [showInt, showNat]⟩

/-- A number is written with digits and perhaps a minus sign, so there is no blank in it and no
bracket. -/
theorem mem_showInt {n : Int} {c : Char} (h : c ∈ (showInt n).toList) :
    c = '-' ∨ c.isDigit = true := by
  rcases showInt_cases n with ⟨k, -, hk⟩ | ⟨k, -, hk⟩
  · rw [hk] at h
    exact .inr (natDigits_isDigit h)
  · rw [hk, List.mem_cons] at h
    exact h.imp_right natDigits_isDigit

/-- A number is written without blanks around it, so `trim` leaves it alone. -/
theorem trim_showInt (n : Int) : trim (showInt n) = showInt n := by
  have hblank : ∀ c ∈ (showInt n).toList, isBlank c = false := by
    intro c hc
    rcases mem_showInt hc with rfl | hdigit
    · decide
    · exact isBlank_eq_false_of_isDigit hdigit
  have hstart : (showInt n).toList.dropWhile isBlank = (showInt n).toList := by
    cases hcs : (showInt n).toList with
    | nil => rfl
    | cons c cs => rw [List.dropWhile_cons_of_neg (by simp [hblank c (by simp [hcs])])]
  have hend := @Trimmed.trimEnd_eq (showInt n) fun c hc => hblank c (List.mem_of_getLast? hc)
  rw [trim, hstart]
  exact hend

/-- A number is read by `readInt64` as it was written by `showInt`, if it is in range. -/
theorem readInt64_showInt {n : Int} (h : InInt64 n) : readInt64 (showInt n) = some n := by
  have hsigned : readSigned (showInt n).toList = some n := by
    rcases showInt_cases n with ⟨k, rfl, hk⟩ | ⟨k, rfl, hk⟩
    · have hdigit : ∀ c ∈ natDigits k, c ≠ '-' ∧ c ≠ '+' := by
        intro c hc
        have hc := natDigits_isDigit hc
        constructor
        · rintro rfl
          exact absurd hc (by decide)
        · rintro rfl
          exact absurd hc (by decide)
      rw [hk]
      unfold readSigned
      split
      · rename_i heq
        exact absurd rfl (hdigit '-' (by simp [heq])).1
      · rename_i heq
        exact absurd rfl (hdigit '+' (by simp [heq])).2
      · rw [readDigits_natDigits]
        rfl
    · rw [hk, readSigned, readDigits_natDigits]
      rfl
  rw [readInt64, hsigned]
  simp [h]

end Text

/-- A number may stand in brackets, as the name of an option. -/
theorem isLiteralChar_showInt (n : Int) :
    (Text.showInt n).toList.all Word.isLiteralChar = true := by
  refine List.all_eq_true.mpr fun c hc => ?_
  rcases Text.mem_showInt hc with rfl | hdigit
  · decide
  · simp only [Char.isDigit, Bool.and_eq_true, decide_eq_true_eq] at hdigit
    have hlow : 48 ≤ c.toNat := hdigit.1
    have hhigh : c.toNat ≤ 57 := hdigit.2
    have hne (d : Char) (hd : d.toNat < 48 ∨ 57 < d.toNat) : c ≠ d := by
      rintro rfl
      omega
    rw [Word.isLiteralChar_iff, Symbol.fault?, if_neg (hne _ (by decide)),
      if_neg (hne _ (by decide))]
    exact ⟨hne _ (by decide), hne _ (by decide), hne _ (by decide), rfl⟩

/-! ### Pieces

A message is written by joining the canonical forms of its pieces, and read back piece by piece. -/

namespace Piece

/-- A piece in canonical form: text as it is, and a replacement as `Replacement.canonical` writes
it. -/
def source : Piece → String
  | .inl t => t
  | .inr r => r.canonical

/-- A piece in normal form, which makes a difference to replacements only (`Replacement.normal`). -/
def normal : Piece → Piece
  | .inl t => .inl t
  | .inr r => .inr r.normal

/-- The symbols of some pieces, as they stand one behind the other in a file. -/
def sources (ps : List Piece) : List Symbol := ps.flatMap fun p => symbols p.source

/-- Normalizing pieces keeps the texts, and normalizes the replacements (`marks_map_normal`). -/
theorem texts_map_normal (ps : List Piece) : texts (ps.map normal) = texts ps := by
  induction ps with
  | nil => rfl
  | cons x ps ih => cases x <;> simp [normal, ih]

/-- Normalizing pieces normalizes the replacements. -/
theorem marks_map_normal (ps : List Piece) :
    marks (ps.map normal) = normalReplacements (marks ps) := by
  induction ps with
  | nil => rfl
  | cons x ps ih => cases x <;> simp [normal, ih, normalReplacements]

end Piece

theorem symbols_join (ts : List String) : symbols (String.join ts) = ts.flatMap symbols := by
  induction ts with
  | nil => rfl
  | cons t ts ih => rw [String.join_cons, symbols_append, ih, List.flatMap_cons]

/-- A message is written piece by piece: `Message.canonical` is the sources of what it is woven of.
-/
theorem Woven.symbols_canonical {m : Message} {ps : List Piece} (h : Woven m ps) :
    symbols m.canonical = sources ps := by
  rw [Message.canonical_eq_render, Message.render, h.pieces_eq, symbols_join, sources,
    List.flatMap_map]
  congr 1

/-- The replacement is read back where so many replacements are open: from its canonical form with
anything behind it, to the body with the replacement in normal form attached to it. The steps from
here to there are `Goes`. -/
def Rereads (depth : Nat) (r : Replacement) : Prop :=
  ∀ (nested produced : Bool) (below : List Mode) (m : Message) (frames : List Frame)
    (rest : List Symbol), nesting below = depth → r.textPos = m.text.length →
    Goes ⟨symbols r.canonical ++ rest, .body nested produced :: below, .body m frames⟩
      ⟨rest, .body nested true :: below, .body (Reader.attach m (some r.normal)) frames⟩

/-- A replacement starts with a dollar sign and a brace, so text ends in front of it. -/
theorem symbols_replacement (r : Replacement) :
    ∃ tail, symbols r.canonical = .char '$' :: .char '{' :: tail := by
  obtain ⟨key, textPos, kind, details⟩ := r
  rw [Replacement.canonical]
  simp only [symbols_append]
  exact ⟨_, rfl⟩

/-- Behind text there is a replacement or the end of the body (`Word.EndsText`), as no two texts
stand side by side. -/
theorem endsText_sources {t : String} {ps : List Piece} {rest : List Symbol}
    (h : List.IsChain Apart (.inl t :: ps)) (hend : Word.EndsText rest) :
    Word.EndsText (sources ps ++ rest) := by
  match ps with
  | [] => exact hend
  | .inl t' :: ps =>
    rcases (List.isChain_cons_cons.mp h).1 with h | h <;> cases h
  | .inr r :: ps =>
    obtain ⟨tail, htail⟩ := symbols_replacement r
    rw [sources, List.flatMap_cons, Piece.source, htail]
    exact trivial

/-- The rest of a body is read piece by piece: its text as it is, and its replacements in normal
form. By induction on the pieces that are left, where `front` are those that have been read. -/
theorem goes_pieces {nested : Bool} {below : List Mode} {frames : List Frame} {rest : List Symbol}
    (hend : Word.EndsText rest) :
    ∀ {ps front : List Piece} {m : Message} {produced : Bool}, Woven m front →
      Placed (texts front).length ps → ps.IsChain Apart →
      (∀ x ∈ front.getLast?, ∀ y ∈ ps.head?, Apart x y) → (∀ t ∈ texts ps, GoodText t) →
      (∀ r, .inr r ∈ ps → Rereads (nesting below) r) →
      ∃ (m' : Message) (produced' : Bool),
        Goes ⟨sources ps ++ rest, .body nested produced :: below, .body m frames⟩
          ⟨rest, .body nested produced' :: below, .body m' frames⟩ ∧
        Woven m' (front ++ ps.map normal) ∧ m'.sectionName = m.sectionName ∧ m'.key = m.key := by
  intro ps
  induction ps with
  | nil =>
    intro front m produced hwoven _ _ _ _ _
    refine ⟨m, produced, .refl _, ?_, rfl, rfl⟩
    rw [List.map_nil, List.append_nil]
    exact hwoven
  | cons x ps ih =>
    intro front m produced hwoven hplaced hchain hjoin hgood hreads
    have hnext : ∀ y ∈ ps.head?, Apart x y := by
      cases ps with
      | nil => simp
      | cons y ps =>
        intro y' hy
        obtain rfl := Option.some.inj hy
        exact (List.isChain_cons_cons.mp hchain).1
    have hsource : sources (x :: ps) ++ rest = symbols x.source ++ (sources ps ++ rest) := by
      rw [sources, List.flatMap_cons, List.append_assoc]
      rfl
    have hlist : front ++ (x :: ps).map normal = (front ++ [x.normal]) ++ ps.map normal := by
      simp
    rw [hsource, hlist]
    cases x with
    -- the induction is on the pieces that are left, with those that have been read in `front`
    -- text is a new segment, since what is in front of it is not text
    | inl t =>
      have ht := hgood t List.mem_cons_self
      have hright : ∀ y ∈ front.getLast?, y.isRight = true := by
        intro y hy
        exact (hjoin y hy (.inl t) rfl).resolve_right (by simp)
      have hgoes := @Goes.text nested produced below m frames t.toList (sources ps ++ rest)
        (fun hnil => ht.1 (String.toList_eq_nil_iff.mp hnil)) ht.2 (endsText_sources hchain hend)
      rw [String.ofList_toList] at hgoes
      obtain ⟨m', produced', hrest, hwoven', hsection, hkey⟩ :=
        @ih (front ++ [.inl t]) (m.pushText t) true (hwoven.pushText_new hright ht)
          (by simpa [texts_append, Placed] using hplaced) hchain.tail (by simpa using hnext)
          (fun t' ht' => hgood t' (List.mem_cons_of_mem t ht'))
          (fun r hr => hreads r (List.mem_cons_of_mem _ hr))
      refine ⟨m', produced', hgoes.trans hrest, hwoven', ?_, ?_⟩
      · rw [hsection, Message.sectionName_pushText]
      · rw [hkey, Message.key_pushText]
    -- a replacement stands behind as many segments as it did
    | inr r =>
      have hplace : r.textPos = m.text.length := by
        rw [hplaced.1, hwoven.text]
      have hplace' : r.normal.textPos = m.text.length := by
        rw [← hplace]
        cases r
        rw [Replacement.normal]
      have hgoes := hreads r List.mem_cons_self nested produced below m frames (sources ps ++ rest)
        rfl hplace
      obtain ⟨m', produced', hrest, hwoven', hsection, hkey⟩ :=
        @ih (front ++ [.inr r.normal]) (Reader.attach m (some r.normal)) true
          (hwoven.attach hplace') (by simpa [texts_append] using hplaced.2) hchain.tail
          (by simp [Apart]) hgood (fun r' hr => hreads r' (List.mem_cons_of_mem _ hr))
      exact ⟨m', produced', hgoes.trans hrest, hwoven', hsection, hkey⟩

/-- The message as the body of an option, or of a message without a section, is read back: in normal
form (`Message.normal`), under the key it is read with. Its text and its replacements are all that
has been written. -/
def Message.reread (m : Message) (key : String) : Message :=
  { m.normal with sectionName := "", key }

/-- A body is read back (`Message.reread`), and there is nothing to trim when it ends. -/
theorem goes_body {nested produced : Bool} {below : List Mode} {frames : List Frame}
    {rest : List Symbol} {m : Message} (hend : Word.EndsText rest)
    (h : Built (Rereads (nesting below)) m) (key : String) :
    ∃ produced',
      Goes ⟨symbols m.canonical ++ rest, .body nested produced :: below,
          .body (.empty "" key) frames⟩
        ⟨rest, .body nested produced' :: below, .body (m.reread key) frames⟩ ∧
      (m.reread key).trimTrailing = m.reread key := by
  obtain ⟨ps, hwoven, hfinished, hreads⟩ := h
  obtain ⟨m', produced', hgoes, hwoven', hsection, hkey⟩ :=
    @goes_pieces nested below frames rest hend ps [] (.empty "" key) produced (.empty "" key)
      hwoven.placed hwoven.apart (by simp) hwoven.good hreads
  have heq : m' = m.reread key := by
    obtain ⟨sectionName, key', text, replacements⟩ := m
    obtain ⟨sectionName', key'', text', replacements'⟩ := m'
    have htext := hwoven'.text
    have hreplacements := hwoven'.replacements
    rw [List.nil_append, texts_map_normal, ← hwoven.text] at htext
    rw [List.nil_append, marks_map_normal, ← hwoven.replacements] at hreplacements
    rw [Message.reread, Message.normal]
    simp only [Message.mk.injEq]
    exact ⟨hsection, hkey, htext, hreplacements⟩
  rw [List.nil_append] at hwoven'
  rw [hwoven.symbols_canonical, ← heq]
  refine ⟨produced', hgoes, hwoven'.trimTrailing_of_finished ?_⟩
  intro t ht
  refine hfinished t ?_
  rw [List.getLast?_map, Option.map_eq_some_iff] at ht
  obtain ⟨x, hx, hxt⟩ := ht
  cases x with
  | inl t' => rw [hx, ← hxt]; rfl
  | inr r => cases hxt

/-! ### Options

An option in canonical form is a dot, its name, and its body in braces. -/

open Goes (opened)

section

variable {below : List Mode} {m : Message} {frames : List Frame} {rest : List Symbol}

theorem symbols_optionSource (name body : String) :
    symbols (optionSource name body) =
      .char '.' :: (symbols name ++ .char '{' :: (symbols body ++ [.char '}'])) := by
  simp only [optionSource, symbols_append]
  simp [symbols]

/-- An option is read back (`Goes`) if the replacement finds nothing wrong with it: its name, its
body between braces, and on behind it. -/
theorem goes_option {r : OpenReplacement} {name : String} {body : Message} {b : Config}
    (hname : Word.IsOptionName name.toList) (hbody : Built (Rereads (nesting below + 1)) body)
    (hdraft : r.draft ≠ .none)
    (h : ∀ pos, ∃ draft,
      r.draft.add ⟨.ofText name, pos, body.reread (OptionName.ofText name).key⟩ = (draft, none) ∧
      Goes ⟨rest, .replacement .options :: below,
        .replacement { r with draft, fresh := false } m frames⟩ b) :
    Goes ⟨symbols (optionSource name body.canonical) ++ rest, .replacement .options :: below,
      .replacement r m frames⟩ b := by
  have hinput : symbols (optionSource name body.canonical) ++ rest =
      .char '.' ::
        (symbols name ++ .char '{' :: (symbols body.canonical ++ .char '}' :: rest)) := by
    rw [symbols_optionSource]
    simp
  rw [hinput]
  refine Goes.option hname fun pos => ?_
  rw [String.ofList_toList]
  obtain ⟨draft, hadd, hnext⟩ := h pos
  obtain ⟨produced, hgoes, htrim⟩ := @goes_body true false (.replacement .optionBody :: below)
    (Goes.frameOf name.toList pos r m :: frames) (.char '}' :: rest) body trivial
    (by rw [Scanner.nesting_replacement]; exact hbody) (OptionName.ofText name).key
  have hadd' : r.draft.add ⟨.ofText (String.ofList name.toList), pos,
      (body.reread (OptionName.ofText name).key).trimTrailing⟩ = (draft, none) := by
    rw [String.ofList_toList, htrim]
    exact hadd
  have hclose := @Goes.optionEnd produced below (body.reread (OptionName.ofText name).key) frames
    rest (Goes.frameOf name.toList pos r m) hdraft (congrArg Prod.snd hadd')
  simp only [hadd'] at hclose
  exact (hgoes.trans hclose).trans hnext

/-- The options of a map are read back in order, and build the map again, since each goes behind all
others. Plurals and selections share this; they differ in the `name` of an entry and in the `draft`
that entries are part of. -/
theorem goes_entries {κ : Type} [LT κ] {key : String} {pos : Position} {textPos : Nat}
    {kind : ReplacementKind} (name : κ → String) (draft : List (κ × Message) → Draft)
    (hdraft : ∀ entries, draft entries ≠ .none) :
    ∀ (entries : List (κ × Message)) {front : List (κ × Message)},
      entries.Pairwise (fun a b => a.1 < b.1) → (∀ e ∈ front, ∀ e' ∈ entries, e.1 < e'.1) →
      (∀ e ∈ entries, Word.IsOptionName (name e.1).toList) →
      (∀ e ∈ entries, Built (Rereads (nesting below + 1)) e.2) →
      (∀ e ∈ entries, ∀ (done : List (κ × Message)) (body : Message) (pos : Position),
        (∀ e' ∈ done, e'.1 < e.1) →
        (draft done).add ⟨.ofText (name e.1), pos, body⟩ = (draft (done ++ [(e.1, body)]), none)) →
      Goes
        ⟨(entries.flatMap fun e => symbols (optionSource (name e.1) e.2.canonical)) ++ rest,
          .replacement .options :: below,
          .replacement (opened key pos textPos kind (draft front)) m frames⟩
        ⟨rest, .replacement .options :: below,
          .replacement
            (opened key pos textPos kind (draft (front ++ entries.map fun e =>
              (e.1, e.2.reread (OptionName.ofText (name e.1)).key)))) m frames⟩ := by
  intro entries
  induction entries with
  | nil =>
    intro front _ _ _ _ _
    rw [List.map_nil, List.append_nil]
    exact .refl _
  | cons e entries ih =>
    intro front hsorted hfront hnames hbodies hadd
    -- the first entry is greater than all that are there, so it is added at the end
    obtain ⟨hfirst, hsorted⟩ := List.pairwise_cons.mp hsorted
    rw [List.map_cons, List.append_cons, List.flatMap_cons, List.append_assoc]
    refine goes_option (hnames e List.mem_cons_self) (hbodies e List.mem_cons_self)
      (hdraft front) fun pos' => ⟨_, hadd e List.mem_cons_self front _ pos'
        fun e' he' => hfront e' he' e List.mem_cons_self, ?_⟩
    refine ih hsorted ?_ (fun e' he' => hnames e' (List.mem_cons_of_mem e he'))
      (fun e' he' => hbodies e' (List.mem_cons_of_mem e he'))
      (fun e' he' => hadd e' (List.mem_cons_of_mem e he'))
    intro e' he' e'' he''
    rcases List.mem_append.mp he' with he' | he'
    · exact hfront e' he' e'' (List.mem_cons_of_mem e he'')
    · obtain rfl := List.mem_singleton.mp he'
      exact hfirst e'' he''

end

/-! ### Taking options that come in order

An option whose key is greater than all that are there is new, and its place is at the end. -/

/-- An identifier is a bare name, as it does not start with a bracket. -/
theorem OptionName.ofText_of_isIdent {name : String} (h : Word.isIdent name.toList = true) :
    ofText name = .bare name := by
  have hname := ofText_ident h
  rwa [String.ofList_toList] at hname

theorem toList_literalSource (t : String) :
    (literalSource t).toList = '[' :: t.toList ++ [']'] := by
  simp [literalSource]

/-- Text in brackets is a literal name (`OptionName.ofText`). The text may be anything, brackets
included. -/
theorem OptionName.ofText_literalSource (t : String) : ofText (literalSource t) = .literal t := by
  rw [← String.ofList_toList (s := literalSource t), toList_literalSource, ofText_literal,
    String.ofList_toList]

/-- The name of a category is an identifier, so it may be written as the name of an option. -/
theorem PluralCategory.isIdent_name (category : PluralCategory) :
    Word.isIdent category.name.toList = true := by
  cases category <;> decide

section

variable {type : Option PluralType} (body : Message) (pos : Position)

/-- A number behind all others is added at the end of the map, by `insert_eq_append`. So are
categories and cases. -/
theorem PluralDraft.add_number {n : Int} {custom : Entries Int Message} (hn : Text.InInt64 n)
    (h : ∀ e ∈ custom, e.1 < n) :
    Draft.add ⟨.ofText (literalSource (Text.showInt n)), pos, body⟩
        (.plural { type, variants := [], custom }) =
      (.plural { type, variants := [], custom := custom ++ [(n, body)] }, none) := by
  obtain ⟨hnew, hinsert⟩ := @Entries.insert_eq_append _ _ _ _ _ ordered_int n body custom h
  simp only [Draft.add, PluralDraft.add, OptionName.ofText_literalSource, Text.trim_showInt,
    Text.readInt64_showInt hn, PluralDraft.addNumber, hnew, hinsert]

/-- A category behind all others is added at the end, as `Entries.insert` keeps the order. -/
theorem PluralDraft.add_category {category : PluralCategory}
    {variants : Entries PluralCategory Message} {custom : Entries Int Message}
    (h : ∀ e ∈ variants, e.1 < category) :
    Draft.add ⟨.ofText category.name, pos, body⟩ (.plural { type, variants, custom }) =
      (.plural { type, variants := variants ++ [(category, body)], custom }, none) := by
  obtain ⟨hnew, hinsert⟩ :=
    @Entries.insert_eq_append _ _ _ _ _ ordered_category category body variants h
  have htype : PluralType.ofName? category.name = none := by cases category <;> decide
  simp only [Draft.add, PluralDraft.add, OptionName.ofText_of_isIdent category.isIdent_name, htype,
    PluralCategory.ofName?_name, PluralDraft.addCategory, hnew, hinsert]

/-- A case behind all others is added at the end, as `Entries.insert` keeps the order. -/
theorem SelectDraft.add_case {value : String} {cases : Entries String Message}
    (h : ∀ e ∈ cases, e.1 < value) :
    Draft.add ⟨.ofText (literalSource value), pos, body⟩ (.select { cases }) =
      (.select { cases := cases ++ [(value, body)] }, none) := by
  obtain ⟨hnew, hinsert⟩ := @Entries.insert_eq_append _ _ _ _ _ ordered_string value body cases h
  simp only [Draft.add, SelectDraft.add, OptionName.ofText_literalSource, SelectDraft.addCase, hnew,
    hinsert]

end

/-! ### Maps of bodies

The three maps, written and read back. A body is read back under the name of its option, which is
what normalizing gives it. -/

/-- The body of an option is read back in normal form, under the name of the option. Bodies have no
section. -/
theorem Message.reread_eq {m : Message} (h : m.sectionName = "") (key : String) :
    m.reread key = m.normal.withKey key := by
  obtain ⟨sectionName, key', text, replacements⟩ := m
  obtain rfl : sectionName = "" := h
  rfl

theorem Message.reread_key {m : Message} (h : m.sectionName = "") : m.reread m.key = m.normal := by
  obtain ⟨sectionName, key, text, replacements⟩ := m
  obtain rfl : sectionName = "" := h
  rfl

/-- Bodies for numbers are written one behind the other, and bodies for categories and cases are
too. -/
theorem symbols_canonicalNumbers (es : List (Int × Message)) :
    symbols (canonicalNumbers es) =
      es.flatMap fun e =>
        symbols (optionSource (literalSource (Text.showInt e.1)) e.2.canonical) := by
  induction es with
  | nil => rfl
  | cons e es ih => rw [canonicalNumbers, symbols_append, ih, List.flatMap_cons]

theorem symbols_canonicalCategories (es : List (PluralCategory × Message)) :
    symbols (canonicalCategories es) =
      es.flatMap fun e => symbols (optionSource e.1.name e.2.canonical) := by
  induction es with
  | nil => rfl
  | cons e es ih => rw [canonicalCategories, symbols_append, ih, List.flatMap_cons]

theorem symbols_canonicalCases (es : List (String × Message)) :
    symbols (canonicalCases es) =
      es.flatMap fun e => symbols (optionSource (literalSource e.1) e.2.canonical) := by
  induction es with
  | nil => rfl
  | cons e es ih => rw [canonicalCases, symbols_append, ih, List.flatMap_cons]

/-- Bodies for numbers are read back in normal form: `normalNumbers` gives them the keys that they
are read with. -/
theorem map_reread_numbers {es : List (Int × Message)} (h : ∀ e ∈ es, e.2.sectionName = "") :
    (es.map fun e =>
      (e.1, e.2.reread (OptionName.ofText (literalSource (Text.showInt e.1))).key)) =
      normalNumbers es := by
  induction es with
  | nil => rfl
  | cons e es ih =>
    rw [List.map_cons, ih fun e' he' => h e' (List.mem_cons_of_mem e he'), normalNumbers,
      OptionName.ofText_literalSource, Message.reread_eq (h e List.mem_cons_self)]
    rfl

theorem map_reread_categories {es : List (PluralCategory × Message)}
    (h : ∀ e ∈ es, e.2.sectionName = "") :
    (es.map fun e => (e.1, e.2.reread (OptionName.ofText e.1.name).key)) =
      normalCategories es := by
  induction es with
  | nil => rfl
  | cons e es ih =>
    rw [List.map_cons, ih fun e' he' => h e' (List.mem_cons_of_mem e he'), normalCategories,
      OptionName.ofText_of_isIdent e.1.isIdent_name, Message.reread_eq (h e List.mem_cons_self)]
    rfl

theorem map_reread_cases {es : List (String × Message)}
    (h : ∀ e ∈ es, e.2.sectionName = "" ∧ e.2.key = e.1) :
    (es.map fun e => (e.1, e.2.reread (OptionName.ofText (literalSource e.1)).key)) =
      normalCases es := by
  induction es with
  | nil => rfl
  | cons e es ih =>
    obtain ⟨hsection, hkey⟩ := h e List.mem_cons_self
    rw [List.map_cons, ih fun e' he' => h e' (List.mem_cons_of_mem e he'), normalCases,
      OptionName.ofText_literalSource]
    simp only [OptionName.key, ← hkey, Message.reread_key hsection]

theorem fst_normalCategories (es : List (PluralCategory × Message)) :
    (normalCategories es).map Prod.fst = es.map Prod.fst := by
  induction es with
  | nil => rfl
  | cons e es ih => rw [normalCategories, List.map_cons, List.map_cons, ih]

theorem fst_normalCases (es : List (String × Message)) :
    (normalCases es).map Prod.fst = es.map Prod.fst := by
  induction es with
  | nil => rfl
  | cons e es ih => rw [normalCases, List.map_cons, List.map_cons, ih]

/-! ### Details

One lemma for each kind with options, from behind the type to the closing brace of the replacement.
-/

/-- The body of an option in plain text, as the currency of a price and the default of a selection
are written. -/
def plainBody (t : String) : Message := { Message.empty "" "" with text := [t] }

/-- A body in plain text is written as that text. -/
theorem canonical_plainBody (t : String) : (plainBody t).canonical = t := by
  rw [plainBody, Message.empty, Message.canonical, canonicalMarks]
  simp [Message.weave, Message.flatten, String.join]

/-- A body in plain text is finished, and holds no replacement, so it is `Built` for whatever is
allowed. -/
theorem built_plainBody {t : String} (h : PlainText t) (allowed : Replacement → Prop) :
    Built allowed (plainBody t) := by
  refine ⟨[.inl t], ⟨rfl, rfl, trivial, .singleton _, ?_⟩, ?_, by simp⟩
  · simpa using h.1
  · intro t' ht'
    obtain rfl := Sum.inl.inj (Option.some.inj ht')
    exact h.2

section

variable {below : List Mode} {m : Message} {frames : List Frame} {rest : List Symbol}
  {key : String} {pos : Position} {textPos : Nat}

/-- The currency of a money replacement, and its end: the one option that `Details.canonical` writes
for it. -/
theorem goes_money {currency : String} (h : PlainText currency) :
    Goes ⟨symbols (Details.money currency).canonical ++ .char '}' :: rest,
        .replacement .options :: below,
        .replacement (opened key pos textPos .money (.ofKind .money)) m frames⟩
      ⟨rest, below,
        .body (Reader.attach m (some ⟨key, textPos, .money, .money currency⟩)) frames⟩ := by
  have hempty : currency.isEmpty = false := by simpa using h.1.1
  have hplain : (Message.mk "" "currency" [currency] []).plainText = currency := by
    simp [Message.plainText, String.join]
  rw [Details.canonical]
  nth_rewrite 1 [← canonical_plainBody currency]
  refine goes_option (.inl (by decide)) (built_plainBody h _) (by simp [Draft.ofKind])
    fun pos' => ⟨.money { currency := some currency }, ?_, ?_⟩
  · show Draft.add ⟨.bare "currency", pos', ⟨"", "currency", [currency], []⟩⟩ (.money {}) = _
    simp only [Draft.add, MoneyDraft.add, hplain, hempty]
    rfl
  · exact Goes.close fun _ => rfl

/-- The default of a select replacement, if it has one, and its end are read back. It has to be one
of the cases, or `SelectDraft.finish` would report it. -/
theorem goes_fallback {cases : Entries String Message} {fallback : String}
    (h : fallback = "" ∨ PlainText fallback ∧ (cases.find? fallback).isSome = true) :
    Goes ⟨symbols (if fallback.isEmpty then "" else optionSource "default" fallback) ++
          .char '}' :: rest,
        .replacement .options :: below,
        .replacement (opened key pos textPos .select (.select { cases })) m frames⟩
      ⟨rest, below,
        .body (Reader.attach m (some ⟨key, textPos, .select, .select cases fallback⟩)) frames⟩ := by
  rcases h with rfl | ⟨hplain, hfound⟩
  · exact Goes.close fun _ => rfl
  · have hempty : fallback.isEmpty = false := by simpa using hplain.1.1
    have htext : (Message.mk "" "default" [fallback] []).plainText = fallback := by
      simp [Message.plainText, String.join]
    rw [if_neg (by simp [hempty])]
    nth_rewrite 1 [← canonical_plainBody fallback]
    refine goes_option (.inl (by decide)) (built_plainBody hplain _) (by simp)
      fun pos' => ⟨.select
        { cases, directives := ["default"], fallback, fallbackPos := some pos' }, ?_, ?_⟩
    · show Draft.add ⟨.bare "default", pos', ⟨"", "default", [fallback], []⟩⟩
        (.select { cases }) = _
      have hlower : Text.lowercase "default" = "default" := by decide
      simp only [Draft.add, SelectDraft.add, SelectDraft.addDirective, htext, hlower]
      rfl
    · refine Goes.close ?_
      simp [OpenReplacement.finish, Draft.finish, SelectDraft.finish, hfound]

/-- The options of a select replacement, and its end: the cases in their order by `goes_entries`,
and then the default. -/
theorem goes_select {cases : Entries String Message} {fallback : String}
    (h : Sound (OptionBody (Rereads (nesting below + 1))) .select (.select cases fallback)) :
    Goes ⟨symbols (Details.select cases fallback).canonical ++ .char '}' :: rest,
        .replacement .options :: below,
        .replacement (opened key pos textPos .select (.ofKind .select)) m frames⟩
      ⟨rest, below,
        .body (Reader.attach m
          (some ⟨key, textPos, .select, (Details.select cases fallback).normal⟩)) frames⟩ := by
  cases h with
  | select hsorted hbodies hfallback =>
    have hcases := @goes_entries below m frames
      (symbols (if fallback.isEmpty then "" else optionSource "default" fallback) ++
        .char '}' :: rest) String _ key pos textPos .select literalSource
      (fun cases => .select { cases }) (by simp) cases [] hsorted (by simp)
      (fun e he => .inr ⟨_, (hbodies e he).1, toList_literalSource e.1⟩)
      (fun e he => (hbodies e he).2.2.2)
      (fun e _ done body pos hdone => SelectDraft.add_case body pos hdone)
    rw [List.nil_append,
      map_reread_cases fun e he => ⟨(hbodies e he).2.2.1, (hbodies e he).2.1⟩] at hcases
    rw [Details.canonical, symbols_append, List.append_assoc, symbols_canonicalCases,
      Details.normal]
    refine hcases.trans (goes_fallback (hfallback.imp_right fun h => ⟨h.1, ?_⟩))
    rw [Entries.isSome_find?, fst_normalCases, ← Entries.isSome_find?]
    exact h.2

/-- The options of a plural replacement but its type, and its end, are read back (`Goes`): the
numbers in their order, and then the categories. -/
theorem goes_plural {type : Option PluralType} {variants : Entries PluralCategory Message}
    {custom : Entries Int Message}
    (h : Sound (OptionBody (Rereads (nesting below + 1))) .plural
      (.plural (type.getD .cardinal) variants custom)) :
    Goes ⟨symbols (canonicalNumbers custom) ++
          (symbols (canonicalCategories variants) ++ .char '}' :: rest),
        .replacement .options :: below,
        .replacement (opened key pos textPos .plural (.plural { type })) m frames⟩
      ⟨rest, below,
        .body (Reader.attach m (some ⟨key, textPos, .plural,
          (Details.plural (type.getD .cardinal) variants custom).normal⟩)) frames⟩ := by
  cases h with
  | plural hvariants hcustom hbodies hnumbers hother =>
    have hnumbers' := @goes_entries below m frames
      (symbols (canonicalCategories variants) ++ .char '}' :: rest) Int _ key pos textPos .plural
      (fun n => literalSource (Text.showInt n))
      (fun custom => .plural { type, variants := [], custom }) (by simp) custom [] hcustom (by simp)
      (fun e _ => .inr ⟨_, isLiteralChar_showInt e.1, toList_literalSource _⟩)
      (fun e he => (hnumbers e he).2.2)
      (fun e he done body pos hdone => PluralDraft.add_number body pos (hnumbers e he).1 hdone)
    have hvariants' := @goes_entries below m frames (.char '}' :: rest) PluralCategory _ key pos
      textPos .plural PluralCategory.name
      (fun variants => .plural { type, variants, custom := normalNumbers custom }) (by simp)
      variants [] hvariants (by simp) (fun e _ => .inl e.1.isIdent_name)
      (fun e he => (hbodies e he).2)
      (fun e _ done body pos hdone => PluralDraft.add_category body pos hdone)
    rw [List.nil_append, map_reread_numbers fun e he => (hnumbers e he).2.1] at hnumbers'
    rw [List.nil_append, map_reread_categories fun e he => (hbodies e he).1] at hvariants'
    rw [symbols_canonicalNumbers, symbols_canonicalCategories, Details.normal]
    rw [symbols_canonicalCategories] at hnumbers'
    refine (hnumbers'.trans hvariants').trans (Goes.close ?_)
    have hfound : (Entries.find? .other (normalCategories variants)).isSome = true := by
      rw [Entries.isSome_find?, fst_normalCategories, ← Entries.isSome_find?]
      exact hother
    simp [OpenReplacement.finish, Draft.finish, PluralDraft.finish, hfound]

/-- The options of the replacement are empty or start with a dot, which ends the word in front of
them. -/
theorem symbols_details (d : Details) :
    symbols d.canonical = [] ∨ ∃ tail, symbols d.canonical = .char '.' :: tail := by
  have hoption (name body : String) (more : List Symbol) :
      ∃ tail, symbols (optionSource name body) ++ more = .char '.' :: tail := by
    rw [symbols_optionSource]
    exact ⟨_, rfl⟩
  -- options are written one behind the other, so the first one decides
  cases d with
  | none => exact .inl (by rw [Details.canonical]; rfl)
  | money currency =>
    rw [Details.canonical, ← List.append_nil (symbols _)]
    exact .inr (hoption _ _ _)
  | plural type variants custom =>
    rw [Details.canonical]
    simp only [symbols_append, symbols_canonicalNumbers, symbols_canonicalCategories]
    cases type with
    | ordinal => exact .inr ⟨_, rfl⟩
    | cardinal =>
      cases custom with
      | cons e es => exact .inr (by simpa using hoption _ _ _)
      | nil =>
        cases variants with
        | cons e es => exact .inr (by simpa using hoption _ _ _)
        | nil => exact .inl rfl
  | select cases fallback =>
    rw [Details.canonical, symbols_append, symbols_canonicalCases]
    cases cases with
    | cons e es => exact .inr (by simpa using hoption _ _ _)
    | nil =>
      by_cases hempty : fallback.isEmpty = true
      · exact .inl (by simp [hempty])
      · exact .inr (by simpa [hempty] using hoption "default" fallback [])

/-- The options of a replacement whose kind has been read, and its end. One case for each kind of
`Sound` details. -/
theorem goes_details {kind : ReplacementKind} {details : Details}
    (h : Sound (OptionBody (Rereads (nesting below + 1))) kind details) :
    Goes ⟨symbols details.canonical ++ .char '}' :: rest, .replacement .options :: below,
        .replacement (opened key pos textPos kind (.ofKind kind)) m frames⟩
      ⟨rest, below,
        .body (Reader.attach m (some ⟨key, textPos, kind, details.normal⟩)) frames⟩ := by
  cases details with
  | none =>
    cases h with
    | none hkind =>
      rw [Details.canonical, Details.normal]
      cases kind with
      | string | number | percent => exact Goes.close fun _ => rfl
      | money | plural | select => cases hkind
  | money currency =>
    cases h with
    | money hcurrency =>
      rw [Details.normal]
      exact goes_money hcurrency
  | select cases fallback =>
    obtain rfl : kind = .select := by cases h; rfl
    exact goes_select h
  | plural type variants custom =>
    obtain rfl : kind = .plural := by cases h; rfl
    rw [Details.canonical]
    simp only [symbols_append, List.append_assoc]
    cases type with
    | cardinal => exact @goes_plural below m frames rest key pos textPos none variants custom h
    | ordinal =>
      have hgoes :=
        @goes_plural below m frames rest key pos textPos (some .ordinal) variants custom h
      -- a category follows, if no number does
      obtain ⟨tail, htail⟩ : ∃ tail, symbols (canonicalNumbers custom) ++
          (symbols (canonicalCategories variants) ++ .char '}' :: rest) = .char '.' :: tail := by
        rw [symbols_canonicalNumbers, symbols_canonicalCategories]
        cases custom with
        | cons e es =>
          rw [List.flatMap_cons, symbols_optionSource]
          exact ⟨_, rfl⟩
        | nil =>
          cases variants with
          | cons e es =>
            rw [List.flatMap_nil, List.flatMap_cons, symbols_optionSource]
            exact ⟨_, rfl⟩
          | nil =>
            cases h with
            | plural _ _ _ _ hother => cases hother
      rw [htail] at hgoes ⊢
      exact (Goes.bareOption (by decide) (by simp [Draft.ofKind]) fun pos => rfl).trans hgoes

/-! ### Replacements

A replacement is its key, its kind if that is not `string`, and its options. -/

/-- What fits in one sense fits in a weaker one, in `Sound` details. -/
theorem Sound.mono {fits fits' : Message → Prop} (hfits : ∀ body, fits body → fits' body)
    {kind : ReplacementKind} {details : Details} (h : Sound fits kind details) :
    Sound fits' kind details := by
  cases h with
  | none hkind => exact .none hkind
  | money hcurrency => exact .money hcurrency
  | plural hvariants hcustom hbodies hnumbers hother =>
    exact .plural hvariants hcustom (fun e he => hfits _ (hbodies e he))
      (fun e he => (hnumbers e he).imp_right (hfits _)) hother
  | select hcases hbodies hfallback =>
    exact .select hcases (fun e he => (hbodies e he).imp_right (And.imp_right (hfits _))) hfallback

/-- A replacement with options that are read back is read back, if one more may be open: `Rereads`
one level deeper is asked for. -/
theorem rereads_of_sound {depth : Nat} {r : Replacement} (hdepth : depth < maxNesting)
    (hkey : Word.isIdent r.key.toList = true)
    (h : Sound (OptionBody (Rereads (depth + 1))) r.kind r.details) : Rereads depth r := by
  intro nested produced below m frames rest hbelow hplace
  obtain ⟨key, textPos, kind, details⟩ := r
  obtain rfl : textPos = m.text.length := hplace
  rw [← hbelow] at hdepth h
  have hgoes (pos : Position) := @goes_details (.body nested true :: below) m frames rest key pos
    m.text.length kind details (by rw [Scanner.nesting_body]; exact h)
  rw [Replacement.canonical, Replacement.normal]
  simp only [symbols_append, List.append_assoc]
  refine Goes.opening hdepth fun pos => ?_
  -- the kind `string` is not written
  by_cases hkind : kind = .string
  · subst hkind
    have hnone : details = .none := by cases h; rfl
    subst hnone
    have hread := @Goes.key (.body nested true :: below) m frames key.toList rest pos hkey
    rw [String.ofList_toList] at hread
    exact hread.trans (Goes.close fun _ => rfl)
  · rw [if_neg hkind]
    have hend : Word.EndsIdent (symbols details.canonical ++ .char '}' :: rest) := by
      rcases symbols_details details with hnil | ⟨tail, htail⟩
      · rw [hnil]
        exact show Word.continuesIdent '}' = false by decide
      · rw [htail]
        exact show Word.continuesIdent '.' = false by decide
    have hread :=
      @Goes.typedKey (.body nested true :: below) m frames key.toList _ pos kind hkey hend
    rw [String.ofList_toList] at hread
    simp only [symbols_append, List.append_assoc]
    exact hread.trans (hgoes pos)

/-- A replacement that is `Allowed` is read back where there is room for it and all that is nested
in it. By recursion on the room. -/
theorem rereads_of_allowed {room : Nat} : ∀ {depth : Nat} {r : Replacement},
    depth + room ≤ maxNesting → Allowed room r → Rereads depth r := by
  induction room with
  | zero => intro depth r _ h; exact absurd h id
  | succ room ih =>
    intro depth r hroom ⟨hkey, hsound⟩
    refine rereads_of_sound (by omega) hkey (hsound.mono ?_)
    intro body hbody
    obtain ⟨hsection, ps, hwoven, hfinished, hallowed⟩ := hbody
    exact ⟨hsection, ps, hwoven, hfinished, fun r hr => ih (by omega) (hallowed r hr)⟩

end

end MessageCatalog
