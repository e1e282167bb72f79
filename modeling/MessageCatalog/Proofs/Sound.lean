import MessageCatalog.Proofs.Agreement
import MessageCatalog.Proofs.Ordered
import MessageCatalog.Proofs.Woven

/-!
# MessageCatalog.Proofs.Sound

What a parse without errors leaves behind: `sound_of_mem_messages`. The messages are made of good
text and of replacements with sound details, nested as deep as the scanner allows (`Allowed`); maps
are sorted, required options are there, and keys and literals are what the scanner takes for such
(`Sound`).

The invariant is about the two machines together, `SoundState`. What the reader holds is sound as
far as it goes: drafts are (`SoundDraft`), replacements that are open (`SoundOpen`), and everything
that is around the innermost body (`SoundFrames`). And where its innermost body ends in text, the
scanner cannot go on with text (`Meets`); otherwise two runs of text could be put together to
something that is none.

It is kept by every move of the scanner whose tokens the reader takes without an error
(`sound_move`). Errors are never taken back, so a parse without errors has had none on the way, and
at its end all that is open is closed, which finishes it: trimming makes the bodies `Built`, and the
lack of errors makes the details complete.

How deep replacements may be nested is carried along as room. There is room for `maxNesting` of them
in the body of a message, and for one less in the body of each option inside.
-/

namespace MessageCatalog

open Piece
open Entries (Sorted)

/-! ### Details

What is asked of details depends on their kind, and on what is asked of the bodies of options, which
is a parameter since it depends on the room that is left. -/

/-- A currency or a default, as it is written in an option: one run of text (`GoodText`) without
blanks at its ends (`Trimmed`). -/
def PlainText (t : String) : Prop := GoodText t ∧ Trimmed t

/-- The kinds of replacements whose options have no meaning. Such options are read and dropped, so
`Sound` asks for no details. -/
def ReplacementKind.isPlain : ReplacementKind → Bool
  | .string | .number | .percent => true
  | _ => false

/-- The details fit the kind of replacement, and are complete and in order. `fits` is what is asked
of the bodies of options; it is a parameter, since bodies hold replacements again. -/
inductive Sound (fits : Message → Prop) : ReplacementKind → Details → Prop
  | none {kind : ReplacementKind} (h : kind.isPlain = true) : Sound fits kind .none
  | money {currency : String} (h : PlainText currency) : Sound fits .money (.money currency)
  | plural {type : PluralType} {variants : Entries PluralCategory Message}
      {custom : Entries Int Message} (hvariants : Sorted variants) (hcustom : Sorted custom)
      (hbodies : ∀ e ∈ variants, fits e.2) (hnumbers : ∀ e ∈ custom, Text.InInt64 e.1 ∧ fits e.2)
      (hother : (variants.find? .other).isSome = true) :
    Sound fits .plural (.plural type variants custom)
  | select {cases : Entries String Message} {fallback : String} (hcases : Sorted cases)
      (hbodies : ∀ e ∈ cases, e.1.toList.all Word.isLiteralChar = true ∧ e.2.key = e.1 ∧ fits e.2)
      (hfallback : fallback = "" ∨ PlainText fallback ∧ (cases.find? fallback).isSome = true) :
    Sound fits .select (.select cases fallback)

/-- The message is finished, and all its replacements are allowed: it is `Woven` of pieces of which
no two texts are side by side. -/
def Built (allowed : Replacement → Prop) (m : Message) : Prop :=
  ∃ ps, Woven m ps ∧ Finished ps ∧ ∀ r, .inr r ∈ ps → allowed r

/-- The body of an option, which has no section: it is `Built`, and not more. -/
def OptionBody (allowed : Replacement → Prop) (m : Message) : Prop :=
  m.sectionName = "" ∧ Built allowed m

/-- The replacement may stand where there is room for so many nested ones. By recursion on the room,
the bodies of its options (`OptionBody`) are built of replacements with less room. -/
def Allowed : (room : Nat) → Replacement → Prop
  | 0, _ => False
  | room + 1, r =>
    Word.isIdent r.key.toList = true ∧ Sound (OptionBody (Allowed room)) r.kind r.details

/-- A body without replacements is empty or plain text (`PlainText`), as it is trimmed. -/
theorem Built.plainText {allowed : Replacement → Prop} {m : Message} (h : Built allowed m)
    (hplain : m.isPlain = true) : m.plainText = "" ∨ PlainText m.plainText := by
  obtain ⟨ps, hwoven, hfinished, -⟩ := h
  have hmarks : marks ps = [] := by
    rw [← hwoven.replacements]
    exact List.isEmpty_iff.mp hplain
  rw [Message.plainText, hwoven.text]
  match ps with
  | [] => exact .inl rfl
  | [.inl t] =>
    have hjoin : String.join (texts [.inl t]) = t := by simp [String.join]
    rw [hjoin]
    exact .inr ⟨hwoven.good t (by simp), hfinished t rfl⟩
  | .inl t :: .inl t' :: ps =>
    rcases (List.isChain_cons_cons.mp hwoven.apart).1 with h | h <;> cases h
  | .inl t :: .inr r :: ps => cases hmarks
  | .inr r :: ps => cases hmarks

/-! ### Drafts

A draft has all that sound details have but completeness, which is checked at the end. -/

/-- Details in the making that fit the kind of replacement and are in order. What `Sound` asks for
besides, since it may still be missing, is not asked for. -/
inductive SoundDraft (fits : Message → Prop) : ReplacementKind → Draft → Prop
  | none {kind : ReplacementKind} (h : kind.isPlain = true) : SoundDraft fits kind .none
  | money {draft : MoneyDraft} (h : ∀ currency ∈ draft.currency, PlainText currency) :
    SoundDraft fits .money (.money draft)
  | plural {draft : PluralDraft} (hvariants : Sorted draft.variants) (hcustom : Sorted draft.custom)
      (hbodies : ∀ e ∈ draft.variants, fits e.2)
      (hnumbers : ∀ e ∈ draft.custom, Text.InInt64 e.1 ∧ fits e.2) :
    SoundDraft fits .plural (.plural draft)
  | select {draft : SelectDraft} (hcases : Sorted draft.cases)
      (hbodies : ∀ e ∈ draft.cases,
        e.1.toList.all Word.isLiteralChar = true ∧ e.2.key = e.1 ∧ fits e.2)
      (hfallback : draft.fallback = "" ∨ PlainText draft.fallback) :
    SoundDraft fits .select (.select draft)

theorem soundDraft_ofKind (fits : Message → Prop) (kind : ReplacementKind) :
    SoundDraft fits kind (.ofKind kind) := by
  cases kind with
  | string | number | percent => exact .none rfl
  | money => exact .money (by simp)
  | plural => exact .plural .nil .nil (by simp) (by simp)
  | select => exact .select .nil (by simp) (.inl rfl)

/-- A sound draft that is finished without errors gives `Sound` details: what is missing would have
been reported. -/
theorem SoundDraft.finish {fits : Message → Prop} {kind : ReplacementKind} {draft : Draft}
    (h : SoundDraft fits kind draft) {start last : Position}
    (hnone : (draft.finish start last).2 = []) : Sound fits kind (draft.finish start last).1 := by
  cases h with
  | none hkind => exact .none hkind
  | money hcurrency =>
    rename_i draft
    simp only [Draft.finish, MoneyDraft.finish] at hnone ⊢
    cases hd : draft.currency with
    | none => simp [hd] at hnone
    | some currency => exact .money (hcurrency currency hd)
  | plural hvariants hcustom hbodies hnumbers =>
    simp only [Draft.finish, PluralDraft.finish] at hnone ⊢
    refine .plural hvariants hcustom hbodies hnumbers ?_
    by_contra hother
    rw [if_neg hother] at hnone
    cases hnone
  | select hcases hbodies hfallback =>
    rename_i draft
    simp only [Draft.finish, SelectDraft.finish] at hnone ⊢
    refine .select hcases hbodies ?_
    by_cases hempty : draft.fallback = ""
    · exact .inl hempty
    · refine .inr ⟨hfallback.resolve_left hempty, ?_⟩
      by_contra hfound
      rw [if_neg (by simp [hempty, hfound])] at hnone
      cases hnone

/-- The name of an option as the scanner yields it: an identifier, or text that may stand in
brackets. -/
def OptionName.Sound (name : OptionName) : Prop :=
  ∀ text, name = .literal text → text.toList.all Word.isLiteralChar = true

theorem OptionName.ofText_ident {name : List Char} (h : Word.isIdent name = true) :
    OptionName.ofText (String.ofList name) = .bare (String.ofList name) := by
  rw [ofText, String.toList_ofList]
  split
  · rw [Word.isIdent, show Word.startsIdent '[' = false by decide] at h
    cases h
  · rfl

/-- Text in brackets is a name without them, and an identifier is a name as it stands. -/
theorem OptionName.ofText_literal (cs : List Char) :
    OptionName.ofText (String.ofList ('[' :: cs ++ [']'])) = .literal (String.ofList cs) := by
  rw [ofText, String.toList_ofList]
  simp

/-- A name that the scanner yields is sound (`OptionName.Sound`). -/
theorem soundName_ofText {name : List Char} (h : Word.IsOptionName name) :
    (OptionName.ofText (String.ofList name)).Sound := by
  intro text htext
  rcases h with h | ⟨cs, hcs, rfl⟩
  · rw [OptionName.ofText_ident h] at htext
    cases htext
  · rw [OptionName.ofText_literal] at htext
    rw [← OptionName.literal.inj htext, String.toList_ofList]
    exact hcs

/-- A number that is read by `readInt64` fits into 64 bits, so it can be read again. -/
theorem Text.inInt64_of_readInt64 {t : String} {n : Int} (h : readInt64 t = some n) :
    InInt64 n := by
  rw [readInt64, Option.filter_eq_some_iff] at h
  exact of_decide_eq_true h.2

section

variable {fits : Message → Prop} {option : ReplacementOption}

/-- A currency that `MoneyDraft.add` takes without error is plain text: the body has no
replacements, and is not empty. -/
theorem MoneyDraft.sound_add {draft : MoneyDraft} {P : String → Prop}
    (hplain : option.body.isPlain = true →
      option.body.plainText = "" ∨ P option.body.plainText)
    (hnone : (draft.add option).2 = none) :
    ∀ currency ∈ (draft.add option).1.currency, P currency := by
  generalize hout : draft.add option = out at hnone ⊢
  unfold add at hout
  split at hout
  · split at hout
    · split at hout
      · subst hout
        cases hnone
      · split at hout
        · rename_i hbody
          subst hout
          intro currency hcurrency
          obtain rfl := Option.some.inj hcurrency
          refine (hplain hbody).resolve_left fun hempty => ?_
          simp [hempty] at hnone
        · subst hout
          cases hnone
    · subst hout
      cases hnone
  · subst hout
    cases hnone

/-- A body that `PluralDraft.add` takes without error is entered in order, since its category or
number is new. -/
theorem PluralDraft.sound_add {draft : PluralDraft}
    (h : SoundDraft fits .plural (.plural draft)) (hbody : fits option.body)
    (hnone : (draft.add option).2 = none) :
    SoundDraft fits .plural (.plural (draft.add option).1) := by
  cases h with
  | plural hvariants hcustom hbodies hnumbers =>
    generalize hout : draft.add option = out at hnone ⊢
    unfold add at hout
    split at hout
    · split at hout
      -- a plural type changes none of the maps
      · unfold addType at hout
        split at hout
        · subst hout
          exact .plural hvariants hcustom hbodies hnumbers
        · subst hout
          exact .plural hvariants hcustom hbodies hnumbers
      · split at hout
        -- a category
        · unfold addCategory at hout
          split at hout
          · subst hout
            cases hnone
          · rename_i category _ hnew
            subst hout
            refine .plural (Entries.sorted_insert ordered_category _ hvariants hnew) hcustom ?_
              hnumbers
            intro e he
            rcases Entries.mem_insert.mp he with rfl | he
            · exact hbody
            · exact hbodies e he
        · subst hout
          cases hnone
    · split at hout
      -- a number
      · rename_i n hn
        unfold addNumber at hout
        split at hout
        · subst hout
          cases hnone
        · rename_i hnew
          subst hout
          refine .plural hvariants (Entries.sorted_insert ordered_int _ hcustom hnew) hbodies ?_
          intro e he
          rcases Entries.mem_insert.mp he with rfl | he
          · exact ⟨Text.inInt64_of_readInt64 hn, hbody⟩
          · exact hnumbers e he
      · subst hout
        cases hnone

/-- A case that `SelectDraft.add` takes without error is entered in order, and a default is plain
text. The body of a case has the case for its key. -/
theorem SelectDraft.sound_add {draft : SelectDraft}
    (h : SoundDraft fits .select (.select draft)) (hname : option.name.Sound)
    (hkey : option.body.key = option.name.key) (hbody : fits option.body)
    (hplain : option.body.isPlain = true →
      option.body.plainText = "" ∨ PlainText option.body.plainText)
    (hnone : (draft.add option).2 = none) :
    SoundDraft fits .select (.select (draft.add option).1) := by
  cases h with
  | select hcases hbodies hfallback =>
    generalize hout : draft.add option = out at hnone ⊢
    unfold add at hout
    split at hout
    -- a case
    · rename_i value hvalue
      unfold addCase at hout
      split at hout
      · subst hout
        cases hnone
      · rename_i hnew
        subst hout
        refine .select (Entries.sorted_insert ordered_string _ hcases hnew) ?_ hfallback
        intro e he
        rcases Entries.mem_insert.mp he with rfl | he
        · exact ⟨hname value hvalue, by rw [hkey, hvalue]; rfl, hbody⟩
        · exact hbodies e he
    -- a directive, of which only the default is kept
    · unfold addDirective at hout
      dsimp only at hout
      split at hout
      · subst hout
        cases hnone
      · split at hout
        · subst hout
          cases hnone
        · rename_i hisPlain
          split at hout
          · subst hout
            exact .select hcases hbodies (hplain (by simpa using hisPlain))
          · subst hout
            exact .select hcases hbodies hfallback

/-- A sound draft (`SoundDraft`) stays sound when an option is taken without error. One case for
each type of draft. -/
theorem SoundDraft.add {kind : ReplacementKind} {draft : Draft} (h : SoundDraft fits kind draft)
    (hname : option.name.Sound) (hkey : option.body.key = option.name.key)
    (hbody : fits option.body)
    (hplain : option.body.isPlain = true →
      option.body.plainText = "" ∨ PlainText option.body.plainText)
    (hnone : (draft.add option).2 = Option.none) : SoundDraft fits kind (draft.add option).1 := by
  cases draft with
  | none => exact h
  | money draft =>
    cases h with
    | money _ => exact .money (MoneyDraft.sound_add hplain hnone)
  | plural draft =>
    cases h with
    | plural h₁ h₂ h₃ h₄ => exact PluralDraft.sound_add (.plural h₁ h₂ h₃ h₄) hbody hnone
  | select draft =>
    cases h with
    | select h₁ h₂ h₃ =>
      exact SelectDraft.sound_add (.select h₁ h₂ h₃) hname hkey hbody hplain hnone

end

/-! ### The state of the two machines

Each part of what the reader holds has its own predicate. All but one speak of the reader alone;
`Meets` connects its innermost body with what is left to read. -/

open Scanner (maxNesting nesting)
open Layout (NoSpace)

/-- The room for nested replacements in a body inside of some options, of which each is inside of a
replacement. -/
def room (frames : List Frame) : Nat := maxNesting - frames.length

/-- The first piece is not text that starts with a space. Such text could not be told from
indentation, see `Layout.indentWidth?`. -/
def NoIndent (ps : List Piece) : Prop :=
  ∀ t, ps.head? = some (.inl t) → ∀ c ∈ t.toList.head?, Symbol.isSpace (.char c) = false

/-- A body in the making is made of the pieces (`Woven`), and will be `Built` when it is trimmed.
That of a message is not indented. -/
structure Growing (frames : List Frame) (m : Message) (ps : List Piece) : Prop where
  woven : Woven m ps
  allowed : ∀ r, .inr r ∈ ps → Allowed (room frames) r
  noIndent : frames = [] → NoIndent ps

/-- A message has an identifier for its key, and the body of an option the name of the option, which
is that of its frame. -/
def Titled (m : Message) : List Frame → Prop
  | [] => Word.isIdent m.key.toList = true
  | f :: _ => m.sectionName = "" ∧ m.key = f.name.key

/-- What is added to a message leaves its section and its key, so it is still `Titled`. -/
theorem Titled.of_eq {m m' : Message} {frames : List Frame} (h : Titled m frames)
    (hsection : m'.sectionName = m.sectionName) (hkey : m'.key = m.key) : Titled m' frames := by
  cases frames with
  | nil => rwa [Titled, hkey]
  | cons f frames => rwa [Titled, hsection, hkey]

/-- An open replacement of a body with so much room is sound as far as it goes: its key, its draft
(`SoundDraft`), and its place in the body. -/
structure SoundOpen (room : Nat) (r : OpenReplacement) (m : Message) : Prop where
  key : Word.isIdent r.key.toList = true
  textPos : r.textPos = m.text.length
  draft : ∃ kind inner, r.kind = some kind ∧ room = inner + 1 ∧
    SoundDraft (OptionBody (Allowed inner)) kind r.draft

/-- The surroundings of a body are sound as far as they go: each frame holds a `SoundOpen`
replacement in a `Growing` body. -/
def SoundFrames : List Frame → Prop
  | [] => True
  | f :: frames =>
    f.name.Sound ∧ SoundOpen (room frames) f.replacement f.outer ∧
      (∃ ps, Growing frames f.outer ps) ∧ Titled f.outer frames ∧ SoundFrames frames

/-- How the pieces of a body meet what is left to read. A body without pieces has not produced
anything, and is not indented if it is that of a message; a body that ends in text has read all of
that text, or a line break behind it. -/
structure Meets (frames : List Frame) (ps : List Piece) (produced : Bool) (rest : List Symbol) :
    Prop where
  produced : produced = false → ps = []
  noSpace : frames = [] → ps = [] → NoSpace rest
  text : ∀ t, ps.getLast? = some (.inl t) → t.toList.getLast? = some ' ' ∨ Word.EndsText rest

/-- What the reader is inside of is sound as far as it goes. For a body this depends on what is left
to read (`Meets`). -/
def SoundFocus (s : Scanner) : Focus → Prop
  | .idle => True
  | .body m frames =>
    SoundFrames frames ∧ Titled m frames ∧ ∃ ps, Growing frames m ps ∧
      ∀ nested produced below, s.stack = .body nested produced :: below →
        Meets frames ps produced s.cursor.rest
  | .replacement r m frames =>
    SoundFrames frames ∧ Titled m frames ∧ (∃ ps, Growing frames m ps) ∧
      SoundOpen (room frames) r m

/-- A message of a file without errors: its key is an identifier, and it is `Built` with all the
room there is. -/
def SoundMessage (m : Message) : Prop :=
  Word.isIdent m.key.toList = true ∧
    ∃ ps, Woven m ps ∧ Finished ps ∧ NoIndent ps ∧ ∀ r, .inr r ∈ ps → Allowed maxNesting r

/-- No more replacements are open than allowed, each of them in a body that has produced something
(`Busy`). -/
structure SoundStack (stack : List Mode) : Prop where
  nesting : nesting stack ≤ maxNesting
  busy : Scanner.Busy stack

/-- Nothing has been wrong so far, and everything is sound: what the reader is inside of
(`SoundFocus`) and what it has finished (`SoundMessage`). This is the invariant of scanner and
reader together. -/
structure SoundState (s : Scanner) (q : Reader) : Prop where
  recovering : q.report.recovering = false
  stack : SoundStack s.stack
  focus : SoundFocus s q.focus
  messages : ∀ m ∈ q.messages, SoundMessage m

/-! ### Closing

At the margin everything that is open is closed, and so it is in front of a header or a key. -/

/-- Trimming the first piece keeps `NoIndent`, as trimming leaves the start of a piece alone. -/
theorem NoIndent.of_head {ps ps' : List Piece} (h : NoIndent ps)
    (hhead : ∀ t, ps'.head? = some (.inl t) → ∃ t' run,
      ps.head? = some (.inl t') ∧ t'.toList = t.toList ++ run) : NoIndent ps' := by
  intro t ht c hc
  obtain ⟨t', run, ht', happend⟩ := hhead t ht
  refine h t' ht' c ?_
  rw [happend, List.head?_append, Option.mem_def.mp hc]
  rfl

/-- The body of an option is `Built` when it is trimmed, with the room that is left inside of the
replacement. So is the body of a message. -/
theorem Growing.optionBody {f : Frame} {frames : List Frame} {m : Message} {ps : List Piece}
    (h : Growing (f :: frames) m ps) (htitle : Titled m (f :: frames)) {inner : Nat}
    (hroom : room frames = inner + 1) : OptionBody (Allowed inner) m.trimTrailing := by
  have hinner : room (f :: frames) = inner := by
    simp only [room, List.length_cons] at hroom ⊢
    omega
  obtain ⟨ps', hwoven, hfinished, hsub, -⟩ := h.woven.trimTrailing
  refine ⟨?_, ps', hwoven, hfinished, fun r hr => ?_⟩
  · rw [Message.sectionName_trimTrailing]
    exact htitle.1
  · rw [← hinner]
    exact h.allowed r (hsub r hr)

theorem Growing.message {m : Message} {ps : List Piece} (h : Growing [] m ps)
    (htitle : Titled m []) : SoundMessage m.trimTrailing := by
  obtain ⟨ps', hwoven, hfinished, hsub, hhead⟩ := h.woven.trimTrailing
  refine ⟨?_, ps', hwoven, hfinished, (h.noIndent rfl).of_head hhead, fun r hr => ?_⟩
  · rw [Message.key_trimTrailing]
    exact htitle
  · exact h.allowed r (hsub r hr)

/-- The messages are still sound when everything has been closed by `makeRoom`, which reports
nothing here. -/
theorem SoundState.messages_makeRoom {s : Scanner} {q : Reader} (h : SoundState s q)
    (hsettled : q.Settled) {kind : Option Token.Kind} (hkind : Reader.Outside kind)
    (found : Found) : ∀ m ∈ (q.makeRoom kind found).messages, SoundMessage m := by
  rcases hsettled with hrecovering | hidle | ⟨m, hbody⟩
  · rw [h.recovering] at hrecovering
    cases hrecovering
  · rw [Reader.makeRoom_idle hidle]
    exact h.messages
  · have hfocus := h.focus
    rw [hbody] at hfocus
    obtain ⟨-, htitle, ps, hgrowing, -⟩ := hfocus
    simp only [Reader.makeRoom, hbody, Reader.unwind, Reader.unwindBody,
      hkind.bodyTakes_eq_false, if_false, Bool.false_eq_true]
    refine List.forall_mem_append.mpr ⟨h.messages, List.forall_mem_singleton.mpr ?_⟩
    exact hgrowing.message htitle

/-- An option that is taken without error leaves its replacement sound, with the option in its
draft. So `Frame.close` keeps `SoundOpen`. -/
theorem SoundOpen.close {f : Frame} {frames : List Frame} {m : Message} {report : Report}
    (h : SoundOpen (room frames) f.replacement f.outer) (hname : f.name.Sound)
    {ps : List Piece} (hgrowing : Growing (f :: frames) m ps) (htitle : Titled m (f :: frames))
    (hnone : (f.close m report).2.errors = []) :
    SoundOpen (room frames) (f.close m report).1 f.outer := by
  obtain ⟨kind, inner, hkind, hroom, hdraft⟩ := h.draft
  have hbody := hgrowing.optionBody htitle hroom
  have hadd := @SoundDraft.add _ { name := f.name, pos := f.pos, body := m.trimTrailing } _ _ hdraft
    hname (by rw [Message.key_trimTrailing]; exact htitle.2) hbody hbody.2.plainText
  obtain ⟨hr, herrors, -⟩ := f.replacement.addOption_spec
    { name := f.name, pos := f.pos, body := m.trimTrailing } report
  rw [Frame.close] at hnone ⊢
  rw [herrors] at hnone
  rw [hr]
  refine ⟨h.key, h.textPos, kind, inner, hkind, hroom, hadd ?_⟩
  have htaken := (List.append_eq_nil_iff.mp hnone).2
  rw [List.map_eq_nil_iff] at htaken
  exact Option.toList_eq_nil_iff.mp htaken

/-! ### Growing

What the reader does to a body in the making. -/

theorem goodText_ofList {cs : List Char} (hne : cs ≠ []) (h : Word.isText cs = true) :
    GoodText (String.ofList cs) := by
  refine ⟨fun hempty => hne (String.ofList_eq_empty_iff.mp hempty), ?_⟩
  rw [String.toList_ofList]
  exact h

/-- Where text ends (`Word.EndsText`), no text follows. So a run of text is as long as it can be. -/
theorem not_endsText_of_isText {cs : List Char} {rest : List Symbol} (hne : cs ≠ [])
    (h : Word.isText cs = true) (hend : Word.EndsText rest) :
    ¬ Word.EndsText (cs.map .char ++ rest) := by
  intro hends
  have hread := Word.text_append_of (show Word.isText [] = true from rfl) hends
  rw [List.map_nil, List.nil_append, Word.text_append_of h hend] at hread
  exact hne hread

/-- Text behind good text leaves it good, unless a dollar sign and a brace meet between them, which
would start a replacement (`Word.isText_append`). -/
theorem GoodText.append {last t : String} (hlast : GoodText last)
    (ht : Word.isText t.toList = true)
    (hapart : ¬ (last.toList.getLast? = some '$' ∧ t.toList.head? = some '{')) :
    GoodText (last ++ t) := by
  refine ⟨fun hempty => hlast.1 (String.append_eq_empty_iff.mp hempty).1, ?_⟩
  rw [String.toList_append, Word.isText_append]
  exact ⟨hlast.2, ht, hapart⟩

/-- What follows a space does not start a replacement together with it. -/
theorem GoodText.append_of_space {last t : String} (hlast : GoodText last)
    (hspace : last.toList.getLast? = some ' ') (ht : Word.isText t.toList = true) :
    GoodText (last ++ t) := by
  refine hlast.append ht fun hdollar => ?_
  rw [hspace] at hdollar
  exact absurd hdollar.1 (by decide)

/-- A blank behind good text leaves it good, which is how line breaks get into text, see
`Reader.takeBody`. -/
theorem goodText_append_space {last : String} (hlast : GoodText last) : GoodText (last ++ " ") :=
  hlast.append (by decide) fun hbrace => absurd hbrace.2 (by decide)

/-- A body with pieces only has to end where text ends to meet what is left (`Meets`), as it has
produced something. -/
theorem meets_of_ne_nil {frames : List Frame} {ps : List Piece} {rest : List Symbol} (hps : ps ≠ [])
    (htext : ∀ t, ps.getLast? = some (.inl t) →
      t.toList.getLast? = some ' ' ∨ Word.EndsText rest) : Meets frames ps true rest where
  produced := nofun
  noSpace := fun _ hnil => absurd hnil hps
  text := htext

namespace Growing

variable {frames : List Frame} {m : Message} {ps : List Piece}

/-- Text behind a replacement, or at the start, is a new piece of what is `Growing`. -/
theorem pushText_new (h : Growing frames m ps) (hlast : ∀ x ∈ ps.getLast?, x.isRight = true)
    {t : String} (ht : GoodText t)
    (hindent : frames = [] → ps = [] → ∀ c ∈ t.toList.head?, Symbol.isSpace (.char c) = false) :
    Growing frames (m.pushText t) (ps ++ [.inl t]) := by
  refine ⟨h.woven.pushText_new hlast ht, fun r hr => h.allowed r (by simpa using hr), ?_⟩
  intro hframes t' ht'
  cases ps with
  | nil =>
    obtain rfl := Sum.inl.inj (Option.some.inj ht')
    exact hindent hframes rfl
  | cons x ps => exact h.noIndent hframes t' ht'

/-- Text behind text is part of the same piece of what is `Growing`. The two have to be good text
together. -/
theorem pushText_append {front : List Piece} {last t : String}
    (h : Growing frames m (front ++ [.inl last])) (ht : GoodText (last ++ t)) :
    Growing frames (m.pushText t) (front ++ [.inl (last ++ t)]) := by
  refine ⟨h.woven.pushText_append ht, fun r hr => h.allowed r (by simpa using hr), ?_⟩
  intro hframes t' ht' c hc
  cases front with
  | nil =>
    obtain rfl := Sum.inl.inj (Option.some.inj ht')
    have hgood := h.woven.good last (by simp)
    refine h.noIndent hframes last rfl c ?_
    cases hcs : last.toList with
    | nil => exact absurd (String.toList_eq_nil_iff.mp hcs) hgood.1
    | cons d ds =>
      rw [String.toList_append, hcs] at hc
      exact hc
  | cons x front => exact h.noIndent hframes t' ht' c hc

/-- A run of text keeps a body `Growing`, as a new piece or behind the last one, and meets what is
left. -/
theorem text {produced : Bool} {cs : List Char} {rest : List Symbol} (h : Growing frames m ps)
    (hmeets : Meets frames ps produced (cs.map .char ++ rest)) (hne : cs ≠ [])
    (htext : Word.isText cs = true) (hend : Word.EndsText rest) :
    ∃ ps', Growing frames (m.pushText (String.ofList cs)) ps' ∧ Meets frames ps' true rest := by
  have hgood := goodText_ofList hne htext
  rcases last_cases ps with hright | ⟨front, last, rfl⟩
  · refine ⟨_, h.pushText_new hright hgood ?_, meets_of_ne_nil (by simp) fun _ _ => .inr hend⟩
    intro hframes hps c hc
    have hno := hmeets.noSpace hframes hps
    rw [String.toList_ofList] at hc
    refine hno (.char c) ?_
    rw [List.head?_append, List.head?_map, Option.mem_def.mp hc]
    rfl
  · have hspace := (hmeets.text last (by simp)).resolve_right
      (not_endsText_of_isText hne htext hend)
    have hgood' := (h.woven.good last (by simp)).append_of_space hspace hgood.2
    exact ⟨_, h.pushText_append hgood', meets_of_ne_nil (by simp) fun _ _ => .inr hend⟩

/-- A line break behind content is a blank, which is a piece of its own behind a replacement. Text
may follow it anyway, as `Meets` says. -/
theorem newline (h : Growing frames m ps) (hps : ps ≠ []) (rest : List Symbol) :
    ∃ ps', Growing frames (m.pushText " ") ps' ∧ Meets frames ps' true rest := by
  rcases last_cases ps with hright | ⟨front, last, rfl⟩
  · have hgood : GoodText " " := ⟨by decide, by decide⟩
    refine ⟨_, h.pushText_new hright hgood fun _ hnil => absurd hnil hps,
      meets_of_ne_nil (by simp) fun t ht => .inl ?_⟩
    rw [List.getLast?_concat] at ht
    obtain rfl := Sum.inl.inj (Option.some.inj ht)
    decide
  · have hgood := goodText_append_space (h.woven.good last (by simp))
    refine ⟨_, h.pushText_append hgood, meets_of_ne_nil (by simp) fun t ht => .inl ?_⟩
    rw [List.getLast?_concat] at ht
    obtain rfl := Sum.inl.inj (Option.some.inj ht)
    rw [String.toList_append, show " ".toList = [' '] by decide, List.getLast?_concat]

/-- A finished replacement keeps a body `Growing`, if it is allowed in the room of the body. -/
theorem attach (h : Growing frames m ps) {r : Replacement} (hr : Allowed (room frames) r)
    (hpos : r.textPos = m.text.length) (rest : List Symbol) :
    ∃ ps', Growing frames (Reader.attach m (some r)) ps' ∧ Meets frames ps' true rest := by
  refine ⟨ps ++ [.inr r], ⟨h.woven.attach hpos, fun r' hr' => ?_, fun hframes t ht => ?_⟩,
    meets_of_ne_nil (by simp) fun t ht => ?_⟩
  · rcases List.mem_append.mp hr' with hr' | hr'
    · exact h.allowed r' hr'
    · obtain rfl := Sum.inr.inj (List.mem_singleton.mp hr')
      exact hr
  · cases ps with
    | nil => cases ht
    | cons x ps => exact h.noIndent hframes t ht
  · rw [List.getLast?_concat] at ht
    cases ht

end Growing

/-! ### One step

One lemma for each kind of token, and then the moves one by one. -/

/-- A message has content if it is made of any pieces, which is what `Message.hasContent` looks for.
-/
theorem Woven.hasContent_iff {m : Message} {ps : List Piece} (h : Woven m ps) :
    m.hasContent = true ↔ ps ≠ [] := by
  rw [Message.hasContent, h.text, h.replacements]
  cases ps with
  | nil => simp
  | cons x ps => cases x <;> simp

/-- Outside of bodies `SoundFocus` asks nothing of what is left to read, so the scanner may be
anywhere. -/
theorem SoundFocus.of_not_body {s s' : Scanner} {focus : Focus} (h : SoundFocus s focus)
    (hstack : ∀ nested produced below, s'.stack ≠ .body nested produced :: below) :
    SoundFocus s' focus := by
  cases focus with
  | idle => trivial
  | body m frames =>
    obtain ⟨hframes, htitle, ps, hgrowing, -⟩ := h
    exact ⟨hframes, htitle, ps, hgrowing, fun _ _ _ heq => absurd heq (hstack _ _ _)⟩
  | replacement r m frames => exact h

/-- Where the scanner is in a body, the body has to meet what is left to read (`Meets`), and nothing
else. -/
theorem soundFocus_body {c : Cursor} {nested produced : Bool} {below : List Mode} {m : Message}
    {frames : List Frame} {ps : List Piece} (hframes : SoundFrames frames)
    (htitle : Titled m frames) (hgrowing : Growing frames m ps)
    (hmeets : Meets frames ps produced c.rest) :
    SoundFocus ⟨c, .body nested produced :: below⟩ (.body m frames) := by
  refine ⟨hframes, htitle, ps, hgrowing, fun _ _ _ hbody => ?_⟩
  obtain ⟨hmode, -⟩ := List.cons.inj hbody
  obtain ⟨-, rfl⟩ := Mode.body.inj hmode
  exact hmeets

/-- Where the scanner is in a body, so is the reader, and the pieces of its body meet what is left
to read. The converse of `soundFocus_body`, with `Agree` for the focus. -/
theorem SoundState.of_body {c : Cursor} {nested produced : Bool} {below : List Mode} {q : Reader}
    (h : SoundState ⟨c, .body nested produced :: below⟩ q)
    (hagree : Agree (.body nested produced :: below) q) :
    ∃ m frames ps, q.focus = .body m frames ∧ SoundFrames frames ∧ Titled m frames ∧
      Growing frames m ps ∧ Meets frames ps produced c.rest := by
  obtain ⟨m, frames, hfocus, -⟩ := hagree.of_body
  have hsound := h.focus
  rw [hfocus] at hsound
  obtain ⟨hframes, htitle, ps, hgrowing, hmeets⟩ := hsound
  exact ⟨m, frames, ps, hfocus, hframes, htitle, hgrowing, hmeets _ _ _ rfl⟩

/-- Where nothing is reported there are no faults, so a step that could yield some has yielded none.
-/
theorem eq_nil_of_faults {faults : List Token} (hfaults : ∀ t ∈ faults, Scanner.Reports t)
    (hvalid : ∀ t ∈ faults, t.kind ≠ .invalid) : faults = [] := by
  cases faults with
  | nil => rfl
  | cons t faults =>
    exact absurd (hfaults t List.mem_cons_self) (hvalid t List.mem_cons_self)

/-- A section header closes what is open, by `messages_makeRoom`, and keeps everything sound. -/
theorem SoundState.step_header {s s' : Scanner} {q : Reader} {t : Token} (h : SoundState s q)
    (hsettled : q.Settled) (ht : t.kind = .sectionHeader)
    (hstack : SoundStack s'.stack) : SoundState s' (q.step t) := by
  have houtside : Reader.Outside (some t.kind) := by rw [ht]; trivial
  have hmessages := h.messages_makeRoom hsettled houtside ⟨t.describe, t.pos⟩
  have hfocus := Reader.focus_makeRoom_outside houtside q ⟨t.describe, t.pos⟩
  rw [Reader.step_outside houtside]
  simp only [Reader.takeIdle, ht] at hmessages hfocus ⊢
  refine ⟨rfl, hstack, ?_, hmessages⟩
  simp only [hfocus]
  trivial

/-- A message key closes what is open, by `messages_makeRoom`, and starts a message, which is empty
and has its title (`Titled`). -/
theorem SoundState.step_key {s s' : Scanner} {q : Reader} {t : Token} (h : SoundState s q)
    (hsettled : q.Settled) (ht : t.kind = .messageKey) (hkey : Word.isIdent t.text.toList = true)
    (hstack : SoundStack s'.stack)
    (hcontent : ∀ nested produced below, s'.stack = .body nested produced :: below →
      NoSpace s'.cursor.rest) : SoundState s' (q.step t) := by
  have houtside : Reader.Outside (some t.kind) := by rw [ht]; trivial
  have hmessages := h.messages_makeRoom hsettled houtside ⟨t.describe, t.pos⟩
  rw [Reader.step_outside houtside]
  simp only [Reader.takeIdle, ht] at hmessages ⊢
  refine ⟨rfl, hstack, ⟨trivial, hkey, [], ?_, fun _ _ _ hbody => ?_⟩, hmessages⟩
  · exact ⟨.empty _ _, by simp, fun _ => by simp [NoIndent]⟩
  · exact ⟨fun _ => rfl, fun _ _ => hcontent _ _ _ hbody, by simp⟩

/-- The end of an option keeps everything sound: the replacement has taken it without error
(`SoundOpen.close`). -/
theorem SoundState.step_optionEnd {s s' : Scanner} {q : Reader} {t : Token} {m : Message}
    {f : Frame} {frames : List Frame} (h : SoundState s q)
    (hfocus : q.focus = .body m (f :: frames)) (ht : t.kind = .optionEnd)
    (hstack : SoundStack s'.stack)
    (hnone : (q.step t).report.errors = []) : SoundState s' (q.step t) := by
  have hsound := h.focus
  rw [hfocus] at hsound
  obtain ⟨⟨hname, hopen, houter, htitle', hframes⟩, htitle, ps, hgrowing, -⟩ := hsound
  rw [Reader.step_optionEnd hfocus ht] at hnone ⊢
  have hclosed := hopen.close hname hgrowing htitle hnone
  obtain ⟨-, -, hrecovering⟩ := f.replacement.addOption_spec
    { name := f.name, pos := f.pos, body := m.trimTrailing } q.report
  exact ⟨hrecovering.trans h.recovering, hstack, ⟨hframes, htitle', houter, hclosed⟩, h.messages⟩

/-- The start of an option opens an empty body, which is `Growing` of no pieces at all. -/
theorem SoundState.step_optionStart {s s' : Scanner} {q : Reader} {t : Token} {r : OpenReplacement}
    {m : Message} {frames : List Frame} (h : SoundState s q)
    (hfocus : q.focus = .replacement r m frames) (ht : t.kind = .optionStart)
    (hname : (OptionName.ofText t.text).Sound)
    (hstack : SoundStack s'.stack) : SoundState s' (q.step t) := by
  have hsound := h.focus
  rw [hfocus] at hsound
  obtain ⟨hframes, htitle, hgrowing, hopen⟩ := hsound
  rw [Reader.step_optionStart hfocus ht]
  refine ⟨h.recovering, hstack, ?_, h.messages⟩
  refine ⟨⟨hname, ?_, hgrowing, htitle, hframes⟩, ⟨rfl, rfl⟩, [], ?_, fun _ _ _ hbody => ?_⟩
  · exact ⟨hopen.key, hopen.textPos, hopen.draft⟩
  · exact ⟨.empty _ _, by simp, fun _ => by simp [NoIndent]⟩
  · exact ⟨fun _ => rfl, fun hnil => by simp at hnil, by simp⟩

/-- The start of a replacement, where there is room for one more, keeps everything sound. It is
`SoundOpen` with the draft of a string replacement. -/
theorem SoundState.step_replacementStart {s s' : Scanner} {q : Reader} {t : Token} {m : Message}
    {frames : List Frame} (h : SoundState s q) (hfocus : q.focus = .body m frames)
    (ht : t.kind = .replacementStart) (hkey : Word.isIdent t.text.toList = true)
    (hroom : frames.length < maxNesting) (hstack : SoundStack s'.stack) :
    SoundState s' (q.step t) := by
  have hsound := h.focus
  rw [hfocus] at hsound
  obtain ⟨hframes, htitle, ps, hgrowing, -⟩ := hsound
  rw [Reader.step_replacementStart hfocus ht]
  refine ⟨h.recovering, hstack, ⟨hframes, htitle, ⟨ps, hgrowing⟩, ?_⟩, h.messages⟩
  refine ⟨hkey, rfl, .string, room frames - 1, rfl, ?_, .none rfl⟩
  rw [room]
  omega

/-- The type of a replacement keeps everything sound, if it is known. Its draft has taken nothing
(`soundDraft_ofKind`). -/
theorem SoundState.step_replacementType {s s' : Scanner} {q : Reader} {t : Token}
    {r : OpenReplacement} {m : Message} {frames : List Frame} (h : SoundState s q)
    (hfocus : q.focus = .replacement r m frames) (hfresh : r.fresh = true)
    (ht : t.kind = .replacementType) (hstack : SoundStack s'.stack)
    (hnone : (q.step t).report.errors = []) : SoundState s' (q.step t) := by
  have hsound := h.focus
  rw [hfocus] at hsound
  obtain ⟨hframes, htitle, hgrowing, hopen⟩ := hsound
  obtain ⟨-, inner, -, hroom, -⟩ := hopen.draft
  rw [Reader.step_replacementType hfocus hfresh ht] at hnone ⊢
  cases hkind : ReplacementKind.ofName? t.text with
  | none => simp [hkind, Report.add, Report.addAll] at hnone
  | some kind =>
    refine ⟨h.recovering, hstack, ⟨hframes, htitle, hgrowing, ?_⟩, h.messages⟩
    exact ⟨hopen.key, hopen.textPos, kind, inner, rfl, hroom, soundDraft_ofKind _ kind⟩

/-- The end of a replacement keeps everything sound: what is attached to the body is `Allowed`
there. -/
theorem SoundState.step_replacementEnd {s s' : Scanner} {q : Reader} {t : Token}
    {r : OpenReplacement} {m : Message} {frames : List Frame} (h : SoundState s q)
    (hfocus : q.focus = .replacement r m frames) (ht : t.kind = .replacementEnd)
    (hstack : SoundStack s'.stack)
    (hproduced : ∀ nested produced below, s'.stack = .body nested produced :: below →
      produced = true)
    (hnone : (q.step t).report.errors = []) : SoundState s' (q.step t) := by
  have hsound := h.focus
  rw [hfocus] at hsound
  obtain ⟨hframes, htitle, ⟨ps, hgrowing⟩, hopen⟩ := hsound
  obtain ⟨kind, inner, hkind, hroom, hdraft⟩ := hopen.draft
  rw [Reader.step_replacementEnd hfocus ht] at hnone ⊢
  have hfinish : (r.finish q.lastPos).2 = [] := (List.append_eq_nil_iff.mp hnone).2
  have hdetails := hdraft.finish hfinish
  have hr : (r.finish q.lastPos).1 =
      some ⟨r.key, r.textPos, kind, (r.draft.finish r.pos q.lastPos).1⟩ := by
    rw [OpenReplacement.finish, hkind]
    rfl
  have hallowed : Allowed (room frames)
      ⟨r.key, r.textPos, kind, (r.draft.finish r.pos q.lastPos).1⟩ := by
    rw [hroom]
    exact ⟨hopen.key, hdetails⟩
  obtain ⟨ps', hgrowing', hmeets⟩ := hgrowing.attach hallowed hopen.textPos s'.cursor.rest
  rw [hr]
  refine ⟨h.recovering, hstack, ⟨hframes, ?_, ps', hgrowing', fun _ _ _ hbody => ?_⟩, h.messages⟩
  · exact htitle.of_eq rfl rfl
  · rw [hproduced _ _ _ hbody]
    exact hmeets

open Scanner (Bodies)

/-- Every step that reports nothing keeps everything sound (`SoundState`). One case for each kind of
`Move`, by the lemma for the token that it yields; the two are in step by `Agree`. -/
theorem sound_move {s s' : Scanner} {q : Reader} {yield : List Token} (hagree : Agree s.stack q)
    (h : SoundState s q) (hmove : Scanner.Move s yield s') (heof : ∀ t ∈ yield, t.kind ≠ .eof)
    (hnone : (q.feed yield).report.errors = []) : SoundState s' (q.feed yield) := by
  have hstack : SoundStack s'.stack :=
    ⟨hmove.nesting_le h.stack.nesting, hmove.busy h.stack.busy⟩
  obtain ⟨-, hvalid⟩ := Reader.errors_eq_nil_of_feed hnone
  cases hmove with
  | finish pos => exact absurd rfl (heof _ (List.mem_singleton.mpr rfl))
  | abort ht | fail ht => exact absurd ht (hvalid _ (by simp))
  | illegal pos ht | startFault ht => exact absurd ht (hvalid _ (by simp))
  | line hfaults =>
    obtain rfl := eq_nil_of_faults hfaults hvalid
    exact ⟨h.recovering, hstack, h.focus.of_not_body (by simp), h.messages⟩
  | header pos _ hfaults =>
    obtain rfl := eq_nil_of_faults hfaults fun t ht => hvalid t (List.mem_cons_of_mem _ ht)
    obtain rfl := hagree.of_root
    rw [Reader.feed_cons, Reader.feed_nil]
    exact h.step_header (hagree.settled (.inl rfl)) rfl hstack
  | key pos hkey hfaults =>
    obtain rfl := eq_nil_of_faults hfaults fun t ht => hvalid t (List.mem_cons_of_mem _ ht)
    obtain rfl := hagree.of_root
    rw [Reader.feed_cons, Reader.feed_nil]
    refine h.step_key (hagree.settled (.inl rfl)) rfl ?_ hstack (by simp)
    rw [Scanner.token, String.toList_ofList]
    exact hkey
  | keyBody pos hkey hfaults hcontent =>
    obtain rfl := eq_nil_of_faults hfaults fun t ht => hvalid t (List.mem_cons_of_mem _ ht)
    obtain rfl := hagree.of_root
    rw [Reader.feed_cons, Reader.feed_nil]
    refine h.step_key (hagree.settled (.inl rfl)) rfl ?_ hstack fun _ _ _ _ => hcontent
    rw [Scanner.token, String.toList_ofList]
    exact hkey
  -- below a body there is a replacement or the margin, never another body
  | leave =>
    obtain ⟨m, frames, -, hbodies⟩ := hagree.of_body
    refine ⟨h.recovering, hstack, h.focus.of_not_body ?_, h.messages⟩
    generalize frames.length = depth at hbodies
    cases hbodies <;> simp
  | @continuation c c' nested produced below yield pos hyield hcontent =>
    obtain ⟨m, frames, ps, hfocus, hframes, htitle, hgrowing, hmeets⟩ := h.of_body hagree
    -- a line break in a body without pieces is no blank, so nothing changes
    have hsame (hps : ps = []) :
        SoundFocus ⟨c', .body nested produced :: below⟩ (.body m frames) :=
      soundFocus_body hframes htitle hgrowing
        ⟨fun _ => hps, fun _ _ => hcontent, by simp [hps]⟩
    cases produced with
    | false =>
      rw [if_neg (by simp)] at hyield
      subst hyield
      refine ⟨h.recovering, hstack, ?_, h.messages⟩
      rw [Reader.feed_nil, hfocus]
      exact hsame (hmeets.produced rfl)
    | true =>
      rw [if_pos rfl] at hyield
      subst hyield
      rw [Reader.feed_cons, Reader.feed_nil, Reader.step_newline hfocus rfl]
      refine ⟨h.recovering, hstack, ?_, h.messages⟩
      by_cases hps : ps = []
      · rw [if_neg (by rw [hgrowing.woven.hasContent_iff]; simp [hps])]
        exact hsame hps
      · rw [if_pos (hgrowing.woven.hasContent_iff.mpr hps)]
        obtain ⟨ps', hgrowing', hmeets'⟩ := hgrowing.newline hps c'.rest
        exact soundFocus_body hframes (htitle.of_eq (by simp) (by simp)) hgrowing' hmeets'
  | text pos hne htext hrest hend =>
    obtain ⟨m, frames, ps, hfocus, hframes, htitle, hgrowing, hmeets⟩ := h.of_body hagree
    rw [hrest] at hmeets
    obtain ⟨ps', hgrowing', hmeets'⟩ := hgrowing.text hmeets hne htext hend
    rw [Reader.feed_cons, Reader.feed_nil, Reader.step_text hfocus rfl]
    refine ⟨h.recovering, hstack, ?_, h.messages⟩
    exact soundFocus_body hframes (htitle.of_eq (by simp) (by simp)) hgrowing' hmeets'
  -- the reader learns of the replacement only from its key
  | opening pos hroom =>
    exact ⟨h.recovering, hstack, h.focus.of_not_body (by simp), h.messages⟩
  | start hkey =>
    obtain ⟨m, frames, hfocus, hroom⟩ := hagree.room_of_key h.stack.nesting
    rw [Reader.feed_cons, Reader.feed_nil]
    refine h.step_replacementStart hfocus rfl ?_ hroom hstack
    rw [Scanner.token, String.toList_ofList]
    exact hkey
  | @startTyped c c' pos below key kind typePos hkey =>
    obtain ⟨m, frames, hfocus, hroom⟩ := hagree.room_of_key h.stack.nesting
    rw [Reader.feed_cons, Reader.feed_cons, Reader.feed_nil] at hnone ⊢
    have hstart : SoundState ⟨c', .replacement .options :: below⟩
        (q.step (Scanner.token .replacementStart key pos)) := by
      refine h.step_replacementStart hfocus rfl ?_ hroom hstack
      rw [Scanner.token, String.toList_ofList]
      exact hkey
    have hfocus' := congrArg Reader.focus (@Reader.step_replacementStart q
      (Scanner.token .replacementStart key pos) m frames hfocus rfl)
    exact hstart.step_replacementType hfocus' rfl rfl hstack hnone
  | @option c c' below name pos endPos hname =>
    obtain ⟨r, m, frames, hfocus, -⟩ := hagree.of_options
    rw [Reader.feed_cons, Reader.feed_cons, Reader.feed_nil] at hnone ⊢
    have hstart : SoundState ⟨c', .replacement .options :: below⟩
        (q.step (Scanner.token .optionStart name pos)) :=
      h.step_optionStart hfocus rfl (soundName_ofText hname) hstack
    have hfocus' := congrArg Reader.focus (@Reader.step_optionStart q
      (Scanner.token .optionStart name pos) r m frames hfocus rfl)
    exact hstart.step_optionEnd hfocus' rfl hstack hnone
  | optionBody pos hname =>
    obtain ⟨r, m, frames, hfocus, -⟩ := hagree.of_options
    rw [Reader.feed_cons, Reader.feed_nil]
    exact h.step_optionStart hfocus rfl (soundName_ofText hname) hstack
  -- the body around the replacement has produced something, since the replacement was opened in it
  | @close c c' below pos =>
    obtain ⟨r, m, frames, hfocus, -⟩ := hagree.of_options
    rw [Reader.feed_cons, Reader.feed_nil] at hnone ⊢
    refine h.step_replacementEnd hfocus rfl hstack (fun nested produced below' hbody => ?_) hnone
    have hbusy := h.stack.busy
    rw [show below = .body nested produced :: below' from hbody] at hbusy
    exact hbusy.produced
  | optionEnd pos =>
    obtain ⟨m, f, frames, hfocus, -⟩ := hagree.of_optionBody
    rw [Reader.feed_cons, Reader.feed_nil] at hnone ⊢
    exact h.step_optionEnd hfocus rfl hstack hnone

/-! ### A parse

The invariant holds at the start of a file, and closing at its end keeps the messages sound. -/

/-- The messages of a file without errors are sound (`SoundMessage`), and everything in them is. -/
theorem sound_of_mem_messages {file : String} {bytes : List UInt8}
    (h : (parse file bytes).errors = []) : ∀ m ∈ (parse file bytes).messages, SoundMessage m := by
  -- errors only grow, so nothing has been wrong if nothing is in the end
  refine @parse_induction
    (fun s q => Agree s.stack q ∧ (q.report.errors = [] → SoundState s q))
    (fun p => p.errors = [] → ∀ m ∈ p.messages, SoundMessage m) file bytes ?_ ?_ ?_ h
  · refine ⟨⟨by simp, .inl (.idle (.inl rfl))⟩, fun _ => ⟨rfl, ⟨?_, ?_⟩, trivial, by simp⟩⟩
    · exact Nat.zero_le _
    · exact trivial
  · intro s q yield s' ⟨hagree, hsound⟩ hmove _ heof
    refine ⟨agree_move hagree hmove heof, fun hnone => ?_⟩
    exact sound_move hagree (hsound (Reader.errors_eq_nil_of_feed hnone).1) hmove heof hnone
  · intro s q found ⟨hagree, hsound⟩ hend hnone
    have hprefix := (q.grows_makeRoom none found).isPrefix
    rw [show (q.makeRoom none found).report.errors = [] from hnone] at hprefix
    have hstate := hsound (List.prefix_nil.mp hprefix)
    exact hstate.messages_makeRoom (hagree.settled (hagree.margin hend))
      (show Reader.Outside none from trivial) found

end MessageCatalog
