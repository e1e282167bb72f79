import MessageCatalog.Proofs.Acceptance
import MessageCatalog.Proofs.Sound

/-!
# MessageCatalog.Proofs.Passage

How the two machines pass over a phrase. A configuration (`Config`) is what matters about them while
nothing is wrong: the symbols that are left, the modes of the scanner, and where the reader is.
`Goes a b` says that reading from the first configuration is reading from the second, whatever the
positions are.

There is one lemma for each phrase of a body: text (`Goes.text`), the parts of a replacement
(`Goes.opening`, `Goes.key`, `Goes.typedKey`, `Goes.close`), and the parts of an option
(`Goes.option`, `Goes.optionEnd`, `Goes.bareOption`). Each takes one step of the scanner, by
`Goes.of_step`, and feeds its tokens to the reader, by the lemmas of `MessageCatalog.Proofs.Stream`.
They are composed by `Goes.trans`, so whoever passes over a longer phrase does not see tokens any
more.

A phrase that opens something leaves its position in the configuration, and which position that is
depends on where the phrase stands. So the lemmas for such phrases ask how to go on from every
position.
-/

namespace MessageCatalog

open Scanner (maxNesting nesting)
open Layout (NoSpace)

/-! ### Configurations

The messages, the reports and the last position of the reader are left out; what is passed over adds
nothing to the first two. -/

/-- The symbols of a text without line breaks, which are its characters. -/
def symbols (t : String) : List Symbol := t.toList.map .char

/-- The symbols of two texts are those of the one and of the other. -/
@[simp] theorem symbols_append (t t' : String) : symbols (t ++ t') = symbols t ++ symbols t' := by
  simp [symbols]

@[simp] theorem symbols_empty : symbols "" = [] := rfl

/-- What is left to read, what the scanner is inside of (its `Mode`s), and where the reader is (its
`Focus`). Positions are left out, as they do not decide about anything. -/
structure Config where
  input : List Symbol
  stack : List Mode
  focus : Focus

/-- Reading from the first `Config` is reading from the second: whatever cursor and reader are in
the one, some steps lead them into the other, without an error. -/
def Goes (a b : Config) : Prop :=
  ∀ (c : Cursor) (q : Reader), c.rest = a.input → q.focus = a.focus →
    ∃ (c' : Cursor) (pos : Position), c'.rest = b.input ∧
      q.run (Scanner.run ⟨c, a.stack⟩) =
        Reader.run { q with focus := b.focus, lastPos := pos } (Scanner.run ⟨c', b.stack⟩)

namespace Goes

theorem refl (a : Config) : Goes a a := by
  intro c q hc hq
  refine ⟨c, q.lastPos, hc, ?_⟩
  rw [← hq]

/-- One phrase is passed over after the other. So `Goes` is shown phrase by phrase. -/
theorem trans {a b d : Config} (h₁ : Goes a b) (h₂ : Goes b d) : Goes a d := by
  intro c q hc hq
  obtain ⟨c₁, pos₁, hc₁, hrun₁⟩ := h₁ c q hc hq
  obtain ⟨c₂, pos₂, hc₂, hrun₂⟩ := h₂ c₁ { q with focus := b.focus, lastPos := pos₁ } hc₁ rfl
  exact ⟨c₂, pos₂, hc₂, hrun₁.trans hrun₂⟩

/-- One step of the scanner, after which it goes on. The next configuration may depend on the
positions, so that `mid` is given with the step. -/
theorem of_step {a b : Config} (hdone : ∀ c, Scanner.isDone ⟨c, a.stack⟩ = false)
    (h : ∀ (c : Cursor) (q : Reader), c.rest = a.input → q.focus = a.focus →
      ∃ (yield : List Token) (c' : Cursor) (mid : Config) (pos : Position),
        Scanner.step ⟨c, a.stack⟩ = (yield, ⟨c', mid.stack⟩) ∧ (∀ t ∈ yield, t.kind ≠ .eof) ∧
          c'.rest = mid.input ∧ q.feed yield = { q with focus := mid.focus, lastPos := pos } ∧
          Goes mid b) : Goes a b := by
  intro c q hc hq
  obtain ⟨yield, c₁, mid, pos₁, hstep, heof, hc₁, hfeed, hgoes⟩ := h c q hc hq
  obtain ⟨c₂, pos₂, hc₂, hrun⟩ := hgoes c₁ { q with focus := mid.focus, lastPos := pos₁ } hc₁ rfl
  refine ⟨c₂, pos₂, hc₂, ?_⟩
  rw [Scanner.run_of_not_isDone (hdone c), hstep, Reader.run_append heof, hfeed]
  exact hrun

/-! ### In a body

A phrase of a body may stand in a message or in an option, and whether anything has been produced
before matters only for what comes before the first token. -/

variable {nested produced : Bool} {below : List Mode} {m : Message} {frames : List Frame}

/-- A run of text goes into the body, behind what is there. It has to end where text ends
(`Word.EndsText`). -/
theorem text {cs : List Char} {rest : List Symbol} (hne : cs ≠ []) (htext : Word.isText cs = true)
    (hend : Word.EndsText rest) :
    Goes ⟨cs.map .char ++ rest, .body nested produced :: below, .body m frames⟩
      ⟨rest, .body nested true :: below, .body (m.pushText (String.ofList cs)) frames⟩ := by
  refine of_step (fun _ => rfl) fun c q hc hq => ?_
  have hread : Word.text c.rest = cs := by rw [hc, Word.text_append_of htext hend]
  have hafter : (c.drop cs.length).rest = rest := by
    rw [Cursor.rest_drop, hc]
    exact List.drop_left' (by simp)
  have hstep : Scanner.step ⟨c, .body nested produced :: below⟩ =
      ([Scanner.token .messageText cs c.nextPos],
        ⟨c.drop cs.length, .body nested true :: below⟩) := by
    show Scanner.bodyStep c nested produced below = _
    unfold Scanner.bodyStep
    -- where there is text, no other branch is taken
    split
    · rename_i hrest
      rw [hrest] at hread
      exact absurd hread.symm hne
    · rename_i hrest
      rw [hrest] at hread
      exact absurd hread.symm hne
    · rename_i hrest
      rw [hrest] at hread
      exact absurd hread.symm hne
    · rename_i hrest
      rw [hrest] at hread
      exact absurd hread.symm hne
    · rw [Scanner.textStep, hread, hafter]
      simp [Scanner.endsText_fault hend, hne]
  refine ⟨_, _, ⟨rest, _, _⟩, c.nextPos, hstep, by simp [Scanner.token], hafter, ?_, refl _⟩
  rw [Reader.feed_cons, Reader.feed_nil, Reader.step_text hq rfl]
  rfl

/-- The start of a replacement leads in front of its key, if there is room for one more
(`maxNesting`). -/
theorem opening {rest : List Symbol} {b : Config} (hroom : nesting below < maxNesting)
    (h : ∀ pos, Goes ⟨rest, .replacement (.key pos) :: .body nested true :: below, .body m frames⟩
      b) :
    Goes ⟨.char '$' :: .char '{' :: rest, .body nested produced :: below, .body m frames⟩ b := by
  refine of_step (fun _ => rfl) fun c q hc hq => ?_
  have hstep : Scanner.step ⟨c, .body nested produced :: below⟩ =
      ([], ⟨c.drop 2, .replacement (.key c.nextPos) :: .body nested true :: below⟩) := by
    show Scanner.bodyStep c nested produced below = _
    simp only [Scanner.bodyStep, hc]
    rw [if_neg (Nat.not_le.mpr hroom)]
  refine ⟨[], _, ⟨rest, _, .body m frames⟩, q.lastPos, hstep, by simp, ?_, ?_, h c.nextPos⟩
  · rw [Cursor.rest_drop, hc]
    rfl
  · rw [Reader.feed_nil, ← hq]

theorem feed_key {q : Reader} (hq : q.focus = .body m frames) (key : List Char) (pos : Position) :
    q.step (Scanner.token .replacementStart key pos) =
      { q with
        focus := .replacement
          { key := String.ofList key, pos, textPos := m.text.length } m frames,
        lastPos := pos } :=
  Reader.step_replacementStart hq rfl

/-- A key with no type behind it opens a replacement without a type, in front of its closing brace.
-/
theorem key {key : List Char} {rest : List Symbol} {pos : Position}
    (hkey : Word.isIdent key = true) :
    Goes ⟨key.map .char ++ .char '}' :: rest, .replacement (.key pos) :: below, .body m frames⟩
      ⟨.char '}' :: rest, .replacement .options :: below,
        .replacement { key := String.ofList key, pos, textPos := m.text.length } m frames⟩ := by
  refine of_step (fun _ => rfl) fun c q hc hq => ?_
  have hends : Word.EndsIdent (.char '}' :: rest) := show Word.continuesIdent '}' = false by decide
  obtain ⟨hident, hafter⟩ := Scanner.ident_key hkey hends hc
  rw [hident] at hafter
  have hstep : Scanner.step ⟨c, .replacement (.key pos) :: below⟩ =
      ([Scanner.token .replacementStart key pos],
        ⟨c.drop key.length, .replacement .options :: below⟩) := by
    show Scanner.replacementKeyStep pos c below = _
    unfold Scanner.replacementKeyStep
    dsimp only
    rw [hident, if_neg (Word.isIdent_ne_nil hkey), hafter]
    rfl
  refine ⟨_, _, ⟨_, _, _⟩, pos, hstep, by simp [Scanner.token], hafter, ?_, refl _⟩
  rw [Reader.feed_cons, Reader.feed_nil, feed_key hq]

/-- An open replacement of a known kind that has come to its options, with the `draft` they have
made so far. -/
abbrev opened (key : String) (pos : Position) (textPos : Nat) (kind : ReplacementKind)
    (draft : Draft) : OpenReplacement :=
  { key, pos, textPos, kind := some kind, draft, fresh := false }

/-- A key with a type behind it opens a replacement of that kind, with a draft that has taken no
options (`Draft.ofKind`). -/
theorem typedKey {key : List Char} {rest : List Symbol} {pos : Position} (kind : ReplacementKind)
    (hkey : Word.isIdent key = true) (hrest : Word.EndsIdent rest) :
    Goes ⟨key.map .char ++ .char ':' :: (symbols kind.name ++ rest),
        .replacement (.key pos) :: below, .body m frames⟩
      ⟨rest, .replacement .options :: below,
        .replacement (opened (String.ofList key) pos m.text.length kind (.ofKind kind)) m
          frames⟩ := by
  refine of_step (fun _ => rfl) fun c q hc hq => ?_
  obtain ⟨hident, hafter⟩ := Scanner.ident_key hkey (Scanner.endsIdent_colon _) hc
  rw [hident] at hafter
  have hname : Word.isIdent kind.name.toList = true := by cases kind <;> decide
  have hinner : ((c.drop key.length).drop 1).rest = kind.name.toList.map .char ++ rest := by
    rw [Cursor.rest_drop, hafter]
    rfl
  obtain ⟨hkind, hlast⟩ := Scanner.ident_key hname hrest hinner
  rw [hkind] at hlast
  have hstep : Scanner.step ⟨c, .replacement (.key pos) :: below⟩ =
      ([Scanner.token .replacementStart key pos,
          Scanner.token .replacementType kind.name.toList ((c.drop key.length).drop 1).nextPos],
        ⟨((c.drop key.length).drop 1).drop kind.name.toList.length,
          .replacement .options :: below⟩) := by
    show Scanner.replacementKeyStep pos c below = _
    unfold Scanner.replacementKeyStep
    dsimp only
    rw [hident, if_neg (Word.isIdent_ne_nil hkey)]
    simp only [hafter, hkind]
    rw [if_neg (Word.isIdent_ne_nil hname)]
  refine ⟨_, _, ⟨rest, _, _⟩, ((c.drop key.length).drop 1).nextPos, hstep,
    by simp [Scanner.token], hlast, ?_, refl _⟩
  rw [Reader.feed_cons, Reader.feed_cons, Reader.feed_nil, feed_key hq,
    Reader.step_replacementType rfl rfl rfl]
  simp [Scanner.token, ReplacementKind.ofName?_name]

/-! ### In a replacement

Options stand one directly behind the other here, as they do in canonical form. -/

/-- Where no space and no line break stands in front of it, an option is read at once, by
`Scanner.optionStep`. -/
theorem step_options {c : Cursor} {d : Char} {tail : List Symbol} (hc : c.rest = .char d :: tail)
    (hd : Symbol.isSpace (.char d) = false) :
    Scanner.step ⟨c, .replacement .options :: below⟩ = Scanner.optionStep c below := by
  show Scanner.foldStep c below = _
  have hskip : c.skipSpace = c := by
    rw [Cursor.skipSpace, hc, Layout.spaceWidth, List.takeWhile_cons_of_neg (by simp [hd])]
    rfl
  unfold Scanner.foldStep
  dsimp only
  rw [hskip]
  split
  · rename_i hnewline
    rw [hc] at hnewline
    cases hnewline
  · rfl

variable {r : OpenReplacement} {rest : List Symbol}

/-- The end of a replacement attaches what `OpenReplacement.finish` makes of it. It must find
nothing wrong. -/
theorem close {closed : Option Replacement} (hfinish : ∀ last, r.finish last = (closed, [])) :
    Goes ⟨.char '}' :: rest, .replacement .options :: below, .replacement r m frames⟩
      ⟨rest, below, .body (Reader.attach m closed) frames⟩ := by
  refine of_step (fun _ => rfl) fun c q hc hq => ?_
  have hstep : Scanner.step ⟨c, .replacement .options :: below⟩ =
      ([Scanner.token .replacementEnd ['}'] c.nextPos], ⟨c.drop 1, below⟩) := by
    rw [step_options hc (by decide)]
    simp only [Scanner.optionStep, hc]
  refine ⟨_, _, ⟨rest, _, _⟩, c.nextPos, hstep, by simp [Scanner.token], ?_, ?_, refl _⟩
  · rw [Cursor.rest_drop, hc]
    rfl
  · rw [Reader.feed_cons, Reader.feed_nil, Reader.step_replacementEnd hq rfl, hfinish]
    simp [Report.addAll, Scanner.token]

/-- The `Frame` of an option, as the reader keeps it while the body of the option is open. -/
abbrev frameOf (name : List Char) (pos : Position) (r : OpenReplacement) (outer : Message) :
    Frame :=
  { name := OptionName.ofText (String.ofList name), pos, replacement := { r with fresh := false },
    outer }

/-- The start of an option, as the reader takes it: an empty body, and the `frameOf` the option
around it. -/
theorem feed_optionStart {q : Reader} (hq : q.focus = .replacement r m frames) (name : List Char)
    (pos : Position) :
    q.step (Scanner.token .optionStart name pos) =
      { q with
        focus := .body (.empty "" (OptionName.ofText (String.ofList name)).key)
          (frameOf name pos r m :: frames),
        lastPos := pos } :=
  Reader.step_optionStart hq rfl

/-- The end of an option, as the reader takes it: the replacement has meaning for options and finds
nothing wrong with this one (`Draft.add`). -/
theorem feed_optionEnd {q : Reader} {f : Frame} (hq : q.focus = .body m (f :: frames)) {t : Token}
    (ht : t.kind = .optionEnd) (hdraft : f.replacement.draft ≠ .none)
    (hadd : (f.replacement.draft.add ⟨f.name, f.pos, m.trimTrailing⟩).2 = none) :
    q.step t =
      { q with
        focus := .replacement
          { f.replacement with
            draft := (f.replacement.draft.add ⟨f.name, f.pos, m.trimTrailing⟩).1 }
          f.outer frames,
        lastPos := t.pos } := by
  have hclose : f.close m q.report =
      ({ f.replacement with
          draft := (f.replacement.draft.add ⟨f.name, f.pos, m.trimTrailing⟩).1 }, q.report) := by
    rw [Frame.close, OpenReplacement.addOption]
    cases hd : f.replacement.draft with
    | none => exact absurd hd hdraft
    | money | plural | select =>
      rw [hd] at hadd
      simp [hadd, Report.addAll]
  rw [Reader.step_optionEnd hq ht, hclose]

/-- An option opens its body, which is empty, with the replacement in a frame around it (`frameOf`).
-/
theorem option {name : List Char} {b : Config} (hname : Word.IsOptionName name)
    (h : ∀ pos, Goes ⟨rest, .body true false :: .replacement .optionBody :: below,
      .body (.empty "" (OptionName.ofText (String.ofList name)).key)
        (frameOf name pos r m :: frames)⟩ b) :
    Goes ⟨.char '.' :: (name.map .char ++ .char '{' :: rest), .replacement .options :: below,
      .replacement r m frames⟩ b := by
  refine of_step (fun _ => rfl) fun c q hc hq => ?_
  have hinner : (c.drop 1).rest = name.map .char ++ .char '{' :: rest := by
    rw [Cursor.rest_drop, hc]
    rfl
  have hafter : ((c.drop 1).drop name.length).rest = .char '{' :: rest := by
    rw [Cursor.rest_drop, hinner]
    exact List.drop_left' (by simp)
  have hstep : Scanner.step ⟨c, .replacement .options :: below⟩ =
      ([Scanner.token .optionStart name (c.drop 1).nextPos],
        ⟨((c.drop 1).drop name.length).drop 1,
          .body true false :: .replacement .optionBody :: below⟩) := by
    rw [step_options hc (by decide)]
    simp only [Scanner.optionStep, hc, hinner,
      Scanner.optionName_append_of hname (Scanner.endsIdent_brace _), hafter]
  refine ⟨_, _, ⟨rest, _, _⟩, (c.drop 1).nextPos, hstep, by simp [Scanner.token], ?_, ?_,
    h (c.drop 1).nextPos⟩
  · rw [Cursor.rest_drop, hafter]
    rfl
  · rw [Reader.feed_cons, Reader.feed_nil, feed_optionStart hq]

/-- A brace closes the body of an option and the option. The draft takes the option (`Draft.add`),
and must not object to it. -/
theorem optionEnd {f : Frame} (hdraft : f.replacement.draft ≠ .none)
    (hadd : (f.replacement.draft.add ⟨f.name, f.pos, m.trimTrailing⟩).2 = none) :
    Goes ⟨.char '}' :: rest, .body true produced :: .replacement .optionBody :: below,
        .body m (f :: frames)⟩
      ⟨rest, .replacement .options :: below,
        .replacement
          { f.replacement with
            draft := (f.replacement.draft.add ⟨f.name, f.pos, m.trimTrailing⟩).1 }
          f.outer frames⟩ := by
  have hleave : Goes ⟨.char '}' :: rest, .body true produced :: .replacement .optionBody :: below,
      .body m (f :: frames)⟩
      ⟨.char '}' :: rest, .replacement .optionBody :: below, .body m (f :: frames)⟩ := by
    refine of_step (fun _ => rfl) fun c q hc hq => ?_
    have hstep : Scanner.step ⟨c, .body true produced :: .replacement .optionBody :: below⟩ =
        ([], ⟨c, .replacement .optionBody :: below⟩) := by
      show Scanner.bodyStep c true produced _ = _
      simp only [Scanner.bodyStep, hc]
      rfl
    refine ⟨[], c, ⟨_, _, _⟩, q.lastPos, hstep, by simp, hc, ?_, refl _⟩
    rw [Reader.feed_nil, ← hq]
  refine hleave.trans (of_step (fun _ => rfl) fun c q hc hq => ?_)
  have hstep : Scanner.step ⟨c, .replacement .optionBody :: below⟩ =
      ([Scanner.token .optionEnd ['}'] c.nextPos],
        ⟨c.drop 1, .replacement .options :: below⟩) := by
    show Scanner.optionEndStep c below = _
    simp only [Scanner.optionEndStep, hc]
  refine ⟨_, _, ⟨rest, _, _⟩, c.nextPos, hstep, by simp [Scanner.token], ?_, ?_, refl _⟩
  · rw [Cursor.rest_drop, hc]
    rfl
  · rw [Reader.feed_cons, Reader.feed_nil, feed_optionEnd hq rfl hdraft hadd]
    rfl

/-- An option without a body, in front of another one. It is the name of a type that is written like
this, and a draft that takes it must not object. -/
theorem bareOption {name : List Char} {draft : Draft} (hname : Word.isIdent name = true)
    (hdraft : r.draft ≠ .none)
    (hadd : ∀ pos, r.draft.add ⟨.bare (String.ofList name), pos, .empty "" (String.ofList name)⟩ =
      (draft, none)) :
    Goes ⟨.char '.' :: (name.map .char ++ .char '.' :: rest), .replacement .options :: below,
        .replacement r m frames⟩
      ⟨.char '.' :: rest, .replacement .options :: below,
        .replacement { r with draft, fresh := false } m frames⟩ := by
  refine of_step (fun _ => rfl) fun c q hc hq => ?_
  have hinner : (c.drop 1).rest = name.map .char ++ .char '.' :: rest := by
    rw [Cursor.rest_drop, hc]
    rfl
  have hafter : ((c.drop 1).drop name.length).rest = .char '.' :: rest := by
    rw [Cursor.rest_drop, hinner]
    exact List.drop_left' (by simp)
  have hends : Word.EndsIdent (.char '.' :: rest) := show Word.continuesIdent '.' = false by decide
  have hstep : Scanner.step ⟨c, .replacement .options :: below⟩ =
      ([Scanner.token .optionStart name (c.drop 1).nextPos,
          Scanner.token .optionEnd [] ((c.drop 1).drop name.length).nextPos],
        ⟨(c.drop 1).drop name.length, .replacement .options :: below⟩) := by
    rw [step_options hc (by decide)]
    simp only [Scanner.optionStep, hc, hinner,
      Scanner.optionName_append_of (.inl hname) hends, hafter]
    rfl
  have hbare := OptionName.ofText_ident hname
  have hadd' : r.draft.add ⟨OptionName.ofText (String.ofList name), (c.drop 1).nextPos,
      (Message.empty "" (String.ofList name)).trimTrailing⟩ = (draft, none) := by
    rw [hbare]
    exact hadd (c.drop 1).nextPos
  refine ⟨_, _, ⟨_, _, _⟩, ((c.drop 1).drop name.length).nextPos, hstep, by simp [Scanner.token],
    hafter, ?_, refl _⟩
  rw [Reader.feed_cons, Reader.feed_cons, Reader.feed_nil, feed_optionStart hq,
    show (OptionName.ofText (String.ofList name)).key = String.ofList name by rw [hbare]; rfl,
    feed_optionEnd rfl rfl hdraft (congrArg Prod.snd hadd')]
  simp only [hadd']
  rfl

end Goes

end MessageCatalog
