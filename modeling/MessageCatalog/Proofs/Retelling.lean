import MessageCatalog.Proofs.Agreement

/-!
# MessageCatalog.Proofs.Retelling

Reading tokens that are told another way. The reader passes on positions and the wordings of faults,
but decides nothing by them. So if these are changed in the tokens, by any two functions
(`Retelling`), then reading commutes with the change, step by step (`reader_step`) and over whole
streams (`reader_run`, `readTokens_map_token`): the messages are the same, and the errors are the
changed errors.

Everything the reader holds has its told counterpart, from a token to the reader itself
(`Retelling.token`, `Retelling.reader`). The lemmas then follow the definitions of
`MessageCatalog.Reading`, one for each function: told in, told out.

`MessageCatalog.Proofs.Relocation` moves positions down in this way, and
`MessageCatalog.Proofs.LineEndings` leaves them out and changes the wording of one fault.
-/

namespace MessageCatalog

/-- A way to tell a stream: what becomes of positions (`place`) and of the wordings of faults
(`wording`). The two are any functions; reading must not look at either. -/
structure Retelling where
  place : Position → Position
  wording : String → String

namespace Retelling

variable (ρ : Retelling)

/-! ### Told data

Positions are replaced wherever one is remembered; a wording is held by invalid tokens, and by the
errors and events that come of them. -/

/-- A token as it is told. Only the text of an invalid token is a wording, all other texts are said
by the file. -/
def token (t : Token) : Token :=
  { t with
    text := if t.kind = .invalid then ρ.wording t.text else t.text
    pos := ρ.place t.pos }

/-- The cause of an error as it is told. Only `Cause.reported`, which comes of an invalid token, has
a wording. -/
def cause : Cause → Cause
  | .reported text => .reported (ρ.wording text)
  | cause => cause

/-- An error as it is told. -/
def diagnostic (d : Diagnostic) : Diagnostic := ⟨ρ.cause d.cause, ρ.place d.pos⟩

/-- An event as it is told. Events are for the log of a reader, and have no part in its outcome. -/
def event : Event → Event
  | .scanAborted pos fault => .scanAborted (ρ.place pos) (ρ.wording fault)
  | .messageStarted pos key => .messageStarted (ρ.place pos) key
  | .optionIgnored pos => .optionIgnored (ρ.place pos)
  | event => event

/-- A report as it is told, error by error. -/
def report (r : Report) : Report :=
  { r with errors := r.errors.map ρ.diagnostic, events := r.events.map ρ.event }

def option (o : ReplacementOption) : ReplacementOption := { o with pos := ρ.place o.pos }

def selectDraft (d : SelectDraft) : SelectDraft :=
  { d with fallbackPos := d.fallbackPos.map ρ.place }

/-- A draft with what it remembers in its place. That is the place of a default, in a select draft
(`SelectDraft.fallbackPos`). -/
def draft : Draft → Draft
  | .select d => .select (ρ.selectDraft d)
  | d => d

/-- An open replacement in its place, with its `draft` in its place. -/
def replacement (r : OpenReplacement) : OpenReplacement :=
  { r with pos := ρ.place r.pos, draft := ρ.draft r.draft }

/-- A frame in its place, with the replacement around the option in its place. -/
def frame (f : Frame) : Frame :=
  { f with pos := ρ.place f.pos, replacement := ρ.replacement f.replacement }

/-- What is open, in its place. Bodies hold no positions, so only replacements and frames change. -/
def focus : Focus → Focus
  | .idle => .idle
  | .body m frames => .body m (frames.map ρ.frame)
  | .replacement r m frames => .replacement (ρ.replacement r) m (frames.map ρ.frame)

def found (f : Found) : Found := { f with pos := ρ.place f.pos }

/-- The reader of the told stream, with everything in it as it is told. That this is what reading
the told stream leads to is `reader_step`, and `reader_run` for a whole stream. -/
def reader (q : Reader) : Reader :=
  { q with focus := ρ.focus q.focus, report := ρ.report q.report, lastPos := ρ.place q.lastPos }

/-- The outcome of reading as it is told. -/
def parsed (p : Parsed) : Parsed :=
  { p with errors := p.errors.map ρ.diagnostic, events := p.events.map ρ.event }

/-! ### Reports

Adding to a report commutes with telling it. -/

/-- Errors are added by `Report.addAll` as they are told. So is a single error. -/
theorem report_addAll (r : Report) (ds : List Diagnostic) :
    (ρ.report r).addAll (ds.map ρ.diagnostic) = ρ.report (r.addAll ds) := by
  simp only [Report.addAll, report, List.map_append]

theorem report_add (r : Report) (cause : Cause) (pos : Position) :
    (ρ.report r).add (ρ.cause cause) (ρ.place pos) = ρ.report (r.add cause pos) :=
  ρ.report_addAll r [⟨cause, pos⟩]

/-- Whether an error of shape counts does not depend on the telling, since `Report.recovering` does
not. -/
theorem report_addShape (r : Report) (cause : Cause) (pos : Position) :
    (ρ.report r).addShape (ρ.cause cause) (ρ.place pos) = ρ.report (r.addShape cause pos) := by
  have hrecovering : (ρ.report r).recovering = r.recovering := rfl
  unfold Report.addShape
  rw [hrecovering]
  split
  · rfl
  · exact ρ.report_add r cause pos

theorem report_note (r : Report) (event : Event) :
    (ρ.report r).note (ρ.event event) = ρ.report (r.note event) := by
  simp only [Report.note, report, List.map_append, List.map_cons, List.map_nil]

/-! ### Options

Of the drafts only that of a select replacement remembers a position. -/

/-- A select draft takes an option (`SelectDraft.add`) wherever it stands. This is the only draft
that remembers a place. -/
theorem selectDraft_add (d : SelectDraft) (o : ReplacementOption) :
    (ρ.selectDraft d).add (ρ.option o) = (ρ.selectDraft (d.add o).1, (d.add o).2) := by
  obtain ⟨name, pos, body⟩ := o
  cases name with
  | literal value =>
    simp only [SelectDraft.add, SelectDraft.addCase, selectDraft, option]
    cases d.cases.find? value <;> rfl
  | bare name =>
    unfold SelectDraft.add SelectDraft.addDirective selectDraft option
    by_cases hused : d.directives.contains (Text.lowercase name) = true
    · simp only [hused, if_true]
    · by_cases hplain : (!body.isPlain) = true
      · simp only [hused, hplain, if_true, Bool.false_eq_true, if_false]
      · by_cases hdefault : Text.lowercase name = "default"
        · rw [hdefault] at hused
          simp only [hused, hplain, hdefault, if_true, Bool.false_eq_true, if_false,
            Option.map_some]
        · simp only [hused, hplain, hdefault, Bool.false_eq_true, if_false]

/-- A draft takes an option wherever it stands: `Draft.add` commutes with telling, and objects to
the same. -/
theorem draft_add (d : Draft) (o : ReplacementOption) :
    (ρ.draft d).add (ρ.option o) = (ρ.draft (d.add o).1, (d.add o).2) := by
  cases d with
  | none => rfl
  | money d =>
    have hadd : d.add (ρ.option o) = d.add o := rfl
    simp only [draft, Draft.add, hadd]
  | plural d =>
    have hadd : d.add (ρ.option o) = d.add o := by
      simp only [PluralDraft.add, option]
    simp only [draft, Draft.add, hadd]
  | select d =>
    simp only [draft, Draft.add]
    rw [selectDraft_add]

/-- What `Draft.finish` gives are details that do not depend on positions, and the errors about them
are told. So it is with a finished replacement. -/
theorem draft_finish (d : Draft) (start last : Position) :
    (ρ.draft d).finish (ρ.place start) (ρ.place last) =
      ((d.finish start last).1, (d.finish start last).2.map ρ.diagnostic) := by
  cases d with
  | none => rfl
  | money d =>
    simp only [draft, Draft.finish, MoneyDraft.finish]
    cases d.currency <;> rfl
  | plural d =>
    simp only [draft, Draft.finish, PluralDraft.finish]
    split <;> rfl
  | select d =>
    simp only [draft, Draft.finish, SelectDraft.finish, selectDraft]
    cases d.fallbackPos with
    | none => split <;> rfl
    | some pos => split <;> rfl

theorem replacement_finish (r : OpenReplacement) (last : Position) :
    (ρ.replacement r).finish (ρ.place last) =
      ((r.finish last).1, (r.finish last).2.map ρ.diagnostic) := by
  simp only [OpenReplacement.finish, replacement, draft_finish]

@[simp] theorem replacement_takes (r : OpenReplacement) :
    (ρ.replacement r).takes = r.takes := by
  funext kind
  cases kind <;> rfl

theorem cause_id (place : Position → Position) (cause : Cause) :
    (Retelling.mk place id).cause cause = cause := by
  cases cause <;> rfl

/-- Errors about the meaning of options (`Cause.isSemantic`) are told as they are, as they quote no
wording. -/
theorem cause_of_isSemantic {cause : Cause} (h : cause.isSemantic = true) :
    ρ.cause cause = cause := by
  cases cause <;> first | rfl | cases h

/-- A replacement takes an option wherever the two stand, and reports what is wrong with it as that
is told. -/
theorem replacement_addOption (r : OpenReplacement) (o : ReplacementOption) (report : Report) :
    (ρ.replacement r).addOption (ρ.option o) (ρ.report report) =
      (ρ.replacement (r.addOption o report).1, ρ.report (r.addOption o report).2) := by
  obtain ⟨key, pos, textPos, kind, d, fresh⟩ := r
  -- both take the option in the same way, unless it has no meaning
  have htaken (r : OpenReplacement) (o : ReplacementOption) (report : Report)
      (h : r.draft ≠ .none) : r.addOption o report =
        ({ r with draft := (r.draft.add o).1 },
          report.addAll ((r.draft.add o).2.toList.map (⟨·, o.pos⟩))) := by
    unfold OpenReplacement.addOption
    split
    · rename_i hnone
      exact absurd hnone h
    · rfl
  have hcauses : (d.add o).2.toList.map (⟨·, ρ.place o.pos⟩) =
      ((d.add o).2.toList.map (⟨·, o.pos⟩)).map ρ.diagnostic := by
    rw [List.map_map]
    refine List.map_congr_left fun cause hcause => ?_
    have hsemantic := Draft.isSemantic_of_add (Option.mem_toList.mp hcause)
    simp only [Function.comp_apply, diagnostic, ρ.cause_of_isSemantic hsemantic]
  have hreport := ρ.report_addAll report ((d.add o).2.toList.map (⟨·, o.pos⟩))
  rw [← hcauses] at hreport
  cases d with
  | none => exact congrArg _ (ρ.report_note report (.optionIgnored o.pos))
  | money | plural | select =>
    rw [htaken, htaken, ← hreport]
    · simp only [replacement, draft_add]
      rfl
    · nofun
    · nofun

/-! ### Closing

Closing commutes with telling. The induction is over the frames, as the definition recurses. -/

/-- What a body takes depends only on whether it is inside of an option, so `Reader.bodyTakes` is
the same for both readers. -/
theorem bodyTakes_frames (frames : List Frame) :
    Reader.bodyTakes (frames.map ρ.frame) = Reader.bodyTakes frames := by
  funext kind
  cases frames <;> cases kind <;> rfl

/-- Closing an option (`Frame.close`) commutes with telling, and so does closing a replacement. -/
theorem frame_close (f : Frame) (m : Message) (report : Report) :
    (ρ.frame f).close m (ρ.report report) =
      (ρ.replacement (f.close m report).1, ρ.report (f.close m report).2) :=
  ρ.replacement_addOption f.replacement { name := f.name, pos := f.pos, body := m.trimTrailing }
    report

/-- Closing a replacement commutes with telling. -/
theorem closeReplacement_told (last : Position) (r : OpenReplacement) (m : Message) (f : Found)
    (report : Report) :
    Reader.closeReplacement (ρ.place last) (ρ.replacement r) m (ρ.found f) (ρ.report report) =
      ((Reader.closeReplacement last r m f report).1,
        ρ.report (Reader.closeReplacement last r m f report).2) := by
  unfold Reader.closeReplacement
  rw [replacement_finish]
  dsimp only
  rw [report_addAll]
  exact congrArg _ (ρ.report_addShape (report.addAll (r.finish last).2)
    (.replacementClosing f.what) f.pos)

/-- Closing bodies (`Reader.unwindBody`) commutes with telling, from the inside out. By induction on
the frames. -/
theorem unwindBody_told (last : Position) (kind : Option Token.Kind) (f : Found)
    (frames : List Frame) :
    ∀ (m : Message) (report : Report),
      Reader.unwindBody (ρ.place last) kind (ρ.found f) m (ρ.report report)
          (frames.map ρ.frame) =
        (ρ.focus (Reader.unwindBody last kind f m report frames).1,
          (Reader.unwindBody last kind f m report frames).2.1,
          ρ.report (Reader.unwindBody last kind f m report frames).2.2) := by
  induction frames with
  | nil =>
    intro m report
    rw [List.map_nil, Reader.unwindBody, Reader.unwindBody]
    split <;> rfl
  | cons frame frames ih =>
    intro m report
    have hbody := ρ.bodyTakes_frames (frame :: frames)
    have hshape : (ρ.report report).addShape (.optionClosing (ρ.found f).what) (ρ.found f).pos =
        ρ.report (report.addShape (.optionClosing f.what) f.pos) :=
      ρ.report_addShape report (.optionClosing f.what) f.pos
    rw [List.map_cons] at hbody ⊢
    rw [Reader.unwindBody, Reader.unwindBody, hbody, hshape, frame_close]
    split
    · rfl
    · dsimp only
      rw [replacement_takes]
      split
      · rfl
      · have houter : (ρ.frame frame).outer = frame.outer := rfl
        rw [houter, closeReplacement_told]
        exact ih _ _

/-- Closing what is open commutes with telling. -/
theorem unwind_told (last : Position) (kind : Option Token.Kind) (f : Found) (report : Report)
    (focus : Focus) :
    Reader.unwind (ρ.place last) kind (ρ.found f) (ρ.report report) (ρ.focus focus) =
      (ρ.focus (Reader.unwind last kind f report focus).1,
        (Reader.unwind last kind f report focus).2.1,
        ρ.report (Reader.unwind last kind f report focus).2.2) := by
  cases focus with
  | idle => rfl
  | body m frames => exact ρ.unwindBody_told last kind f frames m report
  | replacement r m frames =>
    rw [Retelling.focus, Reader.unwind, Reader.unwind, replacement_takes]
    split
    · rfl
    · rw [closeReplacement_told]
      exact ρ.unwindBody_told last kind f frames _ _

/-- Making room for a token (`Reader.makeRoom`) commutes with telling: the same is closed for it. -/
theorem reader_makeRoom (q : Reader) (kind : Option Token.Kind) (f : Found) :
    (ρ.reader q).makeRoom kind (ρ.found f) = ρ.reader (q.makeRoom kind f) := by
  have hunwind := ρ.unwind_told q.lastPos kind f q.report q.focus
  unfold Reader.makeRoom reader
  dsimp only
  rw [hunwind]

/-! ### Tokens

The text of a token that is not invalid is what the file says, so it is told as it is. -/

@[simp] theorem kind_token (t : Token) : (ρ.token t).kind = t.kind := rfl

theorem text_token {t : Token} (h : t.kind ≠ .invalid) : (ρ.token t).text = t.text := if_neg h

/-- A token is described (`Token.describe`) as it is, unless it is invalid. An invalid one is never
described. -/
theorem describe_token {t : Token} (h : t.kind ≠ .invalid) : (ρ.token t).describe = t.describe := by
  rw [Token.describe, Token.describe, kind_token, text_token ρ h]

/-- Taking a token between messages (`Reader.takeIdle`) commutes with telling, and so does taking a
token in a body and in a replacement. -/
theorem reader_takeIdle (q : Reader) {t : Token} (h : t.kind ≠ .invalid) :
    (ρ.reader q).takeIdle (ρ.token t) = ρ.reader (q.takeIdle t) := by
  have hshape := ρ.report_addShape q.report (.unexpectedToken t.describe) t.pos
  have hnote := ρ.report_note q.report (.messageStarted t.pos t.text)
  unfold Reader.takeIdle
  rw [kind_token, text_token ρ h, describe_token ρ h]
  split
  · rfl
  · exact congrArg (fun r : Report => { ρ.reader q with
      focus := .body (.empty q.sectionName t.text) [], report := { r with recovering := false } })
      hnote
  · exact congrArg (fun r => { ρ.reader q with report := r }) hshape

theorem reader_takeBody (q : Reader) {t : Token} (h : t.kind ≠ .invalid) (m : Message)
    (frames : List Frame) :
    (ρ.reader q).takeBody (ρ.token t) m (frames.map ρ.frame) =
      ρ.reader (q.takeBody t m frames) := by
  unfold Reader.takeBody
  rw [kind_token, text_token ρ h]
  cases t.kind with
  | optionEnd =>
    cases frames with
    | nil => rfl
    | cons frame frames =>
      have hclose := ρ.frame_close frame m q.report
      simp only [List.map_cons, reader, hclose]
      rfl
  | _ => rfl

theorem reader_takeReplacement (q : Reader) {t : Token} (h : t.kind ≠ .invalid)
    (r : OpenReplacement) (m : Message) (frames : List Frame) :
    (ρ.reader q).takeReplacement (ρ.token t) (ρ.replacement r) m (frames.map ρ.frame) =
      ρ.reader (q.takeReplacement t r m frames) := by
  unfold Reader.takeReplacement
  rw [kind_token, text_token ρ h]
  cases t.kind with
  | replacementType =>
    cases ReplacementKind.ofName? t.text with
    | some kind => cases kind <;> rfl
    | none =>
      have hadd := ρ.report_add q.report (.invalidType t.text) t.pos
      exact congrArg (fun report : Report => { ρ.reader q with
        focus := ρ.focus (.replacement { r with kind := none, draft := .none, fresh := false } m
          frames), report }) hadd
  | replacementEnd =>
    have hfinish := ρ.replacement_finish r q.lastPos
    have hadd := ρ.report_addAll q.report (r.finish q.lastPos).2
    rw [show (ρ.reader q).lastPos = ρ.place q.lastPos from rfl, hfinish]
    exact congrArg (fun report : Report => { ρ.reader q with
      focus := .body (Reader.attach m (r.finish q.lastPos).1) (frames.map ρ.frame), report }) hadd
  | _ => rfl

/-- Taking a token commutes with telling. -/
theorem reader_take (q : Reader) {t : Token} (h : t.kind ≠ .invalid) :
    (ρ.reader q).take (ρ.token t) = ρ.reader (q.take t) := by
  have hfocus : (ρ.reader q).focus = ρ.focus q.focus := rfl
  unfold Reader.take
  rw [hfocus]
  cases q.focus with
  | idle => exact ρ.reader_takeIdle q h
  | body m frames => exact ρ.reader_takeBody q h m frames
  | replacement r m frames => exact ρ.reader_takeReplacement q h r m frames

/-- An invalid token is reported as it is told, with its wording. This is where a `Retelling`
changes what is said. -/
theorem reader_takeInvalid (q : Reader) {t : Token} (h : t.kind = .invalid) :
    (ρ.reader q).takeInvalid (ρ.token t) = ρ.reader (q.takeInvalid t) := by
  have htext : (ρ.token t).text = ρ.wording t.text := if_pos h
  have hnoted : (if t.aborts then (ρ.report q.report).note
        (.scanAborted (ρ.place t.pos) (ρ.wording t.text)) else ρ.report q.report) =
      ρ.report (if t.aborts then q.report.note (.scanAborted t.pos t.text) else q.report) := by
    split
    · exact ρ.report_note q.report (.scanAborted t.pos t.text)
    · rfl
  have hadd := ρ.report_add
    (if t.aborts then q.report.note (.scanAborted t.pos t.text) else q.report) (.reported t.text)
    t.pos
  rw [← hnoted] at hadd
  unfold Reader.takeInvalid
  rw [htext]
  exact congrArg (fun report : Report => { ρ.reader q with
    report := { report with recovering := true } }) hadd

/-- One token, told another way, is taken as the token is, by `reader_take` or `reader_takeInvalid`.
-/
theorem reader_step (q : Reader) (t : Token) :
    (ρ.reader q).step (ρ.token t) = ρ.reader (q.step t) := by
  unfold Reader.step
  rw [kind_token]
  split
  · rename_i h
    exact ρ.reader_takeInvalid q h
  · rename_i h
    have htake := ρ.reader_take (q.makeRoom (some t.kind) ⟨t.describe, t.pos⟩) h
    rw [← reader_makeRoom] at htake
    rw [describe_token ρ h]
    exact congrArg (fun q : Reader => { q with lastPos := ρ.place t.pos }) htake

/-- A stream, told another way, is read (`Reader.run`) as the stream is. By induction on the stream.
-/
theorem reader_run (stream : List Token) :
    ∀ q : Reader, (ρ.reader q).run (stream.map ρ.token) = ρ.parsed (q.run stream) := by
  have hfinish (q : Reader) (f : Found) :
      (ρ.reader q).finish (ρ.found f) = ρ.parsed (q.finish f) := by
    rw [Reader.finish, reader_makeRoom]
    rfl
  induction stream with
  | nil => exact fun q => hfinish q ⟨"end of file", q.lastPos⟩
  | cons t stream ih =>
    intro q
    rw [List.map_cons, Reader.run, Reader.run, kind_token, reader_step, ih]
    split
    · rename_i h
      rw [describe_token ρ (by rw [h]; decide)]
      exact hfinish q ⟨t.describe, t.pos⟩
    · rfl

end Retelling

/-- Reading (`readTokens`) commutes with telling, if the reader starts at the same place: its first
position is not one of the stream. -/
theorem readTokens_map_token {ρ : Retelling} (hplace : ρ.place {} = {}) (stream : List Token) :
    readTokens (stream.map ρ.token) = ρ.parsed (readTokens stream) := by
  have hstart : ρ.reader {} = {} := by
    rw [Retelling.reader, hplace]
    rfl
  have hrun := ρ.reader_run stream {}
  rw [hstart] at hrun
  exact hrun

end MessageCatalog
