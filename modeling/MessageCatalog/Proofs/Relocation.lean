import MessageCatalog.Proofs.Place
import MessageCatalog.Proofs.Retelling

/-!
# MessageCatalog.Proofs.Relocation

Reading the tokens of a piece of a file in another place. The reader looks at positions only to pass
them on, and at the name of the section only to write it into messages; so from where nothing is
open, reading moved tokens behind other messages and errors gives the moved result behind them:
`Follows.run`.

Two changes go together here. Positions are shifted, which is a retelling (`Retelling.shift`) and
needs no proof of its own for options and details. And the section that is open in front of the
piece is that of its first messages, up to the first header of the piece (`Message.inSection`). Only
the body of a message has a section, not that of an option, so where the section goes depends on the
frames (`Relocation.body`, `Relocation.frames`).

The relation between the two readers is `Follows`: same focus in its new place, and messages, errors
and the last position behind those that were there. One lemma for each function of the reader shows
that it is kept. Headers are supposed to have a name, as those of the scanner do, because an empty
name would be taken for the section in front.
-/

namespace MessageCatalog

/-! ### Moved data

The counterparts of what the reader holds, with every position moved down. -/

section

variable (lines bytes : Nat)

@[simp] theorem Token.kind_shift (t : Token) : (t.shift lines bytes).kind = t.kind := rfl

@[simp] theorem Token.text_shift (t : Token) : (t.shift lines bytes).text = t.text := rfl

@[simp] theorem Token.describe_shift (t : Token) :
    (t.shift lines bytes).describe = t.describe := rfl

/-- Moves an error down by some lines and bytes, as `Token.shift` moves a token. -/
def Diagnostic.shift (d : Diagnostic) : Diagnostic := { d with pos := d.pos.shift lines bytes }

/-- Moves an option down by some lines. -/
def ReplacementOption.shift (option : ReplacementOption) : ReplacementOption :=
  { option with pos := option.pos.shift lines bytes }

def SelectDraft.shift (draft : SelectDraft) : SelectDraft :=
  { draft with fallbackPos := draft.fallbackPos.map (Position.shift lines bytes) }

/-- Moves the places that a draft remembers. Only a select draft remembers one, that of its default
(`SelectDraft.fallbackPos`). -/
def Draft.shift : Draft → Draft
  | .select draft => .select (draft.shift lines bytes)
  | draft => draft

/-- Moves the places that an open replacement remembers: its own, and those in its draft
(`Draft.shift`). -/
def OpenReplacement.shift (r : OpenReplacement) : OpenReplacement :=
  { r with pos := r.pos.shift lines bytes, draft := r.draft.shift lines bytes }

def Found.shift (found : Found) : Found := { found with pos := found.pos.shift lines bytes }

/-- Moving is telling with other positions, so the lemmas on `Retelling` are lemmas on moving. -/
def Retelling.shift : Retelling := ⟨Position.shift lines bytes, id⟩

/-- An error that is told with other positions (`Retelling.shift`) is an error that is moved, and so
are drafts and replacements. -/
theorem Retelling.diagnostic_shift :
    (Retelling.shift lines bytes).diagnostic = Diagnostic.shift lines bytes := by
  funext d
  rw [Retelling.diagnostic, Retelling.shift, Retelling.cause_id]
  rfl

/-- A draft that is told is a draft that is moved. -/
theorem Retelling.draft_shift (draft : Draft) :
    (Retelling.shift lines bytes).draft draft = draft.shift lines bytes := by
  cases draft <;> rfl

/-- A draft takes an option wherever it stands: `Draft.add` and moving can be exchanged, and so can
`Draft.finish`. -/
theorem Draft.add_shift (draft : Draft) (option : ReplacementOption) :
    (draft.shift lines bytes).add (option.shift lines bytes) =
      ((draft.add option).1.shift lines bytes, (draft.add option).2) := by
  have hadd := (Retelling.shift lines bytes).draft_add draft option
  rw [Retelling.draft_shift, Retelling.draft_shift] at hadd
  exact hadd

/-- What `Draft.finish` gives are details that do not depend on the place, and errors that move with
it. -/
theorem Draft.finish_shift (draft : Draft) (start last : Position) :
    (draft.shift lines bytes).finish (start.shift lines bytes) (last.shift lines bytes) =
      ((draft.finish start last).1,
        (draft.finish start last).2.map (Diagnostic.shift lines bytes)) := by
  have hfinish := (Retelling.shift lines bytes).draft_finish draft start last
  rw [Retelling.draft_shift, Retelling.diagnostic_shift] at hfinish
  exact hfinish

theorem OpenReplacement.finish_shift (r : OpenReplacement) (last : Position) :
    (r.shift lines bytes).finish (last.shift lines bytes) =
      ((r.finish last).1, (r.finish last).2.map (Diagnostic.shift lines bytes)) := by
  simp only [finish, shift, Draft.finish_shift]

@[simp] theorem OpenReplacement.takes_shift (r : OpenReplacement) :
    (r.shift lines bytes).takes = r.takes := by
  funext kind
  cases kind <;> rfl

end

/-! ### Reports

The events of the two readers may differ, since those in front of the piece are not accounted for.
-/

namespace Report

/-- The report `r'` goes on behind some errors with those of `r`, moved down. Both are recovering
from a fault, or neither is. -/
structure Follows (lines bytes : Nat) (before : List Diagnostic) (r r' : Report) : Prop where
  errors : r'.errors = before ++ r.errors.map (Diagnostic.shift lines bytes)
  recovering : r'.recovering = r.recovering

variable {lines bytes : Nat} {before : List Diagnostic} {r r' : Report}

/-- Moved errors are added behind, as many as are added to the other report. -/
theorem Follows.addAll (h : Follows lines bytes before r r') (ds : List Diagnostic) :
    Follows lines bytes before (r.addAll ds)
      (r'.addAll (ds.map (Diagnostic.shift lines bytes))) := by
  refine ⟨?_, h.recovering⟩
  simp only [Report.addAll, h.errors, List.map_append, List.append_assoc]

theorem Follows.add (h : Follows lines bytes before r r') (cause : Cause) (pos : Position) :
    Follows lines bytes before (r.add cause pos) (r'.add cause (pos.shift lines bytes)) :=
  h.addAll [⟨cause, pos⟩]

/-- An error of shape (`Report.addShape`) counts in both places or in neither, as both readers are
recovering or neither is. -/
theorem Follows.addShape (h : Follows lines bytes before r r') (cause : Cause) (pos : Position) :
    Follows lines bytes before (r.addShape cause pos)
      (r'.addShape cause (pos.shift lines bytes)) := by
  unfold Report.addShape
  rw [h.recovering]
  split
  · exact h
  · exact h.add cause pos

theorem Follows.note (h : Follows lines bytes before r r') (event event' : Event) :
    Follows lines bytes before (r.note event) (r'.note event') := ⟨h.errors, h.recovering⟩

/-- A fault silences both reports, and a header or key ends the silence in both. -/
theorem Follows.setRecovering (h : Follows lines bytes before r r') (recovering : Bool) :
    Follows lines bytes before { r with recovering } { r' with recovering } := ⟨h.errors, rfl⟩

end Report

/-- A replacement takes an option wherever the two stand, and reports the same about it, further
down. -/
theorem OpenReplacement.follows_addOption {lines bytes : Nat} {before : List Diagnostic}
    {report report' : Report} (h : Report.Follows lines bytes before report report')
    (r : OpenReplacement) (option : ReplacementOption) :
    ((r.shift lines bytes).addOption (option.shift lines bytes) report').1 =
        (r.addOption option report).1.shift lines bytes ∧
      Report.Follows lines bytes before (r.addOption option report).2
        ((r.shift lines bytes).addOption (option.shift lines bytes) report').2 := by
  obtain ⟨hr, herrors, hrecovering⟩ := r.addOption_spec option report
  obtain ⟨hr', herrors', hrecovering'⟩ :=
    (r.shift lines bytes).addOption_spec (option.shift lines bytes) report'
  have hadd : (r.shift lines bytes).draft.add (option.shift lines bytes) = _ :=
    r.draft.add_shift lines bytes option
  rw [hadd] at hr' herrors'
  refine ⟨?_, ?_, ?_⟩
  · rw [hr', hr]
    rfl
  · rw [herrors', herrors, h.errors, List.map_append, List.append_assoc, List.map_map]
    rfl
  · rw [hrecovering', hrecovering, h.recovering]

/-! ### The reader

The section in front of the piece is written into the message that is open, if that has none of its
own. -/

/-- The message in a section of the given name, unless it has a section already. This is what the
section in front of a piece does to the messages that stand before its first header, see
`Reader.takeIdle`. -/
def Message.inSection (name : String) (m : Message) : Message :=
  { m with sectionName := if m.sectionName = "" then name else m.sectionName }

namespace Message

/-- Text does not depend on the section, and trimming does not either. -/
theorem pushText_inSection (name : String) (m : Message) (t : String) :
    (m.inSection name).pushText t = (m.pushText t).inSection name := by
  unfold inSection
  rw [sectionName_pushText]
  unfold pushText endsInReplacement
  dsimp only
  split
  · split <;> rfl
  · rfl

/-- Trimming does not depend on the section. -/
theorem trimTrailing_inSection (name : String) (m : Message) :
    (m.inSection name).trimTrailing = m.trimTrailing.inSection name := by
  unfold inSection
  rw [sectionName_trimTrailing]
  unfold trimTrailing endsInReplacement
  dsimp only
  split
  · rfl
  · split
    · split <;> rfl
    · rfl

end Message

/-- How the tokens of a piece are read in another place: how far down it is, and the name of the
section that is open in front of it. It acts on what a reader holds by `Relocation.body`,
`Relocation.frames` and `Relocation.focus`. -/
structure Relocation where
  lines : Nat
  bytes : Nat
  sectionName : String

namespace Relocation

variable (ρ : Relocation)

/-- A body in its new place. Only the body of a message has a section, which is one without frames
around it; there `Message.inSection` counts. -/
def body (m : Message) : List Frame → Message
  | [] => m.inSection ρ.sectionName
  | _ :: _ => m

/-- A frame in its new place: with its replacement moved, and the body around it in its new place.
-/
def frame (f : Frame) (frames : List Frame) : Frame :=
  { name := f.name,
    pos := f.pos.shift ρ.lines ρ.bytes,
    replacement := f.replacement.shift ρ.lines ρ.bytes,
    outer := ρ.body f.outer frames }

/-- The surroundings of a body in their new place, frame by frame. -/
def frames : List Frame → List Frame
  | [] => []
  | f :: rest => ρ.frame f rest :: frames rest

/-- The focus of a reader in its new place, with all that is open in it. -/
def focus : Focus → Focus
  | .idle => .idle
  | .body m frames => .body (ρ.body m frames) (ρ.frames frames)
  | .replacement r m frames =>
    .replacement (r.shift ρ.lines ρ.bytes) (ρ.body m frames) (ρ.frames frames)

/-- What a body takes depends only on whether it is inside of an option, so `bodyTakes` is the same
in the new place. -/
theorem bodyTakes_frames (frames : List Frame) :
    Reader.bodyTakes (ρ.frames frames) = Reader.bodyTakes frames := by
  funext kind
  cases frames <;> cases kind <;> rfl

/-- Text is put into the body in its new place, and replacements are attached there. -/
theorem pushText_body (m : Message) (t : String) (frames : List Frame) :
    (ρ.body m frames).pushText t = ρ.body (m.pushText t) frames := by
  cases frames with
  | nil => exact Message.pushText_inSection ρ.sectionName m t
  | cons frame frames => rfl

@[simp] theorem hasContent_body (m : Message) (frames : List Frame) :
    (ρ.body m frames).hasContent = m.hasContent := by
  cases frames <;> rfl

@[simp] theorem text_body (m : Message) (frames : List Frame) :
    (ρ.body m frames).text = m.text := by
  cases frames <;> rfl

/-- A replacement is attached in its new place. -/
theorem attach_body (m : Message) (r : Option Replacement) (frames : List Frame) :
    Reader.attach (ρ.body m frames) r = ρ.body (Reader.attach m r) frames := by
  cases frames <;> rfl

end Relocation

namespace Reader

variable {ρ : Relocation} {before : List Diagnostic} {report report' : Report}

/-- Closing an option (`Frame.close`) closes the same in another place, and the reports still follow
one another (`Report.Follows`). -/
theorem follows_close (h : Report.Follows ρ.lines ρ.bytes before report report') (f : Frame)
    (m : Message) (frames : List Frame) :
    ((ρ.frame f frames).close m report').1 = (f.close m report).1.shift ρ.lines ρ.bytes ∧
      Report.Follows ρ.lines ρ.bytes before (f.close m report).2
        ((ρ.frame f frames).close m report').2 :=
  OpenReplacement.follows_addOption h f.replacement
    { name := f.name, pos := f.pos, body := m.trimTrailing }

/-- Closing a replacement closes the same in another place. -/
theorem follows_closeReplacement (h : Report.Follows ρ.lines ρ.bytes before report report')
    (last : Position) (r : OpenReplacement) (m : Message) (frames : List Frame) (found : Found) :
    (closeReplacement (last.shift ρ.lines ρ.bytes) (r.shift ρ.lines ρ.bytes) (ρ.body m frames)
        (found.shift ρ.lines ρ.bytes) report').1 =
        ρ.body (closeReplacement last r m found report).1 frames ∧
      Report.Follows ρ.lines ρ.bytes before (closeReplacement last r m found report).2
        (closeReplacement (last.shift ρ.lines ρ.bytes) (r.shift ρ.lines ρ.bytes)
          (ρ.body m frames) (found.shift ρ.lines ρ.bytes) report').2 := by
  unfold closeReplacement
  rw [OpenReplacement.finish_shift]
  exact ⟨ρ.attach_body m (r.finish last).1 frames,
    (h.addAll (r.finish last).2).addShape _ found.pos⟩

/-- Closing bodies (`unwindBody`) closes the same in another place, from the inside out. By
induction on the frames. -/
theorem follows_unwindBody (last : Position) (kind : Option Token.Kind) (found : Found)
    (frames : List Frame) :
    ∀ {m : Message} {report report' : Report},
      Report.Follows ρ.lines ρ.bytes before report report' →
      (unwindBody (last.shift ρ.lines ρ.bytes) kind (found.shift ρ.lines ρ.bytes)
          (ρ.body m frames) report' (ρ.frames frames)).1 =
          ρ.focus (unwindBody last kind found m report frames).1 ∧
        (unwindBody (last.shift ρ.lines ρ.bytes) kind (found.shift ρ.lines ρ.bytes)
          (ρ.body m frames) report' (ρ.frames frames)).2.1 =
          (unwindBody last kind found m report frames).2.1.map
            (Message.inSection ρ.sectionName) ∧
        Report.Follows ρ.lines ρ.bytes before (unwindBody last kind found m report frames).2.2
          (unwindBody (last.shift ρ.lines ρ.bytes) kind (found.shift ρ.lines ρ.bytes)
            (ρ.body m frames) report' (ρ.frames frames)).2.2 := by
  induction frames with
  | nil =>
    intro m report report' h
    by_cases htakes : kind.any (bodyTakes []) = true
    · simp only [Relocation.frames, unwindBody, htakes, if_true]
      exact ⟨rfl, rfl, h⟩
    · simp only [Relocation.frames, unwindBody, htakes, if_false, Bool.false_eq_true]
      refine ⟨rfl, ?_, h⟩
      rw [Option.map_some, ← Message.trimTrailing_inSection]
      rfl
  | cons f frames ih =>
    intro m report report' h
    have hbody := ρ.bodyTakes_frames (f :: frames)
    rw [Relocation.frames] at hbody ⊢
    by_cases htakes : kind.any (bodyTakes (f :: frames)) = true
    · simp only [unwindBody, hbody, htakes, if_true]
      exact ⟨rfl, rfl, h⟩
    -- the option is closed in both places, and then its replacement or what is around it
    · have hshape : Report.Follows ρ.lines ρ.bytes before
          (report.addShape (.optionClosing found.what) found.pos)
          (report'.addShape (.optionClosing (found.shift ρ.lines ρ.bytes).what)
            (found.shift ρ.lines ρ.bytes).pos) := h.addShape _ _
      obtain ⟨hr, hclosed⟩ := follows_close hshape f m frames
      simp only [unwindBody, hbody, htakes, if_false, Bool.false_eq_true, Relocation.body, hr,
        OpenReplacement.takes_shift]
      generalize f.close m _ = closed at hclosed ⊢
      by_cases hoption : kind.any closed.1.takes = true
      · simp only [hoption, if_true]
        exact ⟨rfl, rfl, hclosed⟩
      · obtain ⟨houter, hreport⟩ :=
          follows_closeReplacement hclosed last closed.1 f.outer frames found
        simp only [hoption, if_false, Bool.false_eq_true]
        have houter' : (ρ.frame f frames).outer = ρ.body f.outer frames := rfl
        rw [houter', houter]
        exact ih hreport

/-- Closing what is open (`unwind`) closes the same in another place, whatever is open. A
replacement is closed first, and then `follows_unwindBody` has the rest. -/
theorem follows_unwind (h : Report.Follows ρ.lines ρ.bytes before report report')
    (last : Position) (kind : Option Token.Kind) (found : Found) (focus : Focus) :
    (unwind (last.shift ρ.lines ρ.bytes) kind (found.shift ρ.lines ρ.bytes) report'
        (ρ.focus focus)).1 = ρ.focus (unwind last kind found report focus).1 ∧
      (unwind (last.shift ρ.lines ρ.bytes) kind (found.shift ρ.lines ρ.bytes) report'
        (ρ.focus focus)).2.1 =
        (unwind last kind found report focus).2.1.map (Message.inSection ρ.sectionName) ∧
      Report.Follows ρ.lines ρ.bytes before (unwind last kind found report focus).2.2
        (unwind (last.shift ρ.lines ρ.bytes) kind (found.shift ρ.lines ρ.bytes) report'
          (ρ.focus focus)).2.2 := by
  cases focus with
  | idle => exact ⟨rfl, rfl, h⟩
  | body m frames => exact follows_unwindBody last kind found frames h
  | replacement r m frames =>
    simp only [Relocation.focus, unwind, OpenReplacement.takes_shift]
    by_cases htakes : kind.any r.takes = true
    · simp only [htakes, if_true]
      exact ⟨trivial, rfl, h⟩
    · obtain ⟨hbody, hreport⟩ := follows_closeReplacement h last r m frames found
      simp only [htakes, if_false, Bool.false_eq_true, hbody]
      exact follows_unwindBody last kind found frames hreport

end Reader

/-- The reader `q'` does in another place, behind some messages and errors, what `q` does. It is
where `q` is, in the new place (`Relocation.focus`), with the section in front filled in where `q`
has none. -/
structure Follows (ρ : Relocation) (messages : List Message) (errors : List Diagnostic)
    (q q' : Reader) : Prop where
  focus : q'.focus = ρ.focus q.focus
  sectionName : q'.sectionName = if q.sectionName = "" then ρ.sectionName else q.sectionName
  messages : q'.messages = messages ++ q.messages.map (Message.inSection ρ.sectionName)
  report : Report.Follows ρ.lines ρ.bytes errors q.report q'.report
  lastPos : q'.lastPos = q.lastPos.shift ρ.lines ρ.bytes

namespace Follows

open Reader

variable {ρ : Relocation} {messages : List Message} {errors : List Diagnostic} {q q' : Reader}

/-- Room is made in both places alike, so the readers still follow one another behind `makeRoom`. -/
theorem makeRoom (h : Follows ρ messages errors q q') (kind : Option Token.Kind) (found : Found) :
    Follows ρ messages errors (q.makeRoom kind found)
      (q'.makeRoom kind (found.shift ρ.lines ρ.bytes)) := by
  obtain ⟨hfocus, hfinished, hreport⟩ := follows_unwind h.report q.lastPos kind found q.focus
  refine ⟨?_, h.sectionName, ?_, ?_, h.lastPos⟩
  · simp only [Reader.makeRoom, h.focus, h.lastPos]
    exact hfocus
  · simp only [Reader.makeRoom, h.focus, h.lastPos, h.messages]
    rw [hfinished, List.map_append, List.append_assoc]
    cases (unwind q.lastPos kind found q.report q.focus).2.1 <;> rfl
  · simp only [Reader.makeRoom, h.focus, h.lastPos]
    exact hreport

/-- A token between messages keeps `Follows`. A header sets the same section in both places, since
its name is not empty. -/
theorem takeIdle (h : Follows ρ messages errors q q') {t : Token}
    (ht : t.kind = .sectionHeader → t.text ≠ "") :
    Follows ρ messages errors (q.takeIdle t) (q'.takeIdle (t.shift ρ.lines ρ.bytes)) := by
  unfold Reader.takeIdle
  rw [Token.kind_shift]
  cases hkind : t.kind with
  | sectionHeader =>
    refine ⟨h.focus, ?_, h.messages, h.report.setRecovering false, h.lastPos⟩
    exact (if_neg (ht hkind)).symm
  | messageKey =>
    refine ⟨?_, h.sectionName, h.messages, (h.report.note _ _).setRecovering false, h.lastPos⟩
    simp only [Relocation.focus, Relocation.body, Message.inSection, Message.empty, h.sectionName,
      Relocation.frames]
    rfl
  | _ => exact ⟨h.focus, h.sectionName, h.messages, h.report.addShape _ _, h.lastPos⟩

/-- A token in a body keeps `Follows`, and so does one in a replacement. -/
theorem takeBody (h : Follows ρ messages errors q q') (t : Token) (m : Message)
    (frames : List Frame) :
    Follows ρ messages errors (q.takeBody t m frames)
      (q'.takeBody (t.shift ρ.lines ρ.bytes) (ρ.body m frames) (ρ.frames frames)) := by
  unfold Reader.takeBody
  rw [Token.kind_shift]
  cases hkind : t.kind with
  | messageNewline =>
    refine ⟨?_, h.sectionName, h.messages, h.report, h.lastPos⟩
    simp only [Relocation.hasContent_body, Relocation.pushText_body, Relocation.focus]
    split <;> rfl
  | messageText =>
    refine ⟨?_, h.sectionName, h.messages, h.report, h.lastPos⟩
    simp only [Token.text_shift, Relocation.pushText_body, Relocation.focus]
  | replacementStart =>
    refine ⟨?_, h.sectionName, h.messages, h.report, h.lastPos⟩
    simp only [Relocation.text_body, Relocation.focus]
    rfl
  | optionEnd =>
    cases frames with
    | nil => exact h
    | cons f frames =>
      obtain ⟨hr, hreport⟩ := follows_close h.report f m frames
      simp only [Relocation.frames, Relocation.body]
      refine ⟨?_, h.sectionName, h.messages, hreport, h.lastPos⟩
      simp only [hr, Relocation.focus]
      rfl
  | _ => exact h

theorem takeReplacement (h : Follows ρ messages errors q q') (t : Token) (r : OpenReplacement)
    (m : Message) (frames : List Frame) :
    Follows ρ messages errors (q.takeReplacement t r m frames)
      (q'.takeReplacement (t.shift ρ.lines ρ.bytes) (r.shift ρ.lines ρ.bytes) (ρ.body m frames)
        (ρ.frames frames)) := by
  unfold Reader.takeReplacement
  rw [Token.kind_shift]
  cases hkind : t.kind with
  | replacementType =>
    rw [Token.text_shift]
    cases ReplacementKind.ofName? t.text with
    | some kind =>
      refine ⟨?_, h.sectionName, h.messages, h.report, h.lastPos⟩
      cases kind <;> rfl
    | none => exact ⟨rfl, h.sectionName, h.messages, h.report.add _ _, h.lastPos⟩
  | optionStart => exact ⟨rfl, h.sectionName, h.messages, h.report, h.lastPos⟩
  | replacementEnd =>
    have hfinish := OpenReplacement.finish_shift ρ.lines ρ.bytes r q.lastPos
    rw [← h.lastPos] at hfinish
    rw [hfinish]
    refine ⟨?_, h.sectionName, h.messages, h.report.addAll _, h.lastPos⟩
    simp only [Relocation.attach_body, Relocation.focus]
  | _ => exact h

/-- A token that belongs where it comes is taken alike, whatever is open. -/
theorem take (h : Follows ρ messages errors q q') {t : Token}
    (ht : t.kind = .sectionHeader → t.text ≠ "") :
    Follows ρ messages errors (q.take t) (q'.take (t.shift ρ.lines ρ.bytes)) := by
  unfold Reader.take
  rw [h.focus]
  cases q.focus with
  | idle => exact h.takeIdle ht
  | body m frames => exact h.takeBody t m frames
  | replacement r m frames => exact h.takeReplacement t r m frames

theorem takeInvalid (h : Follows ρ messages errors q q') (t : Token) :
    Follows ρ messages errors (q.takeInvalid t) (q'.takeInvalid (t.shift ρ.lines ρ.bytes)) := by
  have hnoted : Report.Follows ρ.lines ρ.bytes errors
      (if t.aborts then q.report.note (.scanAborted t.pos t.text) else q.report)
      (if t.aborts then q'.report.note (.scanAborted (t.pos.shift ρ.lines ρ.bytes) t.text)
        else q'.report) := by
    split
    · exact h.report.note _ _
    · exact h.report
  exact ⟨h.focus, h.sectionName, h.messages, (hnoted.add _ _).setRecovering true, h.lastPos⟩

/-- A token in its new place is taken as the token is, be it invalid or not: `Reader.step` keeps
`Follows`. -/
theorem step (h : Follows ρ messages errors q q') {t : Token}
    (ht : t.kind = .sectionHeader → t.text ≠ "") :
    Follows ρ messages errors (q.step t) (q'.step (t.shift ρ.lines ρ.bytes)) := by
  unfold Reader.step
  rw [Token.kind_shift]
  split
  · exact h.takeInvalid t
  · have htake := (h.makeRoom (some t.kind) ⟨t.describe, t.pos⟩).take ht
    exact ⟨htake.focus, htake.sectionName, htake.messages, htake.report, rfl⟩

/-- What is read in another place `Follows` what is read: behind the messages and errors there are,
with positions moved and the section in front filled in. By induction on the stream. -/
theorem run {stream : List Token}
    (hheaders : ∀ t ∈ stream, t.kind = .sectionHeader → t.text ≠ "") :
    ∀ {q q' : Reader}, Follows ρ messages errors q q' →
      (q'.run (stream.map (Token.shift ρ.lines ρ.bytes))).messages =
          messages ++ (q.run stream).messages.map (Message.inSection ρ.sectionName) ∧
        (q'.run (stream.map (Token.shift ρ.lines ρ.bytes))).errors =
          errors ++ (q.run stream).errors.map (Diagnostic.shift ρ.lines ρ.bytes) := by
  induction stream with
  | nil =>
    intro q q' h
    have hroom := h.makeRoom none ⟨"end of file", q.lastPos⟩
    rw [List.map_nil, Reader.run, Reader.run, h.lastPos]
    exact ⟨hroom.messages, hroom.report.errors⟩
  | cons t stream ih =>
    intro q q' h
    rw [List.map_cons, Reader.run, Reader.run, Token.kind_shift]
    split
    · have hroom := h.makeRoom none ⟨t.describe, t.pos⟩
      exact ⟨hroom.messages, hroom.report.errors⟩
    · exact ih (fun x hx => hheaders x (List.mem_cons_of_mem t hx))
        (h.step (hheaders t (List.mem_cons_self ..)))

end Follows

end MessageCatalog
