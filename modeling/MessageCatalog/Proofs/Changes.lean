import Mathlib.Logic.Relation
import MessageCatalog.Proofs.Agreement

/-!
# MessageCatalog.Proofs.Changes

What reading comes to, said once. `Change` lists the few things that a reader ever does to the
messages it has finished, to what it holds open and to the errors it has reported (its `Desk`). A
token is worth some of them in turn, whatever token it is and wherever it comes
(`Reader.changes_step`), and so is the end of the stream. A whole reading is then one sequence of
changes, of any stream (`changes_readTokens`) as of a file (`changes_parse`), and what every change
keeps is true of what has been read.

A change has two parameters, because more is known of files than of streams. The text that is added
to a body is as `said` tells; in a file it is a run of text, or a blank. A replacement starts inside
of a number of options for which `room` holds; in a file fewer than `maxNesting`, as the scanner is
in step with the reader (`Agree`).

The list is an abstraction of the reader, as `Scanner.Move` is one of the scanner. Closing without a
brace and closing by one are the same changes, so a proof by cases on changes does not see how a
construct came to its end.
-/

namespace MessageCatalog

open Relation (ReflTransGen)

/-! ### The desk of a reader

The section, the last position and whether the reader is recovering are left out: what is on the
desk does not depend on them, but for the section and key of a message and for what is reported. -/

/-- What a reader has in front of it: what is open, the messages that are finished, and the errors
reported so far. The section and the last position are left out, as they only tell what a `Change`
is about. -/
structure Desk where
  focus : Focus
  messages : List Message
  errors : List Diagnostic

/-- The option of a frame with its body, which is finished. It is what `Frame.close` hands to the
replacement. -/
def Frame.option (f : Frame) (body : Message) : ReplacementOption :=
  { name := f.name, pos := f.pos, body := body.trimTrailing }

/-- A change on the desk of a reader. The text that is added to a body is as `said` tells, and
`room` is the number of options that a replacement may be inside of. An invariant of reading has one
case for each constructor, and need not know of tokens. -/
inductive Change (said : String → Prop) (room : Nat → Prop) : Desk → Desk → Prop
  /-- An error is reported, and nothing else happens. -/
  | report {focus : Focus} {ms : List Message} {errors : List Diagnostic} (d : Diagnostic) :
    Change said room ⟨focus, ms, errors⟩ ⟨focus, ms, errors ++ [d]⟩
  /-- A message starts. -/
  | message {ms : List Message} {errors : List Diagnostic} (sectionName key : String) :
    Change said room ⟨.idle, ms, errors⟩ ⟨.body (.empty sectionName key) [], ms, errors⟩
  /-- A message ends. -/
  | messageEnd {ms : List Message} {errors : List Diagnostic} {m : Message} :
    Change said room ⟨.body m [], ms, errors⟩ ⟨.idle, ms ++ [m.trimTrailing], errors⟩
  /-- Text, or the blank that a line break stands for. -/
  | text {ms : List Message} {errors : List Diagnostic} {m : Message} {frames : List Frame}
      {t : String} (ht : said t) :
    Change said room ⟨.body m frames, ms, errors⟩ ⟨.body (m.pushText t) frames, ms, errors⟩
  /-- A replacement starts. -/
  | replacement {ms : List Message} {errors : List Diagnostic} {m : Message} {frames : List Frame}
      (key : String) (pos : Position) (hroom : room frames.length) :
    Change said room ⟨.body m frames, ms, errors⟩
      ⟨.replacement { key, pos, textPos := m.text.length } m frames, ms, errors⟩
  /-- The type of a replacement. -/
  | kind {ms : List Message} {errors : List Diagnostic} {r : OpenReplacement} {m : Message}
      {frames : List Frame} (kind : ReplacementKind) :
    Change said room ⟨.replacement r m frames, ms, errors⟩
      ⟨.replacement { r with kind := some kind, draft := .ofKind kind, fresh := false } m frames,
        ms, errors⟩
  /-- A type that is not known. -/
  | unknownKind {ms : List Message} {errors : List Diagnostic} {r : OpenReplacement} {m : Message}
      {frames : List Frame} (d : Diagnostic) :
    Change said room ⟨.replacement r m frames, ms, errors⟩
      ⟨.replacement { r with kind := none, draft := .none, fresh := false } m frames,
        ms, errors ++ [d]⟩
  /-- An option starts. -/
  | option {ms : List Message} {errors : List Diagnostic} {r : OpenReplacement} {m : Message}
      {frames : List Frame} (name : OptionName) (pos : Position) :
    Change said room ⟨.replacement r m frames, ms, errors⟩
      ⟨.body (.empty "" name.key)
        ({ name, pos, replacement := { r with fresh := false }, outer := m } :: frames), ms, errors⟩
  /-- An option ends, and is taken or refused. -/
  | optionEnd {ms : List Message} {errors : List Diagnostic} {m : Message} {f : Frame}
      {frames : List Frame} :
    Change said room ⟨.body m (f :: frames), ms, errors⟩
      ⟨.replacement
        { f.replacement with draft := (f.replacement.draft.add (f.option m)).1 } f.outer frames, ms,
        errors ++ (f.replacement.draft.add (f.option m)).2.toList.map (⟨·, f.pos⟩)⟩
  /-- A replacement ends, wherever its last token stands. -/
  | replacementEnd {ms : List Message} {errors : List Diagnostic} {r : OpenReplacement}
      {m : Message} {frames : List Frame} (last : Position) :
    Change said room ⟨.replacement r m frames, ms, errors⟩
      ⟨.body (Reader.attach m (r.finish last).1) frames, ms, errors ++ (r.finish last).2⟩

/-- Any number of changes (`Change`), one after the other. A token is worth as many as it closes
constructs, and perhaps one more. -/
abbrev Changes (said : String → Prop) (room : Nat → Prop) : Desk → Desk → Prop :=
  ReflTransGen (Change said room)

theorem Change.errors_prefix {said : String → Prop} {room : Nat → Prop} {d d' : Desk}
    (h : Change said room d d') : d.errors <+: d'.errors := by
  cases h with
  | report | unknownKind | optionEnd | replacementEnd => exact List.prefix_append _ _
  | message | messageEnd | text | replacement | kind | option => exact List.prefix_rfl

namespace Reader

def desk (q : Reader) : Desk := ⟨q.focus, q.messages, q.report.errors⟩

section

variable {said : String → Prop} {room : Nat → Prop} {ms : List Message}

/-! ### Closing

Closing is traced through the functions of the reader, from `closeReplacement` out to `makeRoom`. -/

/-- An error of shape is a `Change.report`, or nothing, where the reader is recovering. -/
theorem changes_addShape (focus : Focus) (report : Report) (cause : Cause) (pos : Position) :
    Changes said room ⟨focus, ms, report.errors⟩
      ⟨focus, ms, (report.addShape cause pos).errors⟩ := by
  unfold Report.addShape
  split
  · exact .refl
  · exact .single (.report ⟨cause, pos⟩)

/-- The end of an option is a change: the replacement around it takes what `Frame.close` makes of
the body. -/
theorem change_close (m : Message) (f : Frame) (frames : List Frame) (report : Report) :
    Change said room ⟨.body m (f :: frames), ms, report.errors⟩
      ⟨.replacement (f.close m report).1 f.outer frames, ms, (f.close m report).2.errors⟩ := by
  obtain ⟨hr, herrors, -⟩ := f.replacement.addOption_spec (f.option m) report
  rw [show f.close m report = f.replacement.addOption (f.option m) report from rfl, hr, herrors]
  exact .optionEnd

/-- The end of a replacement (`closeReplacement`) is a change, and that its brace is missing may be
another, which comes first. -/
theorem changes_closeReplacement (last : Position) (r : OpenReplacement) (m : Message)
    (frames : List Frame) (found : Found) (report : Report) :
    Changes said room ⟨.replacement r m frames, ms, report.errors⟩
      ⟨.body (closeReplacement last r m found report).1 frames, ms,
        (closeReplacement last r m found report).2.errors⟩ :=
  .head (.replacementEnd last)
    (changes_addShape _ (report.addAll (r.finish last).2) _ found.pos)

/-- Closing from the inside out (`unwindBody`) is a sequence of changes. By induction on the frames,
two constructs for each. -/
theorem changes_unwindBody (last : Position) (kind : Option Token.Kind) (found : Found)
    (frames : List Frame) :
    ∀ (m : Message) (report : Report),
      Changes said room ⟨.body m frames, ms, report.errors⟩
        ⟨(unwindBody last kind found m report frames).1,
          ms ++ (unwindBody last kind found m report frames).2.1.toList,
          (unwindBody last kind found m report frames).2.2.errors⟩ := by
  induction frames with
  | nil =>
    intro m report
    rw [unwindBody]
    split
    · simpa using .refl
    · exact .single .messageEnd
  | cons f frames ih =>
    intro m report
    rw [unwindBody]
    split
    · simpa using .refl
    · have hclose : Changes said room ⟨.body m (f :: frames), ms, report.errors⟩ _ :=
        (changes_addShape _ report (.optionClosing found.what) found.pos).tail
          (change_close m f frames _)
      dsimp only
      split
      · simpa using hclose
      · exact (hclose.trans (changes_closeReplacement last _ _ _ found _)).trans (ih _ _)

/-- Making room for a token is a sequence of changes, namely of those that `unwindBody` makes. -/
theorem changes_makeRoom (q : Reader) (kind : Option Token.Kind) (found : Found) :
    Changes said room q.desk (q.makeRoom kind found).desk := by
  obtain ⟨focus, sectionName, messages, report, lastPos⟩ := q
  simp only [desk, makeRoom]
  cases focus with
  | idle => simpa [unwind] using .refl
  | body m frames => exact changes_unwindBody lastPos kind found frames m report
  | replacement r m frames =>
    rw [unwind]
    split
    · simpa using .refl
    · exact (changes_closeReplacement lastPos r m frames found report).trans
        (changes_unwindBody lastPos kind found frames _ _)

/-! ### Taking a token

A token that belongs where it comes is worth one change at most. -/

variable {q : Reader} {t : Token}

theorem changes_takeIdle (hfocus : q.focus = .idle) :
    Changes said room q.desk (q.takeIdle t).desk := by
  obtain ⟨focus, sectionName, messages, report, lastPos⟩ := q
  obtain rfl : focus = .idle := hfocus
  unfold takeIdle
  split
  · exact .refl
  · exact .single (.message _ _)
  · exact changes_addShape _ report _ t.pos

/-- A token in a body, as `takeBody` takes it: text, a blank for a line break, or the start of a
replacement. -/
theorem changes_takeBody {m : Message} {frames : List Frame} (hfocus : q.focus = .body m frames)
    (hblank : said " ") (htext : t.kind = .messageText → said t.text)
    (hroom : t.kind = .replacementStart → room frames.length) :
    Changes said room q.desk (q.takeBody t m frames).desk := by
  obtain ⟨focus, sectionName, messages, report, lastPos⟩ := q
  obtain rfl : focus = .body m frames := hfocus
  unfold takeBody
  split
  · simp only [desk]
    split
    · exact .single (.text hblank)
    · exact .refl
  · rename_i hkind
    exact .single (.text (htext hkind))
  · rename_i hkind
    exact .single (.replacement _ _ (hroom hkind))
  · exact .single (change_close m _ _ report)
  · exact .refl

/-- A token in a replacement, as `takeReplacement` takes it: its type, an option, or its end. -/
theorem changes_takeReplacement {r : OpenReplacement} {m : Message} {frames : List Frame}
    (hfocus : q.focus = .replacement r m frames) :
    Changes said room q.desk (q.takeReplacement t r m frames).desk := by
  obtain ⟨focus, sectionName, messages, report, lastPos⟩ := q
  obtain rfl : focus = .replacement r m frames := hfocus
  unfold takeReplacement
  split
  · split
    · exact .single (.kind _)
    · exact .single (.unknownKind _)
  · exact .single (.option _ _)
  · exact .single (.replacementEnd _)
  · exact .refl

/-- A token is worth a sequence of changes. It makes room for itself and is taken; what `said` and
`room` ask for is asked of the token. -/
theorem changes_step (q : Reader) (t : Token) (hblank : said " ")
    (htext : t.kind = .messageText → said t.text)
    (hroom : t.kind = .replacementStart → ∀ m frames,
      (q.makeRoom (some t.kind) ⟨t.describe, t.pos⟩).focus = .body m frames → room frames.length) :
    Changes said room q.desk (q.step t).desk := by
  rw [step]
  split
  -- an invalid token is a report
  · rw [takeInvalid]
    dsimp only
    split
    · exact .single (.report _)
    · exact .single (.report _)
  · refine (changes_makeRoom q (some t.kind) ⟨t.describe, t.pos⟩).trans ?_
    generalize q.makeRoom (some t.kind) ⟨t.describe, t.pos⟩ = q at hroom
    show Changes said room q.desk (q.take t).desk
    unfold take
    split
    · rename_i hfocus
      exact changes_takeIdle hfocus
    · rename_i hfocus
      exact changes_takeBody hfocus hblank htext fun hkind => hroom hkind _ _ hfocus
    · rename_i hfocus
      exact changes_takeReplacement hfocus

end

/-! ### Reading a stream

The start of a replacement is set apart, for only there something is asked of how deep the reader
is. -/

section

variable {said : String → Prop} {room : Nat → Prop}

/-- Tokens that start no replacement are a sequence of changes, wherever they come, so that `room`
does not matter for them. -/
theorem changes_feed (hblank : said " ") {stream : List Token}
    (htext : ∀ t ∈ stream, t.kind = .messageText → said t.text)
    (hstart : ∀ t ∈ stream, t.kind ≠ .replacementStart) :
    ∀ q : Reader, Changes said room q.desk (q.feed stream).desk := by
  induction stream with
  | nil => exact fun q => .refl
  | cons t stream ih =>
    intro q
    obtain ⟨htext, htexts⟩ := List.forall_mem_cons.mp htext
    obtain ⟨hstart, hstarts⟩ := List.forall_mem_cons.mp hstart
    exact (changes_step q t hblank htext fun hkind => absurd hkind hstart).trans
      (ih htexts hstarts (q.step t))

/-- At the end of the stream everything is closed, by changes, and what is left is the outcome of
the reading (`Reader.finish`). -/
theorem changes_finish (q : Reader) (found : Found) :
    Changes said room q.desk ⟨.idle, (q.finish found).messages, (q.finish found).errors⟩ := by
  refine (changes_makeRoom q none found).trans ?_
  rw [desk, focus_makeRoom_outside (show Outside none from trivial)]
  exact .refl

/-- The start of a replacement is a change where there is `room` for one, which depends on the
frames around the body. -/
theorem changes_replacementStart {q : Reader} {t : Token} {m : Message} {frames : List Frame}
    (hfocus : q.focus = .body m frames) (ht : t.kind = .replacementStart)
    (hroom : room frames.length) : Changes said room q.desk (q.step t).desk := by
  obtain ⟨focus, sectionName, messages, report, lastPos⟩ := q
  obtain rfl : focus = .body m frames := hfocus
  rw [step_replacementStart rfl ht]
  exact .single (.replacement t.text t.pos hroom)

end

end Reader

/-- The desk of a reader that has not read anything. -/
def Desk.clear : Desk := ⟨.idle, [], []⟩

/-- Reading any stream of tokens is a sequence of `Changes`. Here text and nesting are not bounded
by anything. -/
theorem changes_readTokens (stream : List Token) :
    Changes (fun _ => True) (fun _ => True) .clear
      ⟨.idle, (readTokens stream).messages, (readTokens stream).errors⟩ := by
  have hrun : ∀ q : Reader, Changes (fun _ => True) (fun _ => True) q.desk
      ⟨.idle, (q.run stream).messages, (q.run stream).errors⟩ := by
    induction stream with
    | nil => exact fun q => q.changes_finish _
    | cons t stream ih =>
      intro q
      rw [Reader.run]
      split
      · exact q.changes_finish _
      · exact (q.changes_step t trivial (fun _ => trivial) fun _ _ _ _ => trivial).trans
          (ih (q.step t))
  exact hrun {}

/-! ### Reading a file

What is known of the tokens of a file comes from the moves of the scanner. -/

section

variable {said : String → Prop} (hblank : said " ")
  (htext : ∀ cs, cs ≠ [] → Word.isText cs = true → said (String.ofList cs))

include hblank htext

open Scanner (maxNesting nesting)

/-- The tokens of a step of the scanner are a sequence of changes, in which a replacement starts
only where there is room for one more: by `Agree` there are as many frames as options that the
scanner is inside of. -/
theorem changes_move {s s' : Scanner} {q : Reader} {yield : List Token} (hagree : Agree s.stack q)
    (hnesting : nesting s.stack ≤ maxNesting) (hmove : Scanner.Move s yield s') :
    Changes said (· < maxNesting) q.desk (q.feed yield).desk := by
  have hother {stream : List Token}
      (h : ∀ t ∈ stream, t.kind ≠ .messageText ∧ t.kind ≠ .replacementStart) :
      Changes said (· < maxNesting) q.desk (q.feed stream).desk :=
    Reader.changes_feed hblank (fun t ht hkind => absurd hkind (h t ht).1)
      (fun t ht => (h t ht).2) q
  have hfaults {faults : List Token} (h : ∀ t ∈ faults, Scanner.Reports t) :
      ∀ t ∈ faults, t.kind ≠ .messageText ∧ t.kind ≠ .replacementStart := by
    intro t ht
    rw [h t ht]
    decide
  have hstart {pos : Position} {below : List Mode} {key : List Char}
      (hstack : s.stack = .replacement (.key pos) :: below) :
      Changes said (· < maxNesting) q.desk
        (q.step (Scanner.token .replacementStart key pos)).desk := by
    rw [hstack] at hagree hnesting
    obtain ⟨m, frames, hfocus, hroom⟩ := hagree.room_of_key hnesting
    exact Reader.changes_replacementStart hfocus rfl hroom
  -- two moves add text, three start a replacement, and all others are worth what any token is
  cases hmove with
  | finish => exact hother (by simp [Scanner.token])
  | abort ht | fail ht => exact hother (hfaults (List.forall_mem_singleton.mpr ht))
  | line h => exact hother (hfaults h)
  | header pos _ h | key pos _ h | keyBody pos _ h =>
    exact hother (List.forall_mem_cons.mpr ⟨by simp [Scanner.token], hfaults h⟩)
  | leave | opening => exact .refl
  | continuation pos hyield =>
    subst hyield
    split
    · exact hother (by simp [Scanner.token])
    · exact .refl
  | text pos hne hcs =>
    exact Reader.changes_feed hblank (by simp [Scanner.token, htext _ hne hcs])
      (by simp [Scanner.token]) q
  | illegal pos ht hne hcs =>
    refine Reader.changes_feed hblank (List.forall_mem_cons.mpr ⟨fun _ => htext _ hne hcs, ?_⟩)
      (List.forall_mem_cons.mpr ⟨by simp [Scanner.token], ?_⟩) q
    · simp [show _ = _ from ht]
    · simp [show _ = _ from ht]
  | start => exact hstart rfl
  | startTyped typePos =>
    exact (hstart rfl).trans (Reader.changes_feed hblank (by simp [Scanner.token])
      (by simp [Scanner.token]) _)
  | startFault ht =>
    exact (hstart rfl).trans (Reader.changes_feed hblank (by simp [show _ = _ from ht])
      (by simp [show _ = _ from ht]) _)
  | option | optionBody | close | optionEnd => exact hother (by simp [Scanner.token])

/-- Parsing a file is a sequence of changes, in which a replacement is never inside of as many
options as there may be replacements open at once (`maxNesting`). All that `said` has to allow is a
blank and the runs of text of a scanner. -/
theorem changes_parse (file : String) (bytes : List UInt8) :
    Changes said (· < maxNesting) .clear
      ⟨.idle, (parse file bytes).messages, (parse file bytes).errors⟩ := by
  refine @parse_induction
    (fun s q => Agree s.stack q ∧ nesting s.stack ≤ maxNesting ∧
      Changes said (· < maxNesting) .clear q.desk)
    (fun p => Changes said (· < maxNesting) .clear ⟨.idle, p.messages, p.errors⟩) file bytes
    ?_ ?_ ?_
  · exact ⟨⟨by simp, .inl (.idle (.inl rfl))⟩, Nat.zero_le _, .refl⟩
  · intro s q yield s' ⟨hagree, hnesting, hchanges⟩ hmove _ heof
    exact ⟨agree_move hagree hmove heof, hmove.nesting_le hnesting,
      hchanges.trans (changes_move hblank htext hagree hnesting hmove)⟩
  · intro s q found ⟨_, _, hchanges⟩ _
    exact hchanges.trans (q.changes_finish found)

end

end MessageCatalog
