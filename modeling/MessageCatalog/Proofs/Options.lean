import MessageCatalog.Proofs.Changes

/-!
# MessageCatalog.Proofs.Options

How the options of one replacement are read, whatever tokens come.

The reader closes all that a token does not belong to at once (`Reader.makeRoom`). Here it does one
thing at a time (`Course.next`): it takes a token, or passes on an invalid one, or closes the
innermost construct (`Reader.closeInnermost`). That comes to the same in the end
(`Course.outcome_next`), and every time less is left to do (`Course.measure_next_lt`). So the reader
can be followed from where a replacement is open to where that replacement is closed.

What happens to the replacement on the way can be written down as a list of occurrences: which
options have been read for it, and what has been said against each (`Occurrence.option`); and the
other errors (`Occurrence.error`), which are those of an invalid token, or of what stands inside of
an option, or of the missing brace behind one. `Served m frames c log c'` says that the course `c`
leads to `c'` with the record `log`, while the replacement stays open.

A replacement is always closed, and by then its draft has taken the options of that record, one
after the other (`Draft.taking`); what has been said against an option is what the draft left by
those in front of it says (`Judged`). That is `Course.served`, which holds wherever the reader is
inside of the replacement. `MessageCatalog.Proofs.PluralOptions` and
`MessageCatalog.Proofs.SelectOptions` work out what drafts make of the options.
-/

namespace MessageCatalog

/-! ### Options that are complete

An option is complete when its body is closed, by its brace or without it. Then its draft takes it.
-/

/-- What is said against an option where it stands: at most one error, that of `Draft.add`. -/
def Draft.verdict (draft : Draft) (o : ReplacementOption) : List Diagnostic :=
  (draft.add o).2.toList.map (⟨·, o.pos⟩)

/-- The draft with an option, if it is taken; a draft may refuse an option and stay as it is, which
`Draft.verdict` then says. -/
def Draft.taking (draft : Draft) (o : ReplacementOption) : Draft := (draft.add o).1

/-- Closing an option has its draft take it (`Draft.taking`), and reports the verdict. -/
theorem Frame.close_spec (f : Frame) (b : Message) (report : Report) :
    (f.close b report).1 =
        { f.replacement with draft := f.replacement.draft.taking (f.option b) } ∧
      (f.close b report).2.errors =
        report.errors ++ f.replacement.draft.verdict (f.option b) := by
  obtain ⟨hr, herrors, -⟩ := f.replacement.addOption_spec (f.option b) report
  exact ⟨hr, herrors⟩

/-! ### One thing at a time

Making room closes constructs until one takes the token. Closing the innermost one first changes
nothing about that, which is what makes single closings add up. -/

namespace Focus

/-- The frames around what is open, from the inside out. There is one for each option that is open.
-/
def frames : Focus → List Frame
  | .idle => []
  | .body _ frames | .replacement _ _ frames => frames

/-- The token belongs to the innermost construct, which need not be closed for it:
`Reader.bodyTakes` or `OpenReplacement.takes`. -/
def takes : Focus → Token.Kind → Bool
  | .idle, _ => true
  | .body _ frames, kind => Reader.bodyTakes frames kind
  | .replacement r _ _, kind => r.takes kind

theorem takes_eof {focus : Focus} (h : focus ≠ .idle) : focus.takes .eof = false := by
  cases focus with
  | idle => exact absurd rfl h
  | body m frames => rfl
  | replacement r m frames => rfl

/-- How many closings there are ahead. An option is closed (`Frame.close`), and the replacement
around it is, so a frame counts for two. -/
def weight : Focus → Nat
  | .idle => 0
  | .body _ frames => 2 * frames.length + 1
  | .replacement _ _ frames => 2 * frames.length + 2

end Focus

namespace Reader

variable {q : Reader}

/-- Closes the innermost construct, as `makeRoom` would. Between messages there is none. What was
found instead of a closing brace is named if that is missing. -/
def closeInnermost (q : Reader) (found : Found) : Reader :=
  match q.focus with
  | .idle => q
  | .body m [] => { q with focus := .idle, messages := q.messages ++ [m.trimTrailing] }
  | .body m (f :: frames) =>
    let (r, report) := f.close m (q.report.addShape (.optionClosing found.what) found.pos)
    { q with focus := .replacement r f.outer frames, report }
  | .replacement r m frames =>
    let (m, report) := closeReplacement q.lastPos r m found q.report
    { q with focus := .body m frames, report }

/-- Where the token belongs nothing has to be closed: `makeRoom` leaves the reader as it is. -/
theorem makeRoom_of_takes {kind : Token.Kind} (h : q.focus.takes kind = true) (found : Found) :
    q.makeRoom (some kind) found = q := by
  cases hfocus : q.focus with
  | idle => exact makeRoom_idle hfocus _ found
  | body m frames =>
    rw [hfocus] at h
    exact makeRoom_body hfocus h found
  | replacement r m frames =>
    rw [hfocus] at h
    exact makeRoom_replacement hfocus h found

/-- What has to be closed can be closed one after the other: where `makeRoom` would close something,
`closeInnermost` does the first part of it. -/
theorem makeRoom_closeInnermost {kind : Option Token.Kind} (h : kind.any q.focus.takes = false)
    (found : Found) : (q.closeInnermost found).makeRoom kind found = q.makeRoom kind found := by
  obtain ⟨focus, sectionName, messages, report, lastPos⟩ := q
  cases focus with
  | idle => rfl
  | body m frames =>
    have h : kind.any (bodyTakes frames) = false := h
    cases frames with
    | nil => simp [closeInnermost, makeRoom, unwind, unwindBody, h]
    | cons f frames =>
      simp only [closeInnermost, makeRoom, unwind, unwindBody, h]
      rfl
  | replacement r m frames =>
    have h : kind.any r.takes = false := h
    simp only [closeInnermost, makeRoom, unwind, h]
    rfl

/-- At the end everything is closed one after the other, so `closeInnermost` does not change how the
reading ends. -/
theorem finish_closeInnermost (found : Found) :
    (q.closeInnermost found).finish found = q.finish found := by
  rw [finish, finish, makeRoom_closeInnermost rfl]

theorem lastPos_closeInnermost (q : Reader) (found : Found) :
    (q.closeInnermost found).lastPos = q.lastPos := by
  unfold closeInnermost
  split <;> rfl

/-- Closing leaves less to close, by the `weight` of what is open. -/
theorem weight_closeInnermost_lt (h : q.focus ≠ .idle) (found : Found) :
    (q.closeInnermost found).focus.weight < q.focus.weight := by
  unfold closeInnermost
  split
  · contradiction
  all_goals
    rename_i hfocus
    simp only [hfocus, Focus.weight, List.length_nil, List.length_cons]
    omega

/-- A token opens one construct at most, so it adds one to the `weight` at most. -/
theorem weight_take_le (h : q.focus ≠ .idle) (t : Token) :
    (q.take t).focus.weight ≤ q.focus.weight + 1 := by
  obtain ⟨focus, sectionName, messages, report, lastPos⟩ := q
  cases focus with
  | idle => exact absurd rfl h
  | body m frames =>
    simp only [take, takeBody]
    split <;> simp only [Focus.weight, List.length_cons] <;> omega
  | replacement r m frames =>
    simp only [take, takeReplacement]
    split
    · split <;> simp only [Focus.weight] <;> omega
    all_goals
      simp only [Focus.weight, List.length_cons]
      omega

theorem focus_takeInvalid (q : Reader) (t : Token) : (q.takeInvalid t).focus = q.focus := rfl

theorem errors_takeInvalid (q : Reader) (t : Token) :
    (q.takeInvalid t).report.errors = q.report.errors ++ [⟨.reported t.text, t.pos⟩] := by
  unfold takeInvalid
  dsimp only
  split <;> rfl

end Reader

/-- A reader in the middle of a stream, with the tokens ahead of it. It goes on by `Course.next`,
and leads to `Course.outcome`. -/
structure Course where
  reader : Reader
  ahead : List Token

namespace Course

/-- What stands ahead, in the words of a report. At the end of the stream that is the end of the
file. -/
def found (c : Course) : Found :=
  match c.ahead with
  | [] => ⟨"end of file", c.reader.lastPos⟩
  | t :: _ => ⟨t.describe, t.pos⟩

/-- Does one thing: takes a token that belongs to the innermost construct, or passes on an invalid
one, or closes that construct. Several of these make one `Reader.step`. -/
def next (c : Course) : Course :=
  match c.ahead with
  | [] => { c with reader := c.reader.closeInnermost c.found }
  | t :: rest =>
    if t.kind = .invalid then ⟨c.reader.takeInvalid t, rest⟩
    else if c.reader.focus.takes t.kind then ⟨{ c.reader.take t with lastPos := t.pos }, rest⟩
    else { c with reader := c.reader.closeInnermost c.found }

/-- What comes of it in the end, when all that is ahead has been read. -/
def outcome (c : Course) : Parsed := c.reader.run c.ahead

/-- The errors reported so far. -/
def errors (c : Course) : List Diagnostic := c.reader.report.errors

variable {c : Course}

/-- One thing that is done does not change the outcome. The end of the file belongs to nothing that
is open, so while anything is, `next` and `run` stop at the same token. -/
theorem outcome_next (h : c.reader.focus ≠ .idle) : c.next.outcome = c.outcome := by
  obtain ⟨q, ahead⟩ := c
  change q.focus ≠ .idle at h
  unfold next outcome
  dsimp only [found]
  cases ahead with
  | nil =>
    rw [Reader.run, Reader.run, q.lastPos_closeInnermost]
    exact Reader.finish_closeInnermost _
  | cons t rest =>
    dsimp only
    by_cases hinvalid : t.kind = .invalid
    · rw [if_pos hinvalid, Reader.run, if_neg (by simp [hinvalid]), Reader.step_of_invalid hinvalid]
    rw [if_neg hinvalid]
    cases htakes : q.focus.takes t.kind with
    | true =>
      have heof : t.kind ≠ .eof := fun heof => by simp [heof, Focus.takes_eof h] at htakes
      rw [if_pos rfl, Reader.run, if_neg heof, Reader.step, if_neg hinvalid,
        Reader.makeRoom_of_takes htakes]
    | false =>
      have hroom : (some t.kind).any q.focus.takes = false := htakes
      rw [if_neg (by simp), Reader.run, Reader.run]
      split
      · exact Reader.finish_closeInnermost _
      · rw [Reader.step, Reader.step, if_neg hinvalid, if_neg hinvalid,
          Reader.makeRoom_closeInnermost hroom]

/-- Whatever is done, less is left to do: a token counts for two, as it opens one construct at most,
and a closing for one (`Focus.weight`). -/
def measure (c : Course) : Nat := 2 * c.ahead.length + c.reader.focus.weight

/-- Where something is open one thing can be done, and less is left by `measure`. -/
theorem measure_next_lt (h : c.reader.focus ≠ .idle) : c.next.measure < c.measure := by
  obtain ⟨q, ahead⟩ := c
  change q.focus ≠ .idle at h
  have hclose (found : Found) := q.weight_closeInnermost_lt h found
  unfold next measure
  dsimp only [found]
  cases ahead with
  | nil => exact Nat.add_lt_add_left (hclose _) _
  | cons t rest =>
    dsimp only
    split
    · dsimp only
      rw [Reader.focus_takeInvalid, List.length_cons]
      omega
    · split
      · have := q.weight_take_le h t
        dsimp only
        rw [List.length_cons]
        omega
      · exact Nat.add_lt_add_left (hclose _) _

/-! ### What is done

The three things again, each as seen by a replacement: outside of its options (`next_replacement`),
in the body of one (`next_body`), or deeper (`next_inside`). -/

/-- The three things that `next` can do, with what each requires of the tokens ahead. -/
inductive Advance (c : Course) : Course → Prop
  | fault {t : Token} {rest : List Token} (hahead : c.ahead = t :: rest) (ht : t.kind = .invalid) :
    Advance c ⟨c.reader.takeInvalid t, rest⟩
  | take {t : Token} {rest : List Token} (hahead : c.ahead = t :: rest)
      (htakes : c.reader.focus.takes t.kind = true) :
    Advance c ⟨{ c.reader.take t with lastPos := t.pos }, rest⟩
  | close (hahead : ∀ t ∈ c.ahead.head?, t.kind ≠ .invalid ∧ c.reader.focus.takes t.kind = false) :
    Advance c { c with reader := c.reader.closeInnermost c.found }

/-- What is done is one of the three (`Advance`); after this `next` need not be opened. -/
theorem advance_next (c : Course) : Advance c c.next := by
  unfold next
  split
  · rename_i hahead
    exact .close (by simp [hahead])
  · rename_i t rest hahead
    split
    · rename_i hinvalid
      exact .fault hahead hinvalid
    · rename_i hinvalid
      split
      · rename_i htakes
        exact .take hahead htakes
      · rename_i htakes
        refine .close fun t' ht' => ?_
        rw [hahead] at ht'
        obtain rfl := Option.some.inj ht'
        exact ⟨hinvalid, Bool.eq_false_iff.mpr htakes⟩

variable {r : OpenReplacement} {m : Message} {f : Frame} {frames : List Frame}

/-- An error of shape is added with its cause, or not at all (`Report.addShape`). -/
theorem errors_addShape (report : Report) (cause : Cause) (pos : Position) :
    ∃ ds, (report.addShape cause pos).errors = report.errors ++ ds ∧ ∀ d ∈ ds, d.cause = cause := by
  unfold Report.addShape
  split
  · exact ⟨[], (List.append_nil _).symm, by simp⟩
  · exact ⟨_, rfl, by simp⟩

/-- The replacement is closed next, and with it what is wrong with its details is reported
(`OpenReplacement.finish`). An error of shape may come first, if its brace is missing. -/
structure Closes (r : OpenReplacement) (m : Message) (frames : List Frame) (c : Course) : Prop where
  opened : c.reader.focus = .replacement r m frames
  ahead : ∀ t ∈ c.ahead.head?, t.kind ≠ .invalid ∧ t.kind ≠ .optionStart
  focus : c.next.reader.focus = .body (Reader.attach m (r.finish c.reader.lastPos).1) frames
  errors : ∃ brace, c.next.errors = c.errors ++ (r.finish c.reader.lastPos).2 ++ brace ∧
    ∀ d ∈ brace, ∃ found, d.cause = .replacementClosing found

/-- The replacement has not been closed: a fault is passed on, or an option starts. These are the
two things that can happen between options, besides `Closes`. -/
inductive Waits (r : OpenReplacement) (m : Message) (frames : List Frame) (c : Course) : Prop
  | fault {t : Token} {rest : List Token} (hahead : c.ahead = t :: rest) (ht : t.kind = .invalid)
      (hfocus : c.next.reader.focus = .replacement r m frames)
      (herrors : c.next.errors = c.errors ++ [⟨.reported t.text, t.pos⟩])
  | start {t : Token} {rest : List Token} (hahead : c.ahead = t :: rest)
      (ht : t.kind = .optionStart)
      (hfocus : c.next.reader.focus = .body (.empty "" (OptionName.ofText t.text).key)
        ({ name := OptionName.ofText t.text, pos := t.pos, replacement := { r with fresh := false },
           outer := m } :: frames))
      (herrors : c.next.errors = c.errors)

/-- A replacement behind its type `Waits` for more, or `Closes`. -/
theorem next_replacement (hfocus : c.reader.focus = .replacement r m frames)
    (hfresh : r.fresh = false) : Waits r m frames c ∨ Closes r m frames c := by
  have hadvance := c.advance_next
  obtain ⟨⟨focus, sectionName, messages, report, lastPos⟩, ahead⟩ := c
  obtain rfl : focus = .replacement r m frames := hfocus
  generalize hnext : next _ = c' at hadvance
  cases hadvance with
  | fault hahead ht =>
    refine .inl (.fault hahead ht (by rw [hnext]; rfl) ?_)
    rw [hnext]
    exact Reader.errors_takeInvalid _ _
  | @take t rest hahead htakes =>
    have htakes : r.takes t.kind = true := htakes
    unfold OpenReplacement.takes at htakes
    split at htakes
    · rw [hfresh] at htakes
      cases htakes
    · rename_i hkind
      refine .inl (.start hahead hkind ?_ ?_)
      all_goals
        rw [hnext]
        simp only [errors, Reader.take, Reader.takeReplacement, hkind]
    · rename_i hkind
      refine .inr ⟨rfl, ?_, ?_, [], ?_, by simp⟩
      · rw [show ahead = t :: rest from hahead]
        simp [hkind]
      all_goals
        rw [hnext]
        simp [errors, Reader.take, Reader.takeReplacement, hkind, Report.addAll]
    · cases htakes
  | close hahead =>
    obtain ⟨brace, herrors, hbrace⟩ := errors_addShape (report.addAll (r.finish lastPos).2)
      (.replacementClosing (found ⟨⟨.replacement r m frames, sectionName, messages, report,
        lastPos⟩, ahead⟩).what) (found _).pos
    refine .inr ⟨rfl, fun t ht => ?_, by rw [hnext]; rfl, brace, ?_, fun d hd => ⟨_, hbrace d hd⟩⟩
    · obtain ⟨hinvalid, htakes⟩ := hahead t ht
      refine ⟨hinvalid, fun hkind => ?_⟩
      rw [hkind] at htakes
      cases htakes
    · rw [hnext]
      exact herrors

/-- Errors are only added, whatever `next` does. -/
theorem exists_errors_next (c : Course) : ∃ ds, c.next.errors = c.errors ++ ds := by
  have hadvance := c.advance_next
  generalize c.next = c' at hadvance
  cases hadvance with
  | @fault t rest hahead ht => exact ⟨_, Reader.errors_takeInvalid c.reader t⟩
  | @take t rest hahead htakes =>
    obtain ⟨ds, herrors, -⟩ := c.reader.errors_take t
    exact ⟨ds, herrors⟩
  | close =>
    simp only [errors, Reader.closeInnermost]
    split
    · exact ⟨[], (List.append_nil _).symm⟩
    · exact ⟨[], (List.append_nil _).symm⟩
    · obtain ⟨ds, herrors, -⟩ := errors_addShape c.reader.report _ _
      obtain ⟨-, ds', herrors', -⟩ := Frame.grows_close _ _ _
      exact ⟨ds ++ ds', by rw [herrors', herrors, List.append_assoc]⟩
    · rename_i r m frames _
      obtain ⟨-, ds, herrors, -⟩ :=
        Reader.grows_closeReplacement c.reader.lastPos r m c.found c.reader.report
      exact ⟨ds, herrors⟩

/-- The option is complete and is judged: the replacement has taken it, and `Draft.verdict` has been
reported behind an error of shape, if its brace is missing. -/
structure Finishes (b : Message) (f : Frame) (frames : List Frame) (c : Course) : Prop where
  opened : c.reader.focus = .body b (f :: frames)
  focus : c.next.reader.focus = .replacement
    { f.replacement with draft := f.replacement.draft.taking (f.option b) } f.outer frames
  errors : ∃ brace,
    c.next.errors = c.errors ++ brace ++ f.replacement.draft.verdict (f.option b) ∧
      ∀ d ∈ brace, ∃ found, d.cause = .optionClosing found

/-- In the body of an option the option stays open, or `Finishes`. Text and replacements in the body
belong to the former. -/
theorem next_body {b : Message} (hfocus : c.reader.focus = .body b (f :: frames)) :
    c.next.reader.focus.frames = f :: frames ∨ Finishes b f frames c := by
  have hadvance := c.advance_next
  obtain ⟨⟨focus, sectionName, messages, report, lastPos⟩, ahead⟩ := c
  obtain rfl : focus = .body b (f :: frames) := hfocus
  generalize hnext : next _ = c' at hadvance
  cases hadvance with
  | fault => exact .inl rfl
  | @take t rest hahead htakes =>
    simp only [Reader.take, Reader.takeBody] at hnext ⊢
    split at hnext
    · exact .inl rfl
    · exact .inl rfl
    · exact .inl rfl
    · rename_i hframes
      obtain ⟨rfl, rfl⟩ := List.cons.inj hframes
      obtain ⟨hr, herrors⟩ := f.close_spec b report
      refine .inr ⟨rfl, by rw [hnext, ← hr], [], ?_, by simp⟩
      rw [hnext, List.append_nil]
      exact herrors
    · exact .inl rfl
  | close =>
    obtain ⟨brace, hbrace, hcause⟩ := errors_addShape report
      (.optionClosing (found ⟨⟨.body b (f :: frames), sectionName, messages, report, lastPos⟩,
        ahead⟩).what) (found _).pos
    obtain ⟨hr, herrors⟩ := f.close_spec b (report.addShape _ _)
    refine .inr ⟨rfl, by rw [hnext, ← hr]; rfl, brace, ?_, fun d hd => ⟨_, hcause d hd⟩⟩
    rw [hbrace] at herrors
    rw [hnext]
    exact herrors

/-- A replacement is inside of the same options until it is closed, with one option more if one
starts. -/
theorem frames_next_replacement (hfocus : c.reader.focus = .replacement r m frames) :
    c.next.reader.focus.frames = frames ∨ ∃ g, c.next.reader.focus.frames = g :: frames := by
  have hadvance := c.advance_next
  obtain ⟨⟨focus, sectionName, messages, report, lastPos⟩, ahead⟩ := c
  obtain rfl : focus = .replacement r m frames := hfocus
  generalize next _ = c' at hadvance
  cases hadvance with
  | fault => exact .inl rfl
  | @take t rest hahead htakes =>
    simp only [Reader.take, Reader.takeReplacement]
    split
    · split
      · exact .inl rfl
      · exact .inl rfl
    · exact .inr ⟨_, rfl⟩
    · exact .inl rfl
    · exact .inl rfl
  | close => exact .inl rfl

/-- Inside of an option, at any depth, the option stays open, or it is the innermost construct and
`Finishes`. -/
theorem next_inside {inner : List Frame} (h : c.reader.focus.frames = inner ++ f :: frames) :
    (∃ inner', c.next.reader.focus.frames = inner' ++ f :: frames) ∨
      ∃ b, Finishes b f frames c := by
  cases hfocus : c.reader.focus with
  | idle =>
    rw [hfocus] at h
    cases inner <;> cases h
  | body b gs =>
    rw [hfocus] at h
    obtain rfl : gs = inner ++ f :: frames := h
    cases inner with
    | nil => exact (next_body hfocus).imp (fun hframes => ⟨[], hframes⟩) fun h => ⟨b, h⟩
    | cons g inner =>
      rcases next_body hfocus with hframes | hfinishes
      · exact .inl ⟨g :: inner, hframes⟩
      · exact .inl ⟨inner, by rw [hfinishes.focus]; rfl⟩
  | replacement r m gs =>
    rw [hfocus] at h
    obtain rfl : gs = inner ++ f :: frames := h
    rcases frames_next_replacement hfocus with hframes | ⟨g, hframes⟩
    · exact .inl ⟨inner, hframes⟩
    · exact .inl ⟨g :: inner, hframes⟩

end Course

/-! ### The record of a replacement

The record is about one replacement, which is known by the body `m` in front of it and the frames
around it. Replacements inside of its options have no part in it but their errors. -/

/-- What happens while a replacement is read: something is reported, or an option of it is complete.
A record of it all is a list of these, and `Judged` says that its verdicts are those of the drafts.
-/
inductive Occurrence
  /-- An error that is not about an option of the replacement. -/
  | error (d : Diagnostic)
  /-- An option of the replacement is complete, and this is said against it. -/
  | option (o : ReplacementOption) (verdict : List Diagnostic)

namespace Occurrence

/-- The option that is complete. -/
def option? : Occurrence → Option ReplacementOption
  | error _ => none
  | option o _ => some o

/-- The errors that are reported. For an option (`Occurrence.option`) this is the verdict. -/
def errors : Occurrence → List Diagnostic
  | error d => [d]
  | option _ verdict => verdict

end Occurrence

/-- The options of a record, in the order in which they have been completed. -/
def options (log : List Occurrence) : List ReplacementOption := log.filterMap Occurrence.option?

theorem options_errors (ds : List Diagnostic) (log : List Occurrence) :
    options (ds.map .error ++ log) = options log := by
  induction ds with
  | nil => rfl
  | cons d ds ih => exact ih

/-- What is open is inside of an option of the replacement behind `m`, at any depth. -/
def Focus.Inside (m : Message) (frames : List Frame) (focus : Focus) : Prop :=
  ∃ inner f, focus.frames = inner ++ f :: frames ∧ f.outer = m

/-- The replacement behind `m`, which is inside of `frames`, or an option of it, stays open from the
course `c` on until `c'`, and `log` is the record of what happens. Each constructor is one
`Course.next`: its hypotheses say where the reader was (`Focus.Inside`, or the replacement itself),
where it is then, and which errors have been added, so that the record accounts for all of them
(`Served.errors_eq`). -/
inductive Served (m : Message) (frames : List Frame) : Course → List Occurrence → Course → Prop
  | refl (c : Course) : Served m frames c [] c
  /-- An invalid token is passed on between the options. -/
  | fault {c c' : Course} {r : OpenReplacement} {t : Token} {rest : List Token}
      {log : List Occurrence} (hfocus : c.reader.focus = .replacement r m frames)
      (hahead : c.ahead = t :: rest) (ht : t.kind = .invalid)
      (hnext : c.next.reader.focus = .replacement r m frames)
      (herrors : c.next.errors = c.errors ++ [⟨.reported t.text, t.pos⟩])
      (h : Served m frames c.next log c') :
    Served m frames c (.error ⟨.reported t.text, t.pos⟩ :: log) c'
  /-- An option starts. -/
  | start {c c' : Course} {r : OpenReplacement} {t : Token} {rest : List Token}
      {log : List Occurrence} (hfocus : c.reader.focus = .replacement r m frames)
      (hahead : c.ahead = t :: rest) (ht : t.kind = .optionStart)
      (hnext : c.next.reader.focus = .body (.empty "" (OptionName.ofText t.text).key)
        ({ name := OptionName.ofText t.text, pos := t.pos, replacement := { r with fresh := false },
           outer := m } :: frames))
      (herrors : c.next.errors = c.errors) (h : Served m frames c.next log c') :
    Served m frames c log c'
  /-- An option goes on, and what stands inside of it is read. -/
  | inside {c c' : Course} {ds : List Diagnostic} {log : List Occurrence}
      (hfocus : c.reader.focus.Inside m frames) (hnext : c.next.reader.focus.Inside m frames)
      (herrors : c.next.errors = c.errors ++ ds) (h : Served m frames c.next log c') :
    Served m frames c (ds.map .error ++ log) c'
  /-- An option is complete, perhaps without its brace. -/
  | finish {c c' : Course} {b : Message} {f : Frame} {r : OpenReplacement}
      {brace verdict : List Diagnostic} {log : List Occurrence}
      (hfocus : c.reader.focus = .body b (f :: frames)) (houter : f.outer = m)
      (hnext : c.next.reader.focus = .replacement r m frames)
      (herrors : c.next.errors = c.errors ++ brace ++ verdict)
      (hbrace : ∀ d ∈ brace, ∃ found, d.cause = .optionClosing found)
      (h : Served m frames c.next log c') :
    Served m frames c (brace.map .error ++ .option (f.option b) verdict :: log) c'

namespace Served

variable {m : Message} {frames : List Frame} {c c' : Course} {log : List Occurrence}

/-- All errors are in the record: what has been reported from `c` to `c'` is what
`Occurrence.errors` of the record are. -/
theorem errors_eq (h : Served m frames c log c') :
    c'.errors = c.errors ++ log.flatMap Occurrence.errors := by
  have herror (ds : List Diagnostic) :
      (ds.map Occurrence.error).flatMap Occurrence.errors = ds := by
    rw [List.flatMap_map]
    exact List.flatMap_singleton' ds
  induction h with
  | refl c => exact (List.append_nil _).symm
  | fault _ _ _ _ herrors _ ih =>
    rw [ih, herrors, List.append_assoc]
    rfl
  | start _ _ _ _ herrors _ ih => rw [ih, herrors]
  | inside _ _ herrors _ ih =>
    rw [ih, herrors, List.flatMap_append, herror, List.append_assoc]
  | finish _ _ _ herrors _ _ ih =>
    rw [ih, herrors, List.flatMap_append, herror, List.flatMap_cons]
    simp [Occurrence.errors]

/-- Nothing else becomes of the reading: `c'` has the outcome of `c`. -/
theorem outcome_eq (h : Served m frames c log c') : c'.outcome = c.outcome := by
  induction h with
  | refl c => rfl
  | fault hfocus _ _ _ _ _ ih | start hfocus _ _ _ _ _ ih | finish hfocus _ _ _ _ _ ih =>
    exact ih.trans (Course.outcome_next (by simp [hfocus]))
  | inside hfocus _ _ _ ih =>
    refine ih.trans (Course.outcome_next fun hidle => ?_)
    obtain ⟨inner, f, hframes, -⟩ := hfocus
    rw [hidle] at hframes
    cases inner <;> cases hframes

end Served

/-- What has been said against the options of the record is what a draft says that takes them
(`Draft.verdict`), each behind the ones in front of it. -/
def Judged : Draft → List Occurrence → Prop
  | _, [] => True
  | draft, .error _ :: log => Judged draft log
  | draft, .option o verdict :: log => verdict = draft.verdict o ∧ Judged (draft.taking o) log

theorem judged_errors {draft : Draft} (ds : List Diagnostic) {log : List Occurrence} :
    Judged draft (ds.map .error ++ log) ↔ Judged draft log := by
  induction ds with
  | nil => exact .rfl
  | cons d ds ih => exact ih

/-- An option is judged by the draft that the ones in front of it have left: the verdict in the
record is that of `Draft.add` on this draft. -/
theorem Judged.verdict_eq {draft : Draft} {o : ReplacementOption} {verdict : List Diagnostic}
    {front back : List Occurrence} (h : Judged draft (front ++ .option o verdict :: back)) :
    verdict = ((options front).foldl Draft.taking draft).verdict o := by
  induction front generalizing draft with
  | nil => exact h.1
  | cons entry front ih =>
    cases entry with
    | error _ => exact ih h
    | option _ _ => exact ih h.2

/-- Where the replacement is: it is open, or it is that of an option that is. -/
def Focus.Holds (r : OpenReplacement) (m : Message) (frames : List Frame) (focus : Focus) : Prop :=
  focus = .replacement r m frames ∨
    ∃ inner f, focus.frames = inner ++ f :: frames ∧ f.outer = m ∧ f.replacement = r

/-- Where the replacement is something is open, so one thing more can be done. -/
theorem Focus.Holds.ne_idle {r : OpenReplacement} {m : Message} {frames : List Frame}
    {focus : Focus} (h : focus.Holds r m frames) : focus ≠ .idle := by
  rintro rfl
  rcases h with h | ⟨inner, f, h, -⟩
  · cases h
  · cases inner <;> cases h

/-- A replacement is read until it is closed. By then it has taken the options of the record, each
of which has been `Judged`. The induction is on the `measure` of the course, wherever the reader is
inside of the replacement. -/
theorem Course.served {m : Message} {frames : List Frame} {c : Course} {r : OpenReplacement}
    (hfocus : c.reader.focus.Holds r m frames) (hfresh : r.fresh = false) :
    ∃ log c', Served m frames c log c' ∧
      Closes { r with draft := (options log).foldl Draft.taking r.draft } m frames c' ∧
      Judged r.draft log := by
  induction hn : c.measure using Nat.strongRecOn generalizing c r with
  | ind n ih =>
    have hlt := hn ▸ measure_next_lt hfocus.ne_idle
    rcases hfocus with hfocus | ⟨inner, f, hframes, rfl, rfl⟩
    · rcases next_replacement hfocus hfresh with hwaits | hcloses
      · cases hwaits with
        | fault hahead ht hnext herrors =>
          obtain ⟨log, c', hserved, hcloses, hjudged⟩ := ih _ hlt (.inl hnext) hfresh rfl
          exact ⟨_, c', .fault hfocus hahead ht hnext herrors hserved, hcloses, hjudged⟩
        | start hahead ht hnext herrors =>
          have hsame : { r with fresh := false } = r := by rw [← hfresh]
          have hholds : c.next.reader.focus.Holds r m frames :=
            .inr ⟨[], _, by rw [hnext]; rfl, rfl, hsame⟩
          obtain ⟨log, c', hserved, hcloses, hjudged⟩ := ih _ hlt hholds hfresh rfl
          exact ⟨log, c', .start hfocus hahead ht hnext herrors hserved, hcloses, hjudged⟩
      · exact ⟨[], c, .refl c, hcloses, trivial⟩
    · rcases next_inside hframes with ⟨inner', hnext⟩ | ⟨b, hfinishes⟩
      · obtain ⟨log, c', hserved, hcloses, hjudged⟩ :=
          ih _ hlt (.inr ⟨inner', f, hnext, rfl, rfl⟩) hfresh rfl
        obtain ⟨ds, herrors⟩ := c.exists_errors_next
        refine ⟨_, c', .inside ⟨inner, f, hframes, rfl⟩ ⟨inner', f, hnext, rfl⟩ herrors hserved,
          ?_, (judged_errors ds).mpr hjudged⟩
        rw [options_errors]
        exact hcloses
      · obtain ⟨log, c', hserved, hcloses, hjudged⟩ :=
          ih _ hlt (r := { f.replacement with draft := f.replacement.draft.taking (f.option b) })
            (.inl hfinishes.focus) hfresh rfl
        obtain ⟨brace, herrors, hbrace⟩ := hfinishes.errors
        refine ⟨_, c', .finish hfinishes.opened rfl hfinishes.focus herrors hbrace hserved, ?_,
          (judged_errors brace).mpr ⟨rfl, hjudged⟩⟩
        rw [options_errors]
        exact hcloses

/-- A replacement of a known kind, in whatever tokens stand behind its type, is `Served`. It has
taken the options of the record when it is closed, and each has been `Judged` by what those in front
of it have left. -/
theorem Course.served_of_kind {q : Reader} {t : Token} {r : OpenReplacement} {m : Message}
    {frames : List Frame} {kind : ReplacementKind} (ahead : List Token)
    (hfocus : q.focus = .replacement r m frames) (hfresh : r.fresh = true)
    (ht : t.kind = .replacementType) (hkind : ReplacementKind.ofName? t.text = some kind) :
    ∃ log c, Served m frames ⟨q.step t, ahead⟩ log c ∧ c.outcome = q.run (t :: ahead) ∧
      Closes { r with kind := some kind, fresh := false,
                      draft := (options log).foldl Draft.taking (.ofKind kind) } m frames c ∧
      c.errors = q.report.errors ++ log.flatMap Occurrence.errors ∧
      ∀ front o verdict back, log = front ++ .option o verdict :: back →
        verdict = ((options front).foldl Draft.taking (.ofKind kind)).verdict o := by
  have hstep : q.step t =
      { q with
        focus := .replacement { r with kind := some kind, draft := .ofKind kind, fresh := false }
          m frames,
        lastPos := t.pos } := by
    rw [Reader.step_replacementType hfocus hfresh ht, hkind]
  have hholds : (q.step t).focus.Holds
      { r with kind := some kind, draft := .ofKind kind, fresh := false } m frames :=
    .inl (by rw [hstep])
  obtain ⟨log, c, hserved, hcloses, hjudged⟩ := served (c := ⟨q.step t, ahead⟩) hholds rfl
  refine ⟨log, c, hserved, ?_, hcloses, ?_, fun front o verdict back hlog => ?_⟩
  · rw [hserved.outcome_eq, outcome, Reader.run, if_neg (by simp [ht])]
  · rw [hserved.errors_eq, errors, hstep]
  · rw [hlog] at hjudged
    exact hjudged.verdict_eq

end MessageCatalog
