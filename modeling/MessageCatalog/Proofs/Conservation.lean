import Mathlib.Data.List.Basic
import MessageCatalog.Duplicate
import MessageCatalog.Proofs.Locality

/-!
# MessageCatalog.Proofs.Conservation

What a stream of tokens comes to, whatever tokens it holds, also in an order that no scanner yields.
Every message key starts one message, in the section of the last header before it
(`address_readTokens`); every invalid token is one error, and what stands behind the first
end-of-file token is not read (`reported_readTokens`).

Both go the same way. `Reader.begun` counts the open message with the finished ones, so that closing
what is open changes nothing (`begun_makeRoom`), and a token adds to it exactly if it is a key
(`begun_step`). Which message is open is seen from the outermost body, since a message is begun
there and all that happens inside leaves its address alone. The reports of a reader are accounted
for likewise: `Reader.passedOn` is what invalid tokens have reported so far, and every other error
is told apart by its cause.
-/

namespace MessageCatalog

/-! ### Up to the end of the file

A stream is read by feeding what stands in front of its end and finishing there. -/

/-- The tokens in front of the first end-of-file token. In a stream without one these are all. -/
def beforeEof (stream : List Token) : List Token := stream.takeWhile (·.kind ≠ .eof)

/-- The tokens up to the first end-of-file token, with that token. It is as much of a stream as
`readTokens` looks at. -/
def throughEof : List Token → List Token
  | [] => []
  | t :: rest => if t.kind = .eof then [t] else t :: throughEof rest

namespace Reader

/-- Reading a stream is taking the tokens in front of its end, one by one (`feed`), and closing what
is open there. -/
theorem exists_run_eq_finish (stream : List Token) :
    ∀ q : Reader, ∃ found, q.run stream = (q.feed (beforeEof stream)).finish found := by
  induction stream with
  | nil => exact fun q => ⟨_, rfl⟩
  | cons t stream ih =>
    intro q
    rw [run, beforeEof, List.takeWhile_cons]
    by_cases heof : t.kind = .eof
    · simp only [heof, if_true, ne_eq, not_true_eq_false, decide_false]
      exact ⟨_, rfl⟩
    · simp only [heof, if_false, ne_eq, not_false_eq_true, decide_true, if_true]
      exact ih (q.step t)

/-- Nothing behind the first end-of-file token is read: `run` stops there, or at the end of the
list. -/
theorem run_throughEof (stream : List Token) :
    ∀ q : Reader, q.run (throughEof stream) = q.run stream := by
  induction stream with
  | nil => exact fun q => rfl
  | cons t stream ih =>
    intro q
    rw [throughEof]
    by_cases heof : t.kind = .eof
    · rw [if_pos heof, run_eof heof, run_eof heof]
    · rw [if_neg heof, run, run, if_neg heof, if_neg heof, ih]

end Reader

/-! ### Messages

Messages are told apart by their addresses (`Message.address`), which nothing changes once they have
begun. -/

/-- The messages that a stream announces: for each key, the section that it stands in and its text.
The section is that of the last header in front of the key. -/
def announced (stream : List Token) : List (String × String) :=
  stream.zipIdx.filterMap fun (t, i) =>
    if t.kind = .messageKey then some (lastSection (stream.take i), t.text) else none

/-- One more token announces a message if it is a key, in the section of `lastSection`. Tokens are
taken from the front, so the stream is extended at its end. -/
theorem announced_concat (stream : List Token) (t : Token) :
    announced (stream ++ [t]) =
      announced stream ++ if t.kind = .messageKey then [(lastSection stream, t.text)] else [] := by
  rw [announced, List.zipIdx_append, List.filterMap_append]
  congr 1
  · refine List.filterMap_congr fun ⟨x, i⟩ hx => ?_
    have hi : i < stream.length := by simpa using List.snd_lt_of_mem_zipIdx hx
    simp only [List.take_append_of_le_length (Nat.le_of_lt hi)]
  · simp only [List.zipIdx_singleton, List.filterMap_cons, List.filterMap_nil, Nat.zero_add,
      List.take_left]
    split <;> simp_all

/-- Text does not change the address. Neither does trimming, nor a replacement. -/
@[simp] theorem Message.address_pushText (m : Message) (t : String) :
    (m.pushText t).address = m.address := by
  simp [address]

@[simp] theorem Message.address_trimTrailing (m : Message) :
    m.trimTrailing.address = m.address := by
  simp [address]

/-- The address of the message around a body, which is inside of the frames: that of the outermost
frame (`Frame.outer`), if there is one. -/
def outermost (body : Message) : List Frame → String × String
  | [] => body.address
  | frame :: frames => outermost frame.outer frames

/-- Only the address of the innermost body matters for `outermost`, and only where there are no
frames. -/
theorem outermost_congr {m m' : Message} (h : m'.address = m.address) (frames : List Frame) :
    outermost m' frames = outermost m frames := by
  cases frames with
  | nil => exact h
  | cons frame frames => rfl

theorem outermost_attach (m : Message) (r : Option Replacement) (frames : List Frame) :
    outermost (Reader.attach m r) frames = outermost m frames := by
  cases frames <;> rfl

/-- The address of the message that is open, if one is. Inside of options that is still the message
around them. -/
def Focus.opened : Focus → Option (String × String)
  | .idle => none
  | .body m frames => some (outermost m frames)
  | .replacement _ m frames => some (outermost m frames)

namespace Reader

/-- The addresses of the messages begun so far, the open one included. The invariant of reading is
that these are the ones `announced`. -/
def begun (q : Reader) : List (String × String) :=
  q.messages.map Message.address ++ q.focus.opened.toList

/-- Closing from the inside out (`unwindBody`) ends with the same message, still open or finished.
By induction on the frames. -/
theorem opened_unwindBody (last : Position) (kind : Option Token.Kind) (found : Found)
    (frames : List Frame) :
    ∀ (body : Message) (report : Report),
      (unwindBody last kind found body report frames).2.1.toList.map Message.address ++
          (unwindBody last kind found body report frames).1.opened.toList =
        [outermost body frames] := by
  induction frames with
  | nil =>
    intro body report
    rw [unwindBody]
    split
    · rfl
    · simp [Focus.opened, outermost]
  | cons frame frames ih =>
    intro body report
    rw [unwindBody]
    split
    · rfl
    · dsimp only
      split
      · rfl
      · rw [ih, closeReplacement, outermost_attach, outermost]

/-- Closing what is open (`unwind`) ends with the same message, still open or finished, whatever is
open. -/
theorem opened_unwind (last : Position) (kind : Option Token.Kind) (found : Found)
    (report : Report) (focus : Focus) :
    (unwind last kind found report focus).2.1.toList.map Message.address ++
        (unwind last kind found report focus).1.opened.toList = focus.opened.toList := by
  cases focus with
  | idle => rfl
  | body m frames => exact opened_unwindBody last kind found frames m report
  | replacement r m frames =>
    rw [unwind]
    split
    · rfl
    · dsimp only
      rw [opened_unwindBody, closeReplacement, outermost_attach]
      rfl

/-- Closing what is open neither begins nor loses a message, so making room does not change what has
`begun`. -/
theorem begun_makeRoom (q : Reader) (kind : Option Token.Kind) (found : Found) :
    (q.makeRoom kind found).begun = q.begun := by
  simp only [begun, makeRoom, List.map_append, List.append_assoc]
  rw [opened_unwind]

/-- Between messages a key begins one, in the section of the reader (`takeIdle`). No other token
does. -/
theorem begun_takeIdle {q : Reader} (h : q.focus = .idle) (t : Token) :
    (q.takeIdle t).begun =
      q.begun ++ if t.kind = .messageKey then [(q.sectionName, t.text)] else [] := by
  unfold takeIdle
  split
  · rename_i hkind
    simp [hkind, begun]
  · rename_i hkind
    simp [hkind, begun, h, Focus.opened, outermost, Message.address, Message.empty]
  · rename_i hkind
    rw [if_neg hkind, List.append_nil]
    rfl

/-- A token in a body begins no message. A token in a replacement does not either. -/
theorem begun_takeBody {q : Reader} {m : Message} {frames : List Frame}
    (h : q.focus = .body m frames) (t : Token) : (q.takeBody t m frames).begun = q.begun := by
  unfold takeBody
  split
  · simp only [begun, h, Focus.opened]
    rw [outermost_congr]
    split <;> simp
  · simp only [begun, h, Focus.opened]
    rw [outermost_congr (Message.address_pushText m t.text)]
  · simp only [begun, h, Focus.opened]
  · simp only [begun, h, Focus.opened, outermost]
  · rfl

theorem begun_takeReplacement {q : Reader} {r : OpenReplacement} {m : Message}
    {frames : List Frame} (h : q.focus = .replacement r m frames) (t : Token) :
    (q.takeReplacement t r m frames).begun = q.begun := by
  unfold takeReplacement
  split
  · split <;> simp only [begun, h, Focus.opened]
  · simp only [begun, h, Focus.opened, outermost]
  · simp only [begun, h, Focus.opened, outermost_attach]
  · rfl

/-- A token begins a message exactly if it is a key. It makes room first, which changes nothing
about what has `begun`. -/
theorem begun_step (q : Reader) (t : Token) :
    (q.step t).begun =
      q.begun ++ if t.kind = .messageKey then [(q.sectionName, t.text)] else [] := by
  by_cases hkey : t.kind = .messageKey
  -- a key is taken where nothing is open
  · have houtside : Outside (some t.kind) := by rw [hkey]; trivial
    have hidle := focus_makeRoom_outside houtside q ⟨t.describe, t.pos⟩
    rw [step_outside houtside]
    refine (begun_takeIdle hidle t).trans ?_
    rw [begun_makeRoom]
    rfl
  · rw [if_neg hkey, List.append_nil, step]
    split
    · rfl
    · rw [← begun_makeRoom q (some t.kind) ⟨t.describe, t.pos⟩]
      generalize q.makeRoom _ _ = q
      show (q.take t).begun = q.begun
      unfold take
      split
      · rename_i hidle
        rw [begun_takeIdle hidle, if_neg hkey, List.append_nil]
      · rename_i hbody
        exact begun_takeBody hbody t
      · rename_i hreplacement
        exact begun_takeReplacement hreplacement t

/-- The reader has begun the messages that have been `announced`. By induction from the end of the
stream. -/
theorem begun_feed (stream : List Token) : (feed {} stream).begun = announced stream := by
  induction stream using List.reverseRecOn with
  | nil => rfl
  | append_singleton stream t ih =>
    rw [feed_append, feed_cons, feed_nil, begun_step, ih, sectionName_feed, announced_concat]

/-- At the end the messages are those that were begun, as the open one is finished too
(`Reader.finish`). -/
theorem address_finish (q : Reader) (found : Found) :
    (q.finish found).messages.map Message.address = q.begun := by
  have hidle := focus_makeRoom_outside (show Outside none from trivial) q found
  have hbegun := q.begun_makeRoom none found
  rw [begun, hidle, Focus.opened, Option.toList_none, List.append_nil] at hbegun
  exact hbegun

end Reader

/-- No message is lost, invented or put in the wrong section: whatever tokens a stream holds, the
messages of `readTokens` are those that its keys announce in front of the end of the file
(`announced`), one for each key, in their order, each with the text of its key and in the section of
the last header before it. -/
theorem address_readTokens (stream : List Token) :
    (readTokens stream).messages.map Message.address = announced (beforeEof stream) := by
  obtain ⟨found, hfinish⟩ := Reader.exists_run_eq_finish stream {}
  rw [readTokens, hfinish, Reader.address_finish, Reader.begun_feed]

/-! ### Reports

An error is the report of an invalid token or is raised by the reader itself, and its cause tells
which. -/

/-- What an invalid token has reported, if the error is such a report (`Cause.reported`). -/
def Diagnostic.reported? (d : Diagnostic) : Option (String × Position) :=
  match d.cause with
  | .reported text => some (text, d.pos)
  | _ => none

/-- What the reader itself finds wrong is no report of an invalid token, as it has another cause. -/
theorem Diagnostic.reported?_eq_none {d : Diagnostic}
    (h : d.cause.isSemantic = true ∨ d.cause.isShape = true) : d.reported? = none := by
  obtain ⟨cause, pos⟩ := d
  cases cause with
  | reported text => rcases h with h | h <;> cases h
  | _ => rfl

theorem Raised.reported?_eq_none {t : Token} {d : Diagnostic} (h : Raised t d) :
    d.reported? = none := by
  rcases h with h | h | ⟨-, -, rfl⟩
  · exact Diagnostic.reported?_eq_none (.inl h)
  · exact Diagnostic.reported?_eq_none (.inr h)
  · rfl

namespace Reader

/-- What invalid tokens have reported so far: the errors of the reader that are
`Diagnostic.reported?`. -/
def passedOn (q : Reader) : List (String × Position) :=
  q.report.errors.filterMap Diagnostic.reported?

/-- A token is reported exactly if it is invalid. What a token raises besides (`Raised`) is no such
report. -/
theorem passedOn_step (q : Reader) (t : Token) :
    (q.step t).passedOn = q.passedOn ++ if t.kind = .invalid then [(t.text, t.pos)] else [] := by
  by_cases hkind : t.kind = .invalid
  · rw [passedOn, errors_step_of_invalid hkind, List.filterMap_append, if_pos hkind]
    rfl
  · obtain ⟨ds, herrors, hraised⟩ := errors_step hkind q
    rw [passedOn, herrors, List.filterMap_append, if_neg hkind,
      List.filterMap_eq_nil_iff.mpr fun d hd => (hraised d hd).reported?_eq_none]
    rfl

/-- The invalid tokens are reported in their order, and each of them once. -/
theorem passedOn_feed (stream : List Token) :
    ∀ q : Reader, (q.feed stream).passedOn =
      q.passedOn ++ (stream.filter (·.kind = .invalid)).map fun t => (t.text, t.pos) := by
  induction stream with
  | nil => simp
  | cons t stream ih =>
    intro q
    rw [feed_cons, ih, passedOn_step, List.append_assoc, List.filter_cons]
    split <;> simp_all

/-- What is reported at the end comes from no invalid token, so `passedOn` stays as it is. -/
theorem reported_finish (q : Reader) (found : Found) :
    (q.finish found).errors.filterMap Diagnostic.reported? = q.passedOn := by
  obtain ⟨-, ds, herrors, hclosing⟩ := q.grows_makeRoom none found
  have hnone : ds.filterMap Diagnostic.reported? = [] :=
    List.filterMap_eq_nil_iff.mpr fun d hd =>
      Diagnostic.reported?_eq_none ((hclosing d hd).imp_right And.right)
  refine (congrArg (List.filterMap Diagnostic.reported?) herrors).trans ?_
  rw [List.filterMap_append, hnone, List.append_nil, passedOn]

end Reader

/-- Every fault is reported once and nothing behind the end of the file matters: whatever tokens a
stream holds, the errors of `readTokens` that come from invalid tokens are the texts and positions
of the invalid tokens in front of the end of the file, in their order; and the stream is read no
further than that. -/
theorem reported_readTokens (stream : List Token) :
    (readTokens stream).errors.filterMap Diagnostic.reported? =
        ((beforeEof stream).filter (·.kind = .invalid)).map (fun t => (t.text, t.pos)) ∧
      readTokens (throughEof stream) = readTokens stream := by
  obtain ⟨found, hfinish⟩ := Reader.exists_run_eq_finish stream {}
  refine ⟨?_, Reader.run_throughEof stream {}⟩
  rw [readTokens, hfinish, Reader.reported_finish, Reader.passedOn_feed]
  rfl

end MessageCatalog
