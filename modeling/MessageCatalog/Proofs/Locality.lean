import Mathlib.Data.List.Induction
import MessageCatalog.Proofs.Relocation
import MessageCatalog.Proofs.Symbols

/-!
# MessageCatalog.Proofs.Locality

Blocks of a file are scanned and read independently of each other. Where a file is cut in front of a
line that starts with content at the margin, the tokens, messages and errors of the whole are those
of its two parts: `parse_append`.

There is one exception, and it is about order only. The reader closes what a fault has left open
when the next token comes that is not a fault, and it is then that the meaning of open replacements
is checked. Faults at the very start of the second part (`leadingFaults`) come before that token.

The scan of the whole is that of the two parts by `Place.run_scanner` (`tokens_append`). For the
reader there is more to show, since it comes to the second part with the first message of the seam
still open, or with what a fault has left open, and in a section.

* What is open is closed in the same way in front of any token that belongs to no message
  (`Reader.makeRoom_outside_congr`), and closing reports errors of meaning only.
* From a header or a key on the reader does what it does at the start of a stream
  (`follows_restart`), behind other messages and errors: that is `Follows.run` of
  `MessageCatalog.Proofs.Relocation`.
* So a second stream is read as at the start, wherever the reader is (`run_restart`), if its first
  proper token belongs to no message, as that of a file does.

Then the parts are put together, with the positions of the second further down and its first
messages in the last section of the first (`lastSection`).
-/

namespace MessageCatalog

open MessageCatalog.Symbol (ofRunes)
open Utf8 (runes)

/-! ### Tokens at the margin

A file starts at the margin, so its first token that is no fault is a header, a key or the end. -/

/-- The invalid tokens at the start of a stream. These are what a second part of a file may report
before the reader notices that it has begun. -/
def leadingFaults (stream : List Token) : List Token := stream.takeWhile (·.kind = .invalid)

/-- A stream without the invalid tokens at its start. It makes up the stream together with
`leadingFaults`. -/
def dropFaults (stream : List Token) : List Token := stream.dropWhile (·.kind = .invalid)

theorem leadingFaults_append_dropFaults (stream : List Token) :
    leadingFaults stream ++ dropFaults stream = stream := List.takeWhile_append_dropWhile

theorem reports_of_mem_leadingFaults {stream : List Token} {t : Token}
    (h : t ∈ leadingFaults stream) : Scanner.Reports t := by
  simpa [Scanner.Reports] using List.mem_takeWhile_imp h

/-- Faults at the start are dropped by `dropFaults`, as many as there are. -/
theorem dropFaults_append {faults : List Token} (h : ∀ t ∈ faults, Scanner.Reports t)
    (rest : List Token) : dropFaults (faults ++ rest) = dropFaults rest :=
  List.dropWhile_append_of_pos fun t ht => decide_eq_true (h t ht)

namespace Scanner

/-- What every step yields is all that a scan yields: a property of tokens is shown for one step,
and then it is one of `Scanner.run`. -/
theorem forall_mem_run_of_step {P : Token → Prop}
    (h : ∀ s : Scanner, s.isDone = false → Symbol.Clean s.cursor.rest → ∀ t ∈ s.step.1, P t)
    {s : Scanner} (hclean : Symbol.Clean s.cursor.rest) : ∀ t ∈ s.run, P t := by
  induction s using step_induction with
  | stop s hdone =>
    rw [run_of_isDone hdone]
    simp
  | go s hdone ih =>
    rw [run_of_not_isDone hdone]
    refine List.forall_mem_append.mpr ⟨h s hdone hclean, ?_⟩
    exact ih (hclean.of_suffix (rest_step_suffix s))

/-- What every `Move` yields is all that a scan yields. -/
theorem forall_mem_run {P : Token → Prop}
    (h : ∀ (s : Scanner) (yield : List Token) (s' : Scanner), Move s yield s' → ∀ t ∈ yield, P t)
    {s : Scanner} (hclean : Symbol.Clean s.cursor.rest) : ∀ t ∈ s.run, P t :=
  forall_mem_run_of_step (fun _ hdone hclean => h _ _ _ (move_step hdone hclean)) hclean

/-- A section starts at the margin, and has a name. One case for each kind of `Move`. -/
theorem sectionHeader_cases {s s' : Scanner} {yield : List Token} (h : Move s yield s') :
    ∀ t ∈ yield, t.kind = .sectionHeader → (∃ below, s.stack = .root :: below) ∧ t.text ≠ "" := by
  have hfault {t : Token} (ht : Reports t) (hkind : t.kind = .sectionHeader) :
      (∃ below, s.stack = .root :: below) ∧ t.text ≠ "" := by
    rw [ht] at hkind
    cases hkind
  cases h with
  | header pos hname hfaults =>
    refine List.forall_mem_cons.mpr ⟨fun _ => ⟨⟨_, rfl⟩, ?_⟩, fun t ht => hfault (hfaults t ht)⟩
    intro htext
    exact hname (String.ofList_eq_empty_iff.mp htext)
  | line hfaults => exact fun t ht => hfault (hfaults t ht)
  | key pos _ hfaults | keyBody pos _ hfaults =>
    exact List.forall_mem_cons.mpr ⟨by simp [token], fun t ht => hfault (hfaults t ht)⟩
  | abort ht | fail ht => exact List.forall_mem_singleton.mpr (hfault ht)
  | continuation pos hyield _ =>
    subst hyield
    split <;> simp [token]
  | illegal pos ht | startFault ht =>
    exact List.forall_mem_cons.mpr ⟨by simp [token], List.forall_mem_singleton.mpr (hfault ht)⟩
  | _ => simp [token]

/-- At the margin, what comes behind the leading faults belongs to no message (`Reader.Outside`). By
recursion on the scan, as a line may be passed over with nothing but a fault. -/
theorem outside_dropFaults_run {c : Cursor} (hclean : Symbol.Clean c.rest) :
    ∀ t ∈ (dropFaults (run ⟨c, [.root]⟩)).head?, Reader.Outside (some t.kind) := by
  generalize hs : (⟨c, [.root]⟩ : Scanner) = s
  induction s using step_induction generalizing c with
  | stop s hdone =>
    subst hs
    cases hdone
  | go s hdone ih =>
    subst hs
    have hmove := move_step hdone hclean
    have hsuffix := rest_step_suffix ⟨c, [.root]⟩
    rw [run_of_not_isDone hdone]
    generalize hout : step ⟨c, [.root]⟩ = out at hmove hsuffix ih
    obtain ⟨yield, s'⟩ := out
    cases hmove with
    | finish pos => simp [dropFaults, token, Reader.Outside]
    | header pos _ _ | key pos _ _ | keyBody pos _ _ _ => simp [dropFaults, token, Reader.Outside]
    | abort ht =>
      rw [dropFaults_append (List.forall_mem_singleton.mpr ht), run_of_isDone rfl]
      simp [dropFaults]
    | line h =>
      rw [dropFaults_append h]
      exact ih (hclean.of_suffix hsuffix) rfl
    | fail ht =>
      rw [dropFaults_append (List.forall_mem_singleton.mpr ht)]
      exact ih (hclean.of_suffix hsuffix) rfl

end Scanner

/-! ### Closing at the seam

Where the first part ends, what is open is closed at the end of the stream; in the whole, by the
next token. The reports agree, because nothing is said about shape: either a fault has come, or
there is no more than a message to close. -/

namespace Report

/-- Two reports that have grown by the same errors, after a fault in both. What they started from
may differ. -/
structure Alike (base base' : List Diagnostic) (r r' : Report) : Prop where
  recovering : r.recovering = true
  recovering' : r'.recovering = true
  errors : ∃ ds, r.errors = base ++ ds ∧ r'.errors = base' ++ ds

variable {base base' : List Diagnostic} {r r' : Report}

/-- The same errors may be added to both by `Report.addAll`. Errors of shape are added to neither,
as both are recovering. -/
theorem Alike.addAll (h : Alike base base' r r') (ds : List Diagnostic) :
    Alike base base' (r.addAll ds) (r'.addAll ds) := by
  obtain ⟨before, he, he'⟩ := h.errors
  refine ⟨h.recovering, h.recovering', before ++ ds, ?_, ?_⟩
  · rw [Report.addAll, he, List.append_assoc]
  · rw [Report.addAll, he', List.append_assoc]

theorem Alike.addShape (h : Alike base base' r r') (cause cause' : Cause) (pos pos' : Position) :
    Alike base base' (r.addShape cause pos) (r'.addShape cause' pos') := by
  rw [Report.addShape, Report.addShape, if_pos h.recovering, if_pos h.recovering']
  exact h

/-- An option is closed alike by `Frame.close`, with the same outcome. -/
theorem Alike.close (h : Alike base base' r r') (f : Frame) (m : Message) :
    (f.close m r).1 = (f.close m r').1 ∧ Alike base base' (f.close m r).2 (f.close m r').2 := by
  unfold Frame.close OpenReplacement.addOption
  split
  · exact ⟨rfl, h.recovering, h.recovering', h.errors⟩
  · exact ⟨rfl, h.addAll _⟩

/-- A replacement is closed alike (`Report.Alike`), whatever was found instead of its brace. -/
theorem Alike.closeReplacement (h : Alike base base' r r') (last : Position)
    (inner : OpenReplacement) (m : Message) (found found' : Found) :
    (Reader.closeReplacement last inner m found r).1 =
        (Reader.closeReplacement last inner m found' r').1 ∧
      Alike base base' (Reader.closeReplacement last inner m found r).2
        (Reader.closeReplacement last inner m found' r').2 :=
  ⟨rfl, (h.addAll _).addShape _ _ _ _⟩

end Report

namespace Reader

open Report (Alike)

variable {kind kind' : Option Token.Kind} {base base' : List Diagnostic}

/-- Bodies are closed alike in front of what belongs to no message (`Outside`). By induction on the
frames; all of them are closed in both readers. -/
theorem alike_unwindBody (hkind : Outside kind) (hkind' : Outside kind') (last : Position)
    (found found' : Found) (frames : List Frame) :
    ∀ {m : Message} {r r' : Report}, Alike base base' r r' →
      (unwindBody last kind found m r frames).2.1 =
          (unwindBody last kind' found' m r' frames).2.1 ∧
        Alike base base' (unwindBody last kind found m r frames).2.2
          (unwindBody last kind' found' m r' frames).2.2 := by
  induction frames with
  | nil =>
    intro m r r' h
    simp only [unwindBody, hkind.bodyTakes_eq_false, hkind'.bodyTakes_eq_false, if_false,
      Bool.false_eq_true]
    exact ⟨trivial, h⟩
  | cons f frames ih =>
    intro m r r' h
    obtain ⟨hclosed, hreport⟩ := (h.addShape (.optionClosing found.what)
      (.optionClosing found'.what) found.pos found'.pos).close f m
    simp only [unwindBody, hkind.bodyTakes_eq_false, hkind'.bodyTakes_eq_false,
      hkind.takes_eq_false, hkind'.takes_eq_false, if_false, Bool.false_eq_true]
    rw [hclosed]
    obtain ⟨houter, hreport⟩ := hreport.closeReplacement last _ f.outer found found'
    rw [houter]
    exact ih hreport

/-- What is open is closed alike in front of what belongs to no message (`Outside`), whatever it is.
-/
theorem alike_unwind (hkind : Outside kind) (hkind' : Outside kind') (last : Position)
    (found found' : Found) {r r' : Report} (h : Alike base base' r r') (focus : Focus) :
    (unwind last kind found r focus).2.1 = (unwind last kind' found' r' focus).2.1 ∧
      Alike base base' (unwind last kind found r focus).2.2
        (unwind last kind' found' r' focus).2.2 := by
  cases focus with
  | idle => exact ⟨rfl, h⟩
  | body m frames => exact alike_unwindBody hkind hkind' last found found' frames h
  | replacement inner m frames =>
    simp only [unwind, hkind.takes_eq_false, hkind'.takes_eq_false, if_false, Bool.false_eq_true]
    obtain ⟨hbody, hreport⟩ := h.closeReplacement last inner m found found'
    rw [hbody]
    exact alike_unwindBody hkind hkind' last found found' frames hreport

/-- What is open is closed the same way by `makeRoom` in front of every token that belongs to no
message, also if more faults come first. Only a reader that is `Settled` is like that: otherwise the
faults would silence an error of shape. -/
theorem makeRoom_outside_congr (hkind : Outside kind) (hkind' : Outside kind')
    (found found' : Found) {q q' : Reader} (hfocus : q'.focus = q.focus)
    (hlast : q'.lastPos = q.lastPos) (hq : q.Settled)
    (hrecovering : q.report.recovering = true → q'.report.recovering = true) :
    ∃ finished ds,
      (q.makeRoom kind found).messages = q.messages ++ finished ∧
      (q.makeRoom kind found).report.errors = q.report.errors ++ ds ∧
      (q'.makeRoom kind' found').messages = q'.messages ++ finished ∧
      (q'.makeRoom kind' found').report.errors = q'.report.errors ++ ds := by
  unfold makeRoom
  dsimp only
  rw [hfocus, hlast]
  rcases hq with hr | hidle | ⟨m, hbody⟩
  · have halike : Alike q.report.errors q'.report.errors q.report q'.report :=
      ⟨hr, hrecovering hr, [], by simp⟩
    obtain ⟨hfinished, -, -, ds, hds, hds'⟩ :=
      alike_unwind hkind hkind' q.lastPos found found' halike q.focus
    exact ⟨_, ds, rfl, hds, by rw [hfinished], hds'⟩
  · rw [hidle]
    exact ⟨[], [], rfl, by simp [unwind], rfl, by simp [unwind]⟩
  · rw [hbody]
    simp only [unwind, unwindBody, hkind.bodyTakes_eq_false, hkind'.bodyTakes_eq_false, if_false,
      Bool.false_eq_true]
    exact ⟨_, [], rfl, by simp, rfl, by simp⟩

/-! ### Starting afresh

The reader of the whole is compared with one that starts with the second part. -/

/-- A header or a key is taken, wherever it comes, as at the start of a stream. `Follows` says what
is different: there are messages and errors already, and positions are further down. -/
theorem follows_restart {q : Reader} {t : Token} (lines bytes : Nat)
    (hkind : t.kind = .sectionHeader ∨ t.kind = .messageKey)
    (ht : t.kind = .sectionHeader → t.text ≠ "") :
    Follows ⟨lines, bytes, q.sectionName⟩
      (q.makeRoom (some t.kind) ⟨t.describe, t.pos.shift lines bytes⟩).messages
      (q.makeRoom (some t.kind) ⟨t.describe, t.pos.shift lines bytes⟩).report.errors
      (step {} t) (q.step (t.shift lines bytes)) := by
  have houtside : Outside (some t.kind) := by rcases hkind with h | h <;> rw [h] <;> trivial
  have hstart := makeRoom_idle (q := {}) rfl (some t.kind) ⟨t.describe, t.pos⟩
  have hfocus := focus_makeRoom_outside houtside q ⟨t.describe, t.pos.shift lines bytes⟩
  rw [step_outside houtside, step_outside (t := t.shift lines bytes) houtside, hstart]
  rcases hkind with h | h
  · simp only [takeIdle, h, Token.kind_shift, Token.describe_shift, Token.text_shift] at hfocus ⊢
    refine ⟨hfocus, (if_neg (ht h)).symm, ?_, ⟨?_, rfl⟩, rfl⟩
    · exact (List.append_nil _).symm
    · exact (List.append_nil _).symm
  · simp only [takeIdle, h, Token.kind_shift, Token.describe_shift, Token.text_shift] at hfocus ⊢
    refine ⟨rfl, rfl, ?_, ⟨?_, rfl⟩, rfl⟩
    · exact (List.append_nil _).symm
    · exact (List.append_nil _).symm

/-- The reader `q₁` is where `q` is, and has reported some more faults. So the two close what is
open in the same way. -/
structure Faulted (faults : List Diagnostic) (q q₁ : Reader) : Prop where
  focus : q₁.focus = q.focus
  sectionName : q₁.sectionName = q.sectionName
  messages : q₁.messages = q.messages
  errors : q₁.report.errors = q.report.errors ++ faults
  lastPos : q₁.lastPos = q.lastPos
  recovering : q.report.recovering = true → q₁.report.recovering = true

/-- What is open is closed as at the end of the first part, and what is reported there comes behind
the faults. So `makeRoom` leads to the same but for the order of errors. -/
theorem Faulted.makeRoom {faults : List Diagnostic} {q q₁ : Reader} (h : Faulted faults q q₁)
    (hq : q.Settled) (found : Found) {kind : Option Token.Kind} (hkind : Outside kind)
    (found' : Found) :
    ∃ after, (q.finish found).errors = q.report.errors ++ after ∧
      (q₁.makeRoom kind found').messages = (q.finish found).messages ∧
      (q₁.makeRoom kind found').report.errors = q.report.errors ++ faults ++ after := by
  obtain ⟨finished, after, hm, he, hm', he'⟩ :=
    makeRoom_outside_congr (show Outside none from trivial)
    hkind found found' h.focus h.lastPos hq h.recovering
  refine ⟨after, he, ?_, ?_⟩
  · rw [hm', h.messages]
    exact hm.symm
  · rw [he', h.errors]

/-- A stream whose first token belongs to no message is read by `q₁`, wherever it is, as at the
start: behind the messages there are, and behind the errors there are. -/
theorem Faulted.run {faults : List Diagnostic} {q q₁ : Reader} (h : Faulted faults q q₁)
    (hq : q.Settled) (lines bytes : Nat) (found : Found) {stream : List Token}
    (hheaders : ∀ t ∈ stream, t.kind = .sectionHeader → t.text ≠ "")
    (houtside : ∀ t ∈ stream.head?, Outside (some t.kind)) :
    ∃ after, (q.finish found).errors = q.report.errors ++ after ∧
      (q₁.run (stream.map (Token.shift lines bytes))).messages =
        (q.finish found).messages ++
          (readTokens stream).messages.map (Message.inSection q.sectionName) ∧
      (q₁.run (stream.map (Token.shift lines bytes))).errors =
        q.report.errors ++ faults ++ after ++
          (readTokens stream).errors.map (Diagnostic.shift lines bytes) := by
  -- where the second stream has nothing to say, the reader only closes what is open
  have hend (found' : Found) : ∃ after, (q.finish found).errors = q.report.errors ++ after ∧
      (q₁.finish found').messages = (q.finish found).messages ++ [] ∧
      (q₁.finish found').errors = q.report.errors ++ faults ++ after ++ [] := by
    simpa [finish] using h.makeRoom hq found (show Outside none from trivial) found'
  cases stream with
  | nil => exact hend _
  | cons t rest =>
    by_cases heof : t.kind = .eof
    · have hread : readTokens (t :: rest) = ⟨[], [], []⟩ := run_eof heof {} rest
      have heof' : (t.shift lines bytes).kind = .eof := heof
      rw [hread, List.map_cons, run_eof heof']
      exact hend _
    -- a header or a key closes what is open and starts afresh
    · have hkind : t.kind = .sectionHeader ∨ t.kind = .messageKey := by
        have ht := houtside t rfl
        cases hk : t.kind <;> simp_all [Outside]
      have heof' : ¬ (t.shift lines bytes).kind = .eof := heof
      obtain ⟨after, hafter, hm, he⟩ := h.makeRoom hq found (houtside t rfl)
        ⟨t.describe, t.pos.shift lines bytes⟩
      have hfollows := @follows_restart q₁ t lines bytes hkind (hheaders t List.mem_cons_self)
      rw [hm, he, h.sectionName] at hfollows
      obtain ⟨hrunm, hrune⟩ := hfollows.run fun x hx => hheaders x (List.mem_cons_of_mem t hx)
      refine ⟨after, hafter, ?_, ?_⟩
      · rw [readTokens, List.map_cons, Reader.run, if_neg heof', Reader.run, if_neg heof]
        exact hrunm
      · rw [readTokens, List.map_cons, Reader.run, if_neg heof', Reader.run, if_neg heof]
        exact hrune

/-- A stream whose first proper token belongs to no message is read, wherever the reader is, as at
the start; only its `leadingFaults` are reported before what is open is closed. -/
theorem run_restart {q : Reader} (hq : q.Settled) (lines bytes : Nat) (found : Found)
    {stream : List Token} (hheaders : ∀ t ∈ stream, t.kind = .sectionHeader → t.text ≠ "")
    (houtside : ∀ t ∈ (dropFaults stream).head?, Outside (some t.kind)) :
    ∃ after, (q.finish found).errors = q.report.errors ++ after ∧
      (q.run (stream.map (Token.shift lines bytes))).messages =
        (q.finish found).messages ++
          (readTokens (dropFaults stream)).messages.map (Message.inSection q.sectionName) ∧
      (q.run (stream.map (Token.shift lines bytes))).errors =
        q.report.errors ++
          (reported (leadingFaults stream)).map (Diagnostic.shift lines bytes) ++ after ++
          (readTokens (dropFaults stream)).errors.map (Diagnostic.shift lines bytes) := by
  have hfaults : ∀ t ∈ (leadingFaults stream).map (Token.shift lines bytes),
      Scanner.Reports t := by
    intro t ht
    obtain ⟨t', ht', rfl⟩ := List.mem_map.mp ht
    exact (reports_of_mem_leadingFaults ht' : t'.kind = .invalid)
  have hnoEof : ∀ t ∈ (leadingFaults stream).map (Token.shift lines bytes), t.kind ≠ .eof := by
    intro t ht
    rw [hfaults t ht]
    decide
  -- the leading faults are taken as they come, and change nothing but the report
  have hreported : reported ((leadingFaults stream).map (Token.shift lines bytes)) =
      (reported (leadingFaults stream)).map (Diagnostic.shift lines bytes) := by
    simp only [reported, List.map_map]
    rfl
  have hstream : stream.map (Token.shift lines bytes) =
      (leadingFaults stream).map (Token.shift lines bytes) ++
        (dropFaults stream).map (Token.shift lines bytes) := by
    rw [← List.map_append, leadingFaults_append_dropFaults]
  obtain ⟨hfocus, hsection, hmessages, herrors, hlast, hrecovering⟩ := feed_faults hfaults q
  have hfaulted : Faulted ((reported (leadingFaults stream)).map (Diagnostic.shift lines bytes)) q
      (q.feed ((leadingFaults stream).map (Token.shift lines bytes))) := by
    refine ⟨hfocus, hsection, hmessages, by rw [herrors, hreported], hlast, fun h => ?_⟩
    rw [hrecovering, h]
    rfl
  rw [hstream, run_append hnoEof]
  exact hfaulted.run hq lines bytes found
    (fun t ht => hheaders t ((List.dropWhile_suffix _).subset ht)) houtside

/-! ### Sections

The section of a message is that of the last header, wherever that stands. -/

/-- A header sets the section, and no other token does, whatever it closes on the way (`makeRoom`).
-/
theorem sectionName_step (q : Reader) (t : Token) :
    (q.step t).sectionName = if t.kind = .sectionHeader then t.text else q.sectionName := by
  by_cases hkind : t.kind = .sectionHeader
  · rw [if_pos hkind, step_outside (by rw [hkind]; trivial)]
    simp only [takeIdle, hkind]
  · rw [if_neg hkind, step]
    split
    · rfl
    · simp only [take]
      split
      · simp only [takeIdle]
        split <;> first | rfl | contradiction
      · simp only [takeBody]
        split <;> rfl
      · simp only [takeReplacement]
        split <;> first | rfl | (split <;> rfl)

end Reader

/-- The name of the last section of a stream, empty if it has none. This is what the next part of a
file begins with, see `sectionName_step`. -/
def lastSection (stream : List Token) : String :=
  ((stream.filter (·.kind = .sectionHeader)).getLast?.map Token.text).getD ""

/-- The reader is in the last section it has come to, which is `lastSection` of what it has read. -/
theorem Reader.sectionName_feed (stream : List Token) :
    (Reader.feed {} stream).sectionName = lastSection stream := by
  induction stream using List.reverseRecOn with
  | nil => rfl
  | append_singleton stream t ih =>
    rw [feed_append, feed_cons, feed_nil, sectionName_step, ih, lastSection, lastSection,
      List.filter_append, List.getLast?_append]
    by_cases hkind : t.kind = .sectionHeader
    · simp [hkind]
    · simp [hkind]

/-! ### Files put together

The bytes of the first part end in a line break, so neither a byte order mark nor a window of the
decoder reaches over the seam. -/

attribute [ext] Position

/-- A position that is moved by nothing (`Position.shift`) stays, and so does a token or an error.
-/
@[simp] theorem Position.shift_zero (pos : Position) : pos.shift 0 0 = pos := by
  simp [Position.shift]

@[simp] theorem Token.shift_zero : Token.shift 0 0 = id := by
  funext t
  simp [Token.shift]

@[simp] theorem Diagnostic.shift_zero : Diagnostic.shift 0 0 = id := by
  funext d
  simp [Diagnostic.shift]

/-- Without a section in front messages are as they are: `Message.inSection` fills in a name where
there is none. -/
@[simp] theorem Message.inSection_empty : Message.inSection "" = id := by
  funext m
  obtain ⟨sectionName, key, text, replacements⟩ := m
  by_cases h : sectionName = ""
  · simp [Message.inSection, h]
  · simp [Message.inSection, h]

/-- Behind a line break one is at the start of a line (`Closed`), so the second part starts in the
column in which a file starts. -/
theorem column_afterAll {input : List Symbol} (h : Closed input) (pos : Position) :
    (pos.afterAll input).column = 0 := by
  obtain ⟨style, hlast⟩ := h
  obtain ⟨lines, rfl⟩ := List.getLast?_eq_some_iff.mp hlast
  rw [Position.afterAll_append]
  cases style <;> rfl

section

variable {A B : List UInt8} {b : UInt8}

/-- A byte order mark does not reach over a line break, so whether there is one is told from the
first part. -/
theorem isPrefixOf_append (hb : A.getLast? = some b) (hbreak : b = 0x0A ∨ b = 0x0D) :
    Utf8.byteOrderMark.isPrefixOf (A ++ B) = Utf8.byteOrderMark.isPrefixOf A := by
  rw [Bool.eq_iff_iff, List.isPrefixOf_iff_prefix, List.isPrefixOf_iff_prefix]
  refine ⟨fun h => ?_, fun h => h.trans (List.prefix_append A B)⟩
  rcases List.prefix_or_prefix_of_prefix h (List.prefix_append A B) with h | h
  · exact h
  · have hmem := h.subset (List.mem_of_getLast? hb)
    rcases hbreak with rfl | rfl <;> exact absurd hmem (by decide)

theorem markWidth_le (bytes : List UInt8) : Utf8.markWidth bytes ≤ bytes.length := by
  unfold Utf8.markWidth
  split
  · rename_i h
    exact (List.isPrefixOf_iff_prefix.mp h).length_le
  · exact Nat.zero_le _

/-- Without a byte order mark nothing is skipped by `Utf8.markWidth`. -/
theorem markWidth_eq_zero {bytes : List UInt8} (h : ¬ Utf8.byteOrderMark <+: bytes) :
    Utf8.markWidth bytes = 0 := by
  rw [Utf8.markWidth, if_neg]
  rwa [List.isPrefixOf_iff_prefix]

/-- A byte order mark holds no line break. -/
theorem lineBreaks_drop_markWidth (bytes : List UInt8) :
    lineBreaks (bytes.drop (Utf8.markWidth bytes)) = lineBreaks bytes := by
  unfold Utf8.markWidth
  split
  · rename_i h
    obtain ⟨rest, rfl⟩ := List.isPrefixOf_iff_prefix.mp h
    rw [List.drop_left, lineBreaks_append (by simp [Utf8.byteOrderMark])]
  · rfl

/-- A byte order mark leaves the last byte alone. -/
theorem getLast?_drop_markWidth (hb : A.getLast? = some b) (hbreak : b = 0x0A ∨ b = 0x0D) :
    (A.drop (Utf8.markWidth A)).getLast? = some b := by
  unfold Utf8.markWidth
  split
  · rename_i h
    obtain ⟨rest, rfl⟩ := List.isPrefixOf_iff_prefix.mp h
    rw [List.drop_left]
    rw [List.getLast?_append] at hb
    cases hrest : rest.getLast? with
    | none =>
      rw [hrest, Option.none_or] at hb
      have hmem := List.mem_of_getLast? hb
      rcases hbreak with rfl | rfl <;> exact absurd hmem (by decide)
    | some b' =>
      rw [hrest, Option.some_or] at hb
      exact hb
  · exact hb

variable (hb : A.getLast? = some b) (hbreak : b = 0x0A ∨ b = 0x0D)

include hb hbreak

/-- The first part ends in a line break as symbols too: it is `Closed`. -/
theorem closed_start (file : String) : Closed (Cursor.start file A).rest :=
  (reads_ofRunes_runes _).getLast? (getLast?_drop_markWidth hb hbreak) hbreak

/-- A file is its first part in its place (`Place.scanner`), with the symbols of the second part
behind it. The second must not start with a line feed, which could belong to a carriage return. -/
theorem start_append (file : String) (hlf : B.head? ≠ some 0x0A) :
    Scanner.start file (A ++ B) =
      Place.scanner ⟨0, 0, ofRunes (runes B)⟩ (Scanner.start file A) := by
  have hmark : Utf8.markWidth (A ++ B) = Utf8.markWidth A := by
    rw [Utf8.markWidth, isPrefixOf_append hb hbreak, Utf8.markWidth]
  have hdrop := ofRunes_runes_append (getLast?_drop_markWidth hb hbreak) hbreak hlf
  rw [← List.drop_append_of_le_length (markWidth_le A)] at hdrop
  simp only [Scanner.start, Cursor.start, Place.scanner, Place.cursor, Place.pos, hmark, hdrop,
    Position.shift_zero]
  rfl

/-- Behind the first part (`Place.endPos`) a file goes on as at the start, further down: by as many
lines and bytes as the first part has. -/
theorem endPos_start (file : String) (hmark : ¬ Utf8.byteOrderMark <+: B) :
    Place.endPos (Cursor.start file A) =
      (Cursor.start file B).pos.shift (lineBreaks A) A.length := by
  obtain ⟨hfile, hline, hoffset⟩ := (reads_ofRunes_runes (A.drop (Utf8.markWidth A))).afterAll
    (Cursor.start file A).pos
  have hcolumn := column_afterAll (closed_start hb hbreak file) (Cursor.start file A).pos
  have hlen := markWidth_le A
  rw [lineBreaks_drop_markWidth] at hline
  rw [List.length_drop] at hoffset
  refine Position.ext hfile hline hcolumn ?_
  refine hoffset.trans ?_
  simp only [Cursor.start, markWidth_eq_zero hmark, Position.shift]
  omega

/-- The tokens of a file are those of its two parts, if the first is scanned to its end; otherwise
they are those of the first. This is `Place.run_scanner` for the first part in its place. -/
theorem tokens_append (file : String)
    (hstart : ∀ b ∈ B.head?, b ≠ 0x20 ∧ b ≠ 0x09 ∧ b ≠ 0x0A ∧ b ≠ 0x0D)
    (hmark : ¬ Utf8.byteOrderMark <+: B) :
    (∃ taken eof, tokens file A = taken ++ [eof] ∧ eof.kind = .eof ∧
      tokens file (A ++ B) = taken ++ (tokens file B).map (Token.shift (lineBreaks A) A.length)) ∨
    ((∀ t ∈ tokens file A, t.kind ≠ .eof) ∧ tokens file (A ++ B) = tokens file A) := by
  have hlf : B.head? ≠ some 0x0A := fun h => (hstart 0x0A h).2.2.1 rfl
  have hmargin : AtMargin (ofRunes (runes B)) := (reads_ofRunes_runes B).head? hstart
  have hclosed := closed_start hb hbreak file
  -- the second part in its place, with nothing behind it
  have hsecond : Scanner.run ⟨⟨ofRunes (runes B), Place.endPos (Cursor.start file A)⟩, [.root]⟩ =
      (tokens file B).map (Token.shift (lineBreaks A) A.length) := by
    have hrun := Place.run_scanner_of_tail_eq_nil (p := ⟨lineBreaks A, A.length, []⟩) rfl
      (s := Scanner.start file B) .root (Symbol.clean_ofRunes _)
    refine Eq.trans ?_ hrun
    rw [endPos_start hb hbreak file hmark]
    simp only [Place.scanner, Place.cursor, Scanner.start, List.append_nil, Place.pos, Cursor.start,
      markWidth_eq_zero hmark]
    rfl
  have hfirst := Place.run_scanner (p := ⟨0, 0, ofRunes (runes B)⟩) hmargin
    (s := Scanner.start file A) .root (Symbol.clean_ofRunes _)
    (Place.Seam.ready (.inr ⟨hclosed, hmargin⟩)) (.inr hclosed)
  rw [← start_append hb hbreak file hlf] at hfirst
  have htoken : Place.token ⟨0, 0, ofRunes (runes B)⟩ = id := Token.shift_zero
  rcases hfirst with ⟨taken, eof, hrun, heof, hrun'⟩ | ⟨hno, hrun'⟩
  · refine .inl ⟨taken, eof, hrun, heof, ?_⟩
    rw [htoken, List.map_id] at hrun'
    refine hrun'.trans ?_
    rw [← hsecond]
    simp only [Place.pos, Position.shift_zero]
    rfl
  · rw [htoken, List.map_id] at hrun'
    exact .inr ⟨hno, hrun'⟩

end

/-- Where a scan comes to its end, the reader is `Settled`: it has at most a message to close, or
knows of a fault. -/
theorem settled_of_tokens {file : String} {bytes : List UInt8} {taken : List Token} {eof : Token}
    (h : tokens file bytes = taken ++ [eof]) (heof : eof.kind = .eof) :
    (∀ t ∈ taken, t.kind ≠ .eof) ∧ (Reader.feed {} taken).Settled := by
  have hstart : Agree (Scanner.start file bytes).stack {} := ⟨by simp, .inl (.idle (.inl rfl))⟩
  obtain ⟨taken', last, s, hrun, hno, hagree, hlast⟩ :=
    @scan_induction (fun s q => Agree s.stack q)
      (fun s q yield s' hagree hmove _ heof => agree_move hagree hmove heof)
      (Scanner.start file bytes) {} (Symbol.clean_ofRunes _) hstart
  have htokens : taken ++ [eof] = taken' ++ last := h.symm.trans hrun
  rcases hlast with ⟨rfl, -⟩ | ⟨⟨eof', rfl, -⟩, hroot⟩
  · rw [List.append_nil] at htokens
    exact absurd heof (hno eof (by rw [← htokens]; simp))
  · obtain ⟨rfl, -⟩ := List.append_inj' htokens rfl
    exact ⟨hno, hagree.settled (hagree.margin (.inr hroot))⟩

theorem text_ne_of_mem_tokens (file : String) (bytes : List UInt8) :
    ∀ t ∈ tokens file bytes, t.kind = .sectionHeader → t.text ≠ "" :=
  Scanner.forall_mem_run
    (fun _ _ _ hmove t ht hkind => (Scanner.sectionHeader_cases hmove t ht hkind).2)
    (Symbol.clean_ofRunes _)

/-- Behind its leading faults a file starts with what belongs to no message (`Reader.Outside`), as
the scan begins at the margin. -/
theorem outside_dropFaults_tokens (file : String) (bytes : List UInt8) :
    ∀ t ∈ (dropFaults (tokens file bytes)).head?, Reader.Outside (some t.kind) :=
  Scanner.outside_dropFaults_run (Symbol.clean_ofRunes _)

/-- The faults at the start of a file are its first errors, and change nothing else about `parse`.
-/
theorem parse_eq_readTokens_dropFaults (file : String) (bytes : List UInt8) :
    (parse file bytes).messages = (readTokens (dropFaults (tokens file bytes))).messages ∧
      (parse file bytes).errors = reported (leadingFaults (tokens file bytes)) ++
        (readTokens (dropFaults (tokens file bytes))).errors := by
  obtain ⟨after, hafter, hm, he⟩ := @Reader.run_restart {} (.inr (.inl rfl)) 0 0 ⟨"", {}⟩
    (tokens file bytes) (text_ne_of_mem_tokens file bytes) (outside_dropFaults_tokens file bytes)
  obtain rfl : after = [] := (List.nil_append after).symm.trans hafter.symm
  simp only [Token.shift_zero, Diagnostic.shift_zero, Message.inSection_empty, List.map_id] at hm he
  refine ⟨hm, he.trans ?_⟩
  simp

/-- Blocks of a file are independent. Let `A` end in a line break, and `B` start with neither a
blank nor a line break nor a byte order mark. If the scan of `A` comes to its end, then the tokens
and messages of the whole are those of `A` and those of `B`, further down and in the last section of
`A`; so are the errors, except that the faults with which `B` starts (`leadingFaults`) come before
the errors that are found only when `A` ends, about replacements left open. If the scan of `A` is
given up, then so is the scan of the whole. -/
theorem parse_append (file : String) {A B : List UInt8}
    (hend : A.getLast? = some 0x0A ∨ A.getLast? = some 0x0D)
    (hstart : ∀ b ∈ B.head?, b ≠ 0x20 ∧ b ≠ 0x09 ∧ b ≠ 0x0A ∧ b ≠ 0x0D)
    (hmark : ¬ Utf8.byteOrderMark <+: B) :
    ((tokens file A).getLast?.map Token.kind = some .eof →
      tokens file (A ++ B) =
        (tokens file A).dropLast ++ (tokens file B).map (Token.shift (lineBreaks A) A.length) ∧
      (parse file (A ++ B)).messages =
        (parse file A).messages ++
          (parse file B).messages.map (Message.inSection (lastSection (tokens file A))) ∧
      ∃ before after rest,
        before = (Reader.feed {} (tokens file A).dropLast).report.errors ∧
        (parse file A).errors = before ++ after ∧
        (parse file B).errors = reported (leadingFaults (tokens file B)) ++ rest ∧
        (parse file (A ++ B)).errors =
          before ++
            (reported (leadingFaults (tokens file B))).map
              (Diagnostic.shift (lineBreaks A) A.length) ++
            after ++ rest.map (Diagnostic.shift (lineBreaks A) A.length) ∧
        (∀ d ∈ after, d.cause.isSemantic = true) ∧
        (after = [] ∨ leadingFaults (tokens file B) = [] →
          (parse file (A ++ B)).errors =
            (parse file A).errors ++
              (parse file B).errors.map (Diagnostic.shift (lineBreaks A) A.length))) ∧
    ((tokens file A).getLast?.map Token.kind ≠ some .eof →
      tokens file (A ++ B) = tokens file A) := by
  obtain ⟨b, hb, hbreak⟩ : ∃ b, A.getLast? = some b ∧ (b = 0x0A ∨ b = 0x0D) := by
    rcases hend with h | h
    · exact ⟨_, h, .inl rfl⟩
    · exact ⟨_, h, .inr rfl⟩
  rcases tokens_append hb hbreak file hstart hmark with
    ⟨taken, eof, htokens, heof, hwhole⟩ | ⟨hno, hwhole⟩
  -- the scan of the first part comes to its end
  · refine ⟨fun _ => ?_, fun hne => absurd (by rw [htokens]; simp [heof]) hne⟩
    obtain ⟨hnoEof, hsettled⟩ := settled_of_tokens htokens heof
    have hA : parse file A = (Reader.feed {} taken).finish ⟨eof.describe, eof.pos⟩ := by
      rw [parse, htokens, readTokens, Reader.run_append hnoEof, Reader.run_eof heof]
    obtain ⟨hmB, heB⟩ := parse_eq_readTokens_dropFaults file B
    -- the reader has the last section of the first part when it gets to the second
    have hsection : (Reader.feed {} taken).sectionName = lastSection (tokens file A) := by
      rw [Reader.sectionName_feed, htokens, lastSection, lastSection, List.filter_append]
      simp [heof]
    obtain ⟨after, hafter, hm, he⟩ := Reader.run_restart hsettled (lineBreaks A) A.length
      ⟨eof.describe, eof.pos⟩ (text_ne_of_mem_tokens file B) (outside_dropFaults_tokens file B)
    rw [← hA, ← hmB, hsection] at hm
    rw [← hA] at hafter
    have hparse : parse file (A ++ B) = (Reader.feed {} taken).run
        ((tokens file B).map (Token.shift (lineBreaks A) A.length)) := by
      rw [parse, hwhole, readTokens, Reader.run_append hnoEof]
    rw [← hparse] at hm he
    have hdrop : (tokens file A).dropLast = taken := by rw [htokens, List.dropLast_concat]
    rw [hdrop]
    refine ⟨hwhole, hm, _, after, _, rfl, hafter, heB, he, ?_, ?_⟩
    -- what is left to report at the end of the first part is about options
    · obtain ⟨-, ds, hds, hsemantic⟩ := hsettled.grows_makeRoom none ⟨eof.describe, eof.pos⟩
      rw [hA] at hafter
      obtain rfl : after = ds := List.append_cancel_left (hafter.symm.trans hds)
      exact hsemantic
    · rw [he, hafter, heB]
      rintro (h | h)
      · simp [h]
      · simp [h, reported]
  -- the scan of the first part is given up
  · refine ⟨fun hlast => ?_, fun _ => hwhole⟩
    obtain ⟨t, ht, hkind⟩ := Option.map_eq_some_iff.mp hlast
    exact absurd hkind (hno t (List.mem_of_getLast? ht))

/-- A block that breaks off inside a replacement leaves the next one alone, in its section. -/
theorem parse_append_of_broken_block :
    (parse "" (Utf8.encode "[[s]]\na:\n\tx $\x7bn\n" ++ Utf8.encode "b:\n\ty\n")).messages =
      (parse "" (Utf8.encode "[[s]]\na:\n\tx $\x7bn\n")).messages ++
        (parse "" (Utf8.encode "b:\n\ty\n")).messages.map (Message.inSection "s") := by
  have hhead : (Utf8.encode "b:\n\ty\n").head? = some 0x62 := by decide
  have happend := parse_append "" (A := Utf8.encode "[[s]]\na:\n\tx $\x7bn\n")
    (B := Utf8.encode "b:\n\ty\n") (.inl (by decide)) (by rw [hhead]; simp) (by decide)
  have hsection : lastSection (tokens "" (Utf8.encode "[[s]]\na:\n\tx $\x7bn\n")) = "s" := by
    rw [tokens_eq_runFor]
    decide +kernel
  rw [← hsection]
  exact (happend.1 (by rw [tokens_eq_runFor]; decide +kernel)).2.1

/-- The faults at the start of the second part do come first: here the missing option of a
replacement that breaks off is reported behind the fault of the next line. -/
theorem errors_append_ne :
    (Utf8.encode "k:\n\t$\x7bn:plural.one\x7bx\x7d\n").getLast? = some 0x0A ∧
      (Utf8.encode "/x\n").head? = some 0x2F ∧
      (tokens "" (Utf8.encode "k:\n\t$\x7bn:plural.one\x7bx\x7d\n")).getLast?.map Token.kind =
        some .eof ∧
      (parse "" (Utf8.encode "k:\n\t$\x7bn:plural.one\x7bx\x7d\n" ++ Utf8.encode "/x\n")).errors ≠
        (parse "" (Utf8.encode "k:\n\t$\x7bn:plural.one\x7bx\x7d\n")).errors ++
          (parse "" (Utf8.encode "/x\n")).errors.map
            (Diagnostic.shift (lineBreaks (Utf8.encode "k:\n\t$\x7bn:plural.one\x7bx\x7d\n"))
              (Utf8.encode "k:\n\t$\x7bn:plural.one\x7bx\x7d\n").length) := by
  simp only [parse, tokens_eq_runFor]
  decide +kernel

end MessageCatalog
