import MessageCatalog.Reading
import MessageCatalog.Proofs.Moves

/-!
# MessageCatalog.Proofs.Stream

The reader fed by the scanner. `Reader.feed` takes some tokens at once; reading a stream is feeding
its first part and reading the rest (`Reader.run_append`), so that a file is parsed by two machines
that go on together, one step of the scanner and its tokens at a time.

The module has what every proof about such a pair needs.

* `Reader.step` has two parts, making room and taking, and for a token that belongs to the innermost
  construct the first does nothing. The lemmas `step_text`, `step_optionEnd` and so on say, one for
  each kind of token, what the reader then is. Proofs about readers are stated with these and do not
  unfold the step.
* `scan_induction` and `parse_induction` package the induction: what holds at the start and is kept
  by a step of the scanner together with the reader holds when the reader finishes. The steps are
  those of `Scanner.Move`, of which `MessageCatalog.Proofs.Moves` shows that there are no others.
* The scan itself is a recursion that no evaluation can follow; `Scanner.runFor` is one that can,
  and `tokens_eq_runFor` proves that they agree.
-/

namespace MessageCatalog

/-- Taking an option changes the draft of the replacement (`Draft.add`), and reports what is wrong
with the option: at most one error, at its place. -/
theorem OpenReplacement.addOption_spec (r : OpenReplacement) (option : ReplacementOption)
    (report : Report) :
    (r.addOption option report).1 = { r with draft := (r.draft.add option).1 } ∧
      (r.addOption option report).2.errors =
        report.errors ++ (r.draft.add option).2.toList.map (⟨·, option.pos⟩) ∧
      (r.addOption option report).2.recovering = report.recovering := by
  obtain ⟨key, pos, textPos, kind, draft, fresh⟩ := r
  cases draft with
  | none => exact ⟨rfl, (List.append_nil _).symm, rfl⟩
  | money | plural | select => exact ⟨rfl, rfl, rfl⟩

namespace Reader

/-! ### Feeding a reader

Only the first end-of-file token ends the reading, so tokens that are none can be taken in portions.
-/

/-- The reader after some tokens, each of which it has taken by `step`. Unlike `run` it does not
stop at the end of the file and does not finish. -/
def feed (q : Reader) (stream : List Token) : Reader := stream.foldl step q

@[simp] theorem feed_nil (q : Reader) : q.feed [] = q := rfl

@[simp] theorem feed_cons (q : Reader) (t : Token) (stream : List Token) :
    q.feed (t :: stream) = (q.step t).feed stream := rfl

/-- Feeding goes on where it stopped, so `feed` may be cut anywhere. -/
theorem feed_append (q : Reader) (xs ys : List Token) : q.feed (xs ++ ys) = (q.feed xs).feed ys :=
  List.foldl_append

/-- Reading goes on behind tokens that do not end it: `run` is `feed` of those, and `run` of the
rest. -/
theorem run_append {xs : List Token} (h : ∀ t ∈ xs, t.kind ≠ .eof) (ys : List Token) :
    ∀ q : Reader, q.run (xs ++ ys) = (q.feed xs).run ys := by
  induction xs with
  | nil => intro q; rfl
  | cons t xs ih =>
    intro q
    rw [List.cons_append, run, if_neg (h t (by simp)), ih fun x hx => h x (by simp [hx]), feed_cons]

/-- An end-of-file token ends the reading, whatever stands behind it. -/
theorem run_eof {t : Token} (h : t.kind = .eof) (q : Reader) (rest : List Token) :
    q.run (t :: rest) = q.finish ⟨t.describe, t.pos⟩ := by
  rw [run, if_pos h]

/-! ### Tokens that belong where they come

A token belongs to the innermost construct if that takes its kind (`bodyTakes`,
`OpenReplacement.takes`). Then `makeRoom` leaves the reader as it is. An invalid token belongs
everywhere and touches nothing but the report. -/

/-- An invalid token is reported, and the reader stays where it is, whatever is open. -/
theorem step_of_invalid {q : Reader} {t : Token} (h : t.kind = .invalid) :
    q.step t = q.takeInvalid t := by
  rw [step, if_pos h]

theorem makeRoom_idle {q : Reader} (h : q.focus = .idle) (kind : Option Token.Kind)
    (found : Found) : q.makeRoom kind found = q := by
  obtain ⟨focus, sectionName, messages, report, lastPos⟩ := q
  obtain rfl : focus = .idle := h
  simp [makeRoom, unwind]

/-- Nothing is closed by `makeRoom` for a token that belongs to the body. For a replacement it is
the same. -/
theorem makeRoom_body {q : Reader} {m : Message} {frames : List Frame} {kind : Token.Kind}
    (h : q.focus = .body m frames) (htakes : bodyTakes frames kind = true) (found : Found) :
    q.makeRoom (some kind) found = q := by
  obtain ⟨focus, sectionName, messages, report, lastPos⟩ := q
  obtain rfl : focus = .body m frames := h
  cases frames <;> simp [makeRoom, unwind, unwindBody, htakes]

/-- Nothing is closed by `makeRoom` for a token that belongs to the replacement. -/
theorem makeRoom_replacement {q : Reader} {r : OpenReplacement} {m : Message}
    {frames : List Frame} {kind : Token.Kind} (h : q.focus = .replacement r m frames)
    (htakes : r.takes kind = true) (found : Found) : q.makeRoom (some kind) found = q := by
  obtain ⟨focus, sectionName, messages, report, lastPos⟩ := q
  obtain rfl : focus = .replacement r m frames := h
  simp [makeRoom, unwind, htakes]

/-- A token that belongs to the body is taken there, by `takeBody`. The equations for single kinds
of tokens below are cases of this. -/
theorem step_body {q : Reader} {t : Token} {m : Message} {frames : List Frame}
    (h : q.focus = .body m frames) (htakes : bodyTakes frames t.kind = true) :
    q.step t = { q.takeBody t m frames with lastPos := t.pos } := by
  have hkind : t.kind ≠ .invalid := by
    intro hk
    rw [hk] at htakes
    cases htakes
  rw [step, if_neg hkind, makeRoom_body h htakes, take, h]

/-- A token that belongs to the replacement is taken there, by `takeReplacement`. -/
theorem step_replacement {q : Reader} {t : Token} {r : OpenReplacement} {m : Message}
    {frames : List Frame} (h : q.focus = .replacement r m frames)
    (htakes : r.takes t.kind = true) :
    q.step t = { q.takeReplacement t r m frames with lastPos := t.pos } := by
  have hkind : t.kind ≠ .invalid := by
    intro hk
    rw [hk] at htakes
    cases htakes
  rw [step, if_neg hkind, makeRoom_replacement h htakes, take, h]

theorem step_newline {q : Reader} {t : Token} {m : Message} {frames : List Frame}
    (h : q.focus = .body m frames) (ht : t.kind = .messageNewline) :
    q.step t =
      { q with
        focus := .body (if m.hasContent then m.pushText " " else m) frames, lastPos := t.pos } := by
  rw [step_body h (by rw [ht]; rfl)]
  simp only [takeBody, ht]

theorem step_text {q : Reader} {t : Token} {m : Message} {frames : List Frame}
    (h : q.focus = .body m frames) (ht : t.kind = .messageText) :
    q.step t = { q with focus := .body (m.pushText t.text) frames, lastPos := t.pos } := by
  rw [step_body h (by rw [ht]; rfl)]
  simp only [takeBody, ht]

/-- A replacement is opened in the body, at the end of its text (`Reader.takeBody`). It keeps the
body that it is in, and the frames around it. -/
theorem step_replacementStart {q : Reader} {t : Token} {m : Message} {frames : List Frame}
    (h : q.focus = .body m frames) (ht : t.kind = .replacementStart) :
    q.step t =
      { q with
        focus := .replacement { key := t.text, pos := t.pos, textPos := m.text.length } m frames,
        lastPos := t.pos } := by
  rw [step_body h (by rw [ht]; rfl)]
  simp only [takeBody, ht]

/-- A closing brace ends an option body, and its option is handed to the replacement by
`Frame.close`, with whatever that has to report. -/
theorem step_optionEnd {q : Reader} {t : Token} {m : Message} {frame : Frame}
    {frames : List Frame} (h : q.focus = .body m (frame :: frames)) (ht : t.kind = .optionEnd) :
    q.step t =
      { q with
        focus := .replacement (frame.close m q.report).1 frame.outer frames,
        report := (frame.close m q.report).2,
        lastPos := t.pos } := by
  rw [step_body h (by rw [ht]; rfl)]
  simp only [takeBody, ht]

/-- An option opens an empty body, around which there is one `Frame` more. -/
theorem step_optionStart {q : Reader} {t : Token} {r : OpenReplacement} {m : Message}
    {frames : List Frame} (h : q.focus = .replacement r m frames) (ht : t.kind = .optionStart) :
    q.step t =
      { q with
        focus := .body (.empty "" (OptionName.ofText t.text).key)
          ({ name := OptionName.ofText t.text, pos := t.pos,
             replacement := { r with fresh := false }, outer := m } :: frames),
        lastPos := t.pos } := by
  rw [step_replacement h (by rw [ht]; rfl)]
  simp only [takeReplacement, ht]

/-- A closing brace ends a replacement, which `attach` puts into the body behind it. -/
theorem step_replacementEnd {q : Reader} {t : Token} {r : OpenReplacement} {m : Message}
    {frames : List Frame} (h : q.focus = .replacement r m frames)
    (ht : t.kind = .replacementEnd) :
    q.step t =
      { q with
        focus := .body (attach m (r.finish q.lastPos).1) frames,
        report := q.report.addAll (r.finish q.lastPos).2,
        lastPos := t.pos } := by
  rw [step_replacement h (by rw [ht]; rfl)]
  simp only [takeReplacement, ht]

/-- A type behind the key sets the kind of the replacement, and begins its draft (`Draft.ofKind`).
One that is not known is reported and leaves the replacement without a kind. -/
theorem step_replacementType {q : Reader} {t : Token} {r : OpenReplacement} {m : Message}
    {frames : List Frame} (h : q.focus = .replacement r m frames) (hfresh : r.fresh = true)
    (ht : t.kind = .replacementType) :
    q.step t =
      match ReplacementKind.ofName? t.text with
      | some kind =>
        { q with
          focus := .replacement { r with kind := some kind, draft := .ofKind kind, fresh := false }
            m frames,
          lastPos := t.pos }
      | none =>
        { q with
          focus := .replacement { r with kind := none, draft := .none, fresh := false } m frames,
          report := q.report.add (.invalidType t.text) t.pos,
          lastPos := t.pos } := by
  rw [step_replacement h (by rw [ht]; exact hfresh)]
  simp only [takeReplacement, ht]
  cases ReplacementKind.ofName? t.text <;> rfl

end Reader

/-! ### Evaluating a scan

The measure of a scanner bounds the steps it still takes, which makes it fuel. -/

/-- The tokens of the first `n` steps of a scan. Unlike `run` it is structurally recursive and can
be evaluated. -/
def Scanner.runFor : Nat → Scanner → List Token
  | 0, _ => []
  | n + 1, s => if s.isDone then [] else s.step.1 ++ runFor n s.step.2

/-- With its measure for fuel a scan is complete. Every step lowers `Scanner.measure`, which is what
makes `run` terminate. -/
theorem Scanner.runFor_eq_run {n : Nat} : ∀ {s : Scanner}, s.measure ≤ n → s.runFor n = s.run := by
  induction n with
  | zero =>
    intro s h
    cases hdone : s.isDone with
    | true =>
      rw [run_of_isDone hdone]
      rfl
    | false => exact absurd (measure_step_lt hdone) (by omega)
  | succ n ih =>
    intro s h
    cases hdone : s.isDone with
    | true =>
      rw [run_of_isDone hdone, runFor, if_pos hdone]
    | false =>
      have hlt := measure_step_lt hdone
      rw [run_of_not_isDone hdone, runFor, if_neg (by simp [hdone]), ih (by omega)]

/-- The tokens of a file, in a form that can be evaluated: with the measure for fuel (`runFor`). -/
theorem tokens_eq_runFor (file : String) (bytes : List UInt8) :
    tokens file bytes = (Scanner.start file bytes).runFor (Scanner.start file bytes).measure :=
  (Scanner.runFor_eq_run (Nat.le_refl _)).symm

/-! ### Two machines in step

An invariant speaks of the scanner and the reader at once, since what a token may be depends on
where the scanner is, and what becomes of it on where the reader is. -/

/-- What is kept by every step of the scanner together with the reader (`Reader.feed`) holds where
the scan ends: it is given up, or only the end-of-file token is left, which the scanner yields at
the margin. -/
theorem scan_induction {Inv : Scanner → Reader → Prop}
    (hstep : ∀ (s : Scanner) (q : Reader) (yield : List Token) (s' : Scanner),
      Inv s q → Scanner.Move s yield s' → s'.cursor.rest <:+ s.cursor.rest →
      (∀ t ∈ yield, t.kind ≠ .eof) → Inv s' (q.feed yield))
    {s : Scanner} {q : Reader} (hclean : Symbol.Clean s.cursor.rest) (hinv : Inv s q) :
    ∃ (taken last : List Token) (s' : Scanner),
      s.run = taken ++ last ∧ (∀ t ∈ taken, t.kind ≠ .eof) ∧ Inv s' (q.feed taken) ∧
      (last = [] ∧ s'.isDone = true ∨
        (∃ eof, last = [eof] ∧ eof.kind = .eof) ∧ ∃ below, s'.stack = .root :: below) := by
  induction s using Scanner.step_induction generalizing q with
  | stop s hdone =>
    refine ⟨[], [], s, ?_, by simp, hinv, .inl ⟨rfl, hdone⟩⟩
    rw [Scanner.run_of_isDone hdone]
    rfl
  | go s hdone ih =>
    have hmove := Scanner.move_step hdone hclean
    have hsuffix := Scanner.rest_step_suffix s
    rw [Scanner.run_of_not_isDone hdone]
    -- either the step keeps the invariant, or it has found the end of the file
    rcases hmove.eof with heof | ⟨below, pos, hroot, heof, hend, -⟩
    · obtain ⟨taken, last, s', hrun, htaken, hinv', hlast⟩ :=
        ih (hclean.of_suffix hsuffix) (hstep s q _ _ hinv hmove hsuffix heof)
      refine ⟨s.step.1 ++ taken, last, s', ?_, ?_, ?_, hlast⟩
      · rw [hrun, List.append_assoc]
      · exact List.forall_mem_append.mpr ⟨heof, htaken⟩
      · rw [Reader.feed_append]
        exact hinv'
    · refine ⟨[], _, s, rfl, by simp, hinv,
        .inr ⟨⟨Scanner.token .eof [] pos, ?_, rfl⟩, below, hroot⟩⟩
      rw [heof, Scanner.run_of_isDone hend]
      rfl

/-- What holds at the start of a file and is kept by every step of the scanner together with the
reader holds when the reader finishes (`Reader.finish`), which it does at the margin. -/
theorem parse_induction {Inv : Scanner → Reader → Prop} {P : Parsed → Prop} {file : String}
    {bytes : List UInt8} (hstart : Inv (Scanner.start file bytes) {})
    (hstep : ∀ (s : Scanner) (q : Reader) (yield : List Token) (s' : Scanner),
      Inv s q → Scanner.Move s yield s' → s'.cursor.rest <:+ s.cursor.rest →
      (∀ t ∈ yield, t.kind ≠ .eof) → Inv s' (q.feed yield))
    (hfinish : ∀ (s : Scanner) (q : Reader) (found : Found),
      Inv s q → (s.isDone = true ∨ ∃ below, s.stack = .root :: below) → P (q.finish found)) :
    P (parse file bytes) := by
  obtain ⟨taken, last, s, hrun, htaken, hinv, hlast⟩ :=
    scan_induction hstep (Symbol.clean_ofRunes _) hstart
  have hparse : parse file bytes = Reader.run {} (taken ++ last) := congrArg _ hrun
  rw [hparse, Reader.run_append htaken]
  rcases hlast with ⟨rfl, hdone⟩ | ⟨⟨eof, rfl, heof⟩, hroot⟩
  · exact hfinish s _ _ hinv (.inl hdone)
  · rw [Reader.run_eof heof]
    exact hfinish s _ _ hinv (.inr hroot)

end MessageCatalog
