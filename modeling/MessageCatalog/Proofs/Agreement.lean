import MessageCatalog.Proofs.Stream

/-!
# MessageCatalog.Proofs.Agreement

The scanner and the reader agree on the shape of a stream of tokens, so no error of a parse is about
that shape: `cause_of_mem_errors_parse`.

The stack of the scanner and the focus of the reader correspond (`InStep`), at every depth, as long
as nothing is wrong: the scanner is in a body where the reader is, and in the options of a
replacement where the reader is. A fault breaks this. It sends the scanner back to the margin while
the reader is still inside of a message; but then the reader knows that a fault has been reported
(`Report.recovering`), and closes what is open without a word. So the invariant, `Agree`, is that
the two are in step, or the reader is recovering and the scanner at the margin, and that no error so
far is about the shape of the stream.

The proof has three parts.

* What each part of the reader may report is said once: an option and the details of a replacement
  only errors of meaning (`Cause.isSemantic`), closing what is open also errors of shape
  (`Cause.isShape`), but none where the reader is recovering. Both are put as a report that grows
  (`Report.Grows`).
* `agree_move` goes through the moves of the scanner, feeds the tokens of each to the reader, and
  shows that they belong where they come.
* `Reader.sourced_run` traces every error of any stream to a token of it, or to what it is about.
  With the errors of shape excluded, that is the theorem.
-/

namespace MessageCatalog

/-! ### Kinds of errors

The causes are of four kinds: what the scanner has reported (`Cause.reported`), a type that is not
known (`Cause.invalidType`), errors of shape, and errors of meaning. -/

namespace Cause

/-- The error is about the shape of the stream of tokens: something is not where it belongs, or is
missing. -/
def isShape : Cause → Bool
  | .unexpectedToken _ | .replacementClosing _ | .optionClosing _ => true
  | _ => false

/-- The error is about the meaning of the options of a money, plural or select replacement. Such
errors are found where an option is taken (`Draft.add`) or the details are finished
(`Draft.finish`). -/
def isSemantic : Cause → Bool
  | .invalidMoneyOption _ | .currencyRepeated | .currencyNotPlain | .currencyEmpty
  | .currencyRequired => true
  | .invalidPluralOption _ | .pluralTypes _ _ | .categoryRepeated _ | .invalidNumber _
  | .numberRepeated _ | .otherRequired => true
  | .caseRepeated _ | .directiveRepeated _ | .directiveNotPlain _ | .unknownDefault _ => true
  | _ => false

theorem isShape_of_isSemantic {cause : Cause} (h : cause.isSemantic = true) :
    cause.isShape = false := by
  cases cause <;> first | rfl | cases h

end Cause

/-- An option of a money replacement is refused for its meaning. So it is for the other types, and
thereby for any `Draft`. -/
theorem MoneyDraft.isSemantic_of_add {draft : MoneyDraft} {option : ReplacementOption}
    {cause : Cause} (h : (draft.add option).2 = some cause) : cause.isSemantic = true := by
  unfold add at h
  split at h
  · split at h
    · split at h
      · obtain rfl := Option.some.inj h; rfl
      · split at h
        · dsimp only at h
          split at h
          · obtain rfl := Option.some.inj h; rfl
          · cases h
        · obtain rfl := Option.some.inj h; rfl
    · obtain rfl := Option.some.inj h; rfl
  · obtain rfl := Option.some.inj h; rfl

theorem PluralDraft.isSemantic_of_add {draft : PluralDraft} {option : ReplacementOption}
    {cause : Cause} (h : (draft.add option).2 = some cause) : cause.isSemantic = true := by
  unfold add at h
  split at h
  · split at h
    · unfold addType at h
      split at h
      · dsimp only at h
        split at h
        · cases h
        · obtain rfl := Option.some.inj h; rfl
      · cases h
    · split at h
      · unfold addCategory at h
        split at h
        · obtain rfl := Option.some.inj h; rfl
        · cases h
      · obtain rfl := Option.some.inj h; rfl
  · split at h
    · unfold addNumber at h
      split at h
      · obtain rfl := Option.some.inj h; rfl
      · cases h
    · obtain rfl := Option.some.inj h; rfl

theorem SelectDraft.isSemantic_of_add {draft : SelectDraft} {option : ReplacementOption}
    {cause : Cause} (h : (draft.add option).2 = some cause) : cause.isSemantic = true := by
  unfold add at h
  split at h
  · unfold addCase at h
    split at h
    · obtain rfl := Option.some.inj h; rfl
    · cases h
  · unfold addDirective at h
    dsimp only at h
    split at h
    · obtain rfl := Option.some.inj h; rfl
    · split at h
      · obtain rfl := Option.some.inj h; rfl
      · split at h <;> cases h

/-- An option is refused for its meaning, if `Draft.add` refuses it. -/
theorem Draft.isSemantic_of_add {draft : Draft} {option : ReplacementOption} {cause : Cause}
    (h : (draft.add option).2 = some cause) : cause.isSemantic = true := by
  cases draft with
  | none => cases h
  | money draft => exact MoneyDraft.isSemantic_of_add h
  | plural draft => exact PluralDraft.isSemantic_of_add h
  | select draft => exact SelectDraft.isSemantic_of_add h

/-- Details are refused for their meaning, if `Draft.finish` refuses them. -/
theorem Draft.isSemantic_of_finish {draft : Draft} {start last : Position} {d : Diagnostic}
    (h : d ∈ (draft.finish start last).2) : d.cause.isSemantic = true := by
  cases draft with
  | none => cases h
  | money draft =>
    simp only [finish, MoneyDraft.finish] at h
    split at h
    · cases h
    · obtain rfl := List.mem_singleton.mp h; rfl
  | plural draft =>
    simp only [finish, PluralDraft.finish] at h
    split at h
    · cases h
    · obtain rfl := List.mem_singleton.mp h; rfl
  | select draft =>
    simp only [finish, SelectDraft.finish] at h
    split at h
    · cases h
    · obtain rfl := List.mem_singleton.mp h; rfl

/-! ### What closing reports

Closing a construct is the only way to report an error of shape inside a message. -/

namespace Report

/-- The report goes on with errors of one sort, in the same state of mind: whether a fault has come
before (`recovering`) stays as it is. -/
def Grows (P : Diagnostic → Prop) (r r' : Report) : Prop :=
  r'.recovering = r.recovering ∧ ∃ ds, r'.errors = r.errors ++ ds ∧ ∀ d ∈ ds, P d

theorem Grows.refl {P : Diagnostic → Prop} (r : Report) : Grows P r r :=
  ⟨rfl, [], by simp, by simp⟩

/-- A report grows in stages, so that `Grows` is shown call by call. -/
theorem Grows.trans {P : Diagnostic → Prop} {r₁ r₂ r₃ : Report} (h₁ : Grows P r₁ r₂)
    (h₂ : Grows P r₂ r₃) : Grows P r₁ r₃ := by
  obtain ⟨hr₁, ds₁, he₁, hp₁⟩ := h₁
  obtain ⟨hr₂, ds₂, he₂, hp₂⟩ := h₂
  refine ⟨hr₂.trans hr₁, ds₁ ++ ds₂, by rw [he₂, he₁, List.append_assoc], ?_⟩
  intro d hd
  rcases List.mem_append.mp hd with hd | hd
  · exact hp₁ d hd
  · exact hp₂ d hd

theorem Grows.mono {P Q : Diagnostic → Prop} {r r' : Report} (h : Grows P r r')
    (hpq : ∀ d, P d → Q d) : Grows Q r r' := by
  obtain ⟨hr, ds, he, hp⟩ := h
  exact ⟨hr, ds, he, fun d hd => hpq d (hp d hd)⟩

/-- A report grows by the errors that `Report.addAll` adds, if they are all of the sort. -/
theorem grows_addAll {P : Diagnostic → Prop} (r : Report) {ds : List Diagnostic}
    (h : ∀ d ∈ ds, P d) : Grows P r (r.addAll ds) := ⟨rfl, ds, rfl, h⟩

/-- What holds of the errors so far and of those that come holds of all. This is how `Grows` is
used. -/
theorem Grows.forall {P Q : Diagnostic → Prop} {r r' : Report} (h : Grows P r r')
    (hpq : ∀ d, P d → Q d) (hr : ∀ d ∈ r.errors, Q d) : ∀ d ∈ r'.errors, Q d := by
  obtain ⟨-, ds, he, hp⟩ := h
  intro d hd
  rw [he] at hd
  rcases List.mem_append.mp hd with hd | hd
  · exact hr d hd
  · exact hpq d (hp d hd)

/-- Errors about the meaning of options. -/
def Semantic (d : Diagnostic) : Prop := d.cause.isSemantic = true

/-- What closing may report: errors of meaning, and errors of shape unless a fault has come before.
While the reader is recovering from a fault it keeps quiet about shape, see `Report.addShape`. -/
def Closing (recovering : Bool) (d : Diagnostic) : Prop :=
  d.cause.isSemantic = true ∨ (recovering = false ∧ d.cause.isShape = true)

theorem Grows.then {r₁ r₂ r₃ : Report} (h₁ : Grows (Closing r₁.recovering) r₁ r₂)
    (h₂ : Grows (Closing r₂.recovering) r₂ r₃) : Grows (Closing r₁.recovering) r₁ r₃ :=
  h₁.trans (h₁.1 ▸ h₂)

/-- An error of shape is added by `Report.addShape` only where no fault has come before. -/
theorem grows_addShape (r : Report) {cause : Cause} (pos : Position)
    (h : cause.isShape = true) : Grows (Closing r.recovering) r (r.addShape cause pos) := by
  unfold addShape
  split
  · exact .refl r
  · rename_i hrecovering
    refine grows_addAll r fun d hd => ?_
    obtain rfl := List.mem_singleton.mp hd
    exact .inr ⟨by simpa using hrecovering, h⟩

end Report

open Report (Grows Closing Semantic)

/-- Taking an option reports errors of meaning (`Semantic`), and so does closing one. -/
theorem OpenReplacement.grows_addOption (r : OpenReplacement) (option : ReplacementOption)
    (report : Report) : Grows Semantic report (r.addOption option report).2 := by
  obtain ⟨-, herrors, hrecovering⟩ := r.addOption_spec option report
  refine ⟨hrecovering, _, herrors, ?_⟩
  intro d hd
  obtain ⟨cause, hcause, rfl⟩ := List.mem_map.mp hd
  exact Draft.isSemantic_of_add (Option.mem_toList.mp hcause)

/-- Finishing a replacement (`OpenReplacement.finish`) reports errors of meaning, which are those of
its details. -/
theorem OpenReplacement.grows_finish (r : OpenReplacement) (last : Position) (report : Report) :
    Grows Semantic report (report.addAll (r.finish last).2) :=
  Report.grows_addAll report fun _ hd => Draft.isSemantic_of_finish hd

theorem Frame.grows_close (f : Frame) (body : Message) (report : Report) :
    Grows Semantic report (f.close body report).2 :=
  f.replacement.grows_addOption _ report

namespace Reader

/-- Closing a replacement without its brace (`closeReplacement`) may report an error of shape, for
the brace, besides what it has to say of its details. -/
theorem grows_closeReplacement (last : Position) (r : OpenReplacement) (body : Message)
    (found : Found) (report : Report) :
    Grows (Closing report.recovering) report (closeReplacement last r body found report).2 :=
  ((r.grows_finish last report).mono fun _ => .inl).then (Report.grows_addShape _ _ rfl)

/-- Closing bodies from the inside out may report errors of shape. By induction on the frames, as
`unwindBody` goes through them. -/
theorem grows_unwindBody (last : Position) (kind : Option Token.Kind) (found : Found)
    (frames : List Frame) :
    ∀ (body : Message) (report : Report),
      Grows (Closing report.recovering) report
        (unwindBody last kind found body report frames).2.2 := by
  induction frames with
  | nil =>
    intro body report
    rw [unwindBody]
    split <;> exact .refl report
  | cons frame frames ih =>
    intro body report
    rw [unwindBody]
    split
    · exact .refl report
    -- the option, the replacement around it, and then what is outside of that
    · have hshape := Report.grows_addShape report found.pos
        (show (Cause.optionClosing found.what).isShape = true from rfl)
      have hclose := hshape.then ((frame.grows_close body _).mono fun _ => .inl)
      dsimp only
      split
      · exact hclose
      · exact (hclose.then (grows_closeReplacement _ _ _ _ _)).then (ih _ _)

/-- Making room for a token reports only what closing reports (`Closing`). -/
theorem grows_makeRoom (q : Reader) (kind : Option Token.Kind) (found : Found) :
    Grows (Closing q.report.recovering) q.report (q.makeRoom kind found).report := by
  unfold makeRoom
  dsimp only
  cases q.focus with
  | idle => exact .refl _
  | body m frames => exact grows_unwindBody q.lastPos kind found frames m q.report
  | replacement r m frames =>
    rw [unwind]
    split
    · exact .refl _
    · exact (grows_closeReplacement q.lastPos r m found q.report).then
        (grows_unwindBody _ _ _ _ _ _)

/-- The kinds of tokens that belong to no message, and the end of the stream. In front of these
`makeRoom` closes everything. -/
def Outside : Option Token.Kind → Prop
  | none | some .sectionHeader | some .messageKey | some .eof => True
  | _ => False

/-- No body takes what belongs to no message (`Outside`), and no replacement does. -/
theorem Outside.bodyTakes_eq_false {kind : Option Token.Kind} (h : Outside kind)
    (frames : List Frame) : kind.any (bodyTakes frames) = false := by
  unfold Outside at h
  split at h
  · rfl
  · rfl
  · rfl
  · rfl
  · exact absurd h id

theorem Outside.takes_eq_false {kind : Option Token.Kind} (h : Outside kind)
    (r : OpenReplacement) : kind.any r.takes = false := by
  unfold Outside at h
  split at h
  · rfl
  · rfl
  · rfl
  · rfl
  · exact absurd h id

/-- In front of what belongs to no message the last body is closed too, so nothing is open behind
`unwindBody`. -/
theorem unwindBody_outside {kind : Option Token.Kind} (h : Outside kind) (last : Position)
    (found : Found) (frames : List Frame) :
    ∀ (body : Message) (report : Report),
      (unwindBody last kind found body report frames).1 = .idle := by
  induction frames with
  | nil =>
    intro body report
    rw [unwindBody, if_neg (by simp [h.bodyTakes_eq_false])]
  | cons frame frames ih =>
    intro body report
    rw [unwindBody, if_neg (by simp [h.bodyTakes_eq_false])]
    dsimp only
    rw [if_neg (by simp [h.takes_eq_false])]
    exact ih _ _

/-- In front of what belongs to no message everything is closed: behind `makeRoom` the reader is
between messages. -/
theorem focus_makeRoom_outside {kind : Option Token.Kind} (h : Outside kind) (q : Reader)
    (found : Found) : (q.makeRoom kind found).focus = .idle := by
  unfold makeRoom
  dsimp only
  cases q.focus with
  | idle => rfl
  | body m frames => exact unwindBody_outside h q.lastPos found frames m q.report
  | replacement r m frames =>
    rw [unwind, if_neg (by simp [h.takes_eq_false])]
    exact unwindBody_outside h q.lastPos found frames _ _

end Reader

/-! ### Scanner and reader in step

The reader is behind the scanner in two places: it closes a message only when the next token comes,
and knows of a replacement only from its key. -/

open Scanner (Bodies)

/-- The modes of the scanner correspond to what the reader is inside of, with as many options open
in the one (`Scanner.Bodies`) as there are frames in the other. At the margin the reader may still
have the last body open, as nothing tells it that the body has ended. -/
inductive InStep : List Mode → Focus → Prop
  | idle {stack : List Mode} (h : stack = [.root] ∨ stack = [.done]) : InStep stack .idle
  | ended {stack : List Mode} {m : Message} (h : stack = [.root] ∨ stack = [.done]) :
    InStep stack (.body m [])
  | body {stack : List Mode} {m : Message} {frames : List Frame} (h : Bodies stack frames.length) :
    InStep stack (.body m frames)
  | key {stack : List Mode} {m : Message} {frames : List Frame} (pos : Position)
      (h : Bodies stack frames.length) :
    InStep (.replacement (.key pos) :: stack) (.body m frames)
  | options {stack : List Mode} {r : OpenReplacement} {m : Message} {frames : List Frame}
      (h : Bodies stack frames.length) :
    InStep (.replacement .options :: stack) (.replacement r m frames)
  | optionEnd {stack : List Mode} {m : Message} {frame : Frame} {frames : List Frame}
      (h : Bodies stack frames.length) :
    InStep (.replacement .optionBody :: stack) (.body m (frame :: frames))

/-- The scanner and the reader agree: no error is about the shape of the stream, and the two are in
step (`InStep`) unless a fault has sent the scanner to the margin. -/
structure Agree (stack : List Mode) (q : Reader) : Prop where
  noShape : ∀ d ∈ q.report.errors, d.cause.isShape = false
  inStep : InStep stack q.focus ∨
    (q.report.recovering = true ∧ (stack = [.root] ∨ stack = [.done]))

/-- A report that grows by errors of meaning (`Semantic`) is still not about the shape of the
stream, as no error is of both sorts. -/
theorem Report.Grows.noShape {r r' : Report} (h : Grows Semantic r r')
    (hr : ∀ d ∈ r.errors, d.cause.isShape = false) : ∀ d ∈ r'.errors, d.cause.isShape = false :=
  h.forall (fun _ => Cause.isShape_of_isSemantic) hr

/-- The errors that invalid tokens report: the text of each, at its place. -/
def reported (faults : List Token) : List Diagnostic :=
  faults.map fun t => ⟨.reported t.text, t.pos⟩

/-- Invalid tokens are `reported` one by one, and leave the reader where it is. Behind the first the
reader is recovering. -/
theorem Reader.feed_faults {faults : List Token} (h : ∀ t ∈ faults, Scanner.Reports t) :
    ∀ q : Reader, (q.feed faults).focus = q.focus ∧ (q.feed faults).sectionName = q.sectionName ∧
      (q.feed faults).messages = q.messages ∧
      (q.feed faults).report.errors = q.report.errors ++ reported faults ∧
      (q.feed faults).lastPos = q.lastPos ∧
      (q.feed faults).report.recovering = (q.report.recovering || !faults.isEmpty) := by
  induction faults with
  | nil => intro q; simp [reported]
  | cons t faults ih =>
    intro q
    obtain ⟨h₁, h₂, h₃, h₄, h₅, h₆⟩ := ih (fun x hx => h x (by simp [hx])) (q.step t)
    rw [feed_cons, h₁, h₂, h₃, h₄, h₅, h₆, step_of_invalid (h t (by simp)), takeInvalid]
    refine ⟨rfl, rfl, rfl, ?_, rfl, by simp⟩
    have herrors : (if t.aborts = true then q.report.note (.scanAborted t.pos t.text)
        else q.report).errors = q.report.errors := by
      split <;> rfl
    simp [Report.add, Report.addAll, herrors, reported]

theorem noShape_reported (faults : List Token) :
    ∀ d ∈ reported faults, d.cause.isShape = false := by
  intro d hd
  obtain ⟨t, -, rfl⟩ := List.mem_map.mp hd
  rfl

/-- Invalid tokens keep `Agree` at the margin, or anywhere else, if the scanner stays where it is.
-/
theorem Agree.feed_faults {stack : List Mode} {q : Reader} {faults : List Token}
    (h : Agree stack q) (hfaults : ∀ t ∈ faults, Scanner.Reports t) :
    Agree stack (q.feed faults) := by
  obtain ⟨hfocus, -, -, herrors, -, hrecovering⟩ := Reader.feed_faults hfaults q
  constructor
  · rw [herrors]
    exact List.forall_mem_append.mpr ⟨h.noShape, noShape_reported faults⟩
  · rw [hfocus, hrecovering]
    exact h.inStep.imp_right fun ⟨h₁, h₂⟩ => ⟨by rw [h₁]; rfl, h₂⟩

/-- After a fault the scanner may go to the margin, whatever the reader is inside of: `Agree` does
not ask for more then. -/
theorem Agree.fault {stack stack' : List Mode} {q : Reader} {t : Token} (h : Agree stack q)
    (ht : Scanner.Reports t) (hstack : stack' = [.root] ∨ stack' = [.done]) :
    Agree stack' (q.step t) := by
  have hfaults : ∀ x ∈ [t], Scanner.Reports x := by simpa using ht
  obtain ⟨-, -, -, herrors, -, hrecovering⟩ := Reader.feed_faults hfaults q
  constructor
  · intro d hd
    rw [show q.step t = q.feed [t] from rfl, herrors] at hd
    exact List.forall_mem_append.mpr ⟨h.noShape, noShape_reported [t]⟩ d hd
  · exact .inr ⟨by rw [show q.step t = q.feed [t] from rfl, hrecovering]; simp, hstack⟩

/-- There is at most a message to close, or a fault has been reported. In either case nothing is
missing that could be reported, so `Reader.makeRoom` reports no error of shape. -/
def Reader.Settled (q : Reader) : Prop :=
  q.report.recovering = true ∨ q.focus = .idle ∨ ∃ m, q.focus = .body m []

/-- Where the scanner is at the margin the reader is `Settled`. -/
theorem Agree.settled {stack : List Mode} {q : Reader} (h : Agree stack q)
    (hstack : stack = [.root] ∨ stack = [.done]) : q.Settled := by
  rcases h.inStep with hstep | ⟨hrecovering, -⟩
  · generalize hfocus : q.focus = focus at hstep
    cases hstep with
    | idle => exact .inr (.inl hfocus)
    | ended => exact .inr (.inr ⟨_, hfocus⟩)
    | body hbodies => rcases hstack with rfl | rfl <;> cases hbodies
    | key pos hbodies => rcases hstack with h | h <;> cases h
    | options hbodies => rcases hstack with h | h <;> cases h
    | optionEnd hbodies => rcases hstack with h | h <;> cases h
  · exact .inl hrecovering

/-- What is settled is closed with errors of meaning only (`Semantic`): no replacement is open, or
the reader keeps quiet about it. -/
theorem Reader.Settled.grows_makeRoom {q : Reader} (h : q.Settled) (kind : Option Token.Kind)
    (found : Found) : Grows Semantic q.report (q.makeRoom kind found).report := by
  have hgrows := q.grows_makeRoom kind found
  rcases h with hrecovering | hidle | ⟨m, hbody⟩
  · rw [hrecovering] at hgrows
    refine hgrows.mono fun d hd => ?_
    rcases hd with hd | ⟨hd, -⟩
    · exact hd
    · cases hd
  · simp only [makeRoom, hidle, unwind]
    exact .refl _
  · simp only [makeRoom, hbody, unwind, unwindBody]
    split <;> exact .refl _

/-- At the margin everything is closed by `makeRoom` without an error about the shape of the stream.
-/
theorem Agree.noShape_makeRoom {stack : List Mode} {q : Reader} (h : Agree stack q)
    (hstack : stack = [.root] ∨ stack = [.done]) (kind : Option Token.Kind) (found : Found) :
    ∀ d ∈ (q.makeRoom kind found).report.errors, d.cause.isShape = false :=
  ((h.settled hstack).grows_makeRoom kind found).noShape h.noShape

/-! ### Inside a message

From the mode of the scanner one can tell where the reader is. A fault is no exception, since it
sends the scanner to the margin. -/

/-- Away from the margin no fault is behind the two machines, so they are `InStep`. -/
theorem Agree.inStep_of_ne {stack : List Mode} {q : Reader} (h : Agree stack q)
    (hroot : stack ≠ [.root]) (hdone : stack ≠ [.done]) : InStep stack q.focus :=
  h.inStep.resolve_right fun ⟨_, hstack⟩ => hstack.elim hroot hdone

/-- Where the scanner is in a body the reader is in one. It has as many frames as the scanner has
options (`Bodies`). -/
theorem Agree.of_body {nested produced : Bool} {below : List Mode} {q : Reader}
    (h : Agree (.body nested produced :: below) q) :
    ∃ m frames, q.focus = .body m frames ∧
      Bodies (.body nested produced :: below) frames.length := by
  have hstep := h.inStep_of_ne (by simp) (by simp)
  generalize hfocus : q.focus = focus at hstep
  cases hstep with
  | idle h | ended h => rcases h with h | h <;> cases h
  | body hbodies => exact ⟨_, _, rfl, hbodies⟩

/-- Where the scanner is in front of the key of a replacement, the reader is still in the body
around it, inside of as many frames (`Bodies`). -/
theorem Agree.of_key {pos : Position} {below : List Mode} {q : Reader}
    (h : Agree (.replacement (.key pos) :: below) q) :
    ∃ m frames, q.focus = .body m frames ∧ Bodies below frames.length := by
  have hstep := h.inStep_of_ne (by simp) (by simp)
  generalize hfocus : q.focus = focus at hstep
  cases hstep with
  | idle h | ended h => rcases h with h | h <;> cases h
  | body hbodies => cases hbodies
  | key pos hbodies => exact ⟨_, _, rfl, hbodies⟩

/-- In front of the key of a replacement there is room for it around the reader, since the scanner
has opened it within `maxNesting` already. -/
theorem Agree.room_of_key {pos : Position} {below : List Mode} {q : Reader}
    (h : Agree (.replacement (.key pos) :: below) q)
    (hnesting : Scanner.nesting (.replacement (.key pos) :: below) ≤ Scanner.maxNesting) :
    ∃ m frames, q.focus = .body m frames ∧ frames.length < Scanner.maxNesting := by
  obtain ⟨m, frames, hfocus, hbodies⟩ := h.of_key
  rw [Scanner.nesting_replacement, hbodies.nesting_eq] at hnesting
  exact ⟨m, frames, hfocus, hnesting⟩

/-- Where the scanner is among options the reader is in a replacement, inside of as many frames. -/
theorem Agree.of_options {below : List Mode} {q : Reader}
    (h : Agree (.replacement .options :: below) q) :
    ∃ r m frames, q.focus = .replacement r m frames ∧ Bodies below frames.length := by
  have hstep := h.inStep_of_ne (by simp) (by simp)
  generalize hfocus : q.focus = focus at hstep
  cases hstep with
  | idle h | ended h => rcases h with h | h <;> cases h
  | body hbodies => cases hbodies
  | options hbodies => exact ⟨_, _, _, rfl, hbodies⟩

/-- Where the scanner is behind the body of an option the reader is still in it. -/
theorem Agree.of_optionBody {below : List Mode} {q : Reader}
    (h : Agree (.replacement .optionBody :: below) q) :
    ∃ m frame frames, q.focus = .body m (frame :: frames) ∧ Bodies below frames.length := by
  have hstep := h.inStep_of_ne (by simp) (by simp)
  generalize hfocus : q.focus = focus at hstep
  cases hstep with
  | idle h | ended h => rcases h with h | h <;> cases h
  | body hbodies => cases hbodies
  | optionEnd hbodies => exact ⟨_, _, _, rfl, hbodies⟩

theorem Agree.of_root {below : List Mode} {q : Reader}
    (h : Agree (.root :: below) q) : below = [] := by
  rcases h.inStep with hstep | ⟨-, hstack⟩
  · generalize hfocus : q.focus = focus at hstep
    cases hstep with
    | idle h | ended h =>
      rcases h with h | h
      · exact (List.cons.inj h).2
      · cases h
    | body hbodies => cases hbodies
  · rcases hstack with h | h
    · exact (List.cons.inj h).2
    · cases h

/-- A scan ends at the margin: in the mode `done`, or at the margin with nothing below. -/
theorem Agree.margin {s : Scanner} {q : Reader} (h : Agree s.stack q)
    (hend : s.isDone = true ∨ ∃ below, s.stack = .root :: below) :
    s.stack = [.root] ∨ s.stack = [.done] := by
  obtain ⟨c, stack⟩ := s
  rcases hend with hdone | ⟨below, rfl⟩
  · rcases h.inStep with hstep | ⟨-, hstack⟩
    · generalize q.focus = focus at hstep
      cases hstep with
      | idle h | ended h => exact h
      | body hbodies =>
        generalize List.length _ = depth at hbodies
        cases hbodies <;> cases hdone
      | key | options | optionEnd => cases hdone
    · exact hstack
  · rw [h.of_root]
    exact .inl rfl

/-- A token that belongs to no message is taken between messages, by `takeIdle`, when everything has
been closed. -/
theorem Reader.step_outside {q : Reader} {t : Token} (h : Reader.Outside (some t.kind)) :
    q.step t =
      { (q.makeRoom (some t.kind) ⟨t.describe, t.pos⟩).takeIdle t with lastPos := t.pos } := by
  have hkind : t.kind ≠ .invalid := by
    intro hk
    rw [hk] at h
    exact h
  rw [step, if_neg hkind, take, focus_makeRoom_outside h]

/-- What the reader takes at the margin, a header or a key, keeps `Agree`. -/
theorem Agree.step_header {q : Reader} {t : Token} (h : Agree [.root] q)
    (ht : t.kind = .sectionHeader) : Agree [.root] (q.step t) := by
  have houtside : Reader.Outside (some t.kind) := by rw [ht]; trivial
  have hshape := h.noShape_makeRoom (.inl rfl) (some t.kind) ⟨t.describe, t.pos⟩
  have hfocus := Reader.focus_makeRoom_outside houtside q ⟨t.describe, t.pos⟩
  rw [Reader.step_outside houtside]
  simp only [Reader.takeIdle, ht] at hshape hfocus ⊢
  exact ⟨hshape, .inl (by simp only [hfocus]; exact .idle (.inl rfl))⟩

/-- A key opens a message, whose body the scanner may have entered. -/
theorem Agree.step_key {stack : List Mode} {q : Reader} {t : Token} (h : Agree [.root] q)
    (ht : t.kind = .messageKey) (hstack : stack = [.root] ∨ stack = [.body false false, .root]) :
    Agree stack (q.step t) := by
  have hshape := h.noShape_makeRoom (.inl rfl) (some t.kind) ⟨t.describe, t.pos⟩
  rw [Reader.step_outside (by rw [ht]; trivial)]
  simp only [Reader.takeIdle, ht] at hshape ⊢
  refine ⟨hshape, .inl ?_⟩
  rcases hstack with hstack | hstack
  · exact .ended (.inl hstack)
  · exact .body (by rw [hstack]; exact .message false)

/-- A step that leaves the errors alone needs to keep the two `InStep`, and then it keeps `Agree`.
-/
theorem Agree.of_report {stack stack' : List Mode} {q q' : Reader} (h : Agree stack q)
    (hreport : q'.report = q.report) (hstep : InStep stack' q'.focus) : Agree stack' q' :=
  ⟨by rw [hreport]; exact h.noShape, .inl hstep⟩

/-- The end of an option reports errors of meaning only, and leaves the reader in the replacement,
as `InStep` asks. -/
theorem Agree.step_optionEnd {stack below : List Mode} {q : Reader} {t : Token} {m : Message}
    {frame : Frame} {frames : List Frame} (h : Agree stack q)
    (hfocus : q.focus = .body m (frame :: frames)) (ht : t.kind = .optionEnd)
    (hbodies : Bodies below frames.length) :
    Agree (.replacement .options :: below) (q.step t) := by
  rw [Reader.step_optionEnd hfocus ht]
  exact ⟨(frame.grows_close m q.report).noShape h.noShape, .inl (.options hbodies)⟩

/-- Each step of the scanner, with the reader taking its tokens, keeps the agreement. One case for
each kind of `Move`; the ones that yield no fault are in step, and the others go to the margin or
leave the reader where it is. -/
theorem agree_move {s s' : Scanner} {q : Reader} {yield : List Token} (h : Agree s.stack q)
    (hmove : Scanner.Move s yield s') (heof : ∀ t ∈ yield, t.kind ≠ .eof) :
    Agree s'.stack (q.feed yield) := by
  cases hmove with
  | finish pos => exact absurd rfl (heof _ (List.mem_singleton.mpr rfl))
  | abort ht => exact h.fault ht (.inr rfl)
  | fail ht => exact h.fault ht (.inl rfl)
  | line hfaults => exact h.feed_faults hfaults
  | header pos _ hfaults =>
    obtain rfl := h.of_root
    exact (h.step_header rfl).feed_faults hfaults
  | key pos _ hfaults =>
    obtain rfl := h.of_root
    exact (h.step_key rfl (.inl rfl)).feed_faults hfaults
  | keyBody pos _ hfaults _ =>
    obtain rfl := h.of_root
    exact (h.step_key rfl (.inr rfl)).feed_faults hfaults
  -- a body ends without a token, so the reader stays where it is
  | leave =>
    obtain ⟨m, frames, hfocus, hbodies⟩ := h.of_body
    refine h.of_report rfl ?_
    rw [Reader.feed_nil, hfocus]
    generalize hdepth : frames.length = depth at hbodies
    -- the reader is at the same depth as the scanner
    cases hbodies with
    | message =>
      obtain rfl := List.length_eq_zero_iff.mp hdepth
      exact .ended (.inl rfl)
    | option _ hbelow =>
      obtain ⟨frame, frames, rfl⟩ := List.exists_cons_of_length_eq_add_one hdepth
      obtain rfl := Nat.succ.inj hdepth
      exact .optionEnd hbelow
  | continuation pos hyield _ =>
    obtain ⟨m, frames, hfocus, hbodies⟩ := h.of_body
    subst hyield
    split
    · rw [Reader.feed_cons, Reader.feed_nil, Reader.step_newline hfocus rfl]
      exact h.of_report rfl (.body hbodies)
    · refine h.of_report rfl ?_
      rw [Reader.feed_nil, hfocus]
      exact .body hbodies
  | text pos _ _ _ _ =>
    obtain ⟨m, frames, hfocus, hbodies⟩ := h.of_body
    rw [Reader.feed_cons, Reader.feed_nil, Reader.step_text hfocus rfl]
    exact h.of_report rfl (.body (hbodies.setProduced true))
  | illegal pos ht =>
    obtain ⟨m, frames, hfocus, hbodies⟩ := h.of_body
    rw [Reader.feed_cons, Reader.feed_cons, Reader.feed_nil, Reader.step_text hfocus rfl]
    exact Agree.fault (h.of_report rfl (.body hbodies)) ht (.inl rfl)
  | opening pos _ =>
    obtain ⟨m, frames, hfocus, hbodies⟩ := h.of_body
    refine h.of_report rfl ?_
    rw [Reader.feed_nil, hfocus]
    exact .key pos (hbodies.setProduced true)
  | start _ =>
    obtain ⟨m, frames, hfocus, hbodies⟩ := h.of_key
    rw [Reader.feed_cons, Reader.feed_nil, Reader.step_replacementStart hfocus rfl]
    exact h.of_report rfl (.options hbodies)
  | startTyped typePos _ =>
    obtain ⟨m, frames, hfocus, hbodies⟩ := h.of_key
    rw [Reader.feed_cons, Reader.feed_cons, Reader.feed_nil,
      Reader.step_replacementStart hfocus rfl, Reader.step_replacementType rfl rfl rfl]
    split
    -- a type that is known
    · exact h.of_report rfl (.options hbodies)
    -- an unknown type is an error, but none about the shape
    · refine ⟨List.forall_mem_append.mpr ⟨h.noShape, ?_⟩, .inl (.options hbodies)⟩
      intro d hd
      obtain rfl := List.mem_singleton.mp hd
      rfl
  | startFault ht =>
    obtain ⟨m, frames, hfocus, hbodies⟩ := h.of_key
    rw [Reader.feed_cons, Reader.feed_cons, Reader.feed_nil,
      Reader.step_replacementStart hfocus rfl]
    exact Agree.fault (h.of_report rfl (.options hbodies)) ht (.inl rfl)
  -- an option without a body is opened and closed at once
  | option pos endPos _ =>
    obtain ⟨r, m, frames, hfocus, hbodies⟩ := h.of_options
    rw [Reader.feed_cons, Reader.feed_cons, Reader.feed_nil, Reader.step_optionStart hfocus rfl]
    exact Agree.step_optionEnd (h.of_report rfl (.body (.option false hbodies))) rfl rfl hbodies
  | optionBody pos _ =>
    obtain ⟨r, m, frames, hfocus, hbodies⟩ := h.of_options
    rw [Reader.feed_cons, Reader.feed_nil, Reader.step_optionStart hfocus rfl]
    exact h.of_report rfl (.body (.option false hbodies))
  | close pos =>
    obtain ⟨r, m, frames, hfocus, hbodies⟩ := h.of_options
    rw [Reader.feed_cons, Reader.feed_nil, Reader.step_replacementEnd hfocus rfl]
    exact ⟨(r.grows_finish q.lastPos q.report).noShape h.noShape, .inl (.body hbodies)⟩
  | optionEnd pos =>
    obtain ⟨m, frame, frames, hfocus, hbodies⟩ := h.of_optionBody
    rw [Reader.feed_cons, Reader.feed_nil]
    exact h.step_optionEnd hfocus rfl hbodies

/-! ### Where errors come from

This part is about any stream of tokens, also one that no scanner yields. -/

/-- The error is the report of an invalid token of the stream (`Cause.reported`), or it refuses the
name of a type that a token of the stream holds (`Cause.invalidType`). Its text and its place are
those of the token. -/
def FromToken (stream : List Token) (d : Diagnostic) : Prop :=
  (∃ t ∈ stream, t.kind = .invalid ∧ d = ⟨.reported t.text, t.pos⟩) ∨
    ∃ t ∈ stream, t.kind = .replacementType ∧ ReplacementKind.ofName? t.text = none ∧
      d = ⟨.invalidType t.text, t.pos⟩

/-- The error comes from a token of the stream (`FromToken`), or is about the meaning of options or
the shape of the stream. -/
def Sourced (stream : List Token) (d : Diagnostic) : Prop :=
  FromToken stream d ∨ d.cause.isSemantic = true ∨ d.cause.isShape = true

/-- An error that taking the token may bring, unless it is invalid: one of `Closing`, or that the
type it names is not known. -/
def Raised (t : Token) (d : Diagnostic) : Prop :=
  d.cause.isSemantic = true ∨ d.cause.isShape = true ∨
    (t.kind = .replacementType ∧ ReplacementKind.ofName? t.text = none ∧
      d = ⟨.invalidType t.text, t.pos⟩)

/-- What `Closing` reports may be raised by any token, as any token may make the reader close
something. -/
theorem Report.Closing.raised {recovering : Bool} {d : Diagnostic} (h : Closing recovering d)
    (t : Token) : Raised t d := by
  rcases h with h | ⟨-, h⟩
  · exact .inl h
  · exact .inr (.inl h)

theorem Report.Closing.sourced {recovering : Bool} {d : Diagnostic} (h : Closing recovering d)
    (stream : List Token) : Sourced stream d := by
  rcases h with h | ⟨-, h⟩
  · exact .inr (.inl h)
  · exact .inr (.inr h)

namespace Reader

variable {stream : List Token}

/-- What the reader reports when it takes a token: nothing but what is wrong with options, with the
shape of the stream, or with the type that the token names (`Raised`). The cases are those of
`Reader.take`. -/
theorem errors_take (q : Reader) (t : Token) :
    ∃ ds, (q.take t).report.errors = q.report.errors ++ ds ∧ ∀ d ∈ ds, Raised t d := by
  -- the two ways in which errors are added: by closing, and one by one
  have hgrows {P : Diagnostic → Prop} {r : Report} (h : Grows P q.report r)
      (hraised : ∀ d, P d → Raised t d) :
      ∃ ds, r.errors = q.report.errors ++ ds ∧ ∀ d ∈ ds, Raised t d := by
    obtain ⟨-, ds, herrors, hds⟩ := h
    exact ⟨ds, herrors, fun d hd => hraised d (hds d hd)⟩
  have hnone : ∃ ds, q.report.errors = q.report.errors ++ ds ∧ ∀ d ∈ ds, Raised t d :=
    ⟨[], by simp, by simp⟩
  unfold take
  split
  · unfold takeIdle
    split
    · exact hnone
    · exact hnone
    · exact hgrows (q.report.grows_addShape t.pos rfl) fun _ hd => hd.raised t
  · unfold takeBody
    split
    · exact hnone
    · exact hnone
    · exact hnone
    · exact hgrows (Frame.grows_close _ _ q.report) fun _ => .inl
    · exact hnone
  · unfold takeReplacement
    split
    · rename_i hkind
      split
      · exact hnone
      · rename_i hname
        refine ⟨_, rfl, fun d hd => ?_⟩
        obtain rfl := List.mem_singleton.mp hd
        exact .inr (.inr ⟨hkind, hname, rfl⟩)
    · exact hnone
    · exact hgrows (OpenReplacement.grows_finish _ _ q.report) fun _ => .inl
    · exact hnone

/-- One token adds errors that it raises (`Raised`), unless it is invalid. An invalid one adds its
own report, and nothing else. -/
theorem errors_step {t : Token} (h : t.kind ≠ .invalid) (q : Reader) :
    ∃ ds, (q.step t).report.errors = q.report.errors ++ ds ∧ ∀ d ∈ ds, Raised t d := by
  obtain ⟨-, ds, hroom, hclosing⟩ := q.grows_makeRoom (some t.kind) ⟨t.describe, t.pos⟩
  obtain ⟨ds', htake, hraised⟩ := (q.makeRoom (some t.kind) ⟨t.describe, t.pos⟩).errors_take t
  refine ⟨ds ++ ds', ?_, List.forall_mem_append.mpr ⟨fun d hd => (hclosing d hd).raised t, hraised⟩⟩
  rw [step, if_neg h, ← List.append_assoc, ← hroom]
  exact htake

theorem errors_step_of_invalid {t : Token} (h : t.kind = .invalid) (q : Reader) :
    (q.step t).report.errors = q.report.errors ++ reported [t] :=
  (feed_faults (List.forall_mem_singleton.mpr h) q).2.2.2.1

/-- A token of the stream adds errors with a source in the stream (`Sourced`), be it invalid or not.
-/
theorem sourced_step {q : Reader} {t : Token} (ht : t ∈ stream)
    (h : ∀ d ∈ q.report.errors, Sourced stream d) :
    ∀ d ∈ (q.step t).report.errors, Sourced stream d := by
  by_cases hkind : t.kind = .invalid
  · rw [errors_step_of_invalid hkind]
    refine List.forall_mem_append.mpr ⟨h, fun d hd => ?_⟩
    obtain rfl := List.mem_singleton.mp hd
    exact .inl (.inl ⟨t, ht, hkind, rfl⟩)
  · obtain ⟨ds, herrors, hraised⟩ := errors_step hkind q
    rw [herrors]
    refine List.forall_mem_append.mpr ⟨h, fun d hd => ?_⟩
    rcases hraised d hd with hsemantic | hshape | htype
    · exact .inr (.inl hsemantic)
    · exact .inr (.inr hshape)
    · exact .inl (.inr ⟨t, ht, htype⟩)

/-- The end of a stream adds errors about meaning and shape, as everything is closed there. -/
theorem sourced_finish {q : Reader} (found : Found)
    (h : ∀ d ∈ q.report.errors, Sourced stream d) :
    ∀ d ∈ (q.finish found).errors, Sourced stream d :=
  (q.grows_makeRoom none found).forall (fun _ hd => hd.sourced stream) h

/-- Whatever tokens are read, every error has a source (`Sourced`). By induction on the tokens that
are left. -/
theorem sourced_run {rest : List Token} (hrest : ∀ t ∈ rest, t ∈ stream) :
    ∀ q : Reader, (∀ d ∈ q.report.errors, Sourced stream d) →
      ∀ d ∈ (q.run rest).errors, Sourced stream d := by
  induction rest with
  | nil => exact fun q h => sourced_finish _ h
  | cons t rest ih =>
    intro q h
    rw [run]
    split
    · exact sourced_finish _ h
    · exact ih (fun x hx => hrest x (by simp [hx])) _ (sourced_step (hrest t (by simp)) h)

end Reader

/-! ### Errors are never taken back

So a stream that is read without an error has been read without one from its start. -/

/-- A report that `Grows` keeps its errors in front. So one token keeps the errors, and so do any
number of them. -/
theorem Report.Grows.isPrefix {P : Diagnostic → Prop} {r r' : Report} (h : Grows P r r') :
    r.errors <+: r'.errors := by
  obtain ⟨-, ds, he, -⟩ := h
  exact ⟨ds, he.symm⟩

theorem Reader.errors_prefix_step (q : Reader) (t : Token) :
    q.report.errors <+: (q.step t).report.errors := by
  by_cases hkind : t.kind = .invalid
  · exact ⟨_, (errors_step_of_invalid hkind q).symm⟩
  · obtain ⟨ds, herrors, -⟩ := errors_step hkind q
    exact ⟨ds, herrors.symm⟩

/-- Tokens keep the errors that have been reported, and add theirs behind them. -/
theorem Reader.errors_prefix_feed (stream : List Token) :
    ∀ q : Reader, q.report.errors <+: (q.feed stream).report.errors := by
  induction stream with
  | nil => exact fun q => List.prefix_rfl
  | cons t stream ih => exact fun q => (q.errors_prefix_step t).trans (ih (q.step t))

/-- If there is no error after some tokens, then there was none before, and none of them is a
fault. -/
theorem Reader.errors_eq_nil_of_feed {q : Reader} {stream : List Token}
    (h : (q.feed stream).report.errors = []) :
    q.report.errors = [] ∧ ∀ t ∈ stream, t.kind ≠ .invalid := by
  constructor
  · have hprefix := q.errors_prefix_feed stream
    rw [h] at hprefix
    exact List.prefix_nil.mp hprefix
  · intro t ht hkind
    obtain ⟨before, after, rfl⟩ := List.append_of_mem ht
    rw [feed_append, feed_cons] at h
    have hprefix := errors_prefix_feed after ((q.feed before).step t)
    rw [h, errors_step_of_invalid hkind] at hprefix
    simp [reported] at hprefix

/-! ### A parse

The agreement holds at the start of a file and is kept to its end (`parse_induction`). -/

/-- No error of a parse is about the shape of the stream of tokens. By `parse_induction` with
`Agree` for the invariant. -/
theorem noShape_parse (file : String) (bytes : List UInt8) :
    ∀ d ∈ (parse file bytes).errors, d.cause.isShape = false := by
  refine @parse_induction (fun s q => Agree s.stack q)
    (fun p => ∀ d ∈ p.errors, d.cause.isShape = false) file bytes ?_ ?_ ?_
  · exact ⟨by simp, .inl (.idle (.inl rfl))⟩
  · intro s q yield s' hagree hmove _ heof
    exact agree_move hagree hmove heof
  · intro s q found hagree hend
    exact hagree.noShape_makeRoom (hagree.margin hend) none found

/-- Scanner and reader agree on the shape of a stream: whatever the file holds, an error of its
`parse` is the text and the position of an invalid token of the file, or refuses the type that a
token of the file names, or is about the meaning of the options of a replacement. -/
theorem cause_of_mem_errors_parse (file : String) (bytes : List UInt8) :
    ∀ d ∈ (parse file bytes).errors,
      (∃ t ∈ tokens file bytes, t.kind = .invalid ∧ d = ⟨.reported t.text, t.pos⟩) ∨
      (∃ t ∈ tokens file bytes, t.kind = .replacementType ∧
        ReplacementKind.ofName? t.text = none ∧ d = ⟨.invalidType t.text, t.pos⟩) ∨
      d.cause.isSemantic = true := by
  intro d hd
  rcases Reader.sourced_run (fun _ ht => ht) {} (by simp) d hd with h | h | h
  · exact h.imp_right .inl
  · exact .inr (.inr h)
  · rw [noShape_parse file bytes d hd] at h
    cases h

/-- An option that breaks off with its line: the error about it is that of an invalid token. -/
theorem cause_of_open_option :
    ∃ t ∈ tokens "f" (Utf8.encode "k:\n\t$\x7bn:plural.one\x7bx\n"),
      t.kind = .invalid ∧ t.text = "unclosed replacement ('\x7d' expected)" ∧
        t.pos = ⟨"f", 3, 0, 20⟩ := by
  have hmem : (⟨.reported "unclosed replacement ('\x7d' expected)", ⟨"f", 3, 0, 20⟩⟩ : Diagnostic) ∈
      (parse "f" (Utf8.encode "k:\n\t$\x7bn:plural.one\x7bx\n")).errors := by
    rw [parse, tokens_eq_runFor]
    decide +kernel
  rcases cause_of_mem_errors_parse "f" _ _ hmem with ⟨t, ht, hkind, heq⟩ | ⟨t, -, -, -, heq⟩ | h
  · obtain ⟨htext, hpos⟩ := Diagnostic.mk.inj heq
    exact ⟨t, ht, hkind, (Cause.reported.inj htext).symm, hpos.symm⟩
  · cases (Diagnostic.mk.inj heq).1
  · cases h

end MessageCatalog
