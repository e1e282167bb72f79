import MessageCatalog.Proofs.Reachable

/-!
# MessageCatalog.Proofs.Succession

The shape of a stream of tokens: how it is taken, how it ends, and what may stand behind what
(`shape_tokens`).

Tokens are taken one at a time (`Supply.pull`); whoever takes them gets the tokens of the file, one
after the other, and then nothing for ever (`Supply.pull_iterate_start`). What is left to take is
known at any time (`Supply.left`), and taking a token takes its first.

A scan ends with the end-of-file token or with one of three faults (`Scanner.ends_run`). Only a step
that ends the scan can yield either, and such a step yields nothing else (`Scanner.Last`).

Within the stream, text does not follow text, and a line break only follows text or a replacement
(`Scanner.orderly_run`). The invariant ties the token yielded last to the body that is read next
(`Scanner.Ready`): a body that has yielded something stands behind text that has ended, behind a
replacement, or behind a line break with content after it (`Scanner.Behind`). A replacement that is
open has its body marked (`Busy`), so the body that its end leads back to has yielded something.
-/

namespace MessageCatalog

open Scanner (Lawful Move Stacked Busy Reports token)

/-! ### Taking tokens one at a time

A supply finds tokens step by step and gives them out one by one. The recursion of `pull` goes down
on the measure of the scanner, for a step may yield no token at all. -/

/-- A scan from which tokens are taken: those that have been found and not yet been taken
(`pending`), and the scanner that finds more. It may find several at once, and none for some steps.
-/
structure Supply where
  pending : List Token
  scanner : Scanner

namespace Supply

/-- Nothing of a file has been taken yet. -/
def start (file : String) (bytes : List UInt8) : Supply :=
  { pending := [], scanner := .start file bytes }

/-- Takes a token. If none is pending, the scanner goes on until it has found some or is done, by
`Scanner.step`. -/
def pull (s : Supply) : Option Token × Supply :=
  match s.pending with
  | t :: rest => (some t, { s with pending := rest })
  | [] =>
    if h : s.scanner.isDone then (none, s)
    else
      have : s.scanner.step.2.measure < s.scanner.measure :=
        Scanner.measure_step_lt (by simpa using h)
      pull { pending := s.scanner.step.1, scanner := s.scanner.step.2 }
termination_by s.scanner.measure

/-- What is left when a token has been taken, or when there was none to take. -/
def next (s : Supply) : Supply := s.pull.2

def left (s : Supply) : List Token := s.pending ++ s.scanner.run

/-- The first token that is left is taken by `pull`, and the others stay. -/
theorem pull_left (s : Supply) : s.pull.1 = s.left.head? ∧ s.next.left = s.left.tail := by
  unfold next
  fun_induction pull s with
  | case1 s t rest hpending => simp [left, hpending]
  | case2 s hpending hdone => simp [left, hpending, Scanner.run_of_isDone hdone]
  | case3 s hpending hdone _ ih =>
    have hrun := Scanner.run_of_not_isDone (Bool.eq_false_iff.mpr hdone)
    rw [show s.left = s.scanner.step.1 ++ s.scanner.step.2.run by simp [left, hpending, hrun]]
    exact ih

/-- Taking tokens (`Supply.next`) takes them from the front, as many as have been taken. -/
theorem left_iterate (s : Supply) (n : Nat) : (next^[n] s).left = s.left.drop n := by
  induction n with
  | zero => rfl
  | succ n ih => rw [Function.iterate_succ_apply', (pull_left _).2, ih, List.tail_drop]

/-- Whoever takes tokens with `pull` gets those of the file in their order, and then none for ever.
-/
theorem pull_iterate_start (file : String) (bytes : List UInt8) (n : Nat) :
    (next^[n] (start file bytes)).pull.1 = (tokens file bytes)[n]? := by
  rw [(pull_left _).1, left_iterate, List.head?_drop]
  rfl

end Supply

/-! ### Induction over a scan

The stream of a scan that goes on is the yield of one step and the stream of the rest. -/

namespace Scanner

variable {file : String} {bytes : List UInt8} {s s' : Scanner} {yield : List Token}

/-- What holds of a scan that is over, and of a scan if it holds of what is left after one step,
holds of every `Lawful` scan. The recursion of `run` as an induction principle. -/
theorem Lawful.run_induction {motive : Scanner → List Token → Prop}
    (stop : ∀ s, s.isDone = true → motive s [])
    (go : ∀ s, Lawful file bytes s → s.isDone = false → motive s.next s.next.run →
      motive s (s.step.1 ++ s.next.run))
    (h : Lawful file bytes s) : motive s s.run := by
  induction s using step_induction with
  | stop s hdone =>
    rw [run_of_isDone hdone]
    exact stop s hdone
  | go s hdone ih =>
    rw [run_of_not_isDone hdone]
    exact go s h hdone (ih h.next)

theorem Lawful.move_of_not_isDone (h : Lawful file bytes s) (hdone : s.isDone = false) :
    Move s s.step.1 s.next :=
  move_step hdone ((Symbol.clean_ofRunes _).of_suffix h.moved.rest_suffix)

/-! ### How a scan ends

For each step function it is asked when it ends the scan. A function that leaves a mode of the stack
ends it only if that mode does, which no mode of a scan does (`Stacked.isDone_below`). -/

/-- The faults after which nothing more is read; they are those that `Scanner.abort` is called with.
-/
def fatalFaults : List Token.Fault :=
  [.unexpectedIndentation, .unclosedReplacement, .nestingTooDeep]

/-- The last tokens of a scan: that of the end of the file, or a fault after which nothing more is
read (`fatalFaults`). -/
inductive Last : List Token → Prop
  | finish (pos : Position) : Last [token .eof [] pos]
  | abort {fault : Token.Fault} (hfault : fault ∈ fatalFaults) (c : Cursor) :
    Last (Scanner.abort fault c).1

/-- At the margin the scan ends at the end of the file, or at an indented line. So the step has
yielded `Last` tokens. -/
theorem last_rootStep {c : Cursor} {below : List Mode}
    (h : (rootStep c (.root :: below)).2.isDone = true) :
    Last (rootStep c (.root :: below)).1 := by
  unfold rootStep at h ⊢
  dsimp only at h ⊢
  split at h
  · rw [if_pos ‹_›]
    exact .finish _
  · rw [if_neg ‹_›]
    split at h
    · rw [if_pos ‹_›]
      exact .abort (by decide) _
    -- a line at the margin leads back to it, or into a body
    · split at h
      · cases h
      · cases h
      · unfold keyStep at h
        dsimp only at h
        split at h
        · cases h
        · split at h
          · split at h <;> cases h
          · cases h

/-- In a body the scan ends where the file ends inside of an option, or replacements are nested too
deep; either way the tokens are `Last`. -/
theorem last_bodyStep {c : Cursor} {nested produced : Bool} {below : List Mode}
    (hbelow : isDone ⟨c, below⟩ = false) (h : (bodyStep c nested produced below).2.isDone = true) :
    Last (bodyStep c nested produced below).1 := by
  have hleave : isDone ⟨c, below⟩ ≠ true := by simp [hbelow]
  unfold bodyStep at h ⊢
  split at h
  · cases nested
    · exact absurd h hleave
    · exact .abort (by decide) c
  · split at h
    · cases h
    · cases nested
      · exact absurd h hleave
      · cases h
  · cases nested
    · cases h
    · exact absurd h hleave
  · split at h
    · rename_i hdeep
      rw [if_pos hdeep]
      exact .abort (by decide) c
    · cases h
  · unfold textStep at h
    dsimp only at h
    split at h <;> cases h

/-- Among options the scan ends at the end of the file, where the closing brace is missing, with
`Last` tokens. So it is between options. -/
theorem last_optionStep {c : Cursor} {below : List Mode}
    (hbelow : ∀ c', isDone ⟨c', below⟩ = false) (h : (optionStep c below).2.isDone = true) :
    Last (optionStep c below).1 := by
  unfold optionStep at h ⊢
  split at h
  · exact .abort (by decide) c
  · dsimp only at h
    split at h
    · cases h
    · split at h <;> cases h
  · exact absurd h (by simp [hbelow])
  · cases h

theorem last_foldStep {c : Cursor} {below : List Mode}
    (hbelow : ∀ c', isDone ⟨c', below⟩ = false) (h : (foldStep c below).2.isDone = true) :
    Last (foldStep c below).1 := by
  unfold foldStep at h ⊢
  dsimp only at h ⊢
  split at h
  · split at h
    · exact last_optionStep hbelow h
    · cases h
  · exact last_optionStep hbelow h

/-- What is inside of something else is not the end of the scan: on a `Stacked` stack the end has
nothing around it. -/
theorem Stacked.isDone_below {mode : Mode} {below : List Mode} (h : Stacked (mode :: below))
    (hmode : mode ≠ .root) (hdone : mode ≠ .done) (c : Cursor) : isDone ⟨c, below⟩ = false := by
  cases h with
  | root => exact absurd rfl hmode
  | done => exact absurd rfl hdone
  | body hbodies => cases hbodies <;> rfl
  | replacement _ hbodies => cases hbodies <;> rfl

/-- A step that ends the scan yields `Last` tokens. One case for each mode. -/
theorem Lawful.last (h : Lawful file bytes s) (hdone : s.isDone = false)
    (hnext : s.next.isDone = true) : Last s.step.1 := by
  have hstacked := h.stacked
  obtain ⟨c, stack⟩ := s
  match stack with
  | [] => cases hdone
  | .done :: _ => cases hdone
  | .root :: below => exact last_rootStep hnext
  | .body nested produced :: below =>
    exact last_bodyStep (hstacked.isDone_below (by simp) (by simp) c) hnext
  | .replacement (.key pos) :: below =>
    change (replacementKeyStep pos c below).2.isDone = true at hnext
    unfold replacementKeyStep at hnext
    dsimp only at hnext
    split at hnext
    · cases hnext
    · split at hnext
      · split at hnext <;> cases hnext
      · cases hnext
  | .replacement .options :: below =>
    exact last_foldStep (hstacked.isDone_below (by simp) (by simp)) hnext
  | .replacement .optionBody :: below =>
    change (optionEndStep c below).2.isDone = true at hnext
    unfold optionEndStep at hnext
    split at hnext <;> cases hnext

/-- A scan yields its last tokens at the end, and no end-of-file token in front of them. By
`Lawful.run_induction`. -/
theorem ends_run (h : Lawful file bytes s) (hdone : s.isDone = false) :
    ∃ front last, s.run = front ++ last ∧ (∀ t ∈ front, t.kind ≠ .eof) ∧ Last last := by
  refine Lawful.run_induction
    (motive := fun s ts => s.isDone = false →
      ∃ front last, ts = front ++ last ∧ (∀ t ∈ front, t.kind ≠ .eof) ∧ Last last)
    ?stop ?go h hdone
  case stop => simp +contextual
  case go =>
    intro s h hdone ih _
    cases hnext : s.next.isDone with
    | true =>
      refine ⟨[], s.step.1, ?_, by simp, h.last hdone hnext⟩
      rw [run_of_isDone hnext, List.append_nil, List.nil_append]
    | false =>
      obtain ⟨front, last, hrun, hfront, hlast⟩ := ih hnext
      refine ⟨s.step.1 ++ front, last, by rw [hrun, List.append_assoc], ?_, hlast⟩
      refine List.forall_mem_append.mpr ⟨?_, hfront⟩
      -- the end-of-file token would have ended the scan
      rcases (h.move_of_not_isDone hdone).eof with hfree | ⟨_, _, _, _, hend, _⟩
      · exact hfree
      · rw [hnext] at hend
        cases hend

end Scanner

/-! ### What may stand behind what

A stream is orderly if each token may follow the one in front of it. What comes first in a part of a
stream depends on the last token in front of that part, which is none at the start. -/

namespace Token

/-- The token may stand behind `prev`: text is not empty and does not stand behind other text, and
a line break stands behind text or a replacement. -/
def MayFollow (prev : Option Token) (t : Token) : Prop :=
  (t.kind = .messageText → t.text ≠ "" ∧ ∀ p ∈ prev, p.kind ≠ .messageText) ∧
    (t.kind = .messageNewline → ∃ p ∈ prev, p.kind = .messageText ∨ p.kind = .replacementEnd)

/-- Behind `prev`, each token may follow the one in front of it, in the sense of `MayFollow`. -/
inductive Orderly : Option Token → List Token → Prop
  | nil (prev : Option Token) : Orderly prev []
  | cons {prev : Option Token} {t : Token} {ts : List Token} (h : MayFollow prev t)
      (hrest : Orderly (some t) ts) : Orderly prev (t :: ts)

/-- The last of some tokens behind `prev`. -/
def lastOf (prev : Option Token) (ts : List Token) : Option Token := ts.getLast?.or prev

variable {prev : Option Token} {t : Token} {xs ys : List Token}

theorem lastOf_cons : lastOf prev (t :: xs) = lastOf (some t) xs := by
  simp [lastOf, List.getLast?_cons]

/-- The last of some tokens is one of them, if there are any. -/
theorem mem_of_mem_lastOf (h : t ∈ lastOf prev xs) (hne : xs ≠ []) : t ∈ xs := by
  rw [lastOf, List.getLast?_eq_some_getLast hne] at h
  obtain rfl := Option.some.inj h
  exact List.getLast_mem hne

/-- Two orderly parts are `Orderly` together, if the second is orderly behind the last token of the
first. -/
theorem Orderly.append (hx : Orderly prev xs) (hy : Orderly (lastOf prev xs) ys) :
    Orderly prev (xs ++ ys) := by
  induction hx with
  | nil => exact hy
  | cons h _ ih => exact .cons h (ih (lastOf_cons ▸ hy))

/-- In an `Orderly` stream every token may follow the one in front of it, wherever it stands. -/
theorem Orderly.mayFollow (h : Orderly prev (xs ++ t :: ys)) : MayFollow (lastOf prev xs) t := by
  induction xs generalizing prev with
  | nil =>
    cases h with
    | cons h => exact h
  | cons x xs ih =>
    cases h with
    | cons _ hrest =>
      rw [lastOf_cons]
      exact ih hrest

/-- The token is neither text nor a line break. Nothing is asked of where such a token stands
(`MayFollow`). -/
def Plain (t : Token) : Prop := t.kind ≠ .messageText ∧ t.kind ≠ .messageNewline

/-- A fault is neither text nor a line break, so it is `Plain`. -/
theorem plain_of_reports (h : Reports t) : Plain t := by
  rw [Plain, show t.kind = .invalid from h]
  decide

/-- What is neither text nor a line break may stand anywhere, so tokens that are `Plain` are
`Orderly`. -/
theorem orderly_of_plain (h : ∀ t ∈ xs, Plain t) : Orderly prev xs := by
  induction xs generalizing prev with
  | nil => exact .nil prev
  | cons t xs ih =>
    obtain ⟨⟨htext, hnewline⟩, hrest⟩ := List.forall_mem_cons.mp h
    exact .cons ⟨fun h => absurd h htext, fun h => absurd h hnewline⟩ (ih hrest)

end Token

namespace Scanner

open Token (MayFollow Orderly lastOf Plain)

variable {file : String} {bytes : List UInt8} {s s' : Scanner} {yield : List Token}
  {prev : Option Token} {t : Token}

/-- Besides a fault, a body yields text where text stands, and a line break where the line ends,
with content behind it. These are the branches of `bodyStep`. -/
theorem mem_bodyStep {c : Cursor} {nested produced : Bool} {below : List Mode}
    (ht : t ∈ (bodyStep c nested produced below).1) :
    Reports t ∨ (t.kind = .messageText ∧ Word.text c.rest ≠ []) ∨
      (t.kind = .messageNewline ∧ (∃ style rest, c.rest = .newline style :: rest) ∧
        ∀ style rest,
          (bodyStep c nested produced below).2.cursor.rest ≠ .newline style :: rest) := by
  have hreport {fault : Token.Fault} {pos : Position} (h : t ∈ [invalid fault pos]) :
      Reports t := by
    obtain rfl := List.mem_singleton.mp h
    rfl
  unfold bodyStep at ht ⊢
  split at ht
  · cases nested
    · cases ht
    · obtain rfl := List.mem_singleton.mp ht
      exact .inl rfl
  · rename_i style rest hrest
    split at ht
    · rename_i width hwidth
      obtain ⟨s, tail, hdrop, -, hnewline⟩ := Layout.head_drop_continuationWidth? hwidth
      cases produced
      · cases ht
      · obtain rfl := List.mem_singleton.mp ht
        refine .inr (.inr ⟨rfl, ⟨style, rest, hrest⟩, fun style' rest' hnext => ?_⟩)
        rw [Cursor.rest_drop, hdrop] at hnext
        obtain ⟨rfl, -⟩ := List.cons.inj hnext
        cases hnewline
    · cases nested
      · cases ht
      · exact .inl (hreport ht)
  · cases nested
    · exact .inl (hreport ht)
    · cases ht
  · split at ht
    · obtain rfl := List.mem_singleton.mp ht
      exact .inl rfl
    · cases ht
  · unfold textStep at ht
    dsimp only at ht
    have hrun (h : t ∈ if Word.text c.rest = [] then []
        else [token .messageText (Word.text c.rest) c.nextPos]) :
        t.kind = .messageText ∧ Word.text c.rest ≠ [] := by
      split at h
      · cases h
      · rename_i hne
        obtain rfl := List.mem_singleton.mp h
        exact ⟨rfl, hne⟩
    split at ht
    · rcases List.mem_append.mp ht with h | h
      · exact .inr (.inl (hrun h))
      · exact .inl (hreport h)
    · exact .inr (.inl (hrun ht))

/-- Behind the token, a body goes on with these symbols: text has ended, and a line break is
followed by content. So the next step yields neither text behind text nor a line break behind a line
break, as `MayFollow` asks. -/
def Behind (p : Token) (rest : List Symbol) : Prop :=
  p.kind = .replacementEnd ∨ (p.kind = .messageText ∧ Word.EndsText rest) ∨
    (p.kind = .messageNewline ∧ ∀ style tail, rest ≠ .newline style :: tail)

/-- What the token yielded last tells about a body that is read next: it goes on `Behind` that
token, if it has produced anything. -/
structure Ready (prev : Option Token) (s : Scanner) : Prop where
  fresh : ∀ nested below, s.stack = .body nested false :: below →
    ∀ p ∈ prev, p.kind ≠ .messageText
  produced : ∀ nested below, s.stack = .body nested true :: below →
    ∃ p ∈ prev, Behind p s.cursor.rest

/-- Where no body is read next, nothing has to be known of the last token to be `Ready`. -/
theorem ready_of_no_body (h : ∀ nested produced below, s.stack ≠ .body nested produced :: below) :
    Ready prev s where
  fresh := fun _ _ hstack => absurd hstack (h _ _ _)
  produced := fun _ _ hstack => absurd hstack (h _ _ _)

/-- Other tokens may come anywhere (`Plain`); they tell all there is to know if no body is read
next, and if one starts. -/
theorem orderly_of_no_body (hyield : ∀ t ∈ yield, Plain t)
    (h : ∀ nested produced below, s.stack ≠ .body nested produced :: below) :
    Orderly prev yield ∧ Ready (lastOf prev yield) s :=
  ⟨Token.orderly_of_plain hyield, ready_of_no_body h⟩

theorem orderly_of_fresh {nested : Bool} {below : List Mode} (hyield : ∀ t ∈ yield, Plain t)
    (hne : yield ≠ []) (hstack : s.stack = .body nested false :: below) :
    Orderly prev yield ∧ Ready (lastOf prev yield) s := by
  refine ⟨Token.orderly_of_plain hyield, ?_, ?_⟩
  · exact fun _ _ _ p hp => (hyield p (Token.mem_of_mem_lastOf hp hne)).1
  · intro nested below hproduced
    rw [hstack] at hproduced
    cases hproduced

/-- A text may stand where a body goes on with text (`MayFollow`), since the token in front of it is
not text then. -/
theorem Ready.mayFollow_text {c : Cursor} {nested produced : Bool} {below : List Mode}
    (h : Ready prev ⟨c, .body nested produced :: below⟩) (hrest : ¬ Word.EndsText c.rest)
    {cs : List Char} (hne : cs ≠ []) (pos : Position) :
    MayFollow prev (token .messageText cs pos) := by
  refine ⟨fun _ => ⟨fun htext => hne (String.ofList_eq_empty_iff.mp htext), fun p hp hkind => ?_⟩,
    fun hkind => by cases hkind⟩
  cases produced with
  | false => exact h.fresh _ _ rfl p hp hkind
  | true =>
    obtain ⟨p', hp', hbehind⟩ := h.produced _ _ rfl
    obtain rfl := Option.mem_unique hp hp'
    rcases hbehind with hother | ⟨-, hend⟩ | ⟨hother, -⟩
    · rw [hother] at hkind
      cases hkind
    · exact hrest hend
    · rw [hother] at hkind
      cases hkind

/-- A line break may stand where a body that has yielded something breaks its line (`MayFollow`): in
front of it is text or a replacement. -/
theorem Ready.mayFollow_newline {c : Cursor} {nested : Bool} {below : List Mode}
    (h : Ready prev ⟨c, .body nested true :: below⟩)
    (hrest : ∃ style rest, c.rest = .newline style :: rest) (pos : Position) :
    MayFollow prev (token .messageNewline [] pos) := by
  refine ⟨fun hkind => (by cases hkind), fun _ => ?_⟩
  obtain ⟨p, hp, hclose | ⟨htext, -⟩ | ⟨-, hcontent⟩⟩ := h.produced _ _ rfl
  · exact ⟨p, hp, .inr hclose⟩
  · exact ⟨p, hp, .inl htext⟩
  · obtain ⟨style, rest, hrest⟩ := hrest
    exact absurd hrest (hcontent style rest)

/-- Text comes from a body in which no text ends (`Word.EndsText`). -/
theorem text_of_mem_step {nested produced : Bool} {below : List Mode}
    (hstack : s.stack = .body nested produced :: below) (ht : t ∈ s.step.1)
    (hkind : t.kind = .messageText) : ¬ Word.EndsText s.cursor.rest := by
  rw [step, hstack] at ht
  intro hend
  rcases mem_bodyStep ht with hreport | ⟨-, htext⟩ | ⟨hnewline, -⟩
  · rw [show t.kind = .invalid from hreport] at hkind
    cases hkind
  · have hempty : Word.isText [] = true := rfl
    exact htext (Word.text_append_of hempty hend)
  · rw [hnewline] at hkind
    cases hkind

/-- A line break (`Token.Kind.messageNewline`) comes from a body at the end of a line, and leads to
content. -/
theorem break_of_mem_step {nested produced : Bool} {below : List Mode}
    (hstack : s.stack = .body nested produced :: below) (ht : t ∈ s.step.1)
    (hkind : t.kind = .messageNewline) :
    (∃ style rest, s.cursor.rest = .newline style :: rest) ∧
      ∀ style rest, s.next.cursor.rest ≠ .newline style :: rest := by
  rw [next]
  rw [step, hstack] at ht ⊢
  rcases mem_bodyStep ht with hreport | ⟨htext, -⟩ | ⟨-, hbreak⟩
  · rw [show t.kind = .invalid from hreport] at hkind
    cases hkind
  · rw [htext] at hkind
    cases hkind
  · exact hbreak

/-- The tokens of a step may follow the one in front of them, and leave what is known for the next
step, so `Ready` is kept. -/
theorem Lawful.orderly_step (hlawful : Lawful file bytes s) (hbusy : Busy s.stack)
    (hdone : s.isDone = false) (h : Ready prev s) :
    Orderly prev s.step.1 ∧ Ready (lastOf prev s.step.1) s.next := by
  have hmove := hlawful.move_of_not_isDone hdone
  have hstacked := hlawful.stacked
  have htext := @text_of_mem_step s
  have hbreak := @break_of_mem_step s
  generalize s.step.1 = yield at hmove htext hbreak ⊢
  generalize s.next = s' at hmove hbreak ⊢
  have hplain {first : Token} (hfirst : Plain first) {faults : List Token}
      (hfaults : ∀ t ∈ faults, Reports t) : ∀ t ∈ first :: faults, Plain t :=
    List.forall_mem_cons.mpr ⟨hfirst, fun t ht => Token.plain_of_reports (hfaults t ht)⟩
  have hfault {t : Token} (ht : Reports t) : ∀ x ∈ [t], Plain x :=
    List.forall_mem_singleton.mpr (Token.plain_of_reports ht)
  cases hmove with
  | finish => exact orderly_of_no_body (by simp [Plain, token]) (by simp)
  | abort ht | fail ht => exact orderly_of_no_body (hfault ht) (by simp)
  | line hfaults =>
    exact orderly_of_no_body (fun t ht => Token.plain_of_reports (hfaults t ht)) (by simp)
  | header _ _ hfaults | key _ _ hfaults =>
    exact orderly_of_no_body (hplain (by simp [Plain, token]) hfaults) (by simp)
  | keyBody _ _ hfaults =>
    exact orderly_of_fresh (hplain (by simp [Plain, token]) hfaults) (by simp) rfl
  | leave =>
    refine ⟨.nil prev, ready_of_no_body ?_⟩
    obtain ⟨depth, hbodies⟩ := hstacked.of_body
    cases hbodies <;> simp
  | @continuation c c' nested produced below yield pos hyield hcontent =>
    cases produced with
    | false =>
      obtain rfl : yield = [] := hyield
      exact ⟨.nil prev, fun _ _ _ => h.fresh _ _ rfl, fun _ _ hstack => by cases hstack⟩
    | true =>
      obtain rfl : yield = [token .messageNewline [] pos] := hyield
      obtain ⟨hline, hnext⟩ := hbreak rfl (List.mem_singleton_self _) rfl
      exact ⟨.cons (h.mayFollow_newline hline pos) (.nil _),
        fun _ _ hstack => (by cases hstack), fun _ _ _ => ⟨_, rfl, .inr (.inr ⟨rfl, hnext⟩)⟩⟩
  | text pos hne _ _ hend =>
    have hrest := htext rfl (List.mem_singleton_self _) rfl
    exact ⟨.cons (h.mayFollow_text hrest hne pos) (.nil _),
      fun _ _ hstack => (by cases hstack), fun _ _ _ => ⟨_, rfl, .inr (.inl ⟨rfl, hend⟩)⟩⟩
  | illegal pos ht hne =>
    have hrest := htext rfl List.mem_cons_self rfl
    exact ⟨.cons (h.mayFollow_text hrest hne pos) (Token.orderly_of_plain (hfault ht)),
      ready_of_no_body (by simp)⟩
  | opening => exact ⟨.nil prev, ready_of_no_body (by simp)⟩
  | start | startTyped | option | optionEnd =>
    exact orderly_of_no_body (by simp [Plain, token]) (by simp)
  | startFault ht =>
    exact orderly_of_no_body (hplain (by simp [Plain, token]) (by simpa using ht)) (by simp)
  | optionBody => exact orderly_of_fresh (by simp [Plain, token]) (by simp) rfl
  | close pos =>
    refine ⟨Token.orderly_of_plain (by simp [Plain, token]), ?_, ?_⟩
    · rintro nested below rfl
      cases hbusy.produced
    · exact fun _ _ _ => ⟨_, rfl, .inl rfl⟩

/-- In a scan each token may follow the one in front of it. By `Lawful.run_induction`, with `Ready`
for what is known. -/
theorem orderly_run (h : Lawful file bytes s) (hbusy : Busy s.stack) (hready : Ready prev s) :
    Orderly prev s.run := by
  refine Lawful.run_induction
    (motive := fun s ts => ∀ prev, Busy s.stack → Ready prev s → Orderly prev ts)
    ?stop ?go h prev hbusy hready
  case stop => exact fun _ _ prev _ _ => .nil prev
  case go =>
    intro s h hdone ih prev hbusy hready
    obtain ⟨horderly, hnext⟩ := h.orderly_step hbusy hdone hready
    exact horderly.append (ih _ ((h.move_of_not_isDone hdone).busy hbusy) hnext)

end Scanner

/-- The tokens of a file can be taken one by one (`Supply.pull`) until there are no more, and then
nothing comes for ever. The last of them is the only end-of-file token, or a fault after which
nothing more is read. Text is never empty and never stands behind other text, and a line break only
stands behind text or the end of a replacement. -/
theorem shape_tokens (file : String) (bytes : List UInt8) :
    (∀ n, (Supply.next^[n] (Supply.start file bytes)).pull.1 = (tokens file bytes)[n]?) ∧
      (∃ front last, tokens file bytes = front ++ [last] ∧ (∀ t ∈ front, t.kind ≠ .eof) ∧
        (last.kind = .eof ∨ last.kind = .invalid ∧
          last.text ∈ ["unexpected indentation", "unclosed replacement ('\x7d' expected)",
            "replacement nesting too deep"])) ∧
      ∀ front t back, tokens file bytes = front ++ t :: back →
        (t.kind = .messageText →
          t.text ≠ "" ∧ ∀ p ∈ front.getLast?, p.kind ≠ .messageText) ∧
        (t.kind = .messageNewline →
          ∃ p ∈ front.getLast?, p.kind = .messageText ∨ p.kind = .replacementEnd) := by
  have hlawful := Scanner.lawful_start file bytes
  refine ⟨Supply.pull_iterate_start file bytes, ?_, ?_⟩
  · obtain ⟨front, last, hrun, hfront, hlast⟩ := Scanner.ends_run hlawful rfl
    cases hlast with
    | finish => exact ⟨front, _, hrun, hfront, .inl rfl⟩
    | @abort fault hfault c =>
      refine ⟨front, _, hrun, hfront, .inr ⟨rfl, ?_⟩⟩
      exact List.mem_map_of_mem (f := Token.Fault.message) hfault
  · intro front t back htokens
    have hready : Scanner.Ready none (Scanner.start file bytes) :=
      Scanner.ready_of_no_body (by simp [Scanner.start])
    have horderly := Scanner.orderly_run hlawful (by simp [Scanner.start, Busy]) hready
    rw [show (Scanner.start file bytes).run = front ++ t :: back from htokens] at horderly
    have hfollow := horderly.mayFollow
    rwa [Token.lastOf, Option.or_none] at hfollow

end MessageCatalog
