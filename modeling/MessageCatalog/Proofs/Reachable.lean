import Mathlib.Logic.Function.Iterate
import MessageCatalog.Proofs.Offsets

/-!
# MessageCatalog.Proofs.Reachable

The states that a scan passes through. Whatever the file and after however many steps, the stack has
one of the shapes of `Stacked`, no more replacements than allowed are open, an option whose body has
been left is about to be closed, and the cursor stands at a boundary of the file (`Lawful`). Each of
these is kept by one step (`Lawful.next`), so it holds after all of them (`lawful_iterate`).

From this it follows which parts of a step are never needed (`Definite`): there is always an
innermost mode; the brace of an option is never missed; where a body is to be marked as having
produced something, or a replacement is to go on at another stage, that body or that replacement is
the innermost mode. The last two are read off the tokens of a step: text comes from the innermost
body (`Marks`), and what changes the stage of a replacement from the innermost replacement
(`Stages`).

A scanner that is over stays as it is, so the steps may be counted on without end.
-/

namespace MessageCatalog.Scanner

open MessageCatalog.Symbol (ofRunes)

/-! ### Lawful states

Four invariants are kept together, because `closing` depends on the shape of the stack. -/

/-- The scanner after one step (`Scanner.step`), without the tokens that the step yields. -/
def next (s : Scanner) : Scanner := s.step.2

/-- What holds of every scanner that a scan passes through: the shape of its stack (`Stacked`), its
bound, what stands in front of its cursor and where the cursor is. -/
structure Lawful (file : String) (bytes : List UInt8) (s : Scanner) : Prop where
  stacked : Stacked s.stack
  nesting_le : nesting s.stack ≤ maxNesting
  closing : ∀ below, s.stack = .replacement .optionBody :: below →
    s.cursor.rest.head? = some (.char '}')
  moved : Moved (Cursor.start file bytes) s.cursor

variable {file : String} {bytes : List UInt8} {s s' : Scanner} {yield : List Token}

theorem lawful_start (file : String) (bytes : List UInt8) :
    Lawful file bytes (start file bytes) where
  stacked := .root
  nesting_le := by
    show nesting [.root] ≤ maxNesting
    decide
  closing := by simp [start]
  moved := .refl _

/-- A step leads to an option whose body has been read only from that body, at the brace. So the
brace is there. -/
theorem Move.closing (hmove : Move s yield s') (h : Stacked s.stack) {below : List Mode}
    (hstack : s'.stack = .replacement .optionBody :: below) :
    s'.cursor.rest.head? = some (.char '}') := by
  cases hmove with
  | leave hclosed =>
    dsimp only at hstack
    subst hstack
    obtain ⟨depth, hbodies⟩ := h.of_body
    cases hbodies with
    | option => exact hclosed rfl
  | close =>
    dsimp only at hstack
    subst hstack
    obtain ⟨depth, hbodies⟩ := h.of_replacement
    cases hbodies
  | _ => cases hstack

theorem step_of_isDone (h : s.isDone = true) : s.step = ([], s) := by
  obtain ⟨c, stack⟩ := s
  match stack with
  | [] | .done :: _ => rfl
  | .root :: _ | .body _ _ :: _ | .replacement _ :: _ => cases h

/-- Every step of a scan is a `Move`, or the scan is over and nothing happens. -/
theorem Lawful.move (h : Lawful file bytes s) :
    Move s s.step.1 s.next ∨ (s.stack = [.done] ∧ s.step = ([], s)) := by
  cases hdone : s.isDone with
  | true => exact .inr ⟨h.stacked.of_done hdone, step_of_isDone hdone⟩
  | false =>
    have hclean : Symbol.Clean s.cursor.rest :=
      (Symbol.clean_ofRunes _).of_suffix h.moved.rest_suffix
    exact .inl (move_step hdone hclean)

theorem Lawful.next (h : Lawful file bytes s) : Lawful file bytes s.next := by
  rcases h.move with hmove | ⟨-, hstep⟩
  · exact {
      stacked := hmove.stacked h.stacked
      nesting_le := hmove.nesting_le h.nesting_le
      closing := fun _ => hmove.closing h.stacked
      moved := h.moved.trans (moved_step s) }
  · rwa [Scanner.next, hstep]

/-- Any number of steps leads to a `Lawful` state. By induction on the number. -/
theorem lawful_iterate (file : String) (bytes : List UInt8) (n : Nat) :
    Lawful file bytes (next^[n] (start file bytes)) := by
  induction n with
  | zero => exact lawful_start file bytes
  | succ n ih =>
    rw [Function.iterate_succ_apply']
    exact ih.next

/-! ### What a step never needs

What a move yields and where it leads are seen from the move alone. -/

/-- Text comes from the innermost body, which is marked for it: the flag of `Mode.body` is set. -/
def Marks (s s' : Scanner) : Prop :=
  ∃ nested produced below, s.stack = .body nested produced :: below ∧
    (s'.stack = .body nested true :: below ∨ s'.stack = [.root])

/-- Something comes from the innermost replacement, which goes on at the `Stage` that follows: with
its options, or with the body of one. -/
def Stages (s s' : Scanner) : Prop :=
  ∃ stage below, s.stack = .replacement stage :: below ∧
    (s'.stack = .replacement .options :: below ∨
      s'.stack = .body true false :: .replacement .optionBody :: below ∨ s'.stack = [.root])

/-- The tokens for which a replacement changes its stage. -/
def changesStage : Token.Kind → Bool
  | .replacementStart | .optionStart | .optionEnd => true
  | _ => false

/-- Where the tokens of a step come from: text from a body that is marked for it (`Marks`), what
changes the stage of a replacement from that replacement (`Stages`), and all other tokens are
neither. -/
theorem Move.origin (hmove : Move s yield s') {t : Token} (ht : t ∈ yield) :
    (t.kind = .messageText ∧ Marks s s') ∨ (changesStage t.kind = true ∧ Stages s s') ∨
      (t.kind ≠ .messageText ∧ changesStage t.kind = false) := by
  by_cases hfault : Reports t
  · rw [show t.kind = .invalid from hfault]
    exact .inr (.inr ⟨by decide, rfl⟩)
  -- what is left are the tokens that the moves name
  have hone {first : Token} (h : t ∈ [first]) : t = first := List.mem_singleton.mp h
  have hfirst {first : Token} {faults : List Token} (hfaults : ∀ t ∈ faults, Reports t)
      (h : t ∈ first :: faults) : t = first :=
    (List.mem_cons.mp h).resolve_right fun h => hfault (hfaults t h)
  cases hmove with
  | text =>
    obtain rfl := hone ht
    exact .inl ⟨rfl, _, _, _, rfl, .inl rfl⟩
  | illegal _ hreport =>
    obtain rfl := hfirst (List.forall_mem_singleton.mpr hreport) ht
    exact .inl ⟨rfl, _, _, _, rfl, .inr rfl⟩
  | start =>
    obtain rfl := hone ht
    exact .inr (.inl ⟨rfl, _, _, rfl, .inl rfl⟩)
  | startFault hreport =>
    obtain rfl := hfirst (List.forall_mem_singleton.mpr hreport) ht
    exact .inr (.inl ⟨rfl, _, _, rfl, .inr (.inr rfl)⟩)
  | startTyped =>
    rcases List.mem_cons.mp ht with rfl | ht
    · exact .inr (.inl ⟨rfl, _, _, rfl, .inl rfl⟩)
    · obtain rfl := hone ht
      exact .inr (.inr ⟨by simp [token], rfl⟩)
  | option =>
    rcases List.mem_cons.mp ht with rfl | ht
    · exact .inr (.inl ⟨rfl, _, _, rfl, .inl rfl⟩)
    · obtain rfl := hone ht
      exact .inr (.inl ⟨rfl, _, _, rfl, .inl rfl⟩)
  | optionBody =>
    obtain rfl := hone ht
    exact .inr (.inl ⟨rfl, _, _, rfl, .inr (.inl rfl)⟩)
  | optionEnd =>
    obtain rfl := hone ht
    exact .inr (.inl ⟨rfl, _, _, rfl, .inl rfl⟩)
  | line hfaults => exact absurd (hfaults t ht) hfault
  | abort hreport | fail hreport =>
    obtain rfl := hone ht
    exact absurd hreport hfault
  | header _ _ hfaults | key _ _ hfaults | keyBody _ _ hfaults =>
    obtain rfl := hfirst hfaults ht
    exact .inr (.inr ⟨by simp [token], rfl⟩)
  | continuation pos hyield =>
    subst hyield
    split at ht
    · obtain rfl := hone ht
      exact .inr (.inr ⟨by simp [token], rfl⟩)
    · cases ht
  | finish | close =>
    obtain rfl := hone ht
    exact .inr (.inr ⟨by simp [token], rfl⟩)
  | leave | opening => cases ht

/-- A replacement opens in the innermost body, which has then produced something (`Mode.body`). -/
theorem Move.opens (hmove : Move s yield s') (h : Stacked s.stack) {pos : Position}
    {below : List Mode} (hstack : s'.stack = .replacement (.key pos) :: below) :
    ∃ nested produced outer, s.stack = .body nested produced :: outer ∧
      below = .body nested true :: outer := by
  cases hmove with
  | opening => exact ⟨_, _, _, rfl, (List.cons.inj hstack).2.symm⟩
  | leave hclosed =>
    dsimp only at hstack
    subst hstack
    obtain ⟨depth, hbodies⟩ := h.of_body
    cases hbodies
  | close =>
    dsimp only at hstack
    subst hstack
    obtain ⟨depth, hbodies⟩ := h.of_replacement
    cases hbodies
  | _ => cases hstack

/-- Where the tokens of a step come from, in a scan, be it over or not: `Marks` for text, `Stages`
for what changes a replacement, and nowhere for the others. -/
theorem Lawful.origin (h : Lawful file bytes s) {t : Token} (ht : t ∈ s.step.1) :
    (t.kind = .messageText ∧ Marks s s.next) ∨ (changesStage t.kind = true ∧ Stages s s.next) ∨
      (t.kind ≠ .messageText ∧ changesStage t.kind = false) := by
  rcases h.move with hmove | ⟨-, hstep⟩
  · exact hmove.origin ht
  · rw [hstep] at ht
    cases ht

/-- What a step of a scan never needs: a way out for an empty stack, for a brace that is missing, or
for a body or a replacement that is not the innermost mode. Each field is one place where a step
would have to make do. -/
structure Definite (s : Scanner) : Prop where
  hasMode : s.stack ≠ []
  optionEnd : ∀ below, s.stack = .replacement .optionBody :: below →
    s.step = ([token .optionEnd ['}'] s.cursor.nextPos],
      ⟨s.cursor.drop 1, .replacement .options :: below⟩)
  text : ∀ t ∈ s.step.1, t.kind = .messageText → Marks s s.next
  opening : ∀ pos below, s.next.stack = .replacement (.key pos) :: below →
    ∃ nested produced outer, s.stack = .body nested produced :: outer ∧
      below = .body nested true :: outer
  stage : ∀ t ∈ s.step.1, changesStage t.kind = true → Stages s s.next

/-- In a lawful state a step needs none of them, by `Move.origin` and `Move.opens`. -/
theorem Lawful.definite (h : Lawful file bytes s) : Definite s where
  hasMode := by
    intro hnil
    have := h.stacked
    rw [hnil] at this
    cases this with
    | body h => cases h
  optionEnd := by
    intro below hstack
    obtain ⟨c, stack⟩ := s
    obtain rfl : stack = _ := hstack
    obtain ⟨rest, hrest⟩ := List.head?_eq_some_iff.mp (h.closing below rfl)
    dsimp only at hrest
    rw [step]
    dsimp only
    rw [optionEndStep, hrest]
    rfl
  text := by
    intro t ht hkind
    rcases h.origin ht with ⟨-, hmarks⟩ | ⟨hstage, -⟩ | ⟨hother, -⟩
    · exact hmarks
    · rw [hkind] at hstage
      cases hstage
    · exact absurd hkind hother
  opening := by
    intro pos below hstack
    rcases h.move with hmove | ⟨hdone, hstep⟩
    · exact hmove.opens h.stacked hstack
    · rw [Scanner.next, hstep, hdone] at hstack
      cases hstack
  stage := by
    intro t ht hkind
    rcases h.origin ht with ⟨htext, -⟩ | ⟨-, hstages⟩ | ⟨-, hother⟩
    · rw [htext] at hkind
      cases hkind
    · exact hstages
    · rw [hkind] at hother
      cases hother

/-- After any number of steps the stack has one of the shapes of a scan (`Stacked`), with no more
replacements than allowed; an option whose body has been read is followed by its brace; and the
cursor stands at a boundary of the file, with all the bytes behind it still to read
(`Cursor.StandsAt`). So the next step never needs what only other states could (`Definite`). -/
theorem stacked_standsAt_definite_iterate (file : String) (bytes : List UInt8) (n : Nat) :
    let s := next^[n] (start file bytes)
    (Stacked s.stack ∧ nesting s.stack ≤ maxNesting ∧
      (∀ below, s.stack = .replacement .optionBody :: below →
        s.cursor.rest.head? = some (.char '}')) ∧
      ∃ i, s.cursor.StandsAt file bytes i) ∧
    Definite s := by
  have h := lawful_iterate file bytes n
  obtain ⟨k, hk⟩ := h.moved
  refine ⟨⟨h.stacked, h.nesting_le, h.closing, ?_⟩, h.definite⟩
  rw [hk]
  exact Cursor.exists_standsAt file bytes k

/-- Behind the body of an option the scan waits for its brace. -/
example : (next^[6] (start "" (Utf8.encode "k:\n\t$\x7bn:plural.other\x7bx\x7d\x7d"))).stack =
    [.replacement .optionBody, .body false true, .root] := by decide

end MessageCatalog.Scanner
