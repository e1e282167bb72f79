import MessageCatalog.Token.Scanner
import MessageCatalog.Proofs.Words

/-!
# MessageCatalog.Proofs.Moves

What one step of the scanner can do, said once. `Move s yield s'` lists every way in which a step
from `s` yields tokens and leads to `s'`, with the words that the tokens hold and as much about the
cursor as its look-aheads establish. `move_step` is the inversion of `Scanner.step` into these
moves; every invariant of a scan is proved by cases on a move, never by unfolding a step function
again.

The inversion follows the step functions: one lemma for each (`move_rootStep`, `move_keyStep`,
`move_textStep`, `move_bodyStep` and so on), which uses those of the functions it calls. All of them
suppose that the input is clean (`Symbol.Clean`) where text is read, as the symbols of a file are.

Three invariants are proved here at once, because what follows them needs them.

* `Stacked`: the stack is the margin, the end, or a body inside of so many options (`Bodies`), with
  perhaps a replacement in it. A move keeps it (`Move.stacked`). No more than `maxNesting`
  replacements are open (`Move.nesting_le`).
* `Busy`: a body in which a replacement is open has produced something, so that a line break behind
  the replacement is a token (`Move.busy`).
* `Moved`: the cursor only moves forward (`moved_step`), so what a step leaves unread is the end of
  what was unread before.
-/

namespace MessageCatalog.Scanner

open MessageCatalog.Symbol (Clean isSpace isNewline)

/-- The token reports a fault. Such tokens may stand wherever a `Move` lists them, in any number. -/
def Reports (t : Token) : Prop := t.kind = .invalid

/-- What a step can do. A move names the mode it starts from, which is the innermost one of the
stack, and what becomes of the stack; the tokens are those that the step yields. About the symbols
that are read it says as much as the proofs need, and nothing about where the cursor is then, which
is left to `Moved`. -/
inductive Move : Scanner → List Token → Scanner → Prop
  /-- The end of the file, with nothing but blank lines and spaces in front of it. -/
  | finish {c c' : Cursor} {below : List Mode} (pos : Position)
      (hblank : ∃ lines run, Layout.Blanks lines ∧ Layout.Spaces run ∧ c.rest = lines ++ run) :
    Move ⟨c, .root :: below⟩ [token .eof [] pos] ⟨c', [.done]⟩
  /-- A fault that ends the scan. -/
  | abort {c c' : Cursor} {stack : List Mode} {t : Token} (ht : Reports t) :
    Move ⟨c, stack⟩ [t] ⟨c', [.done]⟩
  /-- A line at the margin that yields nothing, or a fault. -/
  | line {c c' : Cursor} {below : List Mode} {faults : List Token}
      (hfaults : ∀ t ∈ faults, Reports t) :
    Move ⟨c, .root :: below⟩ faults ⟨c', .root :: below⟩
  /-- A section header. -/
  | header {c c' : Cursor} {below : List Mode} {name : List Char} {faults : List Token}
      (pos : Position) (hname : name ≠ []) (hfaults : ∀ t ∈ faults, Reports t) :
    Move ⟨c, .root :: below⟩ (token .sectionHeader name pos :: faults) ⟨c', .root :: below⟩
  /-- A message key without a body. -/
  | key {c c' : Cursor} {below : List Mode} {key : List Char} {faults : List Token}
      (pos : Position) (hkey : Word.isIdent key = true) (hfaults : ∀ t ∈ faults, Reports t) :
    Move ⟨c, .root :: below⟩ (token .messageKey key pos :: faults) ⟨c', .root :: below⟩
  /-- A message key with a body below it, which starts with content. -/
  | keyBody {c c' : Cursor} {below : List Mode} {key : List Char} {faults : List Token}
      (pos : Position) (hkey : Word.isIdent key = true) (hfaults : ∀ t ∈ faults, Reports t)
      (hcontent : Layout.NoSpace c'.rest) :
    Move ⟨c, .root :: below⟩ (token .messageKey key pos :: faults)
      ⟨c', .body false false :: .root :: below⟩
  /-- The end of a body; that of an option ends at a closing brace. -/
  | leave {c : Cursor} {nested produced : Bool} {below : List Mode}
      (hclosed : nested = true → c.rest.head? = some (.char '}')) :
    Move ⟨c, .body nested produced :: below⟩ [] ⟨c, below⟩
  /-- A line break inside a body. -/
  | continuation {c c' : Cursor} {nested produced : Bool} {below : List Mode} {yield : List Token}
      (pos : Position)
      (hyield : yield = if produced then [token .messageNewline [] pos] else [])
      (hcontent : Layout.NoSpace c'.rest) :
    Move ⟨c, .body nested produced :: below⟩ yield ⟨c', .body nested produced :: below⟩
  /-- A run of text. -/
  | text {c c' : Cursor} {nested produced : Bool} {below : List Mode} {cs : List Char}
      (pos : Position) (hne : cs ≠ []) (htext : Word.isText cs = true)
      (hrest : c.rest = cs.map .char ++ c'.rest) (hend : Word.EndsText c'.rest) :
    Move ⟨c, .body nested produced :: below⟩ [token .messageText cs pos]
      ⟨c', .body nested true :: below⟩
  /-- A run of text in front of an illegal symbol. -/
  | illegal {c c' : Cursor} {nested produced : Bool} {below : List Mode} {cs : List Char}
      {t : Token} (pos : Position) (ht : Reports t) (hne : cs ≠ [])
      (htext : Word.isText cs = true) :
    Move ⟨c, .body nested produced :: below⟩ [token .messageText cs pos, t] ⟨c', [.root]⟩
  /-- The start of a replacement. -/
  | opening {c c' : Cursor} {nested produced : Bool} {below : List Mode} (pos : Position)
      (hroom : nesting below < maxNesting) :
    Move ⟨c, .body nested produced :: below⟩ []
      ⟨c', .replacement (.key pos) :: .body nested true :: below⟩
  /-- A fault inside a message, after which the scan goes on at the margin. -/
  | fail {c c' : Cursor} {stack : List Mode} {t : Token} (ht : Reports t) :
    Move ⟨c, stack⟩ [t] ⟨c', [.root]⟩
  /-- The key of a replacement. -/
  | start {c c' : Cursor} {pos : Position} {below : List Mode} {key : List Char}
      (hkey : Word.isIdent key = true) :
    Move ⟨c, .replacement (.key pos) :: below⟩ [token .replacementStart key pos]
      ⟨c', .replacement .options :: below⟩
  /-- The key and the type of a replacement. -/
  | startTyped {c c' : Cursor} {pos : Position} {below : List Mode} {key kind : List Char}
      (typePos : Position) (hkey : Word.isIdent key = true) :
    Move ⟨c, .replacement (.key pos) :: below⟩
      [token .replacementStart key pos, token .replacementType kind typePos]
      ⟨c', .replacement .options :: below⟩
  /-- The key of a replacement with a fault in place of its type. -/
  | startFault {c c' : Cursor} {pos : Position} {below : List Mode} {key : List Char} {t : Token}
      (ht : Reports t) :
    Move ⟨c, .replacement (.key pos) :: below⟩ [token .replacementStart key pos, t] ⟨c', [.root]⟩
  /-- An option without a body. -/
  | option {c c' : Cursor} {below : List Mode} {name : List Char} (pos endPos : Position)
      (hname : Word.IsOptionName name) :
    Move ⟨c, .replacement .options :: below⟩
      [token .optionStart name pos, token .optionEnd [] endPos]
      ⟨c', .replacement .options :: below⟩
  /-- An option with a body. -/
  | optionBody {c c' : Cursor} {below : List Mode} {name : List Char} (pos : Position)
      (hname : Word.IsOptionName name) :
    Move ⟨c, .replacement .options :: below⟩ [token .optionStart name pos]
      ⟨c', .body true false :: .replacement .optionBody :: below⟩
  /-- The end of a replacement. -/
  | close {c c' : Cursor} {below : List Mode} (pos : Position) :
    Move ⟨c, .replacement .options :: below⟩ [token .replacementEnd ['}'] pos] ⟨c', below⟩
  /-- The end of an option. -/
  | optionEnd {c c' : Cursor} {below : List Mode} (pos : Position) :
    Move ⟨c, .replacement .optionBody :: below⟩ [token .optionEnd ['}'] pos]
      ⟨c', .replacement .options :: below⟩

/-! ### At the margin

The margin is the mode between messages. A line there yields its tokens at once, and only the body
of a message is entered. -/

/-- At the end of a line there is no token but a fault: `lineEnd` yields one or none. -/
theorem reports_of_mem_lineEnd {fault : Token.Fault} {c : Cursor} {t : Token}
    (h : t ∈ lineEnd fault c) : Reports t := by
  unfold lineEnd at h
  split at h
  · cases h
  · cases h
  · obtain rfl := List.mem_singleton.mp h
    rfl

/-- A comment yields no token but a fault (`Reports`). What is commented is not looked at. -/
theorem reports_of_mem_commentTokens {c : Cursor} {t : Token} (h : t ∈ commentTokens c) :
    Reports t := by
  unfold commentTokens at h
  split at h
  · dsimp only at h
    split at h
    · obtain rfl := List.mem_singleton.mp h
      rfl
    · cases h
  · obtain rfl := List.mem_singleton.mp h
    rfl

/-- A line that starts with a bracket is a section header, with faults behind it perhaps, or
`headerTokens` yields faults only. -/
theorem headerTokens_cases (c : Cursor) :
    (∀ t ∈ headerTokens c, Reports t) ∨
      ∃ name pos faults, name ≠ [] ∧ (∀ t ∈ faults, Reports t) ∧
        headerTokens c = token .sectionHeader name pos :: faults := by
  have hone (fault : Token.Fault) (pos : Position) : ∀ t ∈ [invalid fault pos], Reports t := by
    intro t ht
    obtain rfl := List.mem_singleton.mp ht
    rfl
  unfold headerTokens
  split
  · dsimp only
    split
    · exact .inl (hone _ _)
    · rename_i hname
      split
      · exact .inr ⟨_, _, _, hname, fun _ => reports_of_mem_lineEnd, rfl⟩
      · exact .inl (hone _ _)
  · exact .inl (hone _ _)

/-- A line that starts with a key, or should: the steps of `keyStep` are moves. -/
theorem move_keyStep (c₀ c : Cursor) (below : List Mode) :
    Move ⟨c₀, .root :: below⟩ (keyStep c (.root :: below)).1 (keyStep c (.root :: below)).2 := by
  unfold keyStep
  dsimp only
  split
  -- no key at all
  · exact .line fun t ht => by obtain rfl := List.mem_singleton.mp ht; rfl
  -- a key, with or without a colon and a body
  · rename_i hkey
    have hident := Word.isIdent_ident hkey
    split
    · split
      · rename_i hwidth
        obtain ⟨s, rest, hdrop, hspace, -⟩ := Layout.head_drop_indentWidth? hwidth
        refine .keyBody _ hident (fun _ => reports_of_mem_lineEnd) ?_
        rw [Cursor.rest_drop, hdrop]
        exact Layout.noSpace_cons.mpr hspace
      · exact .key _ hident fun _ => reports_of_mem_lineEnd
    · exact .key _ hident fun t ht => by obtain rfl := List.mem_singleton.mp ht; rfl

/-- The steps at the margin, where `rootStep` tells lines by their first symbol, are moves. -/
theorem move_rootStep (c : Cursor) (below : List Mode) :
    Move ⟨c, .root :: below⟩ (rootStep c (.root :: below)).1 (rootStep c (.root :: below)).2 := by
  unfold rootStep
  dsimp only
  split
  -- only blank lines are left
  · rename_i hnil
    obtain ⟨lines, rest, heq, hlines, -, hwidth⟩ := Layout.exists_blanks c.rest
    rw [Cursor.skipSpace, Cursor.rest_drop, Layout.drop_spaceWidth, Cursor.rest_drop, hwidth, heq,
      List.drop_left] at hnil
    exact .finish _ ⟨lines, rest, hlines, Layout.spaces_of_dropWhile_eq_nil hnil, heq⟩
  · split
    -- an indented line at the margin
    · exact .abort rfl
    · split
      -- a header, a comment or a key
      · rcases headerTokens_cases (c.drop (Layout.blankWidth c.rest)) with
          h | ⟨name, pos, faults, hname, hfaults, heq⟩
        · exact .line h
        · rw [heq]
          exact .header pos hname hfaults
      · exact .line fun _ => reports_of_mem_commentTokens
      · exact move_keyStep c _ below

/-! ### In a body

What stands in a body is told from the first symbol, or the first two; what none of the other
branches takes is text, or a symbol that is not legal. -/

/-- A run of text is a move, also one that ends at an illegal symbol. There is text or an illegal
symbol, so `textStep` does not stay where it is. -/
theorem move_textStep {c : Cursor} (nested produced : Bool) (below : List Mode)
    (hclean : Clean c.rest)
    (h : Word.text c.rest ≠ [] ∨ (c.rest.head?.bind Symbol.fault?).isSome) :
    Move ⟨c, .body nested produced :: below⟩ (textStep c nested produced below).1
      (textStep c nested produced below).2 := by
  unfold textStep
  dsimp only
  split
  -- an illegal symbol ends the run, or stands where it should start
  · by_cases hnil : Word.text c.rest = []
    · rw [if_pos hnil]
      exact .fail rfl
    · rw [if_neg hnil]
      exact .illegal _ rfl hnil (Word.isText_text hclean)
  -- otherwise the scanner has been sent here by text
  · rename_i hnone
    have hne : Word.text c.rest ≠ [] := by
      rcases h with h | h
      · exact h
      · intro hnil
        rw [hnil, List.length_nil, Cursor.drop_zero] at hnone
        rw [hnone] at h
        cases h
    have hend := (Word.drop_text c.rest).resolve_right (by rw [← Cursor.rest_drop, hnone]; simp)
    rw [if_neg hne, decide_eq_true hne, Bool.or_true]
    exact .text _ hne (Word.isText_text hclean) (Word.text_append c.rest).symm hend

/-- Where a body does not end, break its line or hold a replacement, there is text (`Word.text`) or
an illegal symbol. -/
theorem text_or_fault {input : List Symbol} (hnil : input ≠ [])
    (hnewline : ∀ style rest, input ≠ .newline style :: rest)
    (hbrace : ∀ rest, input ≠ .char '}' :: rest)
    (hopen : ∀ rest, input ≠ .char '$' :: .char '{' :: rest) :
    Word.text input ≠ [] ∨ (input.head?.bind Symbol.fault?).isSome := by
  obtain ⟨s, rest, rfl⟩ := List.exists_cons_of_ne_nil hnil
  cases hfault : s.fault? with
  | some fault => exact .inr (by simp [hfault])
  | none =>
    refine .inl (text_ne_nil ?_ ?_ ?_ hfault)
    · rintro style rfl
      exact hnewline style rest rfl
    · rintro rfl
      exact hbrace rest rfl
    · rintro tail rfl rfl
      exact hopen tail rfl

/-- The steps in a body are moves. By what stands first, `bodyStep` is at an end, at a line break,
at a replacement or at text. -/
theorem move_bodyStep {c : Cursor} (nested produced : Bool) (below : List Mode)
    (hclean : Clean c.rest) :
    Move ⟨c, .body nested produced :: below⟩ (bodyStep c nested produced below).1
      (bodyStep c nested produced below).2 := by
  unfold bodyStep
  split
  · cases nested
    · exact .leave (by simp)
    · exact .abort rfl
  · split
    · rename_i width hwidth
      obtain ⟨s, rest, hdrop, hspace, -⟩ := Layout.head_drop_continuationWidth? hwidth
      refine .continuation c.nextPos rfl ?_
      rw [Cursor.rest_drop, hdrop]
      exact Layout.noSpace_cons.mpr hspace
    · cases nested
      · exact .leave (by simp)
      · exact .fail rfl
  · rename_i hbrace
    cases nested
    · exact .fail rfl
    · exact .leave fun _ => by rw [hbrace]; rfl
  · split
    · exact .abort rfl
    · rename_i hroom
      exact .opening _ (Nat.lt_of_not_le hroom)
  · rename_i h₁ h₂ h₃ h₄
    exact move_textStep nested produced below hclean (text_or_fault h₁ h₂ h₃ h₄)

/-! ### In a replacement

A replacement goes through three stages: its key, its options, and behind the body of an option the
closing brace of that. -/

/-- The key of a replacement, with its type, is a `Move`. -/
theorem move_replacementKeyStep (pos : Position) (c : Cursor) (below : List Mode) :
    Move ⟨c, .replacement (.key pos) :: below⟩ (replacementKeyStep pos c below).1
      (replacementKeyStep pos c below).2 := by
  unfold replacementKeyStep
  dsimp only
  split
  · exact .fail rfl
  · rename_i hkey
    have hident := Word.isIdent_ident hkey
    split
    · split
      · exact .startFault rfl
      · exact .startTyped _ hident
    · exact .start hident

/-- The name of an option is an identifier or a literal: what `optionName` reads is
`Word.IsOptionName`. -/
theorem isOptionName_of_optionName {input : List Symbol} {name : List Char} (hclean : Clean input)
    (h : optionName input = .ok name) : Word.IsOptionName name := by
  unfold optionName at h
  split at h
  · rename_i rest
    dsimp only at h
    split at h
    · obtain rfl := Except.ok.inj h
      have := Word.isLiteral_literal (hclean.of_suffix (List.suffix_cons (.char '[') rest))
      exact .inr ⟨_, this, rfl⟩
    · split at h <;> cases h
  · dsimp only at h
    split at h
    · cases h
    · rename_i hname
      obtain rfl := Except.ok.inj h
      exact .inl (Word.isIdent_ident hname)

/-- The name that `optionName` reads stands at the start of the input. -/
theorem optionName_append {input : List Symbol} {name : List Char}
    (h : optionName input = .ok name) : input = name.map .char ++ input.drop name.length := by
  have hsplit {after : List Symbol} (h : input = name.map .char ++ after) :
      input = name.map .char ++ input.drop name.length := by
    rw [h, List.drop_left' (by simp)]
  unfold optionName at h
  split at h
  · rename_i rest
    have hliteral := Word.charsWhile_append (fun c => c ≠ ']' && (Symbol.char c).fault?.isNone) rest
    dsimp only [Word.literal] at h
    generalize Word.charsWhile _ rest = text at h hliteral
    split at h
    · rename_i tail hclose
      obtain rfl := Except.ok.inj h
      rw [hclose] at hliteral
      have hinput : Symbol.char '[' :: rest = List.map .char ('[' :: text ++ [']']) ++ tail := by
        rw [← hliteral]
        simp
      exact hsplit hinput
    · split at h <;> cases h
  · dsimp only at h
    split at h
    · cases h
    · obtain rfl := Except.ok.inj h
      exact (Word.ident_append _).symm

/-- In front of a fault of `optionName` there are only characters, so no line is passed over. -/
theorem optionName_error {input : List Symbol} {width : Nat} {fault : Token.Fault}
    (h : optionName input = .error (width, fault)) :
    ∃ cs : List Char, cs.map .char <+: input ∧ width = cs.length := by
  unfold optionName at h
  split at h
  · rename_i rest
    have hliteral := Word.charsWhile_append (fun c => c ≠ ']' && (Symbol.char c).fault?.isNone) rest
    dsimp only [Word.literal] at h
    generalize Word.charsWhile _ rest = text at h hliteral
    have hprefix : List.map Symbol.char ('[' :: text) <+: .char '[' :: rest :=
      ⟨rest.drop text.length, by rw [List.map_cons, List.cons_append, hliteral]⟩
    split at h
    · cases h
    · split at h
      · obtain ⟨rfl, -⟩ := Prod.mk.inj (Except.error.inj h)
        exact ⟨'[' :: text, hprefix, rfl⟩
      · obtain ⟨rfl, -⟩ := Prod.mk.inj (Except.error.inj h)
        exact ⟨'[' :: text, hprefix, rfl⟩
  · dsimp only at h
    split at h
    · obtain ⟨rfl, -⟩ := Prod.mk.inj (Except.error.inj h)
      exact ⟨[], List.nil_prefix, rfl⟩
    · cases h

/-- An option, from the dot on, is a `Move`. It may have been reached over spaces and a line break,
so the two cursors differ. -/
theorem move_optionStep (c₀ : Cursor) {c : Cursor} (below : List Mode) (hclean : Clean c.rest) :
    Move ⟨c₀, .replacement .options :: below⟩ (optionStep c below).1 (optionStep c below).2 := by
  unfold optionStep
  split
  · exact .abort rfl
  · dsimp only
    split
    · exact .fail rfl
    · rename_i name hname
      have hname := isOptionName_of_optionName
        (hclean.of_suffix (Cursor.rest_drop_suffix c 1)) hname
      split
      · exact .optionBody _ hname
      · exact .option _ _ hname
  · exact .close _
  · exact .fail rfl

/-- What stands between options is a `Move`: the end of the replacement, or the spaces in front of
an option. -/
theorem move_foldStep {c : Cursor} (below : List Mode) (hclean : Clean c.rest) :
    Move ⟨c, .replacement .options :: below⟩ (foldStep c below).1 (foldStep c below).2 := by
  have hline : Clean c.skipSpace.rest := hclean.of_suffix (Cursor.rest_drop_suffix c _)
  unfold foldStep
  dsimp only
  split
  · split
    · exact move_optionStep c below (hline.of_suffix (Cursor.rest_drop_suffix _ _))
    · exact .fail rfl
  · exact move_optionStep c below hline

/-- The end of an option body is a move. -/
theorem move_optionEndStep (c : Cursor) (below : List Mode) :
    Move ⟨c, .replacement .optionBody :: below⟩ (optionEndStep c below).1
      (optionEndStep c below).2 := by
  unfold optionEndStep
  split
  · exact .optionEnd _
  · exact .fail rfl

/-- Every step of a scan that is not over is one of the moves. After this, `Scanner.step` need not
be opened any more: what is kept by every `Move` is kept by every step. -/
theorem move_step {s : Scanner} (h : s.isDone = false) (hclean : Clean s.cursor.rest) :
    Move s s.step.1 s.step.2 := by
  obtain ⟨c, stack⟩ := s
  match stack with
  | [] => simp [isDone] at h
  | .done :: _ => simp [isDone] at h
  | .root :: below => exact move_rootStep c below
  | .body nested produced :: below => exact move_bodyStep nested produced below hclean
  | .replacement (.key pos) :: below => exact move_replacementKeyStep pos c below
  | .replacement .options :: below => exact move_foldStep below hclean
  | .replacement .optionBody :: below => exact move_optionEndStep c below

/-- Only the end of the file yields an end-of-file token. It comes at the margin, with nothing but
`Layout.Blanks` and spaces left to read, and the scan is over with it. -/
theorem Move.eof {s s' : Scanner} {yield : List Token} (h : Move s yield s') :
    (∀ t ∈ yield, t.kind ≠ .eof) ∨
      ∃ below pos, s.stack = .root :: below ∧ yield = [token .eof [] pos] ∧ s'.isDone = true ∧
        ∃ lines run, Layout.Blanks lines ∧ Layout.Spaces run ∧ s.cursor.rest = lines ++ run := by
  have hreports {faults : List Token} (h : ∀ t ∈ faults, Reports t) :
      ∀ t ∈ faults, t.kind ≠ .eof := by
    intro t ht heof
    have := h t ht
    rw [Reports, heof] at this
    cases this
  cases h with
  | finish pos hblank => exact .inr ⟨_, pos, rfl, rfl, rfl, hblank⟩
  | line hfaults => exact .inl (hreports hfaults)
  | header pos _ hfaults =>
    exact .inl (List.forall_mem_cons.mpr ⟨by simp [token], hreports hfaults⟩)
  | key pos _ hfaults => exact .inl (List.forall_mem_cons.mpr ⟨by simp [token], hreports hfaults⟩)
  | keyBody pos _ hfaults =>
    exact .inl (List.forall_mem_cons.mpr ⟨by simp [token], hreports hfaults⟩)
  | continuation pos hyield _ =>
    subst hyield
    split <;> simp [token]
  | abort ht => exact .inl (by simp [show _ = _ from ht])
  | fail ht => exact .inl (by simp [show _ = _ from ht])
  | illegal pos ht => exact .inl (by simp [token, show _ = _ from ht])
  | startFault ht => exact .inl (by simp [token, show _ = _ from ht])
  | _ => exact .inl (by simp [token])

/-! ### The stack

The stack alternates: on the margin there is a body, in a body a replacement, and in a replacement
the body of an option. -/

/-- A body does not count as nesting. -/
@[simp] theorem nesting_body (nested produced : Bool) (below : List Mode) :
    nesting (.body nested produced :: below) = nesting below := by
  simp [nesting]

/-- An open replacement is one level of `nesting`, and bodies are none. -/
@[simp] theorem nesting_replacement (stage : Stage) (below : List Mode) :
    nesting (.replacement stage :: below) = nesting below + 1 := by
  simp [nesting]

/-- The innermost mode is a body, inside of as many options as given. The bodies around it are in
the stack, each with the replacement whose option it stands in. So the number is also that of
replacements (`Bodies.nesting_eq`). -/
inductive Bodies : List Mode → Nat → Prop
  | message (produced : Bool) : Bodies [.body false produced, .root] 0
  | option (produced : Bool) {stack : List Mode} {depth : Nat} (h : Bodies stack depth) :
    Bodies (.body true produced :: .replacement .optionBody :: stack) (depth + 1)

/-- Whether the body has produced anything does not matter for the shape of the stack, nor for
`Bodies`. -/
theorem Bodies.setProduced {nested produced : Bool} {below : List Mode} {depth : Nat}
    (h : Bodies (.body nested produced :: below) depth) (produced' : Bool) :
    Bodies (.body nested produced' :: below) depth := by
  cases h with
  | message => exact .message produced'
  | option _ h => exact .option produced' h

/-- A body is inside of as many replacements as options, so the depth in `Bodies` is the `nesting`
of the stack. -/
theorem Bodies.nesting_eq {stack : List Mode} {depth : Nat} (h : Bodies stack depth) :
    nesting stack = depth := by
  induction h with
  | message produced => simp [nesting]
  | option produced _ ih => rw [nesting_body, nesting_replacement, ih]

/-- The stacks that a scan can reach: the margin, the end, or a body with perhaps a replacement in
it. Everything below the innermost mode is told by `Bodies`. -/
inductive Stacked : List Mode → Prop
  | root : Stacked [.root]
  | done : Stacked [.done]
  | body {stack : List Mode} {depth : Nat} (h : Bodies stack depth) : Stacked stack
  | replacement {stack : List Mode} {depth : Nat} (stage : Stage) (h : Bodies stack depth) :
    Stacked (.replacement stage :: stack)

theorem Stacked.of_root {below : List Mode} (h : Stacked (.root :: below)) : below = [] := by
  cases h with
  | root => rfl
  | body h => cases h

/-- A scan that is over has nothing on its stack but `Mode.done`. -/
theorem Stacked.of_done {s : Scanner} (h : Stacked s.stack) (hdone : s.isDone = true) :
    s.stack = [.done] := by
  obtain ⟨c, stack⟩ := s
  cases h with
  | root => cases hdone
  | done => rfl
  | body h => cases h <;> cases hdone
  | replacement => cases hdone

/-- A body stands on the bodies around it (`Bodies`). So does a replacement, which stands in a body.
-/
theorem Stacked.of_body {nested produced : Bool} {below : List Mode}
    (h : Stacked (.body nested produced :: below)) :
    ∃ depth, Bodies (.body nested produced :: below) depth := by
  cases h with
  | body h => exact ⟨_, h⟩

theorem Stacked.of_replacement {stage : Stage} {below : List Mode}
    (h : Stacked (.replacement stage :: below)) : ∃ depth, Bodies below depth := by
  cases h with
  | body h => cases h
  | replacement _ h => exact ⟨_, h⟩

/-- A move keeps the stack in shape. An option that ends leads back into a replacement, of which
`Bodies` knows. -/
theorem Move.stacked {s s' : Scanner} {yield : List Token} (hmove : Move s yield s')
    (h : Stacked s.stack) : Stacked s'.stack := by
  cases hmove with
  | finish | abort => exact .done
  | line | header | key => exact h
  | fail | illegal | startFault => exact .root
  -- a message is entered from the margin
  | keyBody =>
    obtain rfl := h.of_root
    exact .body (.message false)
  -- a body ends in what is below it: the margin, or the option whose body it is
  | leave =>
    obtain ⟨depth, hbodies⟩ := h.of_body
    cases hbodies with
    | message => exact .root
    | option _ hbelow => exact .replacement .optionBody hbelow
  | continuation => exact h
  | text =>
    obtain ⟨depth, h⟩ := h.of_body
    exact .body (h.setProduced true)
  -- the body below the new replacement has produced something, its shape is the same
  | opening =>
    obtain ⟨depth, h⟩ := h.of_body
    exact .replacement _ (h.setProduced true)
  | start | startTyped | option | optionEnd =>
    obtain ⟨depth, h⟩ := h.of_replacement
    exact .replacement .options h
  | optionBody =>
    obtain ⟨depth, h⟩ := h.of_replacement
    exact .body (.option false h)
  | close =>
    obtain ⟨depth, h⟩ := h.of_replacement
    exact .body h

/-- No more replacements than `maxNesting` are ever open: the move that opens one asks how many
there are. -/
theorem Move.nesting_le {s s' : Scanner} {yield : List Token} (hmove : Move s yield s')
    (h : nesting s.stack ≤ maxNesting) : nesting s'.stack ≤ maxNesting := by
  have hmargin : nesting [.root] ≤ maxNesting := by decide
  have hdone : nesting [.done] ≤ maxNesting := by decide
  cases hmove with
  | finish | abort => exact hdone
  | fail | illegal | startFault => exact hmargin
  | line | header | key => exact h
  | opening pos hroom =>
    simp only [nesting_body, nesting_replacement] at h ⊢
    omega
  | keyBody | leave | continuation | text | start | startTyped | option | optionBody | close
  | optionEnd =>
    simp only [nesting_body, nesting_replacement] at h ⊢
    omega

/-- A body with an open replacement has produced something. It says so of all bodies on the stack
that have one, by the flag of `Mode.body`. -/
def Busy : List Mode → Prop
  | .replacement _ :: .body nested produced :: below =>
    produced = true ∧ Busy (.body nested produced :: below)
  | _ :: below => Busy below
  | [] => True

/-- The innermost body, in which no replacement is open, may have produced nothing, so `Busy` does
not look at it. -/
theorem busy_body {nested produced : Bool} {below : List Mode} :
    Busy (.body nested produced :: below) ↔ Busy below := by
  simp [Busy]

/-- Closing a replacement keeps what `Busy` says of the bodies below. -/
theorem Busy.of_replacement {stage : Stage} {below : List Mode}
    (h : Busy (.replacement stage :: below)) : Busy below := by
  unfold Busy at h
  split at h
  · rename_i heq
    obtain ⟨-, rfl⟩ := List.cons.inj heq
    exact h.2
  · rename_i heq
    obtain ⟨-, rfl⟩ := List.cons.inj heq
    exact h
  · rename_i heq
    cases heq

/-- The stage of a replacement does not matter. -/
theorem Busy.setStage {stage : Stage} {below : List Mode} (h : Busy (.replacement stage :: below))
    (stage' : Stage) : Busy (.replacement stage' :: below) := by
  match below with
  | .body nested produced :: below => exact h
  | [] => simp [Busy]
  | .root :: _ | .done :: _ | .replacement _ :: _ => simpa [Busy] using h

/-- The body around an open replacement has produced something. It is for this that `Busy` is kept.
-/
theorem Busy.produced {stage : Stage} {nested produced : Bool} {below : List Mode}
    (h : Busy (.replacement stage :: .body nested produced :: below)) : produced = true := h.1

/-- A move keeps `Busy`: a replacement that is opened has its body marked at once. -/
theorem Move.busy {s s' : Scanner} {yield : List Token} (hmove : Move s yield s')
    (h : Busy s.stack) : Busy s'.stack := by
  cases hmove with
  | finish | abort | fail | illegal | startFault => simp [Busy]
  | line | header | key => exact h
  | keyBody => simpa [Busy] using h
  | leave => exact busy_body.mp h
  | continuation => exact h
  | text => exact busy_body.mpr (busy_body.mp h)
  | opening => exact ⟨rfl, busy_body.mpr (busy_body.mp h)⟩
  | start | startTyped | option | optionEnd => exact h.setStage _
  | optionBody => exact busy_body.mpr (h.setStage _)
  | close => exact h.of_replacement

/-! ### The cursor only moves forward

This is proved from the step functions and not from the moves, which leave open how far the cursor
goes. -/

/-- The cursor has moved over some symbols, perhaps none. All that is done to a cursor is
`Cursor.drop`, so it never moves back. -/
def Moved (c₀ c : Cursor) : Prop := ∃ n, c = c₀.drop n

theorem Moved.refl (c : Cursor) : Moved c c := ⟨0, rfl⟩

theorem moved_drop (c : Cursor) (n : Nat) : Moved c (c.drop n) := ⟨n, rfl⟩

theorem Moved.drop {c₀ c : Cursor} (n : Nat) (h : Moved c₀ c) : Moved c₀ (c.drop n) := by
  obtain ⟨m, rfl⟩ := h
  exact ⟨m + n, Cursor.drop_drop c₀ m n⟩

theorem Moved.trans {c₀ c c' : Cursor} (h : Moved c₀ c) (h' : Moved c c') : Moved c₀ c' := by
  obtain ⟨n, rfl⟩ := h'
  exact h.drop n

/-- Of two places in front of a cursor the farther one is reached from the nearer. -/
theorem moved_drop_of_le {c : Cursor} {m n : Nat} (h : m ≤ n) : Moved (c.drop m) (c.drop n) :=
  ⟨n - m, by rw [Cursor.drop_drop, Nat.add_sub_cancel' h]⟩

/-- What is left to read by a cursor that has `Moved` is an end of what was left before, and thereby
of the whole file. -/
theorem Moved.rest_suffix {c₀ c : Cursor} (h : Moved c₀ c) : c.rest <:+ c₀.rest := by
  obtain ⟨n, rfl⟩ := h
  exact Cursor.rest_drop_suffix c₀ n

/-- A step at the margin moves forward. The other steps do as well, by the same way: each ends in
`Cursor.drop` of where it began. -/
theorem moved_rootStep (c : Cursor) (stack : List Mode) :
    Moved c (rootStep c stack).2.cursor := by
  have hline := moved_drop c (Layout.blankWidth c.rest)
  unfold rootStep
  dsimp only
  generalize c.drop (Layout.blankWidth c.rest) = line at hline ⊢
  split
  · exact hline.drop _
  · split
    · exact hline
    · split
      · exact hline.drop _
      · exact hline.drop _
      · unfold keyStep
        dsimp only
        split
        · exact hline.drop _
        · split
          · split
            · exact (hline.drop _).drop _
            · exact hline.drop _
          · exact hline.drop _

theorem moved_bodyStep (c : Cursor) (nested produced : Bool) (below : List Mode) :
    Moved c (bodyStep c nested produced below).2.cursor := by
  have hself := Moved.refl c
  unfold bodyStep
  split
  · split <;> exact hself
  · split
    · exact hself.drop _
    · split
      · exact hself.drop _
      · exact hself
  · split
    · exact hself
    · exact hself.drop _
  · split
    · exact hself
    · exact hself.drop _
  · unfold textStep
    dsimp only
    split
    · exact (hself.drop _).drop _
    · exact hself.drop _

theorem moved_replacementKeyStep (pos : Position) (c : Cursor) (below : List Mode) :
    Moved c (replacementKeyStep pos c below).2.cursor := by
  have hafter := moved_drop c (Word.ident c.rest).length
  unfold replacementKeyStep
  dsimp only
  split
  · exact moved_drop c _
  · split
    · split
      · exact (hafter.drop _).drop _
      · exact (hafter.drop _).drop _
    · exact hafter

theorem moved_optionStep {c c₀ : Cursor} (below : List Mode) (h : Moved c₀ c) :
    Moved c₀ (optionStep c below).2.cursor := by
  unfold optionStep
  split
  · exact h
  · dsimp only
    split
    · exact ((h.drop _).drop _).drop _
    · split
      · exact ((h.drop _).drop _).drop _
      · exact (h.drop _).drop _
  · exact h.drop _
  · exact h.drop _

theorem moved_foldStep (c : Cursor) (below : List Mode) :
    Moved c (foldStep c below).2.cursor := by
  have hline : Moved c c.skipSpace := moved_drop c _
  unfold foldStep
  dsimp only
  split
  · split
    · exact moved_optionStep below (hline.drop _)
    · exact hline.drop _
  · exact moved_optionStep below hline

/-- A step moves the cursor forward (`Moved`), whatever the mode. -/
theorem moved_step (s : Scanner) : Moved s.cursor s.step.2.cursor := by
  obtain ⟨c, stack⟩ := s
  match stack with
  | [] => exact .refl _
  | .done :: _ => exact .refl _
  | .root :: below => exact moved_rootStep c _
  | .body nested produced :: below => exact moved_bodyStep c nested produced below
  | .replacement (.key pos) :: below => exact moved_replacementKeyStep pos c below
  | .replacement .options :: below => exact moved_foldStep c below
  | .replacement .optionBody :: below =>
    show Moved c (optionEndStep c below).2.cursor
    unfold optionEndStep
    split
    · exact moved_drop c _
    · exact moved_drop c _

/-- What a step leaves unread is the end of what was unread before, so what is known of all symbols
ahead is known again. -/
theorem rest_step_suffix (s : Scanner) : s.step.2.cursor.rest <:+ s.cursor.rest :=
  (moved_step s).rest_suffix

end MessageCatalog.Scanner
