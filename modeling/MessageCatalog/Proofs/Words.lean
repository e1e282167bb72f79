import MessageCatalog.Token.Word
import MessageCatalog.Proofs.Lines

/-!
# MessageCatalog.Proofs.Words

The words of the format as languages: identifiers (`isIdent`), text (`isText`), literals
(`isLiteralChar`) and the names of options (`IsOptionName`).

For each function of `Word`, which reads the longest word at the start of the input, there is a test
on characters that tells what it can give. In one direction what it gives is always such a word
(`isIdent_ident`, `isText_text`, `isLiteral_literal`). In the other it finds a word wherever that
stands in front of something that cannot continue it (`ident_append_of`, `text_append_of`,
`literal_append_of`); what that is has a name for each, such as `EndsIdent`.

Text is the one language that is not given character by character: a dollar sign is text unless a
brace follows. So whether text may be put together depends on the place where it is
(`isText_append`).
-/

namespace MessageCatalog.Word

open MessageCatalog.Symbol (Clean)

/-! ### Identifiers

An identifier starts with a letter or an underscore, as `startsIdent` has it, and goes on as
`continuesIdent` says. -/

/-- The characters form an identifier: the first may start one (`startsIdent`), and all others may
continue it. -/
def isIdent : List Char → Bool
  | c :: rest => startsIdent c && rest.all continuesIdent
  | [] => false

/-- The input cannot continue an identifier (`continuesIdent`): it is at its end, or its first
symbol is no such character. -/
def EndsIdent : List Symbol → Prop
  | .char c :: _ => continuesIdent c = false
  | _ => True

theorem isIdent_ne_nil {cs : List Char} (h : isIdent cs = true) : cs ≠ [] := by
  rintro rfl
  simp [isIdent] at h

/-- Every character of an identifier may start or continue one. So an identifier holds no bracket,
colon or brace. -/
theorem of_mem_isIdent {cs : List Char} (h : isIdent cs = true) {c : Char} (hc : c ∈ cs) :
    startsIdent c = true ∨ continuesIdent c = true := by
  cases cs with
  | nil => cases hc
  | cons d ds =>
    rw [isIdent, Bool.and_eq_true, List.all_eq_true] at h
    rcases List.mem_cons.mp hc with rfl | hc
    · exact .inl h.1
    · exact .inr (h.2 c hc)

/-- Characters that pass a test are read whole by `charsWhile` in front of something that does not
pass it. -/
theorem charsWhile_append_of {p : Char → Bool} {cs : List Char} {rest : List Symbol}
    (h : ∀ c ∈ cs, p c = true) (hrest : ∀ c tail, rest = .char c :: tail → p c = false) :
    charsWhile p (cs.map .char ++ rest) = cs := by
  induction cs with
  | nil =>
    rw [List.map_nil, List.nil_append]
    unfold charsWhile
    split
    · rename_i c tail
      rw [if_neg (by simp [hrest c tail rfl])]
    · rfl
  | cons c cs ih =>
    rw [List.map_cons, List.cons_append, charsWhile, if_pos (h c (by simp)),
      ih fun x hx => h x (by simp [hx])]

/-- What `charsWhile` has read passes the test, character by character. -/
theorem all_charsWhile (p : Char → Bool) (input : List Symbol) :
    ∀ c ∈ charsWhile p input, p c = true := by
  fun_induction charsWhile p input with
  | case1 c rest hc ih =>
    intro x hx
    rcases List.mem_cons.mp hx with rfl | hx
    · exact hc
    · exact ih x hx
  | case2 => simp
  | case3 => simp

/-- An identifier in front of something that cannot continue it is read whole: what `ident` reads is
`cs`, no more and no less. -/
theorem ident_append_of {cs : List Char} {rest : List Symbol} (h : isIdent cs = true)
    (hrest : EndsIdent rest) : ident (cs.map .char ++ rest) = cs := by
  cases cs with
  | nil => simp [isIdent] at h
  | cons c cs =>
    simp only [isIdent, Bool.and_eq_true, List.all_eq_true] at h
    rw [List.map_cons, List.cons_append, ident, if_pos h.1, charsWhile_append_of h.2]
    rintro x tail rfl
    exact hrest

/-- What is read by `ident` as an identifier is one, unless nothing is read. -/
theorem isIdent_ident {input : List Symbol} (h : ident input ≠ []) :
    isIdent (ident input) = true := by
  unfold ident at h ⊢
  split at h
  · rename_i c rest
    split at h
    · rename_i hc
      simp only [if_pos hc, isIdent, Bool.and_eq_true, List.all_eq_true]
      exact ⟨hc, all_charsWhile _ rest⟩
    · exact absurd rfl h
  · exact absurd rfl h

/-! ### Text

Text goes up to the end of its line, unless a brace ends it first. Characters that are not legal in
a file are no text either; there the scanner stops and reports. -/

/-- The character may stand in message text: it is no closing brace and no line break, and
`Symbol.fault?` has nothing to say against it. -/
def isTextChar (c : Char) : Bool :=
  c != '}' && c != '\n' && c != '\r' && (Symbol.char c).fault?.isNone

/-- The characters hold the start of a replacement, a dollar sign in front of an opening brace. -/
def opens : List Char → Bool
  | '$' :: '{' :: _ => true
  | _ :: rest => opens rest
  | [] => false

/-- The characters can be one run of message text: each may stand there (`isTextChar`), and no
replacement starts among them (`opens`). -/
def isText (cs : List Char) : Bool := cs.all isTextChar && !opens cs

/-- Message text ends here: at a line break, a closing brace, the start of a replacement, or the end
of the file. An illegal symbol ends it too, but is not counted here. This is where `text` stops in a
file without faults. -/
def EndsText : List Symbol → Prop
  | [] => True
  | .newline _ :: _ => True
  | .char '}' :: _ => True
  | .char '$' :: .char '{' :: _ => True
  | _ => False

/-- Characters hold the start of a replacement at their start or behind it. The equation by which
`opens` is used. -/
theorem opens_cons {c : Char} {cs : List Char} :
    opens (c :: cs) = true ↔ (c = '$' ∧ cs.head? = some '{') ∨ opens cs = true := by
  cases cs with
  | nil => simp [opens]
  | cons d cs =>
    by_cases h : c = '$' ∧ d = '{'
    · obtain ⟨rfl, rfl⟩ := h
      simp [opens]
    · have : opens (c :: d :: cs) = opens (d :: cs) := by
        rw [opens]
        rintro tail rfl heq
        exact h ⟨rfl, (List.cons.inj heq).1⟩
      rw [this]
      simp only [List.head?_cons, Option.some.injEq]
      exact ⟨Or.inr, fun h' => h'.resolve_left h⟩

/-- Text is built from its end: a dollar sign may not come in front of an opening brace, and
everything else that `isTextChar` allows may come in front of anything. -/
theorem isText_cons {c : Char} {cs : List Char} :
    isText (c :: cs) = true ↔
      isTextChar c = true ∧ isText cs = true ∧ ¬ (c = '$' ∧ cs.head? = some '{') := by
  simp only [isText, List.all_cons, Bool.and_eq_true, Bool.not_eq_true', ← Bool.not_eq_true,
    opens_cons, not_or]
  exact ⟨fun ⟨⟨h₁, h₂⟩, h₃, h₄⟩ => ⟨h₁, ⟨h₂, h₄⟩, h₃⟩, fun ⟨h₁, ⟨h₂, h₄⟩, h₃⟩ => ⟨⟨h₁, h₂⟩, h₃, h₄⟩⟩

theorem isTextChar_iff {c : Char} :
    isTextChar c = true ↔
      c ≠ '}' ∧ c ≠ '\n' ∧ c ≠ '\r' ∧ (Symbol.char c).fault? = none := by
  simp [isTextChar, Option.isNone_iff_eq_none, and_assoc]

/-- Text may be cut anywhere, and put together where that does not start a replacement (`opens`). By
induction on the first part. -/
theorem isText_append {xs ys : List Char} :
    isText (xs ++ ys) = true ↔
      isText xs = true ∧ isText ys = true ∧ ¬ (xs.getLast? = some '$' ∧ ys.head? = some '{') := by
  induction xs with
  | nil => simp [isText, opens]
  | cons c xs ih =>
    rw [List.cons_append, isText_cons, ih, isText_cons]
    cases xs with
    | nil =>
      simp only [List.nil_append, List.getLast?_singleton, List.head?_nil, Option.some.injEq]
      simp [isText, opens]
    | cons d xs =>
      simp only [List.cons_append, List.head?_cons, List.getLast?_cons_cons, Option.some.injEq]
      constructor
      · intro h
        obtain ⟨h₁, ⟨h₂, h₃, h₄⟩, h₅⟩ := h
        exact ⟨⟨h₁, h₂, h₅⟩, h₃, h₄⟩
      · intro h
        obtain ⟨⟨h₁, h₂, h₅⟩, h₃, h₄⟩ := h
        exact ⟨h₁, ⟨h₂, h₃, h₄⟩, h₅⟩

/-- Text that ends in front of an end is read whole by `text`. By induction, as a dollar sign is
read only with a look at what follows it. -/
theorem text_append_of {cs : List Char} {rest : List Symbol} (h : isText cs = true)
    (hrest : EndsText rest) : text (cs.map .char ++ rest) = cs := by
  induction cs with
  | nil =>
    rw [List.map_nil, List.nil_append]
    unfold EndsText at hrest
    split at hrest
    · rfl
    · rfl
    · rfl
    · rfl
    · exact absurd hrest id
  | cons c cs ih =>
    obtain ⟨hc, hcs, hopen⟩ := isText_cons.mp h
    obtain ⟨hbrace, -, -, hlegal⟩ := isTextChar_iff.mp hc
    rw [List.map_cons, List.cons_append, text, if_pos ⟨hbrace, hlegal⟩, ih hcs]
    intro tail heq hdollar
    cases cs with
    | nil =>
      rw [List.map_nil, List.nil_append] at heq
      rw [heq] at hrest
      simp [EndsText] at hrest
    | cons d cs =>
      obtain ⟨h₁, -⟩ := List.cons.inj heq
      obtain rfl := Symbol.char.inj h₁
      exact hopen ⟨hdollar, rfl⟩

theorem head?_text {input : List Symbol} {c : Char} (h : (text input).head? = some c) :
    input.head? = some (.char c) := by
  unfold text at h
  split at h
  · cases h
  · split at h
    · simpa using h
    · cases h
  · cases h

/-- What is read by `text` is text (`isText`), if the input is clean. -/
theorem isText_text {input : List Symbol} (h : Clean input) : isText (text input) = true := by
  fun_induction text input with
  | case1 => rfl
  | case2 c rest hopen hc ih =>
    have hclean := h c (by simp)
    refine isText_cons.mpr ⟨isTextChar_iff.mpr ⟨hc.1, hclean.1, hclean.2, hc.2⟩,
      ih (h.of_suffix (List.suffix_cons _ _)), ?_⟩
    intro h
    obtain ⟨rfl, hbrace⟩ := h
    obtain ⟨tail, htail⟩ : ∃ tail, rest = .char '{' :: tail := by
      have := head?_text hbrace
      cases rest with
      | nil => cases this
      | cons s tail => exact ⟨tail, by rw [Option.some.inj this]⟩
    exact hopen tail htail rfl
  | case3 => rfl
  | case4 => rfl

/-- Behind a run of text there is an end, in the sense of `EndsText`, or an illegal symbol. -/
theorem drop_text (input : List Symbol) :
    EndsText (input.drop (text input).length) ∨
      ((input.drop (text input).length).head?.bind Symbol.fault?).isSome := by
  fun_induction text input with
  | case1 => exact .inl trivial
  | case2 c rest _ _ ih => exact ih
  | case3 c rest hopen hc =>
    rw [List.length_nil, List.drop_zero]
    by_cases hbrace : c = '}'
    · subst hbrace
      exact .inl trivial
    · refine .inr ?_
      simp only [hbrace, ne_eq, not_false_eq_true, true_and] at hc
      simpa [Option.isSome_iff_ne_none] using hc
  | case4 input hopen hchar =>
    rw [List.length_nil, List.drop_zero]
    cases input with
    | nil => exact .inl trivial
    | cons s rest =>
      cases s with
      | char c => exact absurd rfl (hchar c rest)
      | newline => exact .inl trivial
      | malformed => exact .inr rfl

/-! ### Literals

A literal is closed by the first bracket; it cannot hold one. -/

/-- The character may stand between the brackets of a literal: it is no closing bracket and no line
break, and legal. -/
def isLiteralChar (c : Char) : Bool :=
  c != ']' && c != '\n' && c != '\r' && (Symbol.char c).fault?.isNone

theorem isLiteralChar_iff {c : Char} :
    isLiteralChar c = true ↔
      c ≠ ']' ∧ c ≠ '\n' ∧ c ≠ '\r' ∧ (Symbol.char c).fault? = none := by
  simp [isLiteralChar, Option.isNone_iff_eq_none, and_assoc]

/-- A literal in front of its closing bracket is read whole by `literal`. -/
theorem literal_append_of {cs : List Char} {rest : List Symbol}
    (h : cs.all isLiteralChar = true) : literal (cs.map .char ++ .char ']' :: rest) = cs := by
  refine charsWhile_append_of ?_ ?_
  · intro c hc
    obtain ⟨hbracket, -, -, hlegal⟩ := isLiteralChar_iff.mp (List.all_eq_true.mp h c hc)
    simp [hbracket, hlegal]
  · intro c tail heq
    obtain rfl := Symbol.char.inj (List.cons.inj heq).1
    simp

/-- What is read by `literal` is made of characters of one, if the input is clean. -/
theorem isLiteral_literal {input : List Symbol} (h : Clean input) :
    (literal input).all isLiteralChar = true := by
  refine List.all_eq_true.mpr fun c hc => ?_
  have hlegal := all_charsWhile _ _ c hc
  have hmem : .char c ∈ input := by
    rw [← charsWhile_append (fun c => c ≠ ']' && (Symbol.char c).fault?.isNone) input]
    exact List.mem_append_left _ (List.mem_map_of_mem hc)
  have hclean := h c hmem
  simp only [Bool.and_eq_true, decide_eq_true_eq, Option.isNone_iff_eq_none] at hlegal
  exact isLiteralChar_iff.mpr ⟨hlegal.1, hclean.1, hclean.2, hlegal.2⟩

/-! ### Option names -/

/-- The characters name an option: an identifier (`isIdent`), or a literal with its brackets around
it. -/
def IsOptionName (name : List Char) : Prop :=
  isIdent name = true ∨ ∃ cs, cs.all isLiteralChar = true ∧ name = '[' :: cs ++ [']']

end MessageCatalog.Word
