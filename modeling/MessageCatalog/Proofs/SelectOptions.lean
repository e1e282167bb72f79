import Mathlib.Data.List.Induction
import MessageCatalog.Proofs.PluralOptions

/-!
# MessageCatalog.Proofs.SelectOptions

The options of a select replacement: the first body for a case counts and so does the first option
of each bare name, also where it is refused; whatever is refused is reported once, where it stands
(`select_options`).

As for a plural replacement, what the options of a list come to is told from the list alone: the
body of the first option for a case (`FirstOf`); the first option named `default`, if it is plain
(`defaultOf`); and what the options in front of one leave to object to in it
(`ReplacementOption.selectObjection?`). Cases and bare names do not get into each other's way. A
draft holds what the options come to (`SelectDraft.Gathered`), one option at a time
(`Gathered.add`).

That the default is one of the cases is asked at the end, so the case may come behind it. Where it
is none, the error is placed at the option it came from. A draft keeps that place in a field of its
own, and could do without the position of the last token that is there to replace it
(`SelectDraft.isSome_fallbackPos`).
-/

namespace MessageCatalog

/-! ### What an option is for

Brackets alone tell a case from a directive. -/

namespace ReplacementOption

/-- The case that the option is for, if its name is a literal. It is compared as it is written. -/
def case? (o : ReplacementOption) : Option String :=
  match o.name with
  | .bare _ => none
  | .literal value => some value

/-- The bare name of the option, in lower case (`Text.lowercase`). Only one such name means
anything, but all are kept. -/
def directive? (o : ReplacementOption) : Option String :=
  match o.name with
  | .bare name => some (Text.lowercase name)
  | .literal _ => none

/-- What there is to object to in an option of a select replacement, behind other options: a second
body for a case, a second option of a bare name, or a bare option that is not plain. That a name
other than `default` means nothing is no objection. -/
def selectObjection? (earlier : List ReplacementOption) (o : ReplacementOption) : Option Cause :=
  match o.name with
  | .literal value =>
    if earlier.any (·.case? = some value) then some (.caseRepeated value) else none
  | .bare name =>
    if earlier.any (·.directive? = some (Text.lowercase name)) then some (.directiveRepeated name)
    else if o.body.isPlain then none
    else some (.directiveNotPlain name)

variable {o : ReplacementOption} {name value : String}

theorem case?_bare (h : o.name = .bare name) : o.case? = none := by
  simp only [case?, h]

theorem case?_literal (h : o.name = .literal value) : o.case? = some value := by
  simp only [case?, h]

/-- A bare name counts in lower case, and is no case. A literal is a case, and no bare name. -/
theorem directive?_bare (h : o.name = .bare name) : o.directive? = some (Text.lowercase name) := by
  simp only [directive?, h]

theorem directive?_literal (h : o.name = .literal value) : o.directive? = none := by
  simp only [directive?, h]

end ReplacementOption

open ReplacementOption

/-- The option whose text is the default: the first one named `default`, if it is plain. -/
def defaultOf (opts : List ReplacementOption) : Option ReplacementOption :=
  (opts.find? (·.directive? = some "default")).filter (·.body.isPlain)

/-! ### Select drafts

The two fields about the default are set together, by the option that `defaultOf` finds. -/

/-- The draft falls back on the text of the option `o?`, and on nothing if there is none; it knows
the place of that option. -/
structure SelectDraft.FallsBackOn (draft : SelectDraft) (o? : Option ReplacementOption) : Prop where
  text : draft.fallback = (o?.map (·.body.plainText)).getD ""
  place : draft.fallbackPos = o?.map (·.pos)

/-- The draft holds what the options come to: for each case the first body (`FirstOf`), the bare
names that have occurred, and the default with its place (`FallsBackOn`). It is the invariant of
`SelectDraft.add`. -/
structure SelectDraft.Gathered (opts : List ReplacementOption) (draft : SelectDraft) : Prop where
  cases : FirstOf case? opts draft.cases
  directives : ∀ name, draft.directives.contains name = opts.any (·.directive? = some name)
  fallback : draft.FallsBackOn (defaultOf opts)

namespace SelectDraft

variable {opts : List ReplacementOption} {draft : SelectDraft} {o : ReplacementOption}
  {name value : String}

theorem gathered_nil : Gathered [] {} := ⟨.nil, fun _ => rfl, ⟨rfl, rfl⟩⟩

/-- An option is not the first of its name if there is one already, or if it has another name. Then
`defaultOf` stays. -/
theorem defaultOf_concat_of_not_first
    (h : opts.any (·.directive? = some "default") = true ∨ o.directive? ≠ some "default") :
    defaultOf (opts ++ [o]) = defaultOf opts := by
  unfold defaultOf
  rw [List.find?_append]
  rcases h with h | h
  · rw [← List.isSome_find?] at h
    rw [Option.or_of_isSome h]
  · simp [h]

/-- The first option named `default` is the one whose text is the fallback, if it is plain. -/
theorem defaultOf_concat_of_first (h : opts.any (·.directive? = some "default") = false)
    (ho : o.directive? = some "default") :
    defaultOf opts = none ∧ defaultOf (opts ++ [o]) = if o.body.isPlain then some o else none := by
  have hnone : opts.find? (·.directive? = some "default") = none := by
    rw [← Option.not_isSome_iff_eq_none, List.isSome_find?, h]
    simp
  unfold defaultOf
  rw [List.find?_append, hnone]
  simp [ho, Option.filter]

/-- The body for a case is taken if it is the first, and `selectObjection?` is what
`SelectDraft.addCase` has against it. -/
theorem Gathered.addCase (h : Gathered opts draft) (hname : o.name = .literal value) :
    Gathered (opts ++ [o]) (draft.addCase value o.body).1 ∧
      (draft.addCase value o.body).2 = o.selectObjection? opts := by
  have hcase := case?_literal hname
  have hdirective := directive?_literal hname
  have hdirectives (name : String) :
      draft.directives.contains name = (opts ++ [o]).any (·.directive? = some name) := by
    rw [h.directives, List.any_append]
    simp [hdirective]
  have hfallback : draft.FallsBackOn (defaultOf (opts ++ [o])) := by
    rw [defaultOf_concat_of_not_first (.inr (by simp [hdirective]))]
    exact h.fallback
  unfold SelectDraft.addCase selectObjection?
  rw [hname]
  dsimp only
  rw [h.cases.any_eq_isSome]
  cases hfind : draft.cases.find? value with
  | some body => exact ⟨⟨h.cases.skip (by simp [hcase, hfind]), hdirectives, hfallback⟩, rfl⟩
  | none =>
    exact ⟨⟨h.cases.insert hcase hfind, hdirectives, ⟨hfallback.text, hfallback.place⟩⟩, rfl⟩

/-- A bare name that has occurred changes nothing about what is `Gathered`. -/
theorem Gathered.repeated (h : Gathered opts draft) (hname : o.name = .bare name)
    (hany : opts.any (·.directive? = some (Text.lowercase name)) = true) :
    Gathered (opts ++ [o]) draft := by
  have hdirective := directive?_bare hname
  refine ⟨h.cases.skip (by simp [case?_bare hname]), fun x => ?_, ?_⟩
  · rw [h.directives, List.any_append]
    by_cases hx : Text.lowercase name = x
    · rw [← hx, hany, Bool.true_or]
    · simp [hdirective, hx]
  · rw [defaultOf_concat_of_not_first]
    · exact h.fallback
    · by_cases hdefault : Text.lowercase name = "default"
      · exact .inl (hdefault ▸ hany)
      · exact .inr (by simp [hdirective, hdefault])

/-- A bare name that has not occurred has occurred from now on. -/
theorem Gathered.first (h : Gathered opts draft) (hname : o.name = .bare name)
    {fallback : String} {fallbackPos : Option Position}
    (htext : fallback = ((defaultOf (opts ++ [o])).map (·.body.plainText)).getD "")
    (hplace : fallbackPos = (defaultOf (opts ++ [o])).map (·.pos)) :
    Gathered (opts ++ [o])
      { draft with
        directives := Text.lowercase name :: draft.directives, fallback, fallbackPos } := by
  refine ⟨h.cases.skip (by simp [case?_bare hname]), fun x => ?_, ⟨htext, hplace⟩⟩
  rw [List.any_append, ← h.directives]
  simp [directive?_bare hname, Bool.or_comm, eq_comm]

/-- A bare option counts if it is the first of its name, and may be refused even so. The fallback is
set by the first one named `default` only. -/
theorem Gathered.addDirective (h : Gathered opts draft) (hname : o.name = .bare name) :
    Gathered (opts ++ [o]) (draft.addDirective name o).1 ∧
      (draft.addDirective name o).2 = o.selectObjection? opts := by
  have hdirective := directive?_bare hname
  unfold SelectDraft.addDirective selectObjection?
  rw [hname]
  dsimp only
  rw [h.directives]
  by_cases hany : opts.any (·.directive? = some (Text.lowercase name)) = true
  · rw [if_pos hany, if_pos hany]
    exact ⟨h.repeated hname hany, rfl⟩
  rw [if_neg hany, if_neg hany]
  by_cases hdefault : Text.lowercase name = "default"
  · -- the first of that name: the default, unless it is refused
    rw [hdefault] at hdirective hany
    obtain ⟨hnone, hsome⟩ := defaultOf_concat_of_first (Bool.eq_false_iff.mpr hany) hdirective
    cases hplain : o.body.isPlain with
    | false =>
      have hfallback := h.fallback
      rw [hplain] at hsome
      rw [hnone] at hfallback
      exact ⟨h.first hname (by rw [hsome]; exact hfallback.text)
        (by rw [hsome]; exact hfallback.place), rfl⟩
    | true =>
      rw [if_pos hdefault]
      rw [hplain] at hsome
      exact ⟨h.first hname (by rw [hsome]; rfl) (by rw [hsome]; rfl), rfl⟩
  · have hfallback : draft.FallsBackOn (defaultOf (opts ++ [o])) := by
      rw [defaultOf_concat_of_not_first (.inr (by simp [hdirective, hdefault]))]
      exact h.fallback
    cases hplain : o.body.isPlain with
    | false => exact ⟨h.first hname hfallback.text hfallback.place, rfl⟩
    | true =>
      rw [if_neg hdefault]
      exact ⟨h.first hname hfallback.text hfallback.place, rfl⟩

/-- One option more is taken, or refused for what there is to object to (`selectObjection?`). -/
theorem Gathered.add (h : Gathered opts draft) (o : ReplacementOption) :
    Gathered (opts ++ [o]) (draft.add o).1 ∧ (draft.add o).2 = o.selectObjection? opts := by
  unfold SelectDraft.add
  cases hname : o.name with
  | literal value => exact h.addCase hname
  | bare name => exact h.addDirective hname

/-- Whatever options it has taken, a draft holds what they come to (`Gathered`). By induction on the
options, from the end. -/
theorem exists_gathered (opts : List ReplacementOption) :
    ∃ draft, opts.foldl Draft.taking (.select {}) = .select draft ∧ Gathered opts draft := by
  induction opts using List.reverseRecOn with
  | nil => exact ⟨{}, rfl, gathered_nil⟩
  | append_singleton opts o ih =>
    obtain ⟨draft, hdraft, hgathered⟩ := ih
    refine ⟨(draft.add o).1, ?_, (hgathered.add o).1⟩
    rw [List.foldl_append, hdraft]
    rfl

/-- A default that is not empty comes from an option, whose place is known: it is that of
`SelectDraft.fallbackPos`. -/
theorem FallsBackOn.exists_of_ne_empty {o? : Option ReplacementOption} (h : draft.FallsBackOn o?)
    (hne : draft.fallback ≠ "") : ∃ o ∈ o?, draft.fallbackPos = some o.pos := by
  obtain ⟨htext, hplace⟩ := h
  cases o? with
  | none => exact absurd htext hne
  | some o => exact ⟨o, rfl, hplace⟩

/-- The default is the text of its option (`defaultOf`), and it is reported there if it is not empty
and no case; the last token has no part in it. -/
theorem Gathered.finish (h : Gathered opts draft) (last : Position) :
    ∃ dangling, draft.finish last = (.select draft.cases draft.fallback, dangling) ∧
      if draft.fallback ≠ "" ∧ draft.cases.find? draft.fallback = none then
        ∃ o ∈ defaultOf opts, dangling = [⟨.unknownDefault draft.fallback, o.pos⟩]
      else dangling = [] := by
  refine ⟨_, rfl, ?_⟩
  by_cases hempty : draft.fallback = ""
  · simp [hempty]
  obtain ⟨o, ho, hplace⟩ := h.fallback.exists_of_ne_empty hempty
  cases hfind : draft.cases.find? draft.fallback with
  | some body => simp
  | none =>
    rw [if_pos ⟨hempty, rfl⟩]
    refine ⟨o, ho, ?_⟩
    rw [hplace, if_neg (by simp [hempty])]
    rfl

/-- Whatever options a draft has taken: if its default is not empty, the place of the default is
there (`SelectDraft.fallbackPos`), so what is wrong with the details does not depend on where the
last token stands. -/
theorem isSome_fallbackPos (opts : List ReplacementOption) :
    ∃ draft, opts.foldl Draft.taking (.select {}) = .select draft ∧
      (draft.fallback ≠ "" → draft.fallbackPos.isSome = true) ∧
      ∀ last last', draft.finish last = draft.finish last' := by
  obtain ⟨draft, hdraft, hgathered⟩ := exists_gathered opts
  have hplaced (hne : draft.fallback ≠ "") : draft.fallbackPos.isSome = true := by
    obtain ⟨o, -, hplace⟩ := hgathered.fallback.exists_of_ne_empty hne
    rw [hplace]
    rfl
  refine ⟨draft, hdraft, hplaced, fun last last' => ?_⟩
  unfold SelectDraft.finish
  by_cases hempty : draft.fallback = ""
  · simp [hempty]
  · obtain ⟨pos, hpos⟩ := Option.isSome_iff_exists.mp (hplaced hempty)
    rw [hpos]
    rfl

end SelectDraft

/-- The options of a select replacement, in whatever tokens stand behind its type. The replacement
is read (`Served`) until something comes that is no option. Its details are: for a case, the body of
the first option for just that text in brackets; and as the fallback the text of the first bare
option that is `default` in lower case, if that is plain, and else nothing (`defaultOf`). The errors
reported until then are, in the order of the options, what there is to object to in each behind the
ones in front of it (`selectObjection?`), at its place, and those of invalid tokens and of what
stands inside of options; and where the replacement is closed, a fallback that is not empty and no
case is reported at the place of its option. -/
theorem select_options {q : Reader} {t : Token} {r : OpenReplacement} {m : Message}
    {frames : List Frame} (ahead : List Token) (hfocus : q.focus = .replacement r m frames)
    (hfresh : r.fresh = true) (ht : t.kind = .replacementType)
    (hselect : ReplacementKind.ofName? t.text = some .select) :
    ∃ (log : List Occurrence) (c : Course) (cases : Entries String Message) (fallback : String),
      Served m frames ⟨q.step t, ahead⟩ log c ∧ c.outcome = q.run (t :: ahead) ∧
      (∀ t ∈ c.ahead.head?, t.kind ≠ .invalid ∧ t.kind ≠ .optionStart) ∧
      c.next.reader.focus = .body (Reader.attach m (some
        { key := r.key, textPos := r.textPos, kind := .select,
          details := .select cases fallback })) frames ∧
      (∀ value, cases.find? value =
        ((options log).find? (·.name = .literal value)).map (·.body)) ∧
      fallback = ((defaultOf (options log)).map (·.body.plainText)).getD "" ∧
      c.errors = q.report.errors ++ log.flatMap Occurrence.errors ∧
      (∀ front o verdict back, log = front ++ .option o verdict :: back →
        verdict = (o.selectObjection? (options front)).toList.map (⟨·, o.pos⟩)) ∧
      ∃ dangling brace, c.next.errors = c.errors ++ dangling ++ brace ∧
        (if fallback ≠ "" ∧ cases.find? fallback = none then
          ∃ o ∈ defaultOf (options log), dangling = [⟨.unknownDefault fallback, o.pos⟩]
        else dangling = []) ∧
        ∀ d ∈ brace, ∃ found, d.cause = .replacementClosing found := by
  obtain ⟨log, c, hserved, houtcome, hcloses, herrors, hverdict⟩ :=
    Course.served_of_kind ahead hfocus hfresh ht hselect
  obtain ⟨draft, hdraft, hgathered⟩ := SelectDraft.exists_gathered (options log)
  have hcloses := hdraft ▸ hcloses
  -- what the replacement comes to when it is closed
  obtain ⟨dangling, hfinish, hdangling⟩ := hgathered.finish c.reader.lastPos
  have hfocus' := hcloses.focus
  obtain ⟨brace, hclosing, hbrace⟩ := hcloses.errors
  simp only [OpenReplacement.finish, Draft.finish, hfinish, Option.map_some] at hfocus' hclosing
  refine ⟨log, c, draft.cases, draft.fallback, hserved, houtcome, hcloses.ahead, hfocus',
    fun value => ?_, hgathered.fallback.text, herrors,
    fun front o verdict back hlog => ?_, dangling,
    brace, hclosing, hdangling, hbrace⟩
  · rw [hgathered.cases value]
    congr 2
    funext o
    cases hname : o.name <;> simp [case?, hname]
  · obtain ⟨draft, hdraft, hgathered⟩ := SelectDraft.exists_gathered (options front)
    have hjudged := hverdict front o verdict back hlog
    rw [show Draft.ofKind .select = .select {} from rfl, hdraft] at hjudged
    rw [hjudged, ← (hgathered.add o).2]
    rfl

/-- A default that is refused and a second one behind it, in the only replacement of a message. -/
theorem select_options_second_default :
    let token (kind : Token.Kind) (text : String) (column : Nat) : Token :=
      { kind, text, pos := { column } }
    let q : Reader := Reader.feed {} [token .messageKey "k" 1, token .replacementStart "n" 3]
    let t : Token := token .replacementType "Select" 7
    let ahead : List Token :=
      [token .optionStart "[a]" 14, token .messageText "x" 18, token .optionEnd "" 19,
        token .optionStart "default" 20, token .replacementStart "v" 28,
        token .replacementEnd "" 32, token .optionEnd "" 33, token .optionStart "DEFAULT" 34,
        token .messageText "b" 42, token .optionEnd "" 43, token .replacementEnd "" 44]
    let r : OpenReplacement := { key := "n", pos := { column := 3 }, textPos := 0 }
    q.focus = .replacement r (.empty "" "k") [] ∧ r.fresh = true ∧ t.kind = .replacementType ∧
      ReplacementKind.ofName? t.text = some .select ∧
      ∃ log c, Served (.empty "" "k") [] ⟨q.step t, ahead⟩ log c ∧
        c.outcome = q.run (t :: ahead) ∧
        c.errors = log.flatMap Occurrence.errors ∧
        ∀ front o verdict back, log = front ++ .option o verdict :: back →
          verdict = (o.selectObjection? (options front)).toList.map (⟨·, o.pos⟩) := by
  intro token q t ahead r
  have hfocus : q.focus = .replacement r (.empty "" "k") [] := rfl
  have ht : t.kind = .replacementType := rfl
  have hselect : ReplacementKind.ofName? t.text = some .select := by decide
  obtain ⟨log, c, _, _, hserved, houtcome, -, -, -, -, herrors, hverdict, -⟩ :=
    select_options ahead hfocus rfl ht hselect
  exact ⟨hfocus, rfl, ht, hselect, log, c, hserved, houtcome, herrors, hverdict⟩

example :
    let token (kind : Token.Kind) (text : String) : Token := { kind, text, pos := {} }
    (readTokens [token .messageKey "k", token .replacementStart "n",
        token .replacementType "select", token .optionStart "Default", token .messageText "b",
        token .optionEnd "", token .optionStart "[a]", token .optionEnd "",
        token .optionStart "[a]", token .optionEnd "", token .optionStart "DEFAULT",
        token .optionEnd "", token .replacementEnd ""]).errors.map (·.cause) =
      [.caseRepeated "a", .directiveRepeated "DEFAULT", .unknownDefault "b"] := by decide +kernel

end MessageCatalog
