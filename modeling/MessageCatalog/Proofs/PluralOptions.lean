import Mathlib.Data.List.Induction
import MessageCatalog.Proofs.Options

/-!
# MessageCatalog.Proofs.PluralOptions

The options of a plural replacement: the first definition of each thing counts, and whatever is
refused is reported once, where it stands (`plural_options`).

What the options of a list come to is told from the list alone, without a draft: for a category or a
number, the body of the first option for it (`FirstOf`); the first type; and, for each option, what
the ones in front of it leave to object to (`ReplacementOption.objection?`). A draft that has taken
the options holds just that (`PluralDraft.Gathered`). It does so before any option, and one option
more keeps it (`Gathered.add`), by one lemma for each of the three things that an option can be for.

Which options those are is the record of `MessageCatalog.Proofs.Options`. It exists for every stream
of tokens behind the type of the replacement, so the theorem has no hypothesis on what comes.
-/

namespace MessageCatalog

/-! ### What an option is for

The name of an option is compared with words up to ASCII case, and a literal is read as a number. -/

namespace ReplacementOption

/-- The option has the word for a name, up to ASCII case (`Text.asciiLower`). A literal has no name
in this sense. -/
def isNamed (word : String) (o : ReplacementOption) : Bool :=
  match o.name with
  | .bare name => Text.equalIgnoringCase word name
  | .literal _ => false

/-- The `PluralType` that the option names, if it names one. Its body does not matter. -/
def type? (o : ReplacementOption) : Option PluralType :=
  PluralType.all.find? fun type => o.isNamed type.name

/-- The `PluralCategory` that the option is for, if its name is that of a category. -/
def category? (o : ReplacementOption) : Option PluralCategory :=
  PluralCategory.all.find? fun category => o.isNamed category.name

/-- The number that the option is for: what its literal denotes (`Text.readInt64`) when the blanks
around it are trimmed off. -/
def number? (o : ReplacementOption) : Option Int :=
  match o.name with
  | .bare _ => none
  | .literal text => Text.readInt64 (Text.trim text)

/-- What there is to object to in an option of a plural replacement, behind other options: a second
type that differs from the first, a second body for a category or a number, or a name that means
nothing. It is told from the options alone, without a draft. -/
def objection? (earlier : List ReplacementOption) (o : ReplacementOption) : Option Cause :=
  match o.name with
  | .bare name =>
    match o.type?, o.category? with
    | some type, _ =>
      match earlier.findSome? type? with
      | some first => if first = type then none else some (.pluralTypes first type)
      | none => none
    | none, some category =>
      if earlier.any (·.category? = some category) then some (.categoryRepeated category) else none
    | none, none => some (.invalidPluralOption name)
  | .literal text =>
    match o.number? with
    | some n => if earlier.any (·.number? = some n) then some (.numberRepeated n) else none
    | none => some (.invalidNumber text)

variable {o : ReplacementOption} {name text : String}

/-- A bare name is read as the name of a type, by `PluralType.ofName?`; then as that of a category.
-/
theorem type?_bare (h : o.name = .bare name) : o.type? = PluralType.ofName? name := by
  simp only [type?, isNamed, h]
  rfl

theorem category?_bare (h : o.name = .bare name) : o.category? = PluralCategory.ofName? name := by
  simp only [category?, isNamed, h]
  rfl

theorem number?_bare (h : o.name = .bare name) : o.number? = none := by
  simp only [number?, h]

theorem type?_literal (h : o.name = .literal text) : o.type? = none := by
  simp [type?, isNamed, h]

theorem category?_literal (h : o.name = .literal text) : o.category? = none := by
  simp [category?, isNamed, h]

/-- A literal is read as a number (`Text.readInt64`), without the blanks around it. It is neither a
type nor a category. -/
theorem number?_literal (h : o.name = .literal text) :
    o.number? = Text.readInt64 (Text.trim text) := by
  simp only [number?, h]

/-- A name is one word up to ASCII case. -/
theorem asciiLower_eq_of_isNamed {word word' : String} (h : o.isNamed word = true)
    (h' : o.isNamed word' = true) : Text.asciiLower word = Text.asciiLower word' := by
  unfold isNamed at h h'
  split at h
  · rename_i hname
    simp only [hname, Text.equalIgnoringCase, decide_eq_true_eq] at h h'
    rw [h, h']
  · cases h

/-- An option for a type has the name of that type (`PluralType.name`); and one for a category has
the name of that category. -/
theorem isNamed_of_type? {type : PluralType} (h : o.type? = some type) :
    o.isNamed type.name = true :=
  List.find?_some (p := fun type : PluralType => o.isNamed type.name) h

theorem isNamed_of_category? {category : PluralCategory} (h : o.category? = some category) :
    o.isNamed category.name = true :=
  List.find?_some (p := fun category : PluralCategory => o.isNamed category.name) h

/-- An option is for the category whose name it has (`isNamed`); there is only one, as the names are
different words. -/
theorem category?_eq_some_iff {category : PluralCategory} :
    o.category? = some category ↔ o.isNamed category.name = true := by
  refine ⟨isNamed_of_category?, fun h => ?_⟩
  have hmem : category ∈ PluralCategory.all := by cases category <;> decide
  cases hfind : o.category? with
  | none => exact absurd h (List.find?_eq_none.mp hfind category hmem)
  | some found =>
    have hname := asciiLower_eq_of_isNamed (isNamed_of_category? hfind) h
    revert hname
    cases found <;> cases category <;> decide

/-- No word is for a type and for a category, so it does not matter which is asked for first by
`objection?`. -/
theorem category?_eq_none_of_type? {type : PluralType} (h : o.type? = some type) :
    o.category? = none := by
  cases hcategory : o.category? with
  | none => rfl
  | some category =>
    have hname := asciiLower_eq_of_isNamed (isNamed_of_type? h) (isNamed_of_category? hcategory)
    revert hname
    cases type <;> cases category <;> decide

end ReplacementOption

open ReplacementOption

/-! ### The first option for a key

The same for categories, numbers and cases: a map that has been filled option by option, where the
first counts. -/

/-- The entries are the bodies of the first option for each key. `key?` tells which key an option is
for, if any. -/
def FirstOf {κ : Type} [DecidableEq κ] (key? : ReplacementOption → Option κ)
    (opts : List ReplacementOption) (m : Entries κ Message) : Prop :=
  ∀ k, m.find? k = (opts.find? (key? · = some k)).map (·.body)

namespace FirstOf

variable {κ : Type} [DecidableEq κ] {key? : ReplacementOption → Option κ}
  {opts : List ReplacementOption} {m : Entries κ Message} {o : ReplacementOption} {k : κ}

theorem nil : FirstOf key? [] [] := fun _ => rfl

/-- There is a body for a key if an option is for it (`FirstOf`): whether the key is taken can be
asked of the draft or of the options. -/
theorem any_eq_isSome (h : FirstOf key? opts m) (k : κ) :
    opts.any (key? · = some k) = (m.find? k).isSome := by
  rw [h k, Option.isSome_map, List.isSome_find?]

/-- An option is not taken if it is for no key, or for one that has a body, and the entries are
still `FirstOf`. -/
theorem skip (h : FirstOf key? opts m) (ho : ∀ k ∈ key? o, (m.find? k).isSome = true) :
    FirstOf key? (opts ++ [o]) m := by
  intro k
  rw [List.find?_append]
  cases hfind : opts.find? (key? · = some k) with
  | some first => rw [h k, hfind, Option.some_or]
  | none =>
    have hnone : m.find? k = none := by rw [h k, hfind]; rfl
    have hkey : key? o ≠ some k := fun hkey => by simpa [hnone] using ho k hkey
    rw [hnone]
    simp [hkey]

/-- An option is taken if it is the first for its key, by `Entries.insert`. -/
theorem insert [LT κ] [DecidableLT κ] (h : FirstOf key? opts m) (ho : key? o = some k)
    (hnew : m.find? k = none) : FirstOf key? (opts ++ [o]) (Entries.insert k o.body m) := by
  intro x
  rw [Entries.find?_insert k o.body m hnew, List.find?_append]
  by_cases hx : x = k
  · subst hx
    have hnone : opts.find? (key? · = some x) = none := by
      have := h x
      rw [hnew] at this
      exact Option.map_eq_none_iff.mp this.symm
    simp [hnone, ho]
  · rw [if_neg hx, h x]
    have hkey : key? o ≠ some x := by
      rw [ho]
      exact fun heq => hx (Option.some.inj heq).symm
    simp [hkey]

end FirstOf

/-! ### Plural drafts

A draft is compared with the list of the options it has taken. -/

/-- The draft holds what the options come to: the first type named, and for each category and number
the body of the first option for it (`FirstOf`). -/
structure PluralDraft.Gathered (opts : List ReplacementOption) (draft : PluralDraft) : Prop where
  type : draft.type = opts.findSome? type?
  variants : FirstOf category? opts draft.variants
  custom : FirstOf number? opts draft.custom

namespace PluralDraft

variable {opts : List ReplacementOption} {draft : PluralDraft} {o : ReplacementOption}

theorem gathered_nil : Gathered [] {} := ⟨rfl, .nil, .nil⟩

theorem findSome?_concat (opts : List ReplacementOption) (o : ReplacementOption) :
    (opts ++ [o]).findSome? type? = (opts.findSome? type?).or o.type? := by
  rw [List.findSome?_append]
  simp

/-- An option that is refused, or says again what the type is, changes nothing about what is
`Gathered`. -/
theorem Gathered.skip (h : Gathered opts draft)
    (htype : o.type? = none ∨ draft.type.isSome = true)
    (hcategory : ∀ category ∈ o.category?, (draft.variants.find? category).isSome = true)
    (hnumber : ∀ n ∈ o.number?, (draft.custom.find? n).isSome = true) :
    Gathered (opts ++ [o]) draft := by
  refine ⟨?_, h.variants.skip hcategory, h.custom.skip hnumber⟩
  rw [findSome?_concat, ← h.type]
  rcases htype with htype | htype
  · rw [htype, Option.or_none]
  · obtain ⟨type, htype⟩ := Option.isSome_iff_exists.mp htype
    rw [htype, Option.some_or]

/-- The name of a type is taken if it is the first, and `objection?` is what the draft has against
it. For categories and numbers it is the same. -/
theorem Gathered.addType (h : Gathered opts draft) {name : String} (hname : o.name = .bare name)
    {type : PluralType} (htype : o.type? = some type) :
    Gathered (opts ++ [o]) (draft.addType type).1 ∧
      (draft.addType type).2 = o.objection? opts := by
  have hcategory := category?_eq_none_of_type? htype
  have hnumber := number?_bare hname
  unfold PluralDraft.addType objection?
  rw [← h.type, hname, htype]
  cases hfirst : draft.type with
  | some first =>
    exact ⟨h.skip (.inr (by simp [hfirst])) (by simp [hcategory]) (by simp [hnumber]), rfl⟩
  | none =>
    refine ⟨⟨?_, h.variants.skip (by simp [hcategory]), h.custom.skip (by simp [hnumber])⟩, rfl⟩
    rw [findSome?_concat, ← h.type, hfirst, htype, Option.none_or]

/-- The body for a category is taken (`addCategory`) if it is the first. -/
theorem Gathered.addCategory (h : Gathered opts draft) {name : String}
    (hname : o.name = .bare name) (htype : o.type? = none) {category : PluralCategory}
    (hcategory : o.category? = some category) :
    Gathered (opts ++ [o]) (draft.addCategory category o.body).1 ∧
      (draft.addCategory category o.body).2 = o.objection? opts := by
  have hnumber := number?_bare hname
  unfold PluralDraft.addCategory objection?
  rw [hname, htype, hcategory]
  dsimp only
  rw [h.variants.any_eq_isSome]
  cases hfind : draft.variants.find? category with
  | some body =>
    exact ⟨h.skip (.inl htype) (by simp [hcategory, hfind]) (by simp [hnumber]), rfl⟩
  | none =>
    refine ⟨⟨?_, h.variants.insert hcategory hfind, h.custom.skip (by simp [hnumber])⟩, rfl⟩
    rw [findSome?_concat, ← h.type, htype, Option.or_none]

/-- The body for a number is taken (`addNumber`) if it is the first. -/
theorem Gathered.addNumber (h : Gathered opts draft) {text : String}
    (hname : o.name = .literal text) {n : Int} (hnumber : o.number? = some n) :
    Gathered (opts ++ [o]) (draft.addNumber n o.body).1 ∧
      (draft.addNumber n o.body).2 = o.objection? opts := by
  have htype := type?_literal hname
  have hcategory := category?_literal hname
  unfold PluralDraft.addNumber objection?
  rw [hname, hnumber]
  dsimp only
  rw [h.custom.any_eq_isSome]
  cases hfind : draft.custom.find? n with
  | some body =>
    exact ⟨h.skip (.inl htype) (by simp [hcategory]) (by simp [hnumber, hfind]), rfl⟩
  | none =>
    refine ⟨⟨?_, h.variants.skip (by simp [hcategory]), h.custom.insert hnumber hfind⟩, rfl⟩
    rw [findSome?_concat, ← h.type, htype, Option.or_none]

/-- One option more is taken, or refused for what there is to object to. The cases are those of
`PluralDraft.add`. -/
theorem Gathered.add (h : Gathered opts draft) (o : ReplacementOption) :
    Gathered (opts ++ [o]) (draft.add o).1 ∧ (draft.add o).2 = o.objection? opts := by
  unfold PluralDraft.add
  cases hname : o.name with
  | bare name =>
    dsimp only
    rw [← type?_bare hname, ← category?_bare hname]
    cases htype : o.type? with
    | some type => exact h.addType hname htype
    | none =>
      cases hcategory : o.category? with
      | some category => exact h.addCategory hname htype hcategory
      | none =>
        refine ⟨h.skip (.inl htype) (by simp [hcategory]) (by simp [number?_bare hname]), ?_⟩
        simp only [objection?, hname, htype, hcategory]
  | literal text =>
    dsimp only
    rw [← number?_literal hname]
    cases hnumber : o.number? with
    | some n => exact h.addNumber hname hnumber
    | none =>
      refine ⟨h.skip (.inl (type?_literal hname)) (by simp [category?_literal hname])
        (by simp [hnumber]), ?_⟩
      simp only [objection?, hname, hnumber]

/-- Whatever options it has taken, a draft holds what they come to (`Gathered`). By induction on the
options, from the end. -/
theorem exists_gathered (opts : List ReplacementOption) :
    ∃ draft, opts.foldl Draft.taking (.plural {}) = .plural draft ∧ Gathered opts draft := by
  induction opts using List.reverseRecOn with
  | nil => exact ⟨{}, rfl, gathered_nil⟩
  | append_singleton opts o ih =>
    obtain ⟨draft, hdraft, hgathered⟩ := ih
    refine ⟨(draft.add o).1, ?_, (hgathered.add o).1⟩
    rw [List.foldl_append, hdraft]
    rfl

/-- The category `other` is missing exactly if no option has that name, and then
`PluralDraft.finish` says so, at the start of the replacement. -/
theorem Gathered.finish (h : Gathered opts draft) (start : Position) :
    draft.finish start =
      (.plural ((opts.findSome? type?).getD .cardinal) draft.variants draft.custom,
        if opts.any (isNamed "other") then [] else [⟨.otherRequired, start⟩]) := by
  have hother : (draft.variants.find? .other).isSome = opts.any (isNamed "other") := by
    rw [← h.variants.any_eq_isSome]
    congr 1
    funext o
    exact Bool.eq_iff_iff.mpr (by rw [decide_eq_true_eq, category?_eq_some_iff]; rfl)
  rw [PluralDraft.finish, h.type, hother]

end PluralDraft

/-- The options of a plural replacement, in whatever tokens stand behind its type. The replacement
is read (`Served`) until something comes that is no option. Its details are: for a category, the
body of the first option of that name up to ASCII case; for a number, the body of the first option
whose trimmed literal denotes it; and the first type named, or `cardinal`. The errors reported until
then are, in the order of the options, what there is to object to in each behind the ones in front
of it (`objection?`), at its place, and those of invalid tokens and of what stands inside of
options; and where the replacement is closed, `other` is required at its start if no option has that
name. -/
theorem plural_options {q : Reader} {t : Token} {r : OpenReplacement} {m : Message}
    {frames : List Frame} (ahead : List Token) (hfocus : q.focus = .replacement r m frames)
    (hfresh : r.fresh = true) (ht : t.kind = .replacementType)
    (hplural : ReplacementKind.ofName? t.text = some .plural) :
    ∃ (log : List Occurrence) (c : Course) (type : PluralType)
      (variants : Entries PluralCategory Message) (custom : Entries Int Message),
      Served m frames ⟨q.step t, ahead⟩ log c ∧ c.outcome = q.run (t :: ahead) ∧
      (∀ t ∈ c.ahead.head?, t.kind ≠ .invalid ∧ t.kind ≠ .optionStart) ∧
      c.next.reader.focus = .body (Reader.attach m (some
        { key := r.key, textPos := r.textPos, kind := .plural,
          details := .plural type variants custom })) frames ∧
      (∀ category, variants.find? category =
        ((options log).find? (isNamed category.name)).map (·.body)) ∧
      (∀ n, custom.find? n = ((options log).find? (·.number? = some n)).map (·.body)) ∧
      type = ((options log).findSome? type?).getD .cardinal ∧
      c.errors = q.report.errors ++ log.flatMap Occurrence.errors ∧
      (∀ front o verdict back, log = front ++ .option o verdict :: back →
        verdict = (o.objection? (options front)).toList.map (⟨·, o.pos⟩)) ∧
      ∃ brace,
        c.next.errors = c.errors ++
          (if (options log).any (isNamed "other") then [] else [⟨.otherRequired, r.pos⟩]) ++ brace ∧
        ∀ d ∈ brace, ∃ found, d.cause = .replacementClosing found := by
  have hstep : q.step t =
      { q with
        focus := .replacement { r with kind := some .plural, draft := .plural {}, fresh := false }
          m frames,
        lastPos := t.pos } := by
    rw [Reader.step_replacementType hfocus hfresh ht, hplural]
    rfl
  have hholds : (q.step t).focus.Holds
      { r with kind := some .plural, draft := .plural {}, fresh := false } m frames :=
    .inl (by rw [hstep])
  obtain ⟨log, c, hserved, hcloses, hjudged⟩ :=
    Course.served (c := ⟨q.step t, ahead⟩) hholds rfl
  obtain ⟨draft, hdraft, hgathered⟩ := PluralDraft.exists_gathered (options log)
  have hcloses := hdraft ▸ hcloses
  -- what the replacement comes to when it is closed
  have hfinish := hgathered.finish r.pos
  have hfocus' := hcloses.focus
  obtain ⟨brace, herrors, hbrace⟩ := hcloses.errors
  simp only [OpenReplacement.finish, Draft.finish, hfinish, Option.map_some] at hfocus' herrors
  refine ⟨log, c, _, _, _, hserved, ?_, hcloses.ahead, hfocus', fun category => ?_,
    hgathered.custom, rfl, ?_, fun front o verdict back hlog => ?_, brace, herrors, hbrace⟩
  · rw [hserved.outcome_eq, Course.outcome, Reader.run, if_neg (by simp [ht])]
  · rw [hgathered.variants category]
    congr 2
    funext o
    exact Bool.eq_iff_iff.mpr (by rw [decide_eq_true_eq, category?_eq_some_iff])
  · rw [hserved.errors_eq, Course.errors, hstep]
  · rw [hlog] at hjudged
    obtain ⟨draft, hdraft, hgathered⟩ := PluralDraft.exists_gathered (options front)
    rw [hjudged.verdict_eq, hdraft, ← (hgathered.add o).2]
    rfl

/-- Two options of the same name, of which the second has no brace, in the only replacement of a
message. -/
theorem plural_options_one :
    let token (kind : Token.Kind) (text : String) (column : Nat) : Token :=
      { kind, text, pos := { column } }
    let q : Reader := Reader.feed {} [token .messageKey "k" 1, token .replacementStart "n" 3]
    let t : Token := token .replacementType "Plural" 7
    let ahead : List Token :=
      [token .optionStart "one" 14, token .messageText "a" 18, token .optionEnd "" 19,
        token .optionStart "ONE" 20, token .replacementEnd "" 24]
    let r : OpenReplacement := { key := "n", pos := { column := 3 }, textPos := 0 }
    q.focus = .replacement r (.empty "" "k") [] ∧ r.fresh = true ∧ t.kind = .replacementType ∧
      ReplacementKind.ofName? t.text = some .plural ∧
      ∃ log c, Served (.empty "" "k") [] ⟨q.step t, ahead⟩ log c ∧
        c.outcome = q.run (t :: ahead) ∧
        ∀ front o verdict back, log = front ++ .option o verdict :: back →
          verdict = (o.objection? (options front)).toList.map (⟨·, o.pos⟩) := by
  intro token q t ahead r
  have hfocus : q.focus = .replacement r (.empty "" "k") [] := rfl
  have ht : t.kind = .replacementType := rfl
  have hplural : ReplacementKind.ofName? t.text = some .plural := by decide
  obtain ⟨log, c, _, _, _, hserved, houtcome, -, -, -, -, -, -, hverdict, -⟩ :=
    plural_options ahead hfocus rfl ht hplural
  exact ⟨hfocus, rfl, ht, hplural, log, c, hserved, houtcome, hverdict⟩

example :
    let token (kind : Token.Kind) (text : String) : Token := { kind, text, pos := {} }
    (readTokens [token .messageKey "k", token .replacementStart "n",
        token .replacementType "plural", token .optionStart "[1]", token .optionEnd "",
        token .optionStart "[+1]", token .optionEnd "", token .optionStart "[ 01 ]",
        token .optionEnd "", token .replacementEnd ""]).errors.map (·.cause) =
      [.numberRepeated 1, .numberRepeated 1, .otherRequired] := by decide +kernel

end MessageCatalog
