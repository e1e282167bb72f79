import MessageCatalog.Proofs.Interleaving

/-!
# MessageCatalog.Proofs.Completeness

What a reading without errors vouches for: `complete_readTokens`. Each replacement, however deep it
is nested, has the details of its kind, and nothing is missing in them: a plural has a body for
`other`, a currency is named, and a default is one of the cases (`Complete`). That holds of any
stream of tokens. In a file replacements are nested only as deep as the scanner allows, with or
without errors.

It is a standard in the sense of `MessageCatalog.Proofs.Interleaving`: what is asked of a draft
(`Underway`) is kept by every option that is taken without an error and gives complete details where
finishing reports none (`Standard.kept_complete`).
-/

namespace MessageCatalog

/-! ### Complete details

Whether details are complete can be told from the kind and the details alone. -/

/-- The details fit the kind of replacement, and what it needs is there: the currency of a price,
the variant `other` of a plural, the fallback of a selection. Kinds without options have no details.
-/
inductive Complete : ReplacementKind → Details → Prop
  | none {kind : ReplacementKind} (h : kind.isPlain = true) : Complete kind .none
  | money {currency : String} (hne : currency ≠ "") (htrimmed : Trimmed currency) :
    Complete .money (.money currency)
  | plural {type : PluralType} {variants : Entries PluralCategory Message}
      {custom : Entries Int Message} (hother : ∃ body, (.other, body) ∈ variants) :
    Complete .plural (.plural type variants custom)
  | select {cases : Entries String Message} {fallback : String}
      (hfallback : fallback = "" ∨ ∃ body, (fallback, body) ∈ cases) :
    Complete .select (.select cases fallback)

/-- Details in the making that fit the kind of replacement. A currency is as it should be as soon as
there is one; all else is seen to when the replacement ends, by `Draft.finish`. -/
inductive Underway : ReplacementKind → Draft → Prop
  | none {kind : ReplacementKind} (h : kind.isPlain = true) : Underway kind .none
  | money {draft : MoneyDraft} (h : ∀ currency ∈ draft.currency, currency ≠ "" ∧ Trimmed currency) :
    Underway .money (.money draft)
  | plural (draft : PluralDraft) : Underway .plural (.plural draft)
  | select (draft : SelectDraft) : Underway .select (.select draft)

/-- A draft without options is `Underway`, for the kind that it is made for. -/
theorem underway_ofKind (kind : ReplacementKind) : Underway kind (.ofKind kind) := by
  cases kind with
  | string | number | percent => exact .none rfl
  | money => exact .money (by simp)
  | plural => exact .plural {}
  | select => exact .select {}

/-- An option that is taken keeps what is `Underway`. A currency is the text of a body, which is
trimmed as the body is `Interleaved`. -/
theorem Underway.add {kind : ReplacementKind} {draft : Draft} {option : ReplacementOption}
    (h : Underway kind draft) (hbody : Interleaved option.body)
    (hnone : (draft.add option).2 = Option.none) : Underway kind (draft.add option).1 := by
  cases h with
  | none hkind => exact .none hkind
  | money => exact .money (MoneyDraft.sound_add hbody.plainText hnone)
  | plural => exact .plural _
  | select => exact .select _

theorem Entries.exists_mem_of_isSome {κ : Type} [DecidableEq κ] {k : κ} {m : Entries κ Message}
    (h : (find? k m).isSome = true) : ∃ body, (k, body) ∈ m := by
  obtain ⟨⟨_, body⟩, he, rfl⟩ := List.mem_map.mp (isSome_find?.mp h)
  exact ⟨body, he⟩

/-- What is `Underway` is `Complete` if it is finished without errors: each thing that could be
missing is reported. -/
theorem Underway.finish {kind : ReplacementKind} {draft : Draft} {start last : Position}
    (h : Underway kind draft) (hnone : (draft.finish start last).2 = []) :
    Complete kind (draft.finish start last).1 := by
  cases h with
  | none hkind => exact .none hkind
  | money hcurrency =>
    rename_i draft
    simp only [Draft.finish, MoneyDraft.finish] at hnone ⊢
    cases hd : draft.currency with
    | none => simp [hd] at hnone
    | some currency =>
      obtain ⟨hne, htrimmed⟩ := hcurrency currency hd
      exact .money hne htrimmed
  | plural draft =>
    simp only [Draft.finish, PluralDraft.finish] at hnone ⊢
    refine .plural (Entries.exists_mem_of_isSome ?_)
    by_contra hother
    rw [if_neg hother] at hnone
    cases hnone
  | select draft =>
    simp only [Draft.finish, SelectDraft.finish] at hnone ⊢
    refine .select ?_
    by_cases hempty : draft.fallback = ""
    · exact .inl hempty
    · refine .inr (Entries.exists_mem_of_isSome ?_)
      by_contra hfound
      rw [if_neg (by simp [hempty, hfound])] at hnone
      cases hnone

/-! ### Reading

The number of nested replacements comes from the standard of files, whose room is `maxNesting`. -/

/-- The standard of this module: nothing is asked of text, and of details that they are `Underway`
and in the end `Complete`. -/
def Standard.complete : Standard where
  words := fun _ => True
  room := fun _ => True
  drafted := fun kind draft => ∃ k, kind = some k ∧ Underway k draft
  made := Complete

/-- Reading without errors keeps the standard (`Standard.complete`); no error is allowed, so none
has been reported when details are finished. -/
theorem Standard.kept_complete : Standard.complete.Kept (fun _ => True) fun _ => False where
  text := fun _ _ => trivial
  append := fun _ _ _ _ => trivial
  trim := fun _ _ _ => trivial
  kind := fun kind => ⟨kind, rfl, underway_ofKind kind⟩
  unknownKind := fun _ h => h.elim
  add := by
    rintro _ draft option ⟨k, rfl, hunderway⟩ hbody hnone
    exact ⟨k, rfl, hunderway.add hbody (Option.eq_none_iff_forall_not_mem.mpr hnone)⟩
  finish := by
    rintro kind draft start last ⟨k, hk, hunderway⟩ hnone
    obtain rfl := Option.some.inj hk
    exact hunderway.finish (List.eq_nil_iff_forall_not_mem.mpr hnone)

/-- A reading without errors yields complete messages: whatever tokens the stream holds, every
replacement of a message, at any depth (`Message.Leads`), has the details of its kind with nothing
missing in them (`Complete`). In a file at most 32 replacements are nested one in the other. -/
theorem complete_readTokens (stream : List Token) :
    ∀ m ∈ (readTokens stream).messages, ∀ path body, m.Leads path body →
      ∀ r ∈ body.replacements,
        ((readTokens stream).errors = [] → Complete r.kind r.details) ∧
        ∀ file bytes, stream = tokens file bytes → (path ++ [r]).length ≤ 32 := by
  intro m hm path body hleads r hr
  constructor
  · intro hnone
    have hcontent := Standard.kept_complete.of_changes (changes_readTokens stream)
      (by simp [hnone]) m hm path body hleads
    exact hcontent.2.made r hr
  · rintro file bytes rfl
    have hcontent := content_of_mem_messages file bytes m hm path body hleads
    have hroom : path.length < Scanner.maxNesting := hcontent.2.room r hr
    rw [List.length_append]
    exact hroom

/-- A price in the body of a plural has its currency, without the blank that was written behind
it. -/
theorem complete_of_nested_money :
    let bytes := Utf8.encode
      "k:\n\t$\x7bn:plural.other\x7b$\x7bp:money.currency\x7bEUR \x7d\x7d\x7d\x7d\n"
    let price : Replacement := ⟨"p", 0, .money, .money "EUR"⟩
    let body : Message := ⟨"", "other", [], [price]⟩
    let outer : Replacement := ⟨"n", 0, .plural, .plural .cardinal [(.other, body)] []⟩
    let m : Message := ⟨"", "k", [], [outer]⟩
    m ∈ (readTokens (tokens "f" bytes)).messages ∧ (readTokens (tokens "f" bytes)).errors = [] ∧
      m.Leads [outer] body ∧ Complete .money (.money "EUR") := by
  intro bytes price body outer m
  have hread : (readTokens (tokens "f" bytes)).messages = [m] ∧
      (readTokens (tokens "f" bytes)).errors = [] := by
    rw [tokens_eq_runFor]
    decide +kernel
  have hm : m ∈ (readTokens (tokens "f" bytes)).messages := by
    rw [hread.1]
    exact List.mem_singleton_self m
  have hleads : m.Leads [outer] body :=
    .inside (List.mem_singleton_self outer) (by simp [outer, Details.bodies]) (.here body)
  have hprice : price ∈ body.replacements := List.mem_singleton_self price
  exact ⟨hm, hread.2, hleads,
    (complete_readTokens _ m hm [outer] body hleads price hprice).1 hread.2⟩

end MessageCatalog
