import Mathlib.Data.List.Basic
import MessageCatalog.Locale

/-!
# MessageCatalog.Proofs.Tags

Which tags are locales, which of them are the same locale, and what is wrong with the others
(`resolve_exact`).

A tag that is a locale has its subtags in the order of the slots: a language, perhaps a script,
perhaps a region, and variants (`Subtags`). The slots are filled from the left, and a subtag goes
into the first that takes it. That comes to the same as any other way of filling them, since no
subtag has the form of two slots (`not_scriptForm_of_regionForm` and its two likes), so what
`resolve` yields can be read off the slots (`resolve_of_subtags`). Conversely, whatever a tag is,
`resolve` has filled slots from it and stopped at its end or at a subtag that no slot takes
(`resolve_cases`).

The locale keeps everything but the case of letters and the choice of separators. So what matters of
a tag is what is left when both are evened out (`folded`): two tags with the same rest are the same
locale (`resolve_congr`), and the normalized tag of a locale has the same rest as the tag that was
resolved (`map_toLower_tag`). Both are statements about lists of subtags first
(`Subtags.exists_respelled`, `Subtags.map_lower_customary`); that a tag can be split into its
subtags and put together from them again is `splitOn_folded` and `folded_eq`.
-/

namespace MessageCatalog.Locale

/-! ### Letters and digits

A tag is made of ASCII characters, and all that is asked of one is in which of three intervals its
code lies. Changing its case moves the code from one interval of letters to the other; so every fact
about classes and case is a statement about numbers. -/

/-- A capital letter becomes the small one, and everything else stays. -/
theorem toNat_toLower (c : Char) :
    c.toLower.toNat = if 65 ≤ c.toNat ∧ c.toNat ≤ 90 then c.toNat + 32 else c.toNat := by
  unfold Char.toLower
  split
  · rename_i h
    have hrange : 65 ≤ c.val.toNat ∧ c.val.toNat ≤ 90 := h
    refine Eq.trans ?_ (if_pos hrange).symm
    show (c.val + 32).toNat = c.val.toNat + 32
    rw [UInt32.toNat_add, show (32 : UInt32).toNat = 32 from rfl]
    omega
  · rename_i h
    exact (if_neg h).symm

/-- A small letter becomes the capital one, and everything else stays. -/
theorem toNat_toUpper (c : Char) :
    c.toUpper.toNat = if 97 ≤ c.toNat ∧ c.toNat ≤ 122 then c.toNat - 32 else c.toNat := by
  unfold Char.toUpper
  split
  · rename_i h
    have hrange : 97 ≤ c.val.toNat ∧ c.val.toNat ≤ 122 := h
    refine Eq.trans ?_ (if_pos hrange).symm
    show (c.val + ('A'.val - 'a'.val)).toNat = c.val.toNat - 32
    -- the difference of the two letters wraps around
    have hdifference : ('A'.val - 'a'.val).toNat = 4294967264 := by decide
    rw [UInt32.toNat_add, hdifference]
    omega
  · rename_i h
    exact (if_neg h).symm

/-- Letters are the two intervals of capital and small ones. -/
theorem isAlpha_iff (c : Char) : c.isAlpha = true ↔
    (65 ≤ c.toNat ∧ c.toNat ≤ 90) ∨ (97 ≤ c.toNat ∧ c.toNat ≤ 122) := by
  have hupper : c.isUpper = true ↔ 65 ≤ c.toNat ∧ c.toNat ≤ 90 := decide_eq_true_iff
  have hlower : c.isLower = true ↔ 97 ≤ c.toNat ∧ c.toNat ≤ 122 := by
    show (decide (97 ≤ c.toNat) && decide (c.toNat ≤ 122)) = true ↔ _
    rw [Bool.and_eq_true, decide_eq_true_iff, decide_eq_true_iff]
  show (c.isUpper || c.isLower) = true ↔ _
  rw [Bool.or_eq_true, hupper, hlower]

/-- Digits are an interval below all letters. -/
theorem isDigit_iff (c : Char) : c.isDigit = true ↔ 48 ≤ c.toNat ∧ c.toNat ≤ 57 := by
  show (decide (48 ≤ c.toNat) && decide (c.toNat ≤ 57)) = true ↔ _
  rw [Bool.and_eq_true, decide_eq_true_iff, decide_eq_true_iff]

theorem isDigit_eq_false_of_isAlpha {c : Char} (h : c.isAlpha = true) : c.isDigit = false := by
  rw [isAlpha_iff] at h
  refine Bool.eq_false_iff.mpr fun hdigit => ?_
  rw [isDigit_iff] at hdigit
  omega

/-- A small letter is a letter exactly if the one it was made from is. -/
theorem isAlpha_toLower (c : Char) : c.toLower.isAlpha = c.isAlpha := by
  rw [Bool.eq_iff_iff, isAlpha_iff, isAlpha_iff, toNat_toLower]
  split <;> omega

theorem isDigit_toLower (c : Char) : c.toLower.isDigit = c.isDigit := by
  rw [Bool.eq_iff_iff, isDigit_iff, isDigit_iff, toNat_toLower]
  split <;> omega

/-- A small letter stays as it is. -/
@[simp] theorem toLower_toLower (c : Char) : c.toLower.toLower = c.toLower := by
  rw [← Char.toNat_inj]
  simp only [toNat_toLower]
  grind

@[simp] theorem toUpper_toLower (c : Char) : c.toLower.toUpper = c.toUpper := by
  rw [← Char.toNat_inj]
  simp only [toNat_toLower, toNat_toUpper]
  grind

@[simp] theorem toLower_toUpper (c : Char) : c.toUpper.toLower = c.toLower := by
  rw [← Char.toNat_inj]
  simp only [toNat_toLower, toNat_toUpper]
  grind

/-! ### Forms

What each slot takes, by number and kind of characters. `resolve` tests it with functions to `Bool`;
the forms say the same with quantifiers. -/

/-- Two or three letters. The first subtag has to be of this form, whatever follows, see
`isLanguage`. -/
def LanguageForm (cs : List Char) : Prop :=
  (cs.length = 2 ∨ cs.length = 3) ∧ ∀ c ∈ cs, c.isAlpha = true

/-- Four letters, which no other slot takes: a `VariantForm` of four characters starts with a digit.
-/
def ScriptForm (cs : List Char) : Prop := cs.length = 4 ∧ ∀ c ∈ cs, c.isAlpha = true

/-- Two letters, for a country, or three digits, for a part of the world. -/
def RegionForm (cs : List Char) : Prop :=
  (cs.length = 2 ∧ ∀ c ∈ cs, c.isAlpha = true) ∨ (cs.length = 3 ∧ ∀ c ∈ cs, c.isDigit = true)

/-- Five to eight letters and digits, or four of which the first is a digit, so that it is no
`ScriptForm`. -/
def VariantForm (cs : List Char) : Prop :=
  (∀ c ∈ cs, c.isAlphanum = true) ∧
    ((5 ≤ cs.length ∧ cs.length ≤ 8) ∨ (cs.length = 4 ∧ ∃ c ∈ cs.head?, c.isDigit = true))

variable {cs ds : List Char}

theorem isLanguage_iff : isLanguage cs = true ↔ LanguageForm cs := by
  simp [isLanguage, LanguageForm]

theorem isScript_iff : isScript cs = true ↔ ScriptForm cs := by
  simp [isScript, ScriptForm]

theorem isRegion_iff : isRegion cs = true ↔ RegionForm cs := by
  simp [isRegion, RegionForm]

theorem isVariant_iff : isVariant cs = true ↔ VariantForm cs := by
  simp [isVariant, VariantForm, Option.any_eq_true]

/-- No subtag has the form of two slots behind the language: a `RegionForm` is shorter than a
`ScriptForm`, and the two lemmas below compare either with a `VariantForm`. -/
theorem not_scriptForm_of_regionForm (h : RegionForm cs) : ¬ ScriptForm cs := by
  rintro ⟨hlength, -⟩
  rcases h with ⟨h, -⟩ | ⟨h, -⟩ <;> omega

theorem not_regionForm_of_variantForm (h : VariantForm cs) : ¬ RegionForm cs := by
  obtain ⟨-, h | ⟨h, -⟩⟩ := h <;> rintro (⟨hlength, -⟩ | ⟨hlength, -⟩) <;> omega

/-- A `VariantForm` as short as a `ScriptForm` starts with a digit, where the other has a letter. -/
theorem not_scriptForm_of_variantForm (h : VariantForm cs) : ¬ ScriptForm cs := by
  rintro ⟨hlength, halpha⟩
  obtain ⟨-, h | ⟨-, c, hhead, hdigit⟩⟩ := h
  · omega
  · have hletter := halpha c (List.mem_of_mem_head? hhead)
    rw [isDigit_eq_false_of_isAlpha hletter] at hdigit
    cases hdigit

/-! ### Case does not matter

A subtag has the same form in small letters, and the three ways to write it do not remember one
another: only the one that is used last counts. -/

theorem isAlphanum_toLower (c : Char) : c.toLower.isAlphanum = c.isAlphanum := by
  rw [Char.isAlphanum, Char.isAlphanum, isAlpha_toLower, isDigit_toLower]

/-- A class of characters `p` that has no regard to case contains all of `lower cs` if it contains
all of `cs`, and the other way round. -/
theorem forall_mem_lower {p : Char → Bool} (hp : ∀ c : Char, p c.toLower = p c) (cs : List Char) :
    (∀ c ∈ lower cs, p c = true) ↔ ∀ c ∈ cs, p c = true := by
  simp [lower, hp]

theorem length_lower (cs : List Char) : (lower cs).length = cs.length := List.length_map _

/-- A subtag has `LanguageForm` in small letters if it has it at all. The other three forms have no
regard to case either. -/
theorem languageForm_lower : LanguageForm (lower cs) ↔ LanguageForm cs := by
  rw [LanguageForm, LanguageForm, length_lower, forall_mem_lower isAlpha_toLower]

theorem scriptForm_lower : ScriptForm (lower cs) ↔ ScriptForm cs := by
  rw [ScriptForm, ScriptForm, length_lower, forall_mem_lower isAlpha_toLower]

theorem regionForm_lower : RegionForm (lower cs) ↔ RegionForm cs := by
  rw [RegionForm, RegionForm, length_lower, forall_mem_lower isAlpha_toLower,
    forall_mem_lower isDigit_toLower]

theorem variantForm_lower : VariantForm (lower cs) ↔ VariantForm cs := by
  rw [VariantForm, VariantForm, length_lower, forall_mem_lower isAlphanum_toLower]
  simp [lower, isDigit_toLower]

/-- Of `lower`, `upper` and `title` only the one that is used last counts; `lower` comes out the
same after any of them, and so do the other two after `lower`. -/
theorem lower_lower (cs : List Char) : lower (lower cs) = lower cs := by
  simp [lower]

theorem upper_lower (cs : List Char) : upper (lower cs) = upper cs := by
  simp [lower, upper]

theorem lower_upper (cs : List Char) : lower (upper cs) = lower cs := by
  simp [lower, upper]

/-- A first capital and small letters (`title`) do not depend on the case before. -/
theorem title_lower (cs : List Char) : title (lower cs) = title cs := by
  cases cs with
  | nil => rfl
  | cons c cs => simp [lower, title]

theorem lower_title (cs : List Char) : lower (title cs) = lower cs := by
  cases cs with
  | nil => rfl
  | cons c cs => simp [lower, title]

/-! ### Subtags in their slots

`Subtags` carries the forms of its subtags with it. So a tag that is a locale is one that splits
into `Subtags.toList` of some such slots, and no more has to be said about it. -/

/-- The subtags of a locale, each in its slot and of the form that goes there: `LanguageForm` for
the first, and so on. -/
structure Subtags where
  language : List Char
  script : Option (List Char)
  region : Option (List Char)
  variants : List (List Char)
  language_form : LanguageForm language
  script_form : ∀ cs ∈ script, ScriptForm cs
  region_form : ∀ cs ∈ region, RegionForm cs
  variant_form : ∀ cs ∈ variants, VariantForm cs

namespace Subtags

/-- The subtags in their order, which is that of the slots. A tag is a locale if its `split` is such
a list. -/
def toList (s : Subtags) : List (List Char) :=
  s.language :: (s.script.toList ++ (s.region.toList ++ s.variants))

/-- The locale that the subtags are for. It has each in the case that is customary for its slot:
`lower` for the language and the variants, `title` for the script and `upper` for the region. -/
def locale (s : Subtags) : Locale where
  language := .ofList (lower s.language)
  script := s.script.map (.ofList <| title ·)
  region := s.region.map (.ofList <| upper ·)
  variants := s.variants.map (.ofList <| lower ·)

/-- The subtags in their customary case, in their order. These are the parts of `Locale.tag` for the
`locale` of the subtags, see `tag_eq`. -/
def customary (s : Subtags) : List (List Char) :=
  lower s.language ::
    ((s.script.map title).toList ++ ((s.region.map upper).toList ++ s.variants.map lower))

/-- There is a slot for one subtag more: none behind it is filled, and the subtag has its form.
Variants may be as many as one likes, so a `VariantForm` is always taken. -/
def Takes (s : Subtags) (cs : List Char) : Prop :=
  (s.script = none ∧ s.region = none ∧ s.variants = [] ∧ ScriptForm cs) ∨
    (s.region = none ∧ s.variants = [] ∧ RegionForm cs) ∨ VariantForm cs

variable {s : Subtags}

/-- In small letters, the customary case is not to be seen: `customary` and `toList` come to the
same. -/
theorem map_lower_customary (s : Subtags) : s.customary.map lower = s.toList.map lower := by
  have hoption {f : List Char → List Char} (hf : ∀ cs, lower (f cs) = lower cs)
      (o : Option (List Char)) : (o.map f).toList.map lower = o.toList.map lower := by
    cases o <;> simp [hf]
  simp only [customary, toList, List.map_cons, List.map_append, lower_lower, hoption lower_title,
    hoption lower_upper, List.map_map]
  congr 3
  exact List.map_congr_left fun cs _ => lower_lower cs

/-- Subtags are made of letters and digits (`Char.isAlphanum`), whatever their slot. So none
contains a separator. -/
theorem isAlphanum_of_mem (hcs : cs ∈ s.toList) : ∀ c ∈ cs, c.isAlphanum = true := by
  have halpha (h : ∀ c ∈ cs, c.isAlpha = true) : ∀ c ∈ cs, c.isAlphanum = true :=
    fun c hc => by rw [Char.isAlphanum, h c hc, Bool.true_or]
  simp only [toList, List.mem_cons, List.mem_append, Option.mem_toList] at hcs
  rcases hcs with rfl | hcs | hcs | hcs
  · exact halpha s.language_form.2
  · exact halpha (s.script_form cs hcs).2
  · rcases s.region_form cs hcs with ⟨-, h⟩ | ⟨-, h⟩
    · exact halpha h
    · exact fun c hc => by rw [Char.isAlphanum, h c hc, Bool.or_true]
  · exact (s.variant_form cs hcs).1

/-- Subtags that differ in case alone are for the same locale (`Subtags.locale`). They are put into
the same slots, which is possible as their forms do not depend on case. -/
theorem exists_respelled {xs : List (List Char)} (h : xs.map lower = s.toList.map lower) :
    ∃ s' : Subtags, s'.toList = xs ∧ s'.locale = s.locale := by
  have hoption {o : Option (List Char)} {ys : List (List Char)}
      (h : ys.map lower = o.toList.map lower) :
      ∃ o' : Option (List Char), o'.toList = ys ∧ o'.map lower = o.map lower := by
    cases o with
    | none => exact ⟨none, (List.map_eq_nil_iff.mp h).symm, rfl⟩
    | some cs =>
      obtain ⟨y, rfl, hy⟩ := List.map_eq_singleton_iff.mp h
      exact ⟨some y, rfl, congrArg some hy⟩
  simp only [toList, List.map_cons, List.map_append, List.map_eq_cons_iff,
    List.map_eq_append_iff] at h
  obtain ⟨language, _, rfl, hlanguage, scripts, _, rfl, hscripts, regions, variants, rfl, hregions,
    hvariants⟩ := h
  obtain ⟨script, rfl, hscript⟩ := hoption hscripts
  obtain ⟨region, rfl, hregion⟩ := hoption hregions
  have hform {F : List Char → Prop} (hF : ∀ cs, F (lower cs) ↔ F cs) {o o' : Option (List Char)}
      (h : o'.map lower = o.map lower) (ho : ∀ cs ∈ o, F cs) : ∀ cs ∈ o', F cs := by
    rintro cs rfl
    obtain ⟨ds, hds, hlower⟩ := Option.map_eq_some_iff.mp h.symm
    exact (hF cs).mp (hlower ▸ (hF ds).mpr (ho ds hds))
  refine ⟨⟨language, script, region, variants, ?_, ?_, ?_, ?_⟩, rfl, ?_⟩
  · exact languageForm_lower.mp (hlanguage ▸ languageForm_lower.mpr s.language_form)
  · exact hform (fun _ => scriptForm_lower) hscript s.script_form
  · exact hform (fun _ => regionForm_lower) hregion s.region_form
  · intro cs hcs
    obtain ⟨ds, hds, hlower⟩ := List.mem_map.mp (hvariants ▸ List.mem_map_of_mem (f := lower) hcs)
    exact variantForm_lower.mp (hlower ▸ variantForm_lower.mpr (s.variant_form ds hds))
  · -- what a locale has of a subtag is the same for all its spellings
    have hscript := congrArg (Option.map (String.ofList <| title ·)) hscript
    have hregion := congrArg (Option.map (String.ofList <| upper ·)) hregion
    have hvariants := congrArg (List.map String.ofList) hvariants
    simp only [Option.map_map, List.map_map, Function.comp_def, title_lower, upper_lower]
      at hscript hregion hvariants
    simp only [locale, hlanguage, hscript, hregion, hvariants]

end Subtags

/-! ### Splitting and joining

A tag is split at hyphens and underscores, and joined by hyphens. `folded` goes well with both: it
is the subtags in small letters, between hyphens. -/

/-- The subtags of a tag: what stands between hyphens and underscores. There is at least one, which
may be empty. -/
def split (id : String) : List (List Char) := id.toList.splitOnP fun c => c = '-' || c = '_'

/-- The tag in small letters, with hyphens for underscores. This is what two spellings of a tag have
in common, so `resolve` depends on nothing else but for the id of an error. -/
def folded (id : String) : List Char := id.toList.map fun c => if c = '_' then '-' else c.toLower

/-- The subtags that `resolve` works with are those of `split`. -/
theorem subtags_eq (cs : List Char) :
    subtags cs = cs.splitOnP fun c => c = '-' || c = '_' := by
  induction cs with
  | nil => rfl
  | cons c cs ih =>
    rw [subtags, List.splitOnP_cons_eq_if_modifyHead, isSeparator]
    split
    · rw [ih]
    · cases hsplit : cs.splitOnP fun c => c = '-' || c = '_' with
      | nil => exact absurd hsplit (List.splitOnP_ne_nil _ _)
      | cons first more => rw [ih, hsplit, List.modifyHead_cons]

/-- Subtags that are joined by hyphens can be told apart by `split`, as long as they contain letters
and digits only. By induction on the subtags, since the first is split off at the first hyphen. -/
theorem splitOnP_intercalate {xs : List (List Char)} (hne : xs ≠ [])
    (hxs : ∀ x ∈ xs, ∀ c ∈ x, c.isAlphanum = true) :
    (['-'].intercalate xs).splitOnP (fun c => c = '-' || c = '_') = xs := by
  have hplain {x : List Char} (hx : ∀ c ∈ x, c.isAlphanum = true) :
      ∀ c ∈ x, (decide (c = '-') || decide (c = '_')) = false := by
    intro c hc
    have halphanum := hx c hc
    simp only [Bool.or_eq_false_iff, decide_eq_false_iff_not]
    constructor
    · rintro rfl
      exact absurd halphanum (by decide)
    · rintro rfl
      exact absurd halphanum (by decide)
  induction xs with
  | nil => exact absurd rfl hne
  | cons x xs ih =>
    obtain ⟨hx, hxs⟩ := List.forall_mem_cons.mp hxs
    cases xs with
    | nil => rw [List.intercalate_singleton, List.splitOnP_eq_singleton (hplain hx)]
    | cons y ys =>
      rw [List.intercalate_cons_cons, List.append_assoc, List.singleton_append,
        List.splitOnP_append_cons_of_forall_mem (hplain hx) '-' (by decide),
        ih (List.cons_ne_nil _ _) hxs]

theorem toLower_ne_hyphen {c : Char} (h : c ≠ '-') : c.toLower ≠ '-' := by
  intro hlower
  have hcode : c.toLower.toNat = 45 := by rw [hlower]; rfl
  rw [toNat_toLower] at hcode
  refine h (Char.toNat_inj.mp ?_)
  -- the code of a hyphen lies below those of all letters
  split at hcode
  · omega
  · exact hcode

/-- What is left of a tag is split at hyphens where the tag is split: `folded` puts hyphens for both
separators and makes a hyphen of nothing else. -/
theorem splitOn_folded (id : String) : (folded id).splitOn '-' = (split id).map lower := by
  unfold folded split
  induction id.toList with
  | nil => rfl
  | cons c cs ih =>
    rw [List.splitOn] at ih ⊢
    rw [List.map_cons, List.splitOnP_cons_eq_if_modifyHead, List.splitOnP_cons_eq_if_modifyHead, ih]
    by_cases hc : c = '-' ∨ c = '_'
    · rw [if_pos (by rcases hc with rfl | rfl <;> decide), if_pos (by simpa using hc)]
      rfl
    · obtain ⟨hhyphen, hunderscore⟩ := not_or.mp hc
      rw [if_neg hunderscore, if_neg (by simpa using toLower_ne_hyphen hhyphen),
        if_neg (by simpa using hc)]
      cases cs.splitOnP fun c => c = '-' || c = '_' <;> rfl

/-- What is left of a tag is its subtags in small letters, between hyphens. So two tags have the
same rest exactly if their `split` is the same in small letters. -/
theorem folded_eq (id : String) : folded id = ['-'].intercalate ((split id).map lower) := by
  rw [← splitOn_folded, List.intercalate_splitOn]

/-- Small letters and joining can be exchanged, as a hyphen has no case. -/
theorem map_toLower_intercalate (xs : List (List Char)) :
    (['-'].intercalate xs).map Char.toLower = ['-'].intercalate (xs.map lower) := by
  induction xs with
  | nil => rfl
  | cons x xs ih =>
    cases xs with
    | nil => simp [lower]
    | cons y ys =>
      rw [List.map_cons, List.map_cons, List.intercalate_cons_cons, List.intercalate_cons_cons,
        List.map_append, List.map_append, ih]
      rfl

/-- The normalized tag, `Locale.tag`, is the subtags in their customary case, between hyphens. -/
theorem tag_eq (s : Subtags) : s.locale.tag.toList = ['-'].intercalate s.customary := by
  have hjoin (x : List Char) (xs : List (List Char)) :
      ['-'].intercalate (x :: xs) = x ++ xs.flatMap ('-' :: ·) := by
    induction xs generalizing x with
    | nil => simp
    | cons y ys ih => rw [List.intercalate_cons_cons, ih]; simp
  have hoption (f : List Char → List Char) (o : Option (List Char)) :
      (o.map (String.ofList <| f ·)).toList = (o.map f).toList.map String.ofList := by
    cases o <;> rfl
  rw [Subtags.customary, hjoin]
  simp only [tag, Subtags.locale, hoption, String.toList_join]
  simp [List.flatMap_map]

/-! ### Resolving

`resolve` takes a language, then a script and a region if they are there (`takeIf`), and then
expects variants only. The cases of `resolve_cases` are the three places where it can end. -/

section takeIf

variable {form : List Char → Bool} {o : Option (List Char)} {xs rest : List (List Char)}

/-- A subtag of the form is taken off by `takeIf` if there is one; where there is none, nothing is
taken off if the next has not the form. -/
theorem takeIf_append (ho : ∀ cs ∈ o, form cs = true)
    (hrest : o = none → ∀ cs ∈ rest.head?, form cs = false) :
    takeIf form (o.toList ++ rest) = (o, rest) := by
  cases o with
  | some cs => simp [takeIf, ho cs rfl]
  | none =>
    cases rest with
    | nil => rfl
    | cons cs rest => simp [takeIf, hrest rfl cs rfl]

/-- Whatever `takeIf` has taken off has the form. A subtag is left in front only if it has not the
form, or if another has been taken off. -/
theorem of_takeIf (h : takeIf form xs = (o, rest)) :
    xs = o.toList ++ rest ∧ (∀ cs ∈ o, form cs = true) ∧
      (o = none → ∀ cs ∈ rest.head?, form cs = false) := by
  cases xs with
  | nil =>
    obtain ⟨rfl, rfl⟩ := Prod.mk.inj h
    exact ⟨rfl, by simp, by simp⟩
  | cons x xs =>
    rw [takeIf] at h
    split at h <;> rename_i hform <;> obtain ⟨rfl, rfl⟩ := Prod.mk.inj h
    · exact ⟨rfl, by simpa using hform, by simp⟩
    · exact ⟨rfl, by simp, by simpa using hform⟩

end takeIf

/-- Subtags that can be put into their slots are put there by `resolve`. No other slot would have
taken one of them before, as no subtag has the form of two. -/
theorem resolve_of_subtags {id : String} {s : Subtags} (h : split id = s.toList) :
    resolve id = .ok s.locale := by
  have hscript : takeIf isScript (s.script.toList ++ (s.region.toList ++ s.variants)) =
      (s.script, s.region.toList ++ s.variants) := by
    refine takeIf_append (fun cs hcs => isScript_iff.mpr (s.script_form cs hcs)) fun _ cs hcs => ?_
    rw [← Bool.not_eq_true, isScript_iff]
    rcases List.mem_append.mp (List.mem_of_mem_head? hcs) with hcs | hcs
    · exact not_scriptForm_of_regionForm (s.region_form cs (by simpa using hcs))
    · exact not_scriptForm_of_variantForm (s.variant_form cs hcs)
  have hregion : takeIf isRegion (s.region.toList ++ s.variants) = (s.region, s.variants) := by
    refine takeIf_append (fun cs hcs => isRegion_iff.mpr (s.region_form cs hcs)) fun _ cs hcs => ?_
    rw [← Bool.not_eq_true, isRegion_iff]
    exact not_regionForm_of_variantForm (s.variant_form cs (List.mem_of_mem_head? hcs))
  have hvariants : s.variants.find? (!isVariant ·) = none := by
    rw [List.find?_eq_none]
    intro cs hcs
    simpa using isVariant_iff.mpr (s.variant_form cs hcs)
  unfold resolve
  rw [subtags_eq, ← split, h, Subtags.toList]
  simp only [isLanguage_iff.mpr s.language_form, hscript, hregion, hvariants]
  rfl

/-- What `resolve` makes of a tag: the locale of its subtags; or an error about the language; or one
about the first subtag `cs` for which there is no slot, behind those of `s` that have been put into
theirs. -/
theorem resolve_cases (id : String) :
    (∃ s : Subtags, split id = s.toList ∧ resolve id = .ok s.locale) ∨
      ((∀ language ∈ (split id).head?, ¬ LanguageForm language) ∧
        resolve id = .error ⟨id, .language⟩) ∨
      ∃ (s : Subtags) (cs : List Char) (more : List (List Char)),
        split id = s.toList ++ cs :: more ∧ ¬ s.Takes cs ∧
          resolve id = .error ⟨id, .subtag (.ofList cs)⟩ := by
  unfold resolve
  rw [subtags_eq, ← split]
  cases hsplit : split id with
  | nil => exact absurd hsplit (List.splitOnP_ne_nil _ _)
  | cons language rest =>
    dsimp only
    by_cases hlanguage : LanguageForm language
    · rw [if_neg (by simpa using isLanguage_iff.mpr hlanguage)]
      obtain ⟨script, rest', htake⟩ : ∃ o xs, takeIf isScript rest = (o, xs) := ⟨_, _, rfl⟩
      obtain ⟨region, rest'', htake'⟩ : ∃ o xs, takeIf isRegion rest' = (o, xs) := ⟨_, _, rfl⟩
      rw [htake]
      dsimp only
      rw [htake']
      dsimp only
      obtain ⟨rfl, hscript, hnoscript⟩ := of_takeIf htake
      obtain ⟨rfl, hregion, hnoregion⟩ := of_takeIf htake'
      let slots (variants : List (List Char)) (h : ∀ cs ∈ variants, isVariant cs = true) :
          Subtags :=
        ⟨language, script, region, variants, hlanguage,
          fun cs hcs => isScript_iff.mp (hscript cs hcs),
          fun cs hcs => isRegion_iff.mp (hregion cs hcs),
          fun cs hcs => isVariant_iff.mp (h cs hcs)⟩
      cases hfind : rest''.find? (!isVariant ·) with
      | none =>
        refine .inl ⟨slots rest'' fun cs hcs => ?_, rfl, rfl⟩
        simpa using List.find?_eq_none.mp hfind cs hcs
      | some cs =>
        obtain ⟨hvariant, variants, more, rfl, hvariants⟩ := List.find?_eq_some_iff_append.mp hfind
        refine .inr (.inr ⟨slots variants (by simpa using hvariants), cs, more, ?_, ?_, rfl⟩)
        · simp [slots, Subtags.toList]
        · -- a script or region is left only where its slot is taken or another subtag is in front
          rintro (⟨hnone, hnone', rfl, hform⟩ | ⟨hnone, rfl, hform⟩ | hform)
          · obtain rfl : script = none := hnone
            obtain rfl : region = none := hnone'
            simpa [isScript_iff.mpr hform] using hnoscript rfl cs rfl
          · obtain rfl : region = none := hnone
            simpa [isRegion_iff.mpr hform] using hnoregion rfl cs rfl
          · simp [isVariant_iff.mpr hform] at hvariant
    · refine .inr (.inl ⟨by simpa using hlanguage, ?_⟩)
      rw [if_pos (by simpa using mt isLanguage_iff.mp hlanguage)]

/-- A tag that is resolved splits into subtags for its locale, since the other cases of
`resolve_cases` are errors. -/
theorem exists_of_resolve {id : String} {l : Locale} (h : resolve id = .ok l) :
    ∃ s : Subtags, split id = s.toList ∧ l = s.locale := by
  rcases resolve_cases id with ⟨s, hsplit, hresolve⟩ | ⟨-, hresolve⟩ | ⟨s, cs, more, -, -, hresolve⟩
  all_goals
    rw [h] at hresolve
    cases hresolve
  exact ⟨s, hsplit, rfl⟩

/-- Tags that differ in case and separators alone, with the same `folded`, are the same locale. -/
theorem resolve_congr {id id' : String} {l : Locale} (h : folded id = folded id')
    (hresolve : resolve id = .ok l) : resolve id' = .ok l := by
  obtain ⟨s, hsplit, rfl⟩ := exists_of_resolve hresolve
  have hlower : (split id').map lower = s.toList.map lower := by
    rw [← hsplit, ← splitOn_folded, ← splitOn_folded, h]
  obtain ⟨s', hsplit', hlocale⟩ := Subtags.exists_respelled hlower
  rw [resolve_of_subtags hsplit'.symm, hlocale]

/-- The normalized tag is the tag in another case, with hyphens for underscores: in small letters it
is `folded id`. -/
theorem map_toLower_tag {id : String} {l : Locale} (h : resolve id = .ok l) :
    l.tag.toList.map Char.toLower = folded id := by
  obtain ⟨s, hsplit, rfl⟩ := exists_of_resolve h
  rw [tag_eq, map_toLower_intercalate, s.map_lower_customary, ← hsplit, folded_eq]

/-- The normalized tag (`Locale.tag`) is one for the same locale. To normalize twice is to normalize
once. -/
theorem resolve_tag {id : String} {l : Locale} (h : resolve id = .ok l) :
    resolve l.tag = .ok l := by
  obtain ⟨s, -, rfl⟩ := exists_of_resolve h
  obtain ⟨s', hcustomary, hlocale⟩ := Subtags.exists_respelled s.map_lower_customary
  have hsplit : split s.locale.tag = s'.toList := by
    rw [split, tag_eq, ← hcustomary]
    exact splitOnP_intercalate (by simp [Subtags.toList]) fun cs hcs => s'.isAlphanum_of_mem hcs
  rw [resolve_of_subtags hsplit, hlocale]

/-- Which tags are locales. A tag is one exactly if its subtags can be put into their slots; and
then the locale is that of the subtags, whatever their case and separators: its normalized tag is a
tag for it, and is the tag itself but for the case of letters and for hyphens in the place of
underscores; and another tag is the same locale exactly if it is the same tag but for these. For a
tag that is no locale the error names the tag, and it is about the language if that has not the form
of one, or else about the first subtag that is neither a variant nor of the form of a slot that is
still to come. -/
theorem resolve_exact (id : String) :
    (∀ l, resolve id = .ok l ↔ ∃ s : Subtags, split id = s.toList ∧ l = s.locale) ∧
    (∀ l, resolve id = .ok l →
      resolve l.tag = .ok l ∧ l.tag.toList.map Char.toLower = folded id ∧
        ∀ id' l', resolve id' = .ok l' → (l = l' ↔ folded id = folded id')) ∧
    ∀ e, resolve id = .error e → e.id = id ∧
      (((∀ language ∈ (split id).head?, ¬ LanguageForm language) ∧ e.reason = .language) ∨
        ∃ (s : Subtags) (cs : List Char) (more : List (List Char)),
          split id = s.toList ++ cs :: more ∧ ¬ s.Takes cs ∧
            e.reason = .subtag (.ofList cs)) := by
  refine ⟨fun l => ⟨exists_of_resolve, ?_⟩, fun l h => ⟨resolve_tag h, map_toLower_tag h, ?_⟩,
    fun e h => ?_⟩
  · rintro ⟨s, hsplit, rfl⟩
    exact resolve_of_subtags hsplit
  · intro id' l' h'
    constructor
    · rintro rfl
      rw [← map_toLower_tag h, map_toLower_tag h']
    · intro hfolded
      have hsame := resolve_congr hfolded h
      rw [h'] at hsame
      exact (Except.ok.inj hsame).symm
  · rcases resolve_cases id with ⟨s, -, hresolve⟩ | ⟨hform, hresolve⟩ |
      ⟨s, cs, more, hsplit, htakes, hresolve⟩
    all_goals
      rw [h] at hresolve
      cases hresolve
    · exact ⟨rfl, .inl ⟨hform, rfl⟩⟩
    · exact ⟨rfl, .inr ⟨s, cs, more, hsplit, htakes, rfl⟩⟩

/-- A tag with subtags in all slots and its like, and a tag with two scripts. -/
theorem resolve_exact_of_two_spellings :
    let l : Locale := ⟨"sl", some "Latn", some "SI", ["rozaj", "1994"]⟩
    resolve "SL_latn-si_Rozaj-1994" = .ok l ∧ resolve "sl-LATN_SI-rozaj_1994" = .ok l ∧
      resolve l.tag = .ok l ∧
      folded "SL_latn-si_Rozaj-1994" = folded "sl-LATN_SI-rozaj_1994" ∧
      ∃ e, resolve "sr-Latn-Cyrl" = .error e ∧ e.reason = .subtag "Cyrl" ∧
        e.id = "sr-Latn-Cyrl" := by
  intro l
  have h : resolve "SL_latn-si_Rozaj-1994" = .ok l := by decide +kernel
  have h' : resolve "sl-LATN_SI-rozaj_1994" = .ok l := by decide +kernel
  have herror : resolve "sr-Latn-Cyrl" = .error ⟨"sr-Latn-Cyrl", .subtag "Cyrl"⟩ := by
    decide +kernel
  obtain ⟨htag, -, hsame⟩ := (resolve_exact "SL_latn-si_Rozaj-1994").2.1 l h
  obtain ⟨hid, -⟩ := (resolve_exact "sr-Latn-Cyrl").2.2 _ herror
  exact ⟨h, h', htag, (hsame _ l h').mp rfl, _, herror, rfl, hid⟩

end MessageCatalog.Locale
