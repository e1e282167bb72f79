import MessageCatalog.Dump
import MessageCatalog.Proofs.JsonText

/-!
# MessageCatalog.Proofs.JsonDump

A catalog can be told from its JSON: two catalogs are written as the same text only if they are the
same catalog (`Catalog.same_json_iff`).

The text tells the JSON value (`JsonValue.pretty_injective`), and the value tells the catalog: what
is left to see is that no two messages have the same value, nor two locales (`Message.toJson_inj`,
`Locale.toJson_injective`).

Messages are compared by the recursion that writes them, one lemma for each of its functions, as the
functions are recursive with one another. The fields of a locale are looked up by their names
(`JsonValue.field?`), since those of absent parts are left out: which fields there are tells which
parts there are.
-/

namespace MessageCatalog

/-! ### Keywords

Kinds, types and categories are written as words, different ones as different words. All three lists
of words are short, so the cases are gone through. -/

/-- Different kinds of replacements have different names (`ReplacementKind.name`), and so have types
of plurals and categories below. -/
theorem ReplacementKind.name_injective : Function.Injective name := by
  intro k k' h
  exact Option.some.inj (by rw [← ofName?_name k, h, ofName?_name])

theorem PluralType.name_injective : Function.Injective name := by
  intro t t' h
  exact Option.some.inj (by rw [← ofName?_name t, h, ofName?_name])

theorem PluralCategory.name_injective : Function.Injective name := by
  intro c c' h
  exact Option.some.inj (by rw [← ofName?_name c, h, ofName?_name])

/-- Lists of strings are told from their values, as `JsonValue.string` is a constructor. -/
theorem JsonValue.map_string_inj {as bs : List String}
    (h : as.map JsonValue.string = bs.map JsonValue.string) : as = bs :=
  (List.map_inj_right fun _ _ => JsonValue.string.inj).mp h

/-! ### Messages

Every function that writes a part of a message has its lemma, with the same recursion. The type
comes first in details, so those of different types differ there. -/

mutual

/-- Messages are told from their sections, keys, texts and replacements, and these are all that
there is to a `Message`. -/
theorem Message.toJson_inj {m m' : Message} (h : m.toJson = m'.toJson) : m = m' := by
  obtain ⟨sectionName, key, text, replacements⟩ := m
  obtain ⟨sectionName', key', text', replacements'⟩ := m'
  simp only [Message.toJson, JsonValue.object.injEq, List.cons.injEq, Prod.mk.injEq,
    JsonValue.string.injEq, JsonValue.array.injEq, true_and, and_true] at h
  obtain ⟨rfl, rfl, htext, hreplacements⟩ := h
  rw [JsonValue.map_string_inj htext, Replacement.listToJson_inj hreplacements]
termination_by structural m

/-- Lists of replacements, one after the other, by `Replacement.toJson_inj`. -/
theorem Replacement.listToJson_inj {rs rs' : List Replacement}
    (h : Replacement.listToJson rs = Replacement.listToJson rs') : rs = rs' := by
  match rs, rs' with
  | [], [] => rfl
  | [], _ :: _ | _ :: _, [] => simp [Replacement.listToJson] at h
  | r :: rs, r' :: rs' =>
    simp only [Replacement.listToJson, List.cons.injEq] at h
    rw [Replacement.toJson_inj h.1, Replacement.listToJson_inj h.2]
termination_by structural rs

/-- Replacements are told from their keys, their places in the text, their kinds and their details,
which are the fields of `Replacement.toJson`. -/
theorem Replacement.toJson_inj {r r' : Replacement} (h : r.toJson = r'.toJson) : r = r' := by
  obtain ⟨key, textPos, kind, details⟩ := r
  obtain ⟨key', textPos', kind', details'⟩ := r'
  simp only [Replacement.toJson, JsonValue.object.injEq, List.cons.injEq, Prod.mk.injEq,
    JsonValue.string.injEq, JsonValue.number.injEq, Int.natCast_inj, true_and, and_true] at h
  obtain ⟨rfl, rfl, hkind, hdetails⟩ := h
  rw [ReplacementKind.name_injective hkind, Details.toJson_inj hdetails]
termination_by structural r

/-- Details are told from the type that `Details.toJson` writes first, and then from what it writes
for details of that type. -/
theorem Details.toJson_inj {d d' : Details} (h : d.toJson = d'.toJson) : d = d' := by
  match d, d' with
  | .none, .none => rfl
  | .money currency, .money currency' =>
    simpa [Details.toJson] using h
  | .plural type variants custom, .plural type' variants' custom' =>
    simp only [Details.toJson, JsonValue.object.injEq, List.cons.injEq, Prod.mk.injEq,
      JsonValue.string.injEq, true_and, and_true] at h
    obtain ⟨htype, hvariants, hcustom⟩ := h
    rw [PluralType.name_injective htype, Details.variantsToJson_inj hvariants,
      Details.numbersToJson_inj hcustom]
  | .select cases fallback, .select cases' fallback' =>
    simp only [Details.toJson, JsonValue.object.injEq, List.cons.injEq, Prod.mk.injEq,
      JsonValue.string.injEq, true_and, and_true] at h
    obtain ⟨hcases, rfl⟩ := h
    rw [Details.casesToJson_inj hcases]
  | .none, .money _ | .none, .plural .. | .none, .select .. => simp [Details.toJson] at h
  | .money _, .none | .money _, .plural .. | .money _, .select .. => simp [Details.toJson] at h
  | .plural .., .none | .plural .., .money _ | .plural .., .select .. =>
    simp [Details.toJson] at h
  | .select .., .none | .select .., .money _ | .select .., .plural .. =>
    simp [Details.toJson] at h
termination_by structural d

/-- The variants of a plural, with the names of their categories. Bodies are messages again, so this
goes back to `Message.toJson_inj`, as the next two do. -/
theorem Details.variantsToJson_inj {as bs : List (PluralCategory × Message)}
    (h : Details.variantsToJson as = Details.variantsToJson bs) : as = bs := by
  match as, bs with
  | [], [] => rfl
  | [], _ :: _ | _ :: _, [] => simp [Details.variantsToJson] at h
  | (category, body) :: as, (category', body') :: bs =>
    simp only [Details.variantsToJson, List.cons.injEq, Prod.mk.injEq] at h
    obtain ⟨⟨hcategory, hbody⟩, hrest⟩ := h
    rw [PluralCategory.name_injective hcategory, Message.toJson_inj hbody,
      Details.variantsToJson_inj hrest]
termination_by structural as

/-- The custom variants of a plural, with their numbers, which are told from their texts by
`Text.showInt_injective`. -/
theorem Details.numbersToJson_inj {as bs : List (Int × Message)}
    (h : Details.numbersToJson as = Details.numbersToJson bs) : as = bs := by
  match as, bs with
  | [], [] => rfl
  | [], _ :: _ | _ :: _, [] => simp [Details.numbersToJson] at h
  | (n, body) :: as, (n', body') :: bs =>
    simp only [Details.numbersToJson, List.cons.injEq, Prod.mk.injEq] at h
    obtain ⟨⟨hn, hbody⟩, hrest⟩ := h
    rw [Text.showInt_injective hn, Message.toJson_inj hbody, Details.numbersToJson_inj hrest]
termination_by structural as

theorem Details.casesToJson_inj {as bs : List (String × Message)}
    (h : Details.casesToJson as = Details.casesToJson bs) : as = bs := by
  match as, bs with
  | [], [] => rfl
  | [], _ :: _ | _ :: _, [] => simp [Details.casesToJson] at h
  | (value, body) :: as, (value', body') :: bs =>
    simp only [Details.casesToJson, List.cons.injEq, Prod.mk.injEq] at h
    obtain ⟨⟨rfl, hbody⟩, hrest⟩ := h
    rw [Message.toJson_inj hbody, Details.casesToJson_inj hrest]
termination_by structural as

end

/-! ### Locales

The language is always there; for the other three parts, the field is looked up. -/

/-- What an object says under a name, if it has a field of that name. -/
def JsonValue.field? (name : String) : JsonValue → Option JsonValue
  | .object fields => fields.lookup name
  | _ => none

namespace Locale

open JsonValue (field?)

/-- The language under its name. It is the one field of `Locale.toJson` that is always there. -/
theorem field?_language (l : Locale) :
    field? "language" l.toJson = some (.string l.language) := by
  simp [toJson, field?]

theorem field?_script (l : Locale) : field? "script" l.toJson = l.script.map .string := by
  cases hscript : l.script <;> cases hregion : l.region <;>
    simp [toJson, field?, List.lookup_cons, hscript, hregion]

theorem field?_region (l : Locale) : field? "region" l.toJson = l.region.map .string := by
  cases hscript : l.script <;> cases hregion : l.region <;>
    simp [toJson, field?, List.lookup_cons, hscript, hregion]

/-- The variants under their name. An empty list of variants is left out by `Locale.toJson`, so
nothing under that name says that there are none. -/
theorem field?_variants (l : Locale) :
    (field? "variants" l.toJson).getD (.array []) = .array (l.variants.map .string) := by
  cases hscript : l.script <;> cases hregion : l.region <;> cases hvariants : l.variants <;>
    simp [toJson, field?, List.lookup_cons, hscript, hregion, hvariants]

/-- Different locales have different values: what `JsonValue.field?` finds under the four names is
all there is to a `Locale`. -/
theorem toJson_injective : Function.Injective toJson := by
  intro l l' h
  have hlanguage : some (JsonValue.string l.language) = some (.string l'.language) := by
    rw [← field?_language, h, field?_language]
  have hscript : l.script.map JsonValue.string = l'.script.map .string := by
    rw [← field?_script, h, field?_script]
  have hregion : l.region.map JsonValue.string = l'.region.map .string := by
    rw [← field?_region, h, field?_region]
  have hvariants : JsonValue.array (l.variants.map .string) =
      .array (l'.variants.map .string) := by
    rw [← field?_variants, h, field?_variants]
  have hinj : Function.Injective JsonValue.string := fun _ _ => JsonValue.string.inj
  obtain ⟨language, script, region, variants⟩ := l
  obtain ⟨language', script', region', variants'⟩ := l'
  obtain rfl : language = language' := by simpa using hlanguage
  obtain rfl : script = script' := Option.map_injective hinj hscript
  obtain rfl : region = region' := Option.map_injective hinj hregion
  obtain rfl : variants = variants' := JsonValue.map_string_inj (JsonValue.array.inj hvariants)
  rfl

end Locale

/-! ### Catalogs

Locale and messages make up the value of a catalog, and its text is the text of that value. -/

namespace Catalog

/-- Different catalogs have different values, by `Locale.toJson_injective` and `Message.toJson_inj`.
-/
theorem toJson_injective : Function.Injective toJson := by
  rintro ⟨locale, messages⟩ ⟨locale', messages'⟩ h
  simp only [toJson, JsonValue.object.injEq, List.cons.injEq, Prod.mk.injEq,
    JsonValue.array.injEq, true_and, and_true] at h
  obtain ⟨hlocale, hmessages⟩ := h
  rw [Locale.toJson_injective hlocale,
    (List.map_inj_right fun _ _ => Message.toJson_inj).mp hmessages]

/-- Different catalogs have different dumps, as no two values have the same text
(`JsonValue.pretty_injective`). -/
theorem dump_json_injective : Function.Injective (dump · .json) := by
  intro c c' h
  exact toJson_injective (JsonValue.pretty_injective 0 (String.append_left_inj "\n" |>.mp h))

/-- The JSON dump of a catalog loses nothing: whatever sinks two catalogs are written to with
`dumpInto`, the texts are the same exactly if the catalogs are. -/
theorem same_json_iff {c c' : Catalog} {sink sink' : Sink} {text text' : String}
    (h : c.dumpInto .json sink = .ok text) (h' : c'.dumpInto .json sink' = .ok text') :
    text = text' ↔ c = c' := by
  rw [eq_dump_of_dumpInto h, eq_dump_of_dumpInto h']
  exact dump_json_injective.eq_iff

/-- Where a text is cut shows, even in a body of a body. -/
theorem same_json_iff_of_cut_text :
    let catalog (text : List String) : Catalog :=
      ⟨⟨"en", none, some "US", []⟩,
        [⟨"menu", "files", [], [⟨"who", 0, .select,
          .select [("a", ⟨"", "a", [], [⟨"n", 0, .plural,
            .plural .ordinal [(.other, ⟨"", "other", text, []⟩)] []⟩]⟩)] "a"⟩]⟩]⟩
    let sink (c : Catalog) : Sink := ⟨(c.dump .json).utf8ByteSize, "full"⟩
    ∃ D D',
      (catalog ["files"]).dumpInto .json (sink (catalog ["files"])) = .ok D ∧
      (catalog ["fi", "les"]).dumpInto .json (sink (catalog ["fi", "les"])) = .ok D' ∧ D ≠ D' := by
  intro catalog sink
  have hroom (c : Catalog) : c.dumpInto .json (sink c) = .ok (c.dump .json) :=
    if_pos (by simp [Sink.takes, sink])
  have hwhole := hroom (catalog ["files"])
  have hcut := hroom (catalog ["fi", "les"])
  refine ⟨_, _, hwhole, hcut, fun hsame => ?_⟩
  have hcatalog := (same_json_iff hwhole hcut).mp hsame
  simp [catalog] at hcatalog

end Catalog

end MessageCatalog
