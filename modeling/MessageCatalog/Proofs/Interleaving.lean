import MessageCatalog.Proofs.Changes
import MessageCatalog.Proofs.Sound

/-!
# MessageCatalog.Proofs.Interleaving

How the text and the replacements of a message lie between each other: `interleaved_readTokens`.
Reading leaves no two segments of text side by side, no replacement out of order and no blank at an
end that is text (`Interleaved`), in messages as in the bodies of their options, however deep these
are nested and whatever tokens the stream holds.

A body that may still grow has the form without the condition on its end (`Laid`). Text,
replacements and trimming keep it, or finish it (`Laid.pushText`, `Laid.attach`,
`Laid.trimTrailing`).

`Standard` gathers what else may be asked of all that is read, text, nesting, drafts and details. A
standard that taking and finishing options keeps (`Standard.Kept`) holds at every depth
(`Standard.Kept.of_changes`), by one induction over the changes of a reading. The induction is about
what the reader holds open: the innermost body and all around it (`Standard.Focused`), each with
what has been finished inside (`Standard.Deep`). Three standards are used: that of files here
(`Standard.file`), one that asks nothing (`Standard.lenient`), and that of completeness in
`MessageCatalog.Proofs.Completeness`.

In a file without errors text cannot hold the start of a replacement either, which follows from
`MessageCatalog.Proofs.Sound`.
-/

namespace MessageCatalog

/-! ### Bodies at every depth

A body at some depth is reached through the replacements on the way (`Message.Leads`), so that depth
and nesting are the length of a path. -/

/-- The bodies of the options, whatever the type of the details. Those of a price are gone, as only
its currency is kept. -/
def Details.bodies : Details → List Message
  | .none | .money _ => []
  | .plural _ variants custom => variants.map Prod.snd ++ custom.map Prod.snd
  | .select cases _ => cases.map Prod.snd

/-- The replacements lead from a message down to a body: each stands in the body of an option of the
one before it, and the first in the message. So `Leads m path body` says that `body` is in `m`, at
the depth of `path`. -/
inductive Message.Leads : Message → List Replacement → Message → Prop
  | here (m : Message) : Leads m [] m
  | inside {m body inner : Message} {r : Replacement} {path : List Replacement}
      (hr : r ∈ m.replacements) (hbody : body ∈ r.details.bodies) (h : Leads body path inner) :
    Leads m (r :: path) inner

/-- The bodies of the options taken so far. They will be the bodies of the details
(`Details.bodies`). -/
def Draft.bodies : Draft → List Message
  | .none | .money _ => []
  | .plural draft => draft.variants.map Prod.snd ++ draft.custom.map Prod.snd
  | .select draft => draft.cases.map Prod.snd

/-- Finishing details keeps their bodies: `Draft.finish` only looks for what is missing. -/
theorem Draft.bodies_finish (draft : Draft) (start last : Position) :
    (draft.finish start last).1.bodies = draft.bodies := by
  cases draft with
  | none | plural | select => rfl
  | money draft =>
    simp only [finish, MoneyDraft.finish]
    split <;> rfl

theorem Entries.mem_map_insert {κ : Type} [LT κ] [DecidableLT κ] {k : κ} {body b : Message}
    {m : Entries κ Message} (h : b ∈ (insert k body m).map Prod.snd) :
    b ∈ m.map Prod.snd ∨ b = body := by
  obtain ⟨e, he, rfl⟩ := List.mem_map.mp h
  rcases mem_insert.mp he with rfl | he
  · exact .inr rfl
  · exact .inl (List.mem_map_of_mem he)

/-- An option adds no body but its own to `Draft.bodies`, and it may replace one or be refused. -/
theorem Draft.mem_bodies_add {draft : Draft} {option : ReplacementOption} {b : Message}
    (h : b ∈ (draft.add option).1.bodies) : b ∈ draft.bodies ∨ b = option.body := by
  cases draft with
  | none | money => cases h
  | plural draft =>
    simp only [add, bodies, List.mem_append, PluralDraft.add] at h ⊢
    split at h
    · split at h
      · unfold PluralDraft.addType at h
        split at h <;> exact .inl h
      · split at h
        · unfold PluralDraft.addCategory at h
          split at h
          · exact .inl h
          · rcases h with h | h
            · exact (Entries.mem_map_insert h).imp_left .inl
            · exact .inl (.inr h)
        · exact .inl h
    · split at h
      · unfold PluralDraft.addNumber at h
        split at h
        · exact .inl h
        · rcases h with h | h
          · exact .inl (.inl h)
          · exact (Entries.mem_map_insert h).imp_left .inr
      · exact .inl h
  | select draft =>
    simp only [add, bodies, SelectDraft.add] at h ⊢
    split at h
    · unfold SelectDraft.addCase at h
      split at h
      · exact .inl h
      · exact Entries.mem_map_insert h
    · unfold SelectDraft.addDirective at h
      dsimp only at h
      split at h
      · exact .inl h
      · split at h
        · exact .inl h
        · split at h <;> exact .inl h

/-! ### Text and replacements

The form is stated by the two lists of a message, without the pieces of
`MessageCatalog.Proofs.Woven`: replacements that are dropped, as those of a faulty file may be,
leave it untouched. -/

/-- The replacements of a message, which may not be finished, are in order, and there is one between
any two segments of text. This is what every `Change` keeps of the body that is open. -/
structure Laid (m : Message) : Prop where
  rising : m.replacements.Pairwise fun a b => a.textPos ≤ b.textPos
  le_length : ∀ r ∈ m.replacements, r.textPos ≤ m.text.length
  apart : ∀ i, 1 ≤ i → i < m.text.length → ∃ r ∈ m.replacements, r.textPos = i

/-- In a finished message, besides, the last segment holds text that does not end in a blank, unless
a replacement stands behind it. Trimming brings it about (`Laid.trimTrailing`). -/
structure Interleaved (m : Message) : Prop extends Laid m where
  trimmed : ∀ last, m.text.getLast? = some last →
    (∀ r ∈ m.replacements, r.textPos ≠ m.text.length) → last ≠ "" ∧ Trimmed last

/-- Text is a new segment, or is appended to the last one: the former behind a replacement
(`endsInReplacement`) and in an empty message. -/
theorem Message.pushText_cases (m : Message) (t : String) :
    (m.text = [] ∨ m.endsInReplacement = true) ∧ (m.pushText t).text = m.text ++ [t] ∨
      ∃ front last, m.text = front ++ [last] ∧ m.endsInReplacement = false ∧
        (m.pushText t).text = front ++ [last ++ t] := by
  unfold pushText
  rcases List.eq_nil_or_concat' m.text with htext | ⟨front, last, htext⟩
  · exact .inl ⟨.inl htext, by simp [htext]⟩
  · cases hends : m.endsInReplacement with
    | true => exact .inl ⟨.inr rfl, by simp [htext]⟩
    | false => exact .inr ⟨front, last, htext, rfl, by simp [htext]⟩

/-- Trimming leaves a message alone, or trims its last segment (`Text.trimEnd`), which goes if it
becomes empty. It leaves those alone that end in a replacement. -/
theorem Message.trimTrailing_cases (m : Message) :
    (m.text = [] ∨ m.endsInReplacement = true) ∧ m.trimTrailing = m ∨
      ∃ front last, m.text = front ++ [last] ∧ m.endsInReplacement = false ∧
        (Text.trimEnd last = "" ∧ m.trimTrailing.text = front ∨
          Text.trimEnd last ≠ "" ∧ m.trimTrailing.text = front ++ [Text.trimEnd last]) := by
  unfold trimTrailing
  rcases List.eq_nil_or_concat' m.text with htext | ⟨front, last, htext⟩
  · exact .inl ⟨.inl htext, by simp [htext]⟩
  · cases hends : m.endsInReplacement with
    | true => exact .inl ⟨.inr rfl, rfl⟩
    | false =>
      refine .inr ⟨front, last, htext, rfl, ?_⟩
      by_cases hempty : Text.trimEnd last = ""
      · exact .inl ⟨hempty, by simp [htext, hempty]⟩
      · exact .inr ⟨hempty, by simp [htext, hempty]⟩

theorem Reader.attach_none (m : Message) : attach m none = m := by
  cases m
  simp [attach]

namespace Laid

variable {m m' : Message}

theorem empty (sectionName key : String) : Laid (.empty sectionName key) :=
  ⟨.nil, by simp [Message.empty], by simp [Message.empty]⟩

/-- Only the number of segments matters for `Laid`, not what they say. -/
theorem of_length (h : Laid m) (hreplacements : m'.replacements = m.replacements)
    (hlength : m'.text.length = m.text.length) : Laid m' := by
  refine ⟨?_, ?_, ?_⟩
  · rw [hreplacements]
    exact h.rising
  · rw [hreplacements, hlength]
    exact h.le_length
  · rw [hreplacements, hlength]
    exact h.apart

/-- A message ends in a replacement if one stands behind all the text: it is then the last one. For
messages that are not `Laid` the test `Message.endsInReplacement` could be mistaken. -/
theorem endsInReplacement_iff (h : Laid m) :
    m.endsInReplacement = true ↔ ∃ r ∈ m.replacements, r.textPos = m.text.length := by
  unfold Message.endsInReplacement
  rcases List.eq_nil_or_concat' m.replacements with hnil | ⟨front, last, hlast⟩
  · simp [hnil]
  · have hrising := h.rising
    have hle := h.le_length
    rw [hlast] at hrising hle ⊢
    obtain ⟨-, -, hfront⟩ := List.pairwise_append.mp hrising
    have hle_last := hle last (by simp)
    simp only [List.getLast?_concat, decide_eq_true_eq]
    constructor
    · exact fun hge => ⟨last, by simp, Nat.le_antisymm hle_last hge⟩
    · rintro ⟨r, hr, hpos⟩
      rcases List.mem_append.mp hr with hr | hr
      · exact hpos ▸ hfront r hr last (by simp)
      · obtain rfl := List.mem_singleton.mp hr
        exact Nat.le_of_eq hpos.symm

/-- Text keeps the form `Laid`: it is appended where it would stand beside other text. -/
theorem pushText (h : Laid m) (t : String) : Laid (m.pushText t) := by
  rcases m.pushText_cases t with ⟨hnew, htext⟩ | ⟨front, last, hlast, -, htext⟩
  · refine ⟨?_, ?_, ?_⟩
    · rw [m.replacements_pushText]
      exact h.rising
    · rw [m.replacements_pushText, htext, List.length_append]
      exact fun r hr => Nat.le_add_right_of_le (h.le_length r hr)
    · rw [m.replacements_pushText, htext, List.length_append, List.length_singleton]
      intro i hpos hlt
      rcases Nat.lt_succ_iff_lt_or_eq.mp hlt with hlt | rfl
      · exact h.apart i hpos hlt
      -- in front of the new segment there is a replacement, unless it is the first
      · rcases hnew with hnil | hends
        · simp [hnil] at hpos
        · exact h.endsInReplacement_iff.mp hends
  · exact h.of_length (m.replacements_pushText t) (by simp [htext, hlast])

/-- A replacement behind all the text keeps the form `Laid`. Several may stand at one place. -/
theorem attach (h : Laid m) {r : Replacement} (hr : r.textPos = m.text.length) :
    Laid (Reader.attach m (some r)) := by
  simp only [Reader.attach, Option.toList_some]
  refine ⟨?_, ?_, ?_⟩
  · refine List.pairwise_append.mpr ⟨h.rising, List.pairwise_singleton _ _, fun a ha b hb => ?_⟩
    obtain rfl := List.mem_singleton.mp hb
    exact hr ▸ h.le_length a ha
  · intro a ha
    rcases List.mem_append.mp ha with ha | ha
    · exact h.le_length a ha
    · obtain rfl := List.mem_singleton.mp ha
      exact Nat.le_of_eq hr
  · intro i hpos hlt
    obtain ⟨a, ha, hi⟩ := h.apart i hpos hlt
    exact ⟨a, List.mem_append_left _ ha, hi⟩

/-- Trimming finishes a message: what is `Laid` becomes `Interleaved`. -/
theorem trimTrailing (h : Laid m) : Interleaved m.trimTrailing := by
  rcases m.trimTrailing_cases with ⟨hnew, htrim⟩ | ⟨front, last, hlast, hends, hcases⟩
  · rw [htrim]
    refine ⟨h, fun last hlast hno => ?_⟩
    rcases hnew with hnil | hends
    · simp [hnil] at hlast
    · obtain ⟨r, hr, hpos⟩ := h.endsInReplacement_iff.mp hends
      exact absurd hpos (hno r hr)
  have hreplacements := m.replacements_trimTrailing
  have hno : ∀ r ∈ m.replacements, r.textPos ≠ m.text.length := fun r hr hpos => by
    rw [h.endsInReplacement_iff.mpr ⟨r, hr, hpos⟩] at hends
    cases hends
  rcases hcases with ⟨-, htext⟩ | ⟨hne, htext⟩
  -- the last segment goes, and a replacement has been in front of it
  · have hlength : m.text.length = front.length + 1 := by simp [hlast]
    refine ⟨⟨?_, ?_, ?_⟩, fun last' hlast' hno' => ?_⟩
    · rw [hreplacements]
      exact h.rising
    · intro r hr
      rw [hreplacements] at hr
      have hle := h.le_length r hr
      have hne := hno r hr
      rw [htext]
      omega
    · rw [hreplacements, htext]
      exact fun i hpos hlt => h.apart i hpos (by omega)
    · rw [htext] at hlast' hno'
      have hpos : 1 ≤ front.length := by
        rw [Nat.one_le_iff_ne_zero, ne_eq, List.length_eq_zero_iff]
        rintro rfl
        cases hlast'
      obtain ⟨r, hr, heq⟩ := h.apart front.length hpos (by omega)
      exact absurd heq (hno' r (hreplacements ▸ hr))
  · refine ⟨h.of_length hreplacements (by simp [htext, hlast]), fun last' hlast' _ => ?_⟩
    rw [htext, List.getLast?_concat] at hlast'
    obtain rfl := Option.some.inj hlast'
    exact ⟨hne, trimmed_trimEnd last⟩

end Laid

/-- Without replacements there is no text, or one segment of it, which is `Trimmed`. This is so of
keys of options and of currencies. -/
theorem Interleaved.plainText {m : Message} (h : Interleaved m) (hplain : m.isPlain = true) :
    m.plainText = "" ∨ m.plainText ≠ "" ∧ Trimmed m.plainText := by
  have hnil : m.replacements = [] := List.isEmpty_iff.mp hplain
  have hlength : m.text.length ≤ 1 := by
    by_contra hlt
    obtain ⟨r, hr, -⟩ := h.apart 1 (Nat.le_refl 1) (by omega)
    simp [hnil] at hr
  match htext : m.text with
  | [] => exact .inl (by rw [Message.plainText, htext]; rfl)
  | [t] =>
    have hjoin : m.plainText = t := by rw [Message.plainText, htext]; simp [String.join]
    rw [hjoin]
    exact .inr (h.trimmed t (by rw [htext]; rfl) (by simp [hnil]))
  | t :: t' :: rest => simp [htext] at hlength

/-! ### Standards

A standard has a part for each thing that a change can do to content. -/

/-- What is asked of a reading, the form of its messages apart: of segments of text, of the number
of options that a body with a replacement is inside of, of an open replacement and of one that has
been made. -/
structure Standard where
  words : String → Prop
  room : Nat → Prop
  drafted : Option ReplacementKind → Draft → Prop
  made : ReplacementKind → Details → Prop

namespace Standard

/-- Reading keeps the standard, where text is as `said` tells and errors are as `allows` tells. One
field for each thing that a `Change` does to text or details. -/
structure Kept (S : Standard) (said : String → Prop) (allows : Diagnostic → Prop) : Prop where
  text : ∀ t, said t → S.words t
  append : ∀ s t, S.words s → said t → S.words (s ++ t)
  trim : ∀ t, S.words t → Text.trimEnd t ≠ "" → S.words (Text.trimEnd t)
  kind : ∀ kind, S.drafted (some kind) (.ofKind kind)
  unknownKind : ∀ d, allows d → S.drafted none .none
  add : ∀ kind draft option, S.drafted kind draft → Interleaved option.body →
    (∀ cause ∈ (draft.add option).2, allows ⟨cause, option.pos⟩) →
    S.drafted kind (draft.add option).1
  finish : ∀ kind draft start last, S.drafted (some kind) draft →
    (∀ d ∈ (draft.finish start last).2, allows d) → S.made kind (draft.finish start last).1

variable {S : Standard}

/-- What stands in a body inside of so many options is up to the `Standard`: each segment of its
text, each replacement, and that there may be replacements at this depth. -/
structure Content (S : Standard) (depth : Nat) (m : Message) : Prop where
  texts : ∀ t ∈ m.text, S.words t
  room : ∀ r ∈ m.replacements, S.room depth
  made : ∀ r ∈ m.replacements, S.made r.kind r.details

/-- A finished body is up to the standard at every depth: so is everything that `Message.Leads` to.
-/
def Deep (S : Standard) (depth : Nat) (m : Message) : Prop :=
  ∀ path body, m.Leads path body → Interleaved body ∧ S.Content (depth + path.length) body

/-- A body that may still grow is up to the standard, and so are the bodies of its options. It is
`Laid`, and will be `Interleaved` when it is trimmed. -/
structure Grown (S : Standard) (depth : Nat) (m : Message) : Prop where
  laid : Laid m
  content : S.Content depth m
  bodies : ∀ r ∈ m.replacements, ∀ body ∈ r.details.bodies, S.Deep (depth + 1) body

/-- An open replacement behind all the text of a body is up to the standard, as far as it has got,
and the bodies of the options it has taken are `Deep`. -/
structure Opened (S : Standard) (depth : Nat) (m : Message) (r : OpenReplacement) : Prop where
  room : S.room depth
  textPos : r.textPos = m.text.length
  drafted : S.drafted r.kind r.draft
  bodies : ∀ body ∈ r.draft.bodies, S.Deep (depth + 1) body

/-- The surroundings of a body are up to the standard: each frame holds a replacement that is
`Opened` in the body around it. -/
def Surrounded (S : Standard) : List Frame → Prop
  | [] => True
  | f :: frames =>
    S.Opened frames.length f.outer f.replacement ∧ S.Grown frames.length f.outer ∧
      S.Surrounded frames

/-- What is open is up to the standard, with everything around it. Between messages there is nothing
to say. -/
def Focused (S : Standard) : Focus → Prop
  | .idle => True
  | .body m frames => S.Grown frames.length m ∧ S.Surrounded frames
  | .replacement r m frames =>
    S.Opened frames.length m r ∧ S.Grown frames.length m ∧ S.Surrounded frames

namespace Kept

variable {said : String → Prop} {allows : Diagnostic → Prop} {depth : Nat} {m : Message}

/-- Text keeps the standard, as a new segment or behind the last one, by the two cases of
`Message.pushText_cases`. -/
theorem pushText (h : S.Kept said allows) (hm : S.Grown depth m) {t : String} (ht : said t) :
    S.Grown depth (m.pushText t) := by
  have hreplacements := m.replacements_pushText t
  refine ⟨hm.laid.pushText t, ⟨?_, ?_, ?_⟩, ?_⟩
  · rcases m.pushText_cases t with ⟨-, htext⟩ | ⟨front, last, hlast, -, htext⟩
    · rw [htext]
      exact List.forall_mem_append.mpr
        ⟨hm.content.texts, List.forall_mem_singleton.mpr (h.text t ht)⟩
    · have htexts := hm.content.texts
      rw [hlast, List.forall_mem_append] at htexts
      rw [htext]
      exact List.forall_mem_append.mpr ⟨htexts.1,
        List.forall_mem_singleton.mpr (h.append last t (htexts.2 last (by simp)) ht)⟩
  · rw [hreplacements]
    exact hm.content.room
  · rw [hreplacements]
    exact hm.content.made
  · rw [hreplacements]
    exact hm.bodies

/-- A body that is finished is up to the standard at every depth: what is `Grown` is `Deep` when it
is trimmed. -/
theorem trimTrailing (h : S.Kept said allows) (hm : S.Grown depth m) :
    S.Deep depth m.trimTrailing := by
  have hreplacements := m.replacements_trimTrailing
  intro path body hleads
  cases hleads with
  | here =>
    refine ⟨hm.laid.trimTrailing, ?_, ?_, ?_⟩
    · have htexts := hm.content.texts
      rcases m.trimTrailing_cases with ⟨-, htrim⟩ | ⟨front, last, hlast, -, hcases⟩
      · rw [htrim]
        exact htexts
      · rw [hlast, List.forall_mem_append] at htexts
        rcases hcases with ⟨-, htext⟩ | ⟨hne, htext⟩
        · rw [htext]
          exact htexts.1
        · rw [htext]
          exact List.forall_mem_append.mpr ⟨htexts.1,
            List.forall_mem_singleton.mpr (h.trim last (htexts.2 last (by simp)) hne)⟩
    · rw [hreplacements]
      exact hm.content.room
    · rw [hreplacements]
      exact hm.content.made
  | @inside _ b inner r path hr hbody hleads =>
    rw [hreplacements] at hr
    rw [List.length_cons, Nat.add_comm path.length, ← Nat.add_assoc]
    exact hm.bodies r hr b hbody path body hleads

/-- A replacement that is up to the standard keeps it, if the bodies of its options are `Deep` one
level further down. -/
theorem attach {r : Replacement} (hm : S.Grown depth m) (hroom : S.room depth)
    (hpos : r.textPos = m.text.length) (hmade : S.made r.kind r.details)
    (hbodies : ∀ body ∈ r.details.bodies, S.Deep (depth + 1) body) :
    S.Grown depth (Reader.attach m (some r)) := by
  have hone {P : Replacement → Prop} (hrs : ∀ a ∈ m.replacements, P a) (hr : P r) :
      ∀ a ∈ (Reader.attach m (some r)).replacements, P a :=
    List.forall_mem_append.mpr ⟨hrs, List.forall_mem_singleton.mpr hr⟩
  exact ⟨hm.laid.attach hpos, ⟨hm.content.texts, hone hm.content.room hroom,
    hone hm.content.made hmade⟩, hone hm.bodies hbodies⟩

theorem empty (sectionName key : String) : S.Grown depth (.empty sectionName key) :=
  ⟨.empty _ _, ⟨by simp [Message.empty], by simp [Message.empty], by simp [Message.empty]⟩,
    by simp [Message.empty]⟩

/-- Every `Change` keeps the standard. One case for each constructor; the standard is asked for what
is open and for the messages that are finished. -/
theorem of_change (h : S.Kept said allows) {d d' : Desk} (hchange : Change said S.room d d')
    (hallows : ∀ e ∈ d'.errors, allows e) (hfocus : S.Focused d.focus)
    (hmessages : ∀ m ∈ d.messages, S.Deep 0 m) :
    S.Focused d'.focus ∧ ∀ m ∈ d'.messages, S.Deep 0 m := by
  cases hchange with
  | report => exact ⟨hfocus, hmessages⟩
  | message sectionName key => exact ⟨⟨empty _ _, trivial⟩, hmessages⟩
  | messageEnd =>
    exact ⟨trivial, List.forall_mem_append.mpr
      ⟨hmessages, List.forall_mem_singleton.mpr (h.trimTrailing hfocus.1)⟩⟩
  | text ht => exact ⟨⟨h.pushText hfocus.1 ht, hfocus.2⟩, hmessages⟩
  | replacement key pos hroom =>
    exact ⟨⟨⟨hroom, rfl, h.kind .string, by simp [Draft.bodies]⟩, hfocus⟩, hmessages⟩
  | kind kind =>
    obtain ⟨hopened, hrest⟩ := hfocus
    refine ⟨⟨⟨hopened.room, hopened.textPos, h.kind kind, ?_⟩, hrest⟩, hmessages⟩
    cases kind <;> simp [Draft.ofKind, Draft.bodies]
  | unknownKind e =>
    obtain ⟨hopened, hrest⟩ := hfocus
    have hunknown := h.unknownKind e (hallows e (by simp))
    exact ⟨⟨⟨hopened.room, hopened.textPos, hunknown, by simp [Draft.bodies]⟩, hrest⟩, hmessages⟩
  | option name pos =>
    obtain ⟨hopened, hgrown, hframes⟩ := hfocus
    exact ⟨⟨empty _ _, ⟨hopened.room, hopened.textPos, hopened.drafted, hopened.bodies⟩, hgrown,
      hframes⟩, hmessages⟩
  | @optionEnd ms errors m f frames =>
    obtain ⟨hbody, hopened, hrest⟩ := hfocus
    have hdeep : S.Deep (frames.length + 1) m.trimTrailing := h.trimTrailing hbody
    refine ⟨⟨⟨hopened.room, hopened.textPos, ?_, fun body hbody => ?_⟩, hrest⟩, hmessages⟩
    · refine h.add _ _ _ hopened.drafted (hdeep [] _ (.here _)).1 fun cause hcause => ?_
      exact hallows _ (List.mem_append_right _
        (List.mem_map_of_mem (Option.mem_toList.mpr hcause)))
    · rcases Draft.mem_bodies_add hbody with hbody | rfl
      · exact hopened.bodies body hbody
      · exact hdeep
  | @replacementEnd ms errors r m frames last =>
    obtain ⟨hopened, hgrown, hframes⟩ := hfocus
    refine ⟨⟨?_, hframes⟩, hmessages⟩
    have hdrafted := hopened.drafted
    cases hkind : r.kind with
    -- a replacement of unknown type is dropped
    | none =>
      have hfinish : (r.finish last).1 = none := by
        rw [OpenReplacement.finish, hkind]
        rfl
      rw [hfinish, Reader.attach_none]
      exact hgrown
    | some kind =>
      rw [hkind] at hdrafted
      have hfinish : (r.finish last).1 =
          some ⟨r.key, r.textPos, kind, (r.draft.finish r.pos last).1⟩ := by
        rw [OpenReplacement.finish, hkind]
        rfl
      rw [hfinish]
      refine attach hgrown hopened.room hopened.textPos ?_ ?_
      · exact h.finish kind r.draft r.pos last hdrafted fun e he =>
          hallows e (List.mem_append_right _ he)
      · rw [Draft.bodies_finish]
        exact hopened.bodies

/-- A `Standard` that reading keeps holds of all that is read, at every depth. By induction on the
changes, from a desk that is clear. -/
theorem of_changes (h : S.Kept said allows) {d : Desk} (hchanges : Changes said S.room .clear d)
    (hallows : ∀ e ∈ d.errors, allows e) :
    ∀ m ∈ d.messages, ∀ path body, m.Leads path body →
      Interleaved body ∧ S.Content path.length body := by
  have hdesk : S.Focused d.focus ∧ ∀ m ∈ d.messages, S.Deep 0 m := by
    induction hchanges with
    | refl => exact ⟨trivial, by simp [Desk.clear]⟩
    | tail _ hchange ih =>
      obtain ⟨hfocus, hmessages⟩ := ih fun e he => hallows e (hchange.errors_prefix.subset he)
      exact h.of_change hchange hallows hfocus hmessages
  intro m hm path body hleads
  have hdeep := hdesk.2 m hm path body hleads
  rwa [Nat.zero_add] at hdeep

end Kept

end Standard

/-! ### The text of files

What a file holds is legible, since the scanner yields only text it may read. Where a faulty
replacement is dropped two runs of text may be put together. -/

/-- Text as it stands in any file, faulty or not. A replacement that is dropped may leave a dollar
sign in front of a brace. -/
def Legible (t : String) : Prop := t ≠ "" ∧ t.toList.all Word.isTextChar = true

theorem Legible.append {s t : String} (hs : Legible s) (ht : Legible t) : Legible (s ++ t) := by
  refine ⟨fun hempty => hs.1 ?_, ?_⟩
  · have hnil := congrArg String.toList hempty
    rw [String.toList_append] at hnil
    exact String.toList_eq_nil_iff.mp (List.append_eq_nil_iff.mp hnil).1
  · rw [String.toList_append, List.all_append, hs.2, ht.2]
    rfl

/-- Legible text stays `Legible` when it is trimmed, if anything is left. It may be put together,
too. -/
theorem Legible.trimEnd {t : String} (h : Legible t) (hne : Text.trimEnd t ≠ "") :
    Legible (Text.trimEnd t) := by
  obtain ⟨run, hrun⟩ := exists_trimEnd t
  have hall := h.2
  rw [hrun, List.all_append, Bool.and_eq_true] at hall
  exact ⟨hne, hall.1⟩

/-- A run of text is `Legible`, which is less than `Word.isText`. -/
theorem legible_of_isText {cs : List Char} (hne : cs ≠ []) (h : Word.isText cs = true) :
    Legible (String.ofList cs) := by
  obtain ⟨hne', htext⟩ := goodText_ofList hne h
  rw [Word.isText, Bool.and_eq_true] at htext
  exact ⟨hne', htext.1⟩

/-- What any file is held to: `Legible` text, and no more replacements one in the other than may be
open. -/
def Standard.file : Standard where
  words := Legible
  room := (· < Scanner.maxNesting)
  drafted := fun _ _ => True
  made := fun _ _ => True

/-- Reading a file keeps the standard of files (`Standard.file`), whatever errors there are: nothing
is asked of them. -/
theorem Standard.kept_file : Standard.file.Kept Legible fun _ => True where
  text := fun _ ht => ht
  append := fun _ _ hs ht => hs.append ht
  trim := fun _ ht hne => ht.trimEnd hne
  kind := fun _ => trivial
  unknownKind := fun _ _ => trivial
  add := fun _ _ _ _ _ _ => trivial
  finish := fun _ _ _ _ _ _ => trivial

/-- Whatever a file holds, at every depth its messages are `Interleaved` and `Legible`, and no more
replacements than may be open are nested one in the other. -/
theorem content_of_mem_messages (file : String) (bytes : List UInt8) :
    ∀ m ∈ (parse file bytes).messages, ∀ path body, m.Leads path body →
      Interleaved body ∧ Standard.file.Content path.length body :=
  Standard.kept_file.of_changes
    (changes_parse ⟨by decide, by decide⟩ (fun _ => legible_of_isText) file bytes)
    fun _ _ => trivial

/-- No run of text (`isText`) holds the start of a replacement, wherever it is looked for. -/
theorem Word.not_infix_of_isText {cs : List Char} (h : isText cs = true) :
    ¬ ['$', '{'] <:+: cs := by
  rintro ⟨front, rest, rfl⟩
  have happend : front ++ ['$', '{'] ++ rest = (front ++ ['$']) ++ '{' :: rest := by simp
  rw [happend, isText_append] at h
  exact h.2.2 ⟨by simp, rfl⟩

theorem Piece.mem_marks {r : Replacement} {ps : List Piece} : r ∈ marks ps ↔ .inr r ∈ ps := by
  simp [marks, List.mem_filterMap]

/-- What is asked of the bodies of `Sound` details holds of each. -/
theorem Sound.fits_of_mem_bodies {fits : Message → Prop} {kind : ReplacementKind}
    {details : Details} (h : Sound fits kind details) : ∀ body ∈ details.bodies, fits body := by
  cases h with
  | none | money => simp [Details.bodies]
  | plural _ _ hbodies hnumbers =>
    refine List.forall_mem_append.mpr ⟨List.forall_mem_map.mpr hbodies, ?_⟩
    exact List.forall_mem_map.mpr fun e he => (hnumbers e he).2
  | select _ hbodies => exact List.forall_mem_map.mpr fun e he => (hbodies e he).2.2

/-- The text of a sound message is good at every depth: `Built` goes down along `Message.Leads`. -/
theorem Built.goodText_of_leads {m body : Message} {path : List Replacement}
    (hleads : m.Leads path body) :
    ∀ {room : Nat}, Built (Allowed room) m → ∀ t ∈ body.text, GoodText t := by
  induction hleads with
  | here m =>
    intro room ⟨ps, hwoven, _, _⟩
    rw [hwoven.text]
    exact hwoven.good
  | inside hr hbody _ ih =>
    intro room ⟨ps, hwoven, _, hallowed⟩
    rw [hwoven.replacements, Piece.mem_marks] at hr
    cases room with
    | zero => exact absurd (hallowed _ hr) id
    | succ room => exact ih ((hallowed _ hr).2.fits_of_mem_bodies _ hbody).2

/-! ### Any stream

The form itself needs no standard, and the most lenient one shows that. -/

/-- Nothing is asked of text, replacements and their details. So any stream keeps this `Standard`.
-/
def Standard.lenient : Standard where
  words := fun _ => True
  room := fun _ => True
  drafted := fun _ _ => True
  made := fun _ _ => True

theorem Standard.kept_lenient :
    Standard.lenient.Kept (fun _ => True) fun _ => True := by
  constructor <;> intros <;> trivial

/-- Interleaving has a normal form. Whatever tokens a stream holds, in every message that is read
and in every body of an option in it, at any depth (`Message.Leads`), the replacements are in order
and stand within the text, any two segments of text have a replacement between them, and the last
segment is text that does not end in a blank, unless a replacement stands behind it (`Interleaved`).
In a file, moreover, no segment is empty or holds a line break, a closing brace or a character that
no file may hold, and in a file without errors none holds what starts a replacement. -/
theorem interleaved_readTokens (stream : List Token) :
    ∀ m ∈ (readTokens stream).messages, ∀ path body, m.Leads path body →
      Interleaved body ∧
        ∀ file bytes, stream = tokens file bytes → ∀ t ∈ body.text,
          t ≠ "" ∧
            (∀ c ∈ t.toList, c ≠ '\n' ∧ c ≠ '\r' ∧ c ≠ '}' ∧ c ≠ '\x00' ∧ c ≠ '\uFEFF') ∧
            ((readTokens stream).errors = [] → ¬ ['$', '{'] <:+: t.toList) := by
  intro m hm path body hleads
  refine ⟨(Standard.kept_lenient.of_changes (changes_readTokens stream) (fun _ _ => trivial) m hm
    path body hleads).1, ?_⟩
  rintro file bytes rfl t ht
  have hcontent := (content_of_mem_messages file bytes m hm path body hleads).2
  obtain ⟨hne, hlegible⟩ : Legible t := hcontent.texts t ht
  refine ⟨hne, fun c hc => ?_, fun hnone => ?_⟩
  · obtain ⟨hbrace, hlf, hcr, hlegal⟩ := Word.isTextChar_iff.mp (List.all_eq_true.mp hlegible c hc)
    refine ⟨hlf, hcr, hbrace, ?_, ?_⟩
    · rintro rfl
      cases hlegal
    · rintro rfl
      cases hlegal
  · obtain ⟨-, ps, hwoven, hfinished, -, hallowed⟩ := sound_of_mem_messages hnone m hm
    have hgood := Built.goodText_of_leads hleads ⟨ps, hwoven, hfinished, hallowed⟩ t ht
    exact Word.not_infix_of_isText hgood.2

/-- The body of an option loses the blank behind its replacement. -/
theorem interleaved_of_option_body :
    let bytes := Utf8.encode "k:\n\ta $\x7bn:plural.other\x7bb $\x7bx\x7d \x7d\x7d c\n"
    let inner : Replacement := ⟨"x", 1, .string, .none⟩
    let body : Message := ⟨"", "other", ["b "], [inner]⟩
    let outer : Replacement := ⟨"n", 1, .plural, .plural .cardinal [(.other, body)] []⟩
    let m : Message := ⟨"", "k", ["a ", " c"], [outer]⟩
    m ∈ (readTokens (tokens "f" bytes)).messages ∧ (readTokens (tokens "f" bytes)).errors = [] ∧
      m.Leads [outer] body ∧ Interleaved body ∧ ¬ ['$', '{'] <:+: "b ".toList := by
  intro bytes inner body outer m
  have hread : (readTokens (tokens "f" bytes)).messages = [m] ∧
      (readTokens (tokens "f" bytes)).errors = [] := by
    rw [tokens_eq_runFor]
    decide +kernel
  have hm : m ∈ (readTokens (tokens "f" bytes)).messages := by
    rw [hread.1]
    exact List.mem_singleton_self m
  have hleads : m.Leads [outer] body :=
    .inside (List.mem_singleton_self outer) (by simp [outer, Details.bodies]) (.here body)
  obtain ⟨hinterleaved, htexts⟩ := interleaved_readTokens _ m hm [outer] body hleads
  exact ⟨hm, hread.2, hleads, hinterleaved,
    (htexts "f" bytes rfl "b " (by simp [body])).2.2 hread.2⟩

end MessageCatalog
