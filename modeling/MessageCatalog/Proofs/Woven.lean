import Mathlib.Data.List.Chain
import MessageCatalog.Message.Build
import MessageCatalog.Message.Canonical
import MessageCatalog.Reading
import MessageCatalog.Proofs.Words

/-!
# MessageCatalog.Proofs.Woven

Messages as sequences of pieces. A message that is built from its start to its end is given by the
sequence of its text segments and replacements (`Piece`), in which no two segments are adjacent and
every replacement tells the number of segments in front of it. `Threaded` says that a message is
made of such pieces, and `Woven` that its text moreover is such as a message file may hold
(`GoodText`).

A message keeps text and replacements apart, in two lists, so the operations of
`MessageCatalog.Message.Build` look at the two ends of these. In terms of pieces they act on one
end: appending text makes the last piece longer or adds one (`pushText_append`, `pushText_new`), a
replacement is one more piece (`attach`), and trimming shortens the last piece or takes it away
(`trimTrailing`). Weaving, by which a message is written, gives the pieces back
(`Threaded.pieces_eq`).

The case to distinguish is always whether the last piece is text, so the lemmas are stated for
`ps ++ [.inl t]`, or suppose that the last piece is none.
-/

namespace MessageCatalog

/-! ### Pieces

A list of pieces holds both lists of a message, and where each replacement stands. -/

/-- A segment of text or a replacement. A message keeps the two apart, in two lists. -/
abbrev Piece := String ⊕ Replacement

namespace Piece

/-- The text segments among some pieces, in their order. -/
def texts (ps : List Piece) : List String := ps.filterMap Sum.getLeft?

/-- The replacements among some pieces, in their order. -/
def marks (ps : List Piece) : List Replacement := ps.filterMap Sum.getRight?

/-- Every replacement tells the number of segments in front of it, of which `passed` come before the
pieces. -/
def Placed : (passed : Nat) → List Piece → Prop
  | _, [] => True
  | passed, .inl _ :: ps => Placed (passed + 1) ps
  | passed, .inr r :: ps => r.textPos = passed ∧ Placed passed ps

/-- The two pieces are not both text. Adjacent pieces of a message are like this, as
`Message.pushText` puts text behind text together with it. -/
def Apart (a b : Piece) : Prop := a.isRight = true ∨ b.isRight = true

@[simp] theorem texts_nil : texts [] = [] := rfl
@[simp] theorem marks_nil : marks [] = [] := rfl

@[simp] theorem texts_inl (t : String) (ps : List Piece) :
    texts (.inl t :: ps) = t :: texts ps := rfl

@[simp] theorem texts_inr (r : Replacement) (ps : List Piece) :
    texts (.inr r :: ps) = texts ps := rfl

@[simp] theorem marks_inl (t : String) (ps : List Piece) : marks (.inl t :: ps) = marks ps := rfl

@[simp] theorem marks_inr (r : Replacement) (ps : List Piece) :
    marks (.inr r :: ps) = r :: marks ps := rfl

@[simp] theorem texts_append (xs ys : List Piece) : texts (xs ++ ys) = texts xs ++ texts ys :=
  List.filterMap_append

/-- Replacements are gathered part by part, and texts are too. -/
@[simp] theorem marks_append (xs ys : List Piece) : marks (xs ++ ys) = marks xs ++ marks ys :=
  List.filterMap_append

theorem mem_texts {t : String} {ps : List Piece} : t ∈ texts ps ↔ .inl t ∈ ps := by
  simp [texts, List.mem_filterMap]

/-- Behind some pieces the segments of these have passed, so `Placed` is shown part by part. -/
theorem placed_append {xs ys : List Piece} : ∀ {passed : Nat},
    Placed passed (xs ++ ys) ↔ Placed passed xs ∧ Placed (passed + (texts xs).length) ys := by
  induction xs with
  | nil => simp [Placed]
  | cons x xs ih =>
    intro passed
    cases x with
    | inl t =>
      simp only [List.cons_append, Placed, ih, texts_inl, List.length_cons]
      rw [Nat.add_assoc, Nat.add_comm 1]
    | inr r => simp only [List.cons_append, Placed, ih, texts_inr, and_assoc]

/-- A placed replacement (`Placed`) stands behind no fewer segments than have passed, and no more
than there are. By induction on the pieces. -/
theorem Placed.le {ps : List Piece} : ∀ {passed : Nat}, Placed passed ps →
    ∀ r ∈ marks ps, passed ≤ r.textPos ∧ r.textPos ≤ passed + (texts ps).length := by
  induction ps with
  | nil => intro passed _ r hr; cases hr
  | cons x ps ih =>
    intro passed h r hr
    cases x with
    | inl t =>
      have := ih h r hr
      simp only [texts_inl, List.length_cons]
      omega
    | inr r' =>
      rcases List.mem_cons.mp hr with rfl | hr
      · have := h.1
        omega
      · exact ih h.2 r hr

/-- Weaving puts placed replacements back where they were: `Message.weave` of the texts and the
marks gives the pieces. -/
theorem weave_of_placed {ps : List Piece} : ∀ {passed : Nat}, Placed passed ps →
    Message.weave passed (texts ps) ((marks ps).map fun r => (r.textPos, r)) = ps := by
  induction ps with
  | nil => intro passed _; rfl
  | cons x ps ih =>
    intro passed h
    cases x with
    | inl t =>
      have hrest := ih h
      have hle := @Placed.le ps _ h
      rw [texts_inl, marks_inl]
      -- the segment comes out in front of the next mark, which asks for it
      cases hmarks : marks ps with
      | nil =>
        rw [hmarks] at hrest
        exact congrArg (Sum.inl t :: ·) hrest
      | cons r rs =>
        rw [hmarks] at hrest hle
        have hpos := (hle r List.mem_cons_self).1
        have hsub : r.textPos - passed = (r.textPos - (passed + 1)) + 1 := by omega
        have hmax : max passed r.textPos = max (passed + 1) r.textPos := by omega
        simp only [List.map_cons, Message.weave] at hrest ⊢
        rw [hsub, hmax, List.take_succ_cons, List.drop_succ_cons, List.map_cons, List.cons_append,
          hrest]
    | inr r =>
      have hrest := ih h.2
      simp only [texts_inr, marks_inr, List.map_cons, Message.weave, h.1, Nat.sub_self,
        List.take_zero, List.drop_zero, List.map_nil, List.nil_append, Nat.max_self, hrest]

/-- The last of some pieces is text, or there is no text behind the last replacement: the two cases
of `Message.pushText` and of `Message.trimTrailing`. -/
theorem last_cases (ps : List Piece) :
    (∀ x ∈ ps.getLast?, x.isRight = true) ∨ ∃ front t, ps = front ++ [.inl t] := by
  rcases List.eq_nil_or_concat' ps with rfl | ⟨front, x, rfl⟩
  · exact .inl (by simp)
  · cases x with
    | inl t => exact .inr ⟨front, t, rfl⟩
    | inr r => exact .inl (by simp)

end Piece

open Piece

/-! ### Text

What is asked of the text of a message that is read. It is said of whole segments, since only these
can be read again as one run of text. -/

/-- Text as a message may hold it: it is not empty, and one run of text (`Word.isText`). -/
def GoodText (t : String) : Prop := t ≠ "" ∧ Word.isText t.toList = true

/-- Text that does not end in a blank (`Text.isBlank`). -/
def Trimmed (t : String) : Prop := ∀ c ∈ t.toList.getLast?, Text.isBlank c = false

/-! ### Building

The lemmas on `Threaded` say what an operation does; those on `Woven` add that the text stays good.
-/

/-- The message is made of the pieces: its text is their `texts`, its replacements are their
`marks`, and no two adjacent ones are text. Nothing is asked of what the text says. -/
structure Threaded (m : Message) (ps : List Piece) : Prop where
  text : m.text = texts ps
  replacements : m.replacements = marks ps
  placed : Placed 0 ps
  apart : ps.IsChain Apart

namespace Threaded

variable {m : Message} {ps : List Piece}

theorem empty (sectionName key : String) : Threaded (.empty sectionName key) [] :=
  ⟨rfl, rfl, trivial, .nil⟩

/-- Weaving the text and the replacements of a message (`Message.pieces`) gives the pieces it is
made of, so there is one way to thread it. -/
theorem pieces_eq (h : Threaded m ps) : m.pieces = ps := by
  rw [Message.pieces, h.text, h.replacements, weave_of_placed h.placed]

/-- The last text segment is the last piece, if that is text, and can be taken off. -/
theorem text_concat {t : String} (h : Threaded m (ps ++ [.inl t])) : m.text = texts ps ++ [t] := by
  rw [h.text, texts_append]
  rfl

/-- A message ends in a replacement (`endsInReplacement`) if its last piece is one, and else it does
not. -/
theorem endsInReplacement_inr {r : Replacement} (h : Threaded m (ps ++ [.inr r])) :
    m.endsInReplacement = true := by
  have hplaced := (placed_append.mp h.placed).2.1
  rw [Message.endsInReplacement, h.replacements, h.text]
  simp [hplaced]

/-- A message does not end in a replacement if its last piece is text. -/
theorem endsInReplacement_inl {t : String} (h : Threaded m (ps ++ [.inl t])) :
    m.endsInReplacement = false := by
  rw [Message.endsInReplacement, h.replacements, h.text]
  cases hlast : (marks (ps ++ [.inl t])).getLast? with
  | none => rfl
  | some r =>
    have hmem := List.mem_of_getLast? hlast
    rw [marks_append, marks_inl, marks_nil, List.append_nil] at hmem
    have hle := ((placed_append.mp h.placed).1.le r hmem).2
    have hlt : ¬ (texts (ps ++ [.inl t])).length ≤ r.textPos := by
      simp only [texts_append, texts_inl, texts_nil, List.length_append, List.length_singleton]
      omega
    simp only [hlt, decide_false]

/-- A message with one segment more has one piece more, if text does not come behind text (`Apart`).
-/
theorem concat_text (h : Threaded m ps) (hlast : ∀ x ∈ ps.getLast?, x.isRight = true) {t : String}
    {m' : Message} (htext : m'.text = m.text ++ [t])
    (hreplacements : m'.replacements = m.replacements) : Threaded m' (ps ++ [.inl t]) := by
  refine ⟨?_, ?_, ?_, ?_⟩
  · rw [htext, h.text, texts_append]
    rfl
  · rw [hreplacements, h.replacements, marks_append]
    simp
  · exact placed_append.mpr ⟨h.placed, trivial⟩
  · exact List.isChain_append.mpr ⟨h.apart, .singleton _, fun x hx y _ => .inl (hlast x hx)⟩

theorem of_concat_text {t : String} (h : Threaded m (ps ++ [.inl t])) {m' : Message}
    (htext : m'.text = m.text.dropLast) (hreplacements : m'.replacements = m.replacements) :
    Threaded m' ps := by
  refine ⟨?_, ?_, (placed_append.mp h.placed).1, (List.isChain_append.mp h.apart).1⟩
  · rw [htext, h.text_concat, List.dropLast_concat]
  · rw [hreplacements, h.replacements, marks_append]
    simp

/-- In front of a segment there is no other, so the last of the other pieces is a replacement. -/
theorem right_of_concat_text {t : String} (h : Threaded m (ps ++ [.inl t])) :
    ∀ x ∈ ps.getLast?, x.isRight = true := by
  intro x hx
  rcases (List.isChain_append.mp h.apart).2.2 x hx (.inl t) rfl with hright | hleft
  · exact hright
  · cases hleft

theorem replace_text {last t : String} (h : Threaded m (ps ++ [.inl last])) {m' : Message}
    (htext : m'.text = m.text.dropLast ++ [t]) (hreplacements : m'.replacements = m.replacements) :
    Threaded m' (ps ++ [.inl t]) := by
  have hfront : Threaded { m with text := m.text.dropLast } ps := h.of_concat_text rfl rfl
  exact hfront.concat_text h.right_of_concat_text htext hreplacements

/-- Text is a new segment where the message does not end in text, as `Message.pushText` does it. -/
theorem text_pushText (h : Threaded m ps) (hlast : ∀ x ∈ ps.getLast?, x.isRight = true)
    (t : String) : (m.pushText t).text = m.text ++ [t] := by
  rcases List.eq_nil_or_concat' ps with rfl | ⟨ps', x, rfl⟩
  · have htext : m.text = [] := h.text
    rw [Message.pushText, htext]
    rfl
  · obtain ⟨r, rfl⟩ := Sum.isRight_iff.mp (hlast x (by simp))
    rw [Message.pushText, h.endsInReplacement_inr]
    cases htext : m.text.getLast? with
    | none =>
      rw [List.getLast?_eq_none_iff.mp htext]
      rfl
    | some last => rfl

/-- Text behind a replacement, or at the start, is a new piece of what is `Threaded`. -/
theorem pushText_new (h : Threaded m ps) (hlast : ∀ x ∈ ps.getLast?, x.isRight = true)
    (t : String) : Threaded (m.pushText t) (ps ++ [.inl t]) :=
  h.concat_text hlast (h.text_pushText hlast t) (m.replacements_pushText t)

/-- Where the message ends in text, `Message.pushText` appends to it, which is the second case of
its definition. -/
theorem pushText_append {last : String} (h : Threaded m (ps ++ [.inl last])) (t : String) :
    Threaded (m.pushText t) (ps ++ [.inl (last ++ t)]) := by
  refine h.replace_text ?_ (m.replacements_pushText t)
  rw [Message.pushText, h.text_concat, List.getLast?_concat]
  dsimp only
  rw [h.endsInReplacement_inl]
  simp

/-- A replacement behind all the text is a new piece, as `Reader.attach` puts it there. -/
theorem attach (h : Threaded m ps) {r : Replacement} (hr : r.textPos = m.text.length) :
    Threaded (Reader.attach m (some r)) (ps ++ [.inr r]) := by
  refine ⟨?_, ?_, ?_, ?_⟩
  · rw [texts_append]
    simpa [Reader.attach] using h.text
  · rw [marks_append, ← h.replacements]
    rfl
  · refine placed_append.mpr ⟨h.placed, ?_, trivial⟩
    rw [hr, h.text, Nat.zero_add]
  · exact List.isChain_append.mpr ⟨h.apart, .singleton _, fun x _ y hy => by
      obtain rfl := Option.some.inj hy
      exact .inr rfl⟩

theorem trimTrailing_of_last (h : Threaded m ps) (hlast : ∀ x ∈ ps.getLast?, x.isRight = true) :
    m.trimTrailing = m := by
  rcases List.eq_nil_or_concat' ps with rfl | ⟨ps', x, rfl⟩
  · obtain ⟨sectionName, key, text, replacements⟩ := m
    have htext : text = [] := h.text
    have hreplacements : replacements = [] := h.replacements
    rw [htext, hreplacements]
    rfl
  · obtain ⟨r, rfl⟩ := Sum.isRight_iff.mp (hlast x (by simp))
    rw [Message.trimTrailing, h.endsInReplacement_inr, if_pos rfl]

/-- A last segment of blanks goes when the message is trimmed. Trimming does not reach over a
replacement. -/
theorem trimTrailing_blank {t : String} (h : Threaded m (ps ++ [.inl t]))
    (hempty : Text.trimEnd t = "") : m.trimTrailing.text = m.text.dropLast := by
  rw [Message.trimTrailing, h.endsInReplacement_inl, h.text_concat]
  simp [hempty]

/-- What is left of the last segment stays, as `Text.trimEnd` leaves it. -/
theorem trimTrailing_text {t : String} (h : Threaded m (ps ++ [.inl t]))
    (hne : Text.trimEnd t ≠ "") : m.trimTrailing.text = m.text.dropLast ++ [Text.trimEnd t] := by
  rw [Message.trimTrailing, h.endsInReplacement_inl, h.text_concat]
  simp [hne]

end Threaded

/-- The message is made of the pieces (`Threaded`), and its text is good. So are messages of a file
without errors. -/
structure Woven (m : Message) (ps : List Piece) : Prop where
  text : m.text = texts ps
  replacements : m.replacements = marks ps
  placed : Placed 0 ps
  apart : ps.IsChain Apart
  good : ∀ t ∈ texts ps, GoodText t

namespace Woven

variable {m : Message} {ps : List Piece}

/-- Whether its text is good does not matter for how a message is put together: what is `Woven` is
`Threaded`. -/
theorem threaded (h : Woven m ps) : Threaded m ps := ⟨h.text, h.replacements, h.placed, h.apart⟩

theorem of_threaded (h : Threaded m ps) (hgood : ∀ t ∈ texts ps, GoodText t) : Woven m ps :=
  ⟨h.text, h.replacements, h.placed, h.apart, hgood⟩

theorem empty (sectionName key : String) : Woven (.empty sectionName key) [] :=
  .of_threaded (.empty sectionName key) (by simp)

theorem pieces_eq (h : Woven m ps) : m.pieces = ps := h.threaded.pieces_eq

theorem good_concat {t : String} (h : Woven m (ps ++ [.inl t])) : GoodText t :=
  h.good t (by rw [texts_append]; simp)

theorem good_of_concat {x : Piece} (h : Woven m (ps ++ [x])) : ∀ t ∈ texts ps, GoodText t :=
  fun t ht => h.good t (by rw [texts_append]; exact List.mem_append_left _ ht)

theorem forall_good_concat (h : ∀ t ∈ texts ps, GoodText t) {t : String} (ht : GoodText t) :
    ∀ t' ∈ texts (ps ++ [.inl t]), GoodText t' := by
  rw [texts_append]
  exact List.forall_mem_append.mpr ⟨h, List.forall_mem_singleton.mpr ht⟩

/-- Good text behind a replacement is a new piece of what is `Woven`. -/
theorem pushText_new (h : Woven m ps) (hlast : ∀ x ∈ ps.getLast?, x.isRight = true) {t : String}
    (ht : GoodText t) : Woven (m.pushText t) (ps ++ [.inl t]) :=
  .of_threaded (h.threaded.pushText_new hlast t) (forall_good_concat h.good ht)

/-- Text behind text has to be good together with it, as a dollar sign and a brace must not meet. -/
theorem pushText_append {last t : String} (h : Woven m (ps ++ [.inl last]))
    (ht : GoodText (last ++ t)) : Woven (m.pushText t) (ps ++ [.inl (last ++ t)]) :=
  .of_threaded (h.threaded.pushText_append t) (forall_good_concat h.good_of_concat ht)

/-- A replacement behind all the text is a new piece. -/
theorem attach (h : Woven m ps) {r : Replacement} (hr : r.textPos = m.text.length) :
    Woven (Reader.attach m (some r)) (ps ++ [.inr r]) := by
  refine .of_threaded (h.threaded.attach hr) fun t ht => ?_
  rw [texts_append] at ht
  exact h.good t (by simpa using ht)

end Woven

/-! ### Trimming

A finished message does not end in a blank, and trimming makes it so. -/

/-- The last piece is not text that ends in a blank, so there is nothing to trim. -/
def Finished (ps : List Piece) : Prop := ∀ t, ps.getLast? = some (.inl t) → Trimmed t

/-- Trimmed text is left as it is by `Text.trimEnd`. -/
theorem Trimmed.trimEnd_eq {t : String} (h : Trimmed t) : Text.trimEnd t = t := by
  rw [Text.trimEnd, Text.dropBlankEnd]
  have hdrop : t.toList.reverse.dropWhile Text.isBlank = t.toList.reverse := by
    cases hrev : t.toList.reverse with
    | nil => rfl
    | cons c cs =>
      have hlast : c ∈ t.toList.getLast? := by
        rw [← List.head?_reverse, hrev]
        rfl
      rw [List.dropWhile_cons_of_neg (by simp [h c hlast])]
  rw [hdrop, List.reverse_reverse, String.ofList_toList]

/-- What trimming leaves is trimmed. -/
theorem trimmed_trimEnd (t : String) : Trimmed (Text.trimEnd t) := by
  intro c hc
  rw [Text.trimEnd, String.toList_ofList] at hc
  exact Text.not_isBlank_getLast_dropBlankEnd _ c hc

/-- Trimming keeps a start of the text, and takes the rest off. -/
theorem exists_trimEnd (t : String) : ∃ run, t.toList = (Text.trimEnd t).toList ++ run := by
  obtain ⟨run, hrun, -⟩ := Text.dropBlankEnd_append_blank t.toList
  refine ⟨run, ?_⟩
  rw [Text.trimEnd, String.toList_ofList]
  exact hrun

/-- Good text that is trimmed (`Text.trimEnd`) is good, if anything is left of it. -/
theorem GoodText.trimEnd {t : String} (h : GoodText t) (hne : Text.trimEnd t ≠ "") :
    GoodText (Text.trimEnd t) := by
  obtain ⟨run, hrun⟩ := exists_trimEnd t
  refine ⟨hne, ?_⟩
  have htext := h.2
  rw [hrun] at htext
  exact (Word.isText_append.mp htext).1

namespace Woven

variable {m : Message} {ps : List Piece}

/-- A finished message is left as it is by `Message.trimTrailing`. -/
theorem trimTrailing_of_finished (h : Woven m ps) (hps : Finished ps) : m.trimTrailing = m := by
  rcases last_cases ps with hlast | ⟨front, t, rfl⟩
  · exact h.threaded.trimTrailing_of_last hlast
  · obtain ⟨sectionName, key, text, replacements⟩ := m
    have htext := h.threaded.text_concat
    dsimp only at htext
    have hempty : t.isEmpty = false := by simpa using h.good_concat.1
    rw [Message.trimTrailing, h.threaded.endsInReplacement_inl, htext]
    simp [(hps t (by simp)).trimEnd_eq, hempty]

/-- A message is trimmed by trimming its last piece, which goes if nothing is left of it. The first
piece starts as it did. -/
theorem trimTrailing (h : Woven m ps) :
    ∃ ps', Woven m.trimTrailing ps' ∧ Finished ps' ∧ (∀ r, .inr r ∈ ps' → .inr r ∈ ps) ∧
      ∀ t, ps'.head? = some (.inl t) → ∃ t' run,
        ps.head? = some (.inl t') ∧ t'.toList = t.toList ++ run := by
  rcases last_cases ps with hlast | ⟨front, t, rfl⟩
  · have hfinished : Finished ps := fun t ht => nomatch hlast (.inl t) ht
    rw [h.trimTrailing_of_finished hfinished]
    exact ⟨ps, h, hfinished, fun _ hr => hr, fun t ht => ⟨t, [], ht, by simp⟩⟩
  -- the segment goes if nothing is left of it
  · by_cases hempty : Text.trimEnd t = ""
    · have hfront := h.threaded.of_concat_text (h.threaded.trimTrailing_blank hempty)
        m.replacements_trimTrailing
      refine ⟨front, .of_threaded hfront h.good_of_concat, ?_,
        fun r hr => List.mem_append_left _ hr, fun t' ht' => ?_⟩
      · intro t' ht'
        cases h.threaded.right_of_concat_text _ ht'
      · refine ⟨t', [], ?_, by simp⟩
        rw [List.head?_append, ht']
        rfl
    · have htrim := h.threaded.replace_text (h.threaded.trimTrailing_text hempty)
        m.replacements_trimTrailing
      refine ⟨front ++ [.inl (Text.trimEnd t)], .of_threaded htrim ?_, ?_, ?_, ?_⟩
      · exact forall_good_concat h.good_of_concat (h.good_concat.trimEnd hempty)
      · intro t' ht'
        rw [List.getLast?_concat] at ht'
        obtain rfl := Sum.inl.inj (Option.some.inj ht')
        exact trimmed_trimEnd t
      · intro r hr
        simpa using hr
      · intro t' ht'
        cases front with
        | nil =>
          obtain rfl := Sum.inl.inj (Option.some.inj ht')
          obtain ⟨run, hrun⟩ := exists_trimEnd t
          exact ⟨t, run, rfl, hrun⟩
        | cons x front => exact ⟨t', [], ht', by simp⟩

end Woven

end MessageCatalog
