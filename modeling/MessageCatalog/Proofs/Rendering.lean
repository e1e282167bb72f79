import MessageCatalog.Message.Render
import MessageCatalog.Proofs.Woven

/-!
# MessageCatalog.Proofs.Rendering

Building and rendering are faithful: `render_faithful`.

What is built is told by a record of what has been pushed (`Script`): the replacements, each with
the text in front of it, and the text behind the last one. Pushing and trimming act on the end of
that record (`Script.edit`) as they act on the pieces of the message
(`MessageCatalog.Proofs.Woven`). The invariant is that the pieces are those the record would push
(`Scripted`), and it is kept by every step of building (`Scripted.edits`); so rendering fills in the
record.

What is rendered is told for every message, also one that was not built so and whose replacements
ask for any number of segments. Its reading order is the one that a walk with a counter finds, and
no index of that walk is out of range (`walk_eq_pieces`). A replacement stands behind as many
segments as it or one in front of it asks for, if there are so many (`leading_weave`); that is the
only way in which places that make no sense still count.

Rendering asks for the text of each replacement, with effects or without. The lemmas are stated for
any lawful monad, and rendering without effects is the case of the identity (`render_eq_renderM`).
-/

namespace MessageCatalog

open Piece

/-! ### Pieces in reading order

Where a segment stands among replacements can be said by parting the list (`SegmentBefore`) or by
counting (`leading`); `segmentBefore_iff` says that this is the same. -/

namespace Piece

/-- The pieces with an answer in the place of each replacement. Where there are too few answers the
rest is left out; `renderM` has as many as there are `marks`. -/
def fill : List Piece → List String → List String
  | [], _ => []
  | .inl t :: ps, answers => t :: fill ps answers
  | .inr _ :: ps, [] => fill ps []
  | .inr _ :: ps, answer :: answers => answer :: fill ps answers

/-- Segment `i` stands before replacement `j`, both counted from zero among their own kind. -/
def SegmentBefore (ps : List Piece) (i j : Nat) : Prop :=
  ∃ front t mid r back, ps = front ++ .inl t :: (mid ++ .inr r :: back) ∧
    (texts front).length = i ∧ (marks (front ++ mid)).length = j

/-- The number of segments in front of replacement `j`. -/
def leading : List Piece → Nat → Nat
  | [], _ => 0
  | .inl _ :: ps, j => leading ps j + 1
  | .inr _ :: _, 0 => 0
  | .inr _ :: ps, j + 1 => leading ps j

/-- The segments in front of a replacement are those that come before it: `leading` counts them. -/
theorem leading_append_inr (front : List Piece) (r : Replacement) (back : List Piece) :
    leading (front ++ .inr r :: back) (marks front).length = (texts front).length := by
  induction front with
  | nil => rfl
  | cons x front ih =>
    cases x with
    | inl t => exact congrArg (· + 1) ih
    | inr r' => exact ih

theorem exists_of_lt_length_filterMap {α β : Type} {f : α → Option β} {xs : List α} {n : Nat}
    (h : n < (xs.filterMap f).length) :
    ∃ front x y back, xs = front ++ x :: back ∧ f x = some y ∧ (front.filterMap f).length = n := by
  have hsplit := List.take_append_drop n (xs.filterMap f)
  rw [List.drop_eq_getElem_cons h] at hsplit
  obtain ⟨before, rest, rfl, hbefore, hrest⟩ := List.filterMap_eq_append_iff.mp hsplit.symm
  obtain ⟨between, x, back, rfl, hbetween, hx, -⟩ := List.filterMap_eq_cons_iff.mp hrest
  refine ⟨before ++ between, x, _, back, (List.append_assoc _ _ _).symm, hx, ?_⟩
  rw [List.filterMap_append, hbefore, List.filterMap_eq_nil_iff.mpr hbetween, List.append_nil,
    List.length_take, Nat.min_eq_left (Nat.le_of_lt h)]

/-- A list of pieces is parted at any of its replacements, and at any of its segments
(`exists_segment`). -/
theorem exists_mark {ps : List Piece} {j : Nat} (h : j < (marks ps).length) :
    ∃ front r back, ps = front ++ .inr r :: back ∧ (marks front).length = j := by
  obtain ⟨front, x, r, back, hps, hx, hfront⟩ := exists_of_lt_length_filterMap h
  obtain rfl := Sum.getRight?_eq_some_iff.mp hx
  exact ⟨front, r, back, hps, hfront⟩

theorem exists_segment {ps : List Piece} {i : Nat} (h : i < (texts ps).length) :
    ∃ front t back, ps = front ++ .inl t :: back ∧ (texts front).length = i := by
  obtain ⟨front, x, t, back, hps, hx, hfront⟩ := exists_of_lt_length_filterMap h
  obtain rfl := Sum.getLeft?_eq_some_iff.mp hx
  exact ⟨front, t, back, hps, hfront⟩

/-- The segments before a replacement are the ones that lead up to it, so `SegmentBefore` is a
matter of counting. -/
theorem segmentBefore_iff {ps : List Piece} {i j : Nat} (hj : j < (marks ps).length) :
    SegmentBefore ps i j ↔ i < leading ps j := by
  constructor
  · rintro ⟨front, t, mid, r, back, rfl, rfl, rfl⟩
    have hsplit : front ++ Sum.inl t :: (mid ++ .inr r :: back) =
        (front ++ .inl t :: mid) ++ .inr r :: back := by simp
    have hmarks : marks (front ++ mid) = marks (front ++ .inl t :: mid) := by simp
    rw [hsplit, hmarks, leading_append_inr]
    simp
  · intro hi
    obtain ⟨before, r, back, rfl, rfl⟩ := exists_mark hj
    rw [leading_append_inr] at hi
    obtain ⟨front, t, mid, rfl, hfront⟩ := exists_segment hi
    exact ⟨front, t, mid, r, back, by simp, hfront, by simp⟩

theorem leading_segments (segments : List String) (ps : List Piece) (j : Nat) :
    leading (segments.map .inl ++ ps) j = segments.length + leading ps j := by
  induction segments with
  | nil => exact (Nat.zero_add _).symm
  | cons t segments ih =>
    rw [List.map_cons, List.cons_append, leading, ih, List.length_cons]
    omega

end Piece

/-! ### Every message

A message is read by weaving its two lists. The walk with a counter is what weaving does, told by
indices. -/

/-- The greatest number of segments that one of the first replacements asks for, by its `textPos`.
-/
def furthest (rs : List Replacement) : Nat := (rs.map (·.textPos)).foldr max 0

/-- A replacement stands behind as many segments as it or one in front of it asks for (`furthest`),
if there are as many. By recursion on `Message.weave`. -/
theorem leading_weave : ∀ {rs : List Replacement} {j : Nat}, j < rs.length →
    ∀ (passed : Nat) (segments : List String),
      leading (Message.weave passed segments (rs.map fun r => (r.textPos, r))) j =
        min segments.length (furthest (rs.take (j + 1)) - passed)
  | r :: rs, 0, _, passed, segments => by
    rw [List.map_cons, Message.weave, leading_segments]
    simp only [leading, List.length_take, furthest, List.take_succ_cons, List.take_zero,
      List.map_cons, List.map_nil, List.foldr_cons, List.foldr_nil]
    omega
  | r :: rs, j + 1, h, passed, segments => by
    have ih := leading_weave (Nat.lt_of_succ_lt_succ h) (max passed r.textPos)
      (segments.drop (r.textPos - passed))
    rw [List.map_cons, Message.weave, leading_segments]
    simp only [leading, ih, List.length_take, List.length_drop, furthest, List.take_succ_cons,
      List.map_cons, List.foldr_cons]
    omega

namespace Message

/-- The segments from number `pos` on, taken one by one by their numbers until `limit` or the end of
the text is reached, and the number that is next. None if there is no segment with such a number. -/
def segmentsTo (text : List String) (limit pos : Nat) : Option (List String × Nat) :=
  if pos < limit ∧ pos < text.length then do
    let segment ← text[pos]?
    let (more, next) ← segmentsTo text limit (pos + 1)
    return (segment :: more, next)
  else some ([], pos)
termination_by limit - pos

/-- The pieces of a message from the segment with number `pos` on, as far as the numbers are in
range. -/
def walkFrom (text : List String) (pos : Nat) : List Replacement → Option (List Piece)
  | [] => if pos ≤ text.length then some ((text.drop pos).map .inl) else none
  | r :: rs => do
    let (segments, next) ← segmentsTo text r.textPos pos
    let rest ← walkFrom text next rs
    return segments.map .inl ++ .inr r :: rest

/-- The pieces of a message as a counter finds them: before each replacement the segments up to the
number it asks for, and at the end those that are left. None if an index is out of range; by
`walk_eq_pieces` none ever is. -/
def walk (m : Message) : Option (List Piece) := walkFrom m.text 0 m.replacements

/-- A number of segments is taken off without going out of range, and `segmentsTo` ends at the limit
or at the end of the text. -/
theorem segmentsTo_eq (text : List String) (limit pos : Nat) :
    segmentsTo text limit pos =
      some ((text.drop pos).take (limit - pos), max pos (min limit text.length)) := by
  fun_induction segmentsTo text limit pos with
  | case1 pos h ih =>
    rw [ih, List.getElem?_eq_getElem h.2, List.drop_eq_getElem_cons h.2]
    have hlimit : limit - pos = limit - (pos + 1) + 1 := by omega
    have hnext : max (pos + 1) (min limit text.length) = max pos (min limit text.length) := by omega
    rw [hlimit, List.take_succ_cons, hnext]
    rfl
  | case2 pos h =>
    have hnone : (text.drop pos).take (limit - pos) = [] := by
      rw [List.take_eq_nil_iff, List.drop_eq_nil_iff]
      omega
    rw [hnone]
    congr 2
    omega

/-- From any number on, the walk finds what is woven there (`weave`). By induction on the
replacements. -/
theorem walkFrom_eq (text : List String) : ∀ (rs : List Replacement) (passed : Nat),
    walkFrom text (min passed text.length) rs =
      some (weave passed (text.drop passed) (rs.map fun r => (r.textPos, r)))
  | [], passed => by
    have hdrop : text.drop (min passed text.length) = text.drop passed := by
      rcases Nat.le_total passed text.length with h | h
      · rw [Nat.min_eq_left h]
      · rw [Nat.min_eq_right h, List.drop_length, List.drop_of_length_le h]
    rw [walkFrom, if_pos (Nat.min_le_right _ _), hdrop]
    rfl
  | r :: rs, passed => by
    have hnext : max (min passed text.length) (min r.textPos text.length) =
        min (max passed r.textPos) text.length := by omega
    have hsegments :
        (text.drop (min passed text.length)).take (r.textPos - min passed text.length) =
          (text.drop passed).take (r.textPos - passed) := by
      rcases Nat.le_total passed text.length with h | h
      · rw [Nat.min_eq_left h]
      · rw [Nat.min_eq_right h, List.drop_length, List.drop_of_length_le h, List.take_nil,
          List.take_nil]
    have hdrop : (text.drop passed).drop (r.textPos - passed) =
        text.drop (max passed r.textPos) := by
      rw [List.drop_drop]
      congr 1
      omega
    rw [walkFrom, segmentsTo_eq, hnext, hsegments, Option.bind_eq_bind, Option.bind_some]
    dsimp only
    rw [walkFrom_eq text rs, List.map_cons, weave, hdrop]
    rfl

/-- Reading by numbers never fails, and `walk` finds the `Message.pieces` in their order. -/
theorem walk_eq_pieces (m : Message) : m.walk = some m.pieces := by
  have h := walkFrom_eq m.text m.replacements 0
  rwa [Nat.zero_min] at h

theorem texts_pieces (m : Message) : texts m.pieces = m.text := filterMap_getLeft?_weave _ 0 m.text

/-- All replacements are read (`marks`), in order, and so are all segments of text. -/
theorem marks_pieces (m : Message) : marks m.pieces = m.replacements := by
  rw [marks, pieces, filterMap_getRight?_weave, List.map_map]
  exact List.map_id _

/-- A segment stands before a replacement (`SegmentBefore`) if it or a replacement in front of it
asks for more segments than stand before that one. -/
theorem segmentBefore_pieces (m : Message) {i j : Nat} (hi : i < m.text.length)
    (hj : j < m.replacements.length) :
    SegmentBefore m.pieces i j ↔ i < furthest (m.replacements.take (j + 1)) := by
  rw [segmentBefore_iff (by rwa [marks_pieces]), pieces, leading_weave hj]
  omega

section Monad

variable {μ : Type → Type} [Monad μ] [LawfulMonad μ]

/-- The replacements are resolved in their order, once each, and the answers stand in their places,
where `fill` puts them. -/
theorem mapM_pieces {answer : Piece → μ String} {resolve : Replacement → μ String}
    (htext : ∀ t, answer (.inl t) = pure t) (hmark : ∀ r, answer (.inr r) = resolve r)
    (ps : List Piece) : ps.mapM answer = fill ps <$> (marks ps).mapM resolve := by
  induction ps with
  | nil => simp [fill]
  | cons x ps ih =>
    cases x with
    | inl t => simp [htext, ih, fill]
    | inr r => simp [hmark, ih, fill]

/-- What is done with the answers only matters for as many as there are questions. -/
theorem map_mapM_congr {α β γ : Type} {g : α → μ β} {xs : List α} {f f' : List β → γ}
    (h : ∀ ys, ys.length = xs.length → f ys = f' ys) : f <$> xs.mapM g = f' <$> xs.mapM g := by
  induction xs generalizing f f' with
  | nil => simp [h [] rfl]
  | cons x xs ih =>
    simp only [List.mapM_cons, map_bind, map_pure]
    refine bind_congr fun y => ?_
    have hys : ∀ ys, ys.length = xs.length → f (y :: ys) = f' (y :: ys) :=
      fun ys hlength => h (y :: ys) (congrArg (· + 1) hlength)
    simpa only [bind_pure_comp] using ih hys

/-- Rendering asks for the answers first and fills them in. In `Message.renderM` text and answers
take turns. -/
theorem renderM_eq (resolve : Replacement → μ String) (m : Message) :
    m.renderM resolve =
      (fun answers => String.join (fill m.pieces answers)) <$> m.replacements.mapM resolve := by
  rw [renderM, mapM_pieces (fun _ => rfl) (fun _ => rfl), marks_pieces]
  simp

end Monad

/-- Rendering with a text for each replacement is `renderM` without effects. -/
theorem render_eq_renderM (resolve : Replacement → String) (m : Message) :
    m.render resolve = Id.run (m.renderM fun r => pure (resolve r)) := by
  rw [render, renderM]
  induction m.pieces with
  | nil => rfl
  | cons x ps ih => cases x <;> simp_all

end Message

/-! ### Messages that are built

A message is built by edits from an empty one. -/

/-- One step of building a message: text or a replacement is pushed, or the end is trimmed. A
message takes it by `Message.edit`, and the record of what has been asked for by `Script.edit`. -/
inductive Edit
  | text (t : String)
  | replacement (key : String) (kind : ReplacementKind) (details : Details)
  | trim

/-- Takes a step of building, by the function of the message that does it. -/
def Message.edit (m : Message) : Edit → Message
  | .text t => m.pushText t
  | .replacement key kind details => m.pushReplacement key kind details
  | .trim => m.trimTrailing

/-- What has been pushed: the replacements, each behind the text in front of it, and the text behind
the last one. Unlike in a `Message`, nothing has to be counted. -/
structure Script where
  closed : List (String × String × ReplacementKind × Details) := []
  tail : String := ""

namespace Script

/-- Takes a step of building. Trimming concerns the text behind the last replacement. -/
def edit (s : Script) : Edit → Script
  | .text t => { s with tail := s.tail ++ t }
  | .replacement key kind details =>
    { closed := s.closed ++ [(s.tail, key, kind, details)], tail := "" }
  | .trim => { s with tail := Text.trimEnd s.tail }

/-- The text with an answer for each replacement, in the order in which they have been pushed. This
is what `Message.render` should give. -/
def fill (s : Script) (answers : List String) : String :=
  String.join (List.zipWith (fun part answer => part.1 ++ answer) s.closed answers) ++ s.tail

/-- The script that pushes the pieces, one after the other. It is the record of a message that is
`Threaded` of them. -/
def ofPieces (ps : List Piece) : Script :=
  ps.foldl (fun s p => s.edit (p.elim .text fun r => .replacement r.key r.kind r.details)) {}

/-- One more segment is pushed behind the others by `ofPieces`, and so is one more replacement. -/
theorem ofPieces_inl (ps : List Piece) (t : String) :
    ofPieces (ps ++ [.inl t]) = (ofPieces ps).edit (.text t) := by
  rw [ofPieces, List.foldl_append]
  rfl

theorem ofPieces_inr (ps : List Piece) (r : Replacement) :
    ofPieces (ps ++ [.inr r]) = (ofPieces ps).edit (.replacement r.key r.kind r.details) := by
  rw [ofPieces, List.foldl_append]
  rfl

/-- Nothing stands behind the last replacement, if that is the last piece or there is none. -/
theorem tail_ofPieces {ps : List Piece} (h : ∀ x ∈ ps.getLast?, x.isRight = true) :
    (ofPieces ps).tail = "" := by
  rcases List.eq_nil_or_concat' ps with rfl | ⟨front, x, rfl⟩
  · rfl
  · obtain ⟨r, rfl⟩ := Sum.isRight_iff.mp (h x (by simp))
    rw [ofPieces_inr]
    rfl

/-- The replacements that are pushed by `ofPieces` are those among the pieces. -/
theorem closed_ofPieces (ps : List Piece) :
    (ofPieces ps).closed.map Prod.snd = (marks ps).map fun r => (r.key, r.kind, r.details) := by
  induction ps using List.reverseRecOn with
  | nil => rfl
  | append_singleton ps x ih =>
    cases x with
    | inl t => rw [ofPieces_inl, marks_append, marks_inl, marks_nil, List.append_nil, ← ih]; rfl
    | inr r => rw [ofPieces_inr, marks_append, List.map_append, ← ih, edit, List.map_append]; rfl

theorem text_empty (s : Script) : s.edit (.text "") = s := by
  rw [edit, String.append_empty]

/-- Where there is no text behind the last replacement, text is trimmed by itself, as `Text.trimEnd`
trims it. -/
theorem trim_text {s : Script} (h : s.tail = "") (t : String) :
    (s.edit (.text t)).edit .trim = s.edit (.text (Text.trimEnd t)) := by
  simp [edit, h]

theorem trim_of_tail {s : Script} (h : s.tail = "") : s.edit .trim = s := by
  have htrim : Text.trimEnd "" = "" := rfl
  rw [edit, h, htrim, ← h]

/-- One more replacement is filled in behind the others, with its answer behind theirs. -/
theorem fill_replacement {s : Script} {answers : List String}
    (h : answers.length = s.closed.length) (key : String) (kind : ReplacementKind)
    (details : Details) (answer : String) :
    (s.edit (.replacement key kind details)).fill (answers ++ [answer]) =
      s.fill answers ++ answer := by
  rw [fill, edit, List.zipWith_append h.symm, String.join_append]
  simp [fill, String.append_assoc]

end Script

/-- The answers stand behind each other as the replacements do, so `fill` goes part by part. -/
theorem Piece.fill_append {xs ys : List Piece} {as bs : List String}
    (h : as.length = (marks xs).length) :
    fill (xs ++ ys) (as ++ bs) = fill xs as ++ fill ys bs := by
  induction xs generalizing as with
  | nil =>
    obtain rfl := List.length_eq_zero_iff.mp h
    rfl
  | cons x xs ih =>
    cases x with
    | inl t => exact congrArg (t :: ·) (ih h)
    | inr r =>
      cases as with
      | nil => cases h
      | cons a as => exact congrArg (a :: ·) (ih (Nat.succ.inj h))

/-- Filling in the script that pushes some pieces is filling in the pieces (`Piece.fill`). By
induction on the pieces, from the end. -/
theorem Script.fill_ofPieces {ps : List Piece} {answers : List String}
    (h : answers.length = (marks ps).length) :
    (ofPieces ps).fill answers = String.join (Piece.fill ps answers) := by
  induction ps using List.reverseRecOn generalizing answers with
  | nil =>
    rw [List.length_eq_zero_iff.mp h]
    rfl
  | append_singleton ps x ih =>
    rw [marks_append, List.length_append] at h
    cases x with
    | inl t =>
      have happend : Piece.fill (ps ++ [.inl t]) (answers ++ []) = Piece.fill ps answers ++ [t] :=
        Piece.fill_append h
      rw [List.append_nil] at happend
      rw [happend, String.join_append, ← ih h, ofPieces_inl]
      simp [edit, fill, String.append_assoc]
    | inr r =>
      rcases List.eq_nil_or_concat' answers with rfl | ⟨answers, answer, rfl⟩
      · cases h
      rw [List.length_append] at h
      have hlength : answers.length = (marks ps).length := Nat.succ.inj h
      have hclosed := congrArg List.length (closed_ofPieces ps)
      rw [List.length_map, List.length_map, ← hlength] at hclosed
      rw [ofPieces_inr, fill_replacement hclosed.symm, ih hlength, Piece.fill_append hlength,
        String.join_append]
      simp [Piece.fill]

/-- The message is made of pieces that the script pushes. This is the record that every `Edit`
keeps. -/
structure Scripted (m : Message) (s : Script) (ps : List Piece) : Prop where
  threaded : Threaded m ps
  script : Script.ofPieces ps = s

namespace Scripted

variable {m : Message} {s : Script} {ps : List Piece}

/-- Pushing text keeps the record, and so does pushing a replacement. -/
theorem text (h : Scripted m s ps) (t : String) :
    ∃ ps', Scripted (m.edit (.text t)) (s.edit (.text t)) ps' := by
  obtain ⟨hthreaded, rfl⟩ := h
  -- the text goes on with a last segment, or begins one
  rcases last_cases ps with hlast | ⟨front, last, rfl⟩
  · exact ⟨_, hthreaded.pushText_new hlast t, Script.ofPieces_inl ps t⟩
  · refine ⟨_, hthreaded.pushText_append t, ?_⟩
    simp only [Script.ofPieces_inl, Script.edit, String.append_assoc]

theorem replacement (h : Scripted m s ps) (key : String) (kind : ReplacementKind)
    (details : Details) :
    ∃ ps', Scripted (m.edit (.replacement key kind details))
      (s.edit (.replacement key kind details)) ps' := by
  obtain ⟨hthreaded, rfl⟩ := h
  exact ⟨_, hthreaded.attach (r := ⟨key, m.text.length, kind, details⟩) rfl,
    Script.ofPieces_inr ps _⟩

/-- Trimming keeps the record (`Scripted`), by the two cases of `Piece.last_cases`. -/
theorem trim (h : Scripted m s ps) : ∃ ps', Scripted (m.edit .trim) (s.edit .trim) ps' := by
  obtain ⟨hthreaded, rfl⟩ := h
  rcases last_cases ps with hlast | ⟨front, last, rfl⟩
  -- there is nothing to trim
  · refine ⟨ps, ?_, ?_⟩
    · rw [Message.edit, hthreaded.trimTrailing_of_last hlast]
      exact hthreaded
    · rw [Script.trim_of_tail (Script.tail_ofPieces hlast)]
  -- all the text behind the last replacement is the last segment
  · have htail := Script.tail_ofPieces hthreaded.right_of_concat_text
    by_cases hempty : Text.trimEnd last = ""
    · have htext := hthreaded.trimTrailing_blank hempty
      refine ⟨front, hthreaded.of_concat_text htext m.replacements_trimTrailing, ?_⟩
      rw [Script.ofPieces_inl, Script.trim_text htail, hempty, Script.text_empty]
    · refine ⟨_, hthreaded.replace_text (hthreaded.trimTrailing_text hempty)
        m.replacements_trimTrailing, ?_⟩
      rw [Script.ofPieces_inl, Script.ofPieces_inl, Script.trim_text htail]

/-- Every step of building keeps the record `Scripted`. -/
theorem edit (h : Scripted m s ps) : ∀ e : Edit, ∃ ps', Scripted (m.edit e) (s.edit e) ps'
  | .text t => h.text t
  | .replacement key kind details => h.replacement key kind details
  | .trim => h.trim

/-- Building keeps the record (`Scripted`), however long it goes on. -/
theorem edits (h : Scripted m s ps) (es : List Edit) :
    ∃ ps', Scripted (es.foldl Message.edit m) (es.foldl Script.edit s) ps' := by
  induction es generalizing m s ps with
  | nil => exact ⟨ps, h⟩
  | cons e es ih =>
    obtain ⟨ps', h'⟩ := h.edit e
    exact ih h'

end Scripted

/-- Building and rendering are faithful.

However a message is built from an empty one, its replacements are those that have been pushed, and
rendering asks for an answer to each of them once and in order, and gives what has been pushed, with
the answers in the places of the replacements. Trimming has taken the blanks off the end of the text
behind the last replacement.

Whatever message is rendered, the numbers it reads segments by are in range. Its segments and its
replacements come once each and in order; a segment stands before a replacement exactly if that one
or one in front of it asks for more segments than stand before that segment; and rendering gives
what is so read, with an answer to each replacement, asked for once and in order, be it with or
without effects. -/
theorem render_faithful :
    (∀ (sectionName key : String) (edits : List Edit),
      let m := edits.foldl Message.edit (.empty sectionName key)
      let script := edits.foldl Script.edit {}
      m.replacements.map (fun r => (r.key, r.kind, r.details)) = script.closed.map Prod.snd ∧
        ∀ (μ : Type → Type) [Monad μ] [LawfulMonad μ] (resolve : Replacement → μ String),
          m.renderM resolve = script.fill <$> m.replacements.mapM resolve) ∧
    ∀ m : Message,
      m.walk = some m.pieces ∧ texts m.pieces = m.text ∧ marks m.pieces = m.replacements ∧
        (∀ i j, i < m.text.length → j < m.replacements.length →
          (SegmentBefore m.pieces i j ↔
            i < ((m.replacements.take (j + 1)).map (·.textPos)).foldr max 0)) ∧
        (∀ (μ : Type → Type) [Monad μ] [LawfulMonad μ] (resolve : Replacement → μ String),
          m.renderM resolve =
            (fun answers => String.join (fill m.pieces answers)) <$>
              m.replacements.mapM resolve) ∧
        ∀ resolve : Replacement → String,
          m.render resolve = Id.run (m.renderM fun r => pure (resolve r)) := by
  constructor
  · intro sectionName key edits m script
    obtain ⟨ps, hthreaded, hscript⟩ :=
      Scripted.edits ⟨Threaded.empty sectionName key, rfl⟩ edits
    change Threaded m ps at hthreaded
    change Script.ofPieces ps = script at hscript
    refine ⟨?_, fun μ _ _ resolve => ?_⟩
    · rw [← hscript, Script.closed_ofPieces, hthreaded.replacements]
    · rw [Message.renderM_eq, hthreaded.pieces_eq, ← hscript]
      refine Message.map_mapM_congr fun answers hlength => ?_
      rw [hthreaded.replacements] at hlength
      exact (Script.fill_ofPieces hlength).symm
  · intro m
    exact ⟨m.walk_eq_pieces, m.texts_pieces, m.marks_pieces,
      fun i j hi hj => m.segmentBefore_pieces hi hj, fun μ _ _ resolve => m.renderM_eq resolve,
      fun resolve => m.render_eq_renderM resolve⟩

/-- Text with blanks to trim, and places that decrease and are too great; the keys are answered, and
gathered on the way. -/
theorem render_faithful_keys :
    let edits : List Edit :=
      [.text "a ", .replacement "x" .string .none, .text "b", .text " \t", .trim]
    let hand : Message :=
      { sectionName := "", key := "k", text := ["a", "b"],
        replacements := [⟨"x", 9, .string, .none⟩, ⟨"y", 0, .string, .none⟩] }
    let answer (r : Replacement) : StateM (List String) String := do
      modify (· ++ [r.key])
      return r.key
    LawfulMonad (StateM (List String)) ∧ 1 < hand.text.length ∧ 1 < hand.replacements.length ∧
      ((edits.foldl Message.edit (.empty "" "k")).renderM answer).run [] = ("a xb", ["x"]) ∧
      SegmentBefore hand.pieces 1 1 ∧ (hand.renderM answer).run [] = ("abxy", ["x", "y"]) := by
  intro edits hand answer
  refine ⟨inferInstance, by decide, by decide, ?_, ?_, ?_⟩
  · exact congrArg (·.run []) ((render_faithful.1 "" "k" edits).2 _ answer)
  · exact ((render_faithful.2 hand).2.2.2.1 1 1 (by decide) (by decide)).mpr (by decide)
  · exact congrArg (·.run []) ((render_faithful.2 hand).2.2.2.2.1 _ answer)

end MessageCatalog
