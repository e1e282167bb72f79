import MessageCatalog.Proofs.Grammar
import MessageCatalog.Proofs.Symbols

/-!
# MessageCatalog.Proofs.Spelling

Reading bytes as symbols inverts spelling. In one direction bytes are read as the symbols that they
spell (`ofRunes_runes_of_spells`). In the other, bytes in which nothing is malformed spell the
symbols that are read from them (`spells_of_reads`), and the grammar has no place for a malformed
byte (`malformed_notMem_of_items`).

For the last, every phrase of the grammar is shown to use up symbols among which none is malformed
(`Uses`). Together with the byte order mark, which no item starts with, the grammar of files becomes
one of symbols: `file_iff`.
-/

namespace MessageCatalog.Grammar

open MessageCatalog.Symbol (isSpace isNewline ofRunes)
open Layout (Spaces Blanks)
open Utf8 (runes runes_lf runes_cr head?_of_runes_lf)

/-! ### Reading what is spelled

`Grammar.Spells` and `Reads` have the same constructors, but for malformed bytes. -/

/-- Bytes are read as the symbols that they spell, since `Spells` writes a character as the library
encodes it. -/
theorem ofRunes_runes_of_spells {bytes : List UInt8} {input : List Symbol}
    (h : Spells bytes input) : ofRunes (runes bytes) = input := by
  induction h with
  | nil => rfl
  | lf _ ih => rw [runes_lf, ofRunes, ih]
  | crlf _ ih => rw [runes_cr, runes_lf, ofRunes, ih]
  | cr hlf _ ih =>
    rw [runes_cr, Symbol.ofRunes_cr_cons, ih]
    intro tail htail
    exact hlf (head?_of_runes_lf htail)
  | char hn hr _ ih =>
    rw [Utf8.runes_encodeChar_append, Symbol.ofRunes_char_cons hn hr, ih]

/-- Bytes in which nothing is malformed spell what is read from them. Together with the lemma above,
`Spells` is `Reads` without malformed bytes. -/
theorem spells_of_reads {bytes : List UInt8} {input : List Symbol} (h : Reads bytes input)
    (hno : .malformed ∉ input) : Spells bytes input := by
  induction h with
  | nil => exact .nil
  | lf _ ih => exact .lf (ih (fun hmem => hno (List.mem_cons_of_mem _ hmem)))
  | crlf _ ih => exact .crlf (ih (fun hmem => hno (List.mem_cons_of_mem _ hmem)))
  | cr hlf _ ih => exact .cr hlf (ih (fun hmem => hno (List.mem_cons_of_mem _ hmem)))
  | char hn hr _ ih => exact .char hn hr (ih (fun hmem => hno (List.mem_cons_of_mem _ hmem)))
  | malformed _ _ _ => exact absurd List.mem_cons_self hno

/-! ### No place for a malformed byte

A phrase is an input and a rest, so what it uses is what stands between them. -/

/-- A malformed byte is no space, so there is none among `Spaces`. -/
theorem malformed_notMem_spaces {run : List Symbol} (h : Spaces run) : .malformed ∉ run :=
  fun hmem => absurd (h _ hmem) (by decide)

theorem malformed_notMem_map (cs : List Char) : .malformed ∉ cs.map Symbol.char := by simp

/-- There is no malformed byte on a blank line, so there is none among `Blanks`. -/
theorem malformed_notMem_blanks {lines : List Symbol} (h : Blanks lines) : .malformed ∉ lines := by
  induction h with
  | nil => simp
  | cons style hrun _ ih => simp [malformed_notMem_spaces hrun, ih]

/-- The input is the rest with something in front of it, in which nothing is malformed. So what a
phrase of `Grammar` uses can be spelled. -/
def Uses (input rest : List Symbol) : Prop := ∃ used, input = used ++ rest ∧ .malformed ∉ used

theorem Uses.refl (input : List Symbol) : Uses input input := ⟨[], rfl, by simp⟩

/-- What two phrases use one after the other is used by both together. Each clause of `Derives` is a
chain of these. -/
theorem Uses.trans {input mid rest : List Symbol} (h₁ : Uses input mid) (h₂ : Uses mid rest) :
    Uses input rest := by
  obtain ⟨used₁, rfl, h₁⟩ := h₁
  obtain ⟨used₂, rfl, h₂⟩ := h₂
  exact ⟨used₁ ++ used₂, by simp, by simp [h₁, h₂]⟩

theorem uses_of_notMem {used : List Symbol} (h : .malformed ∉ used) (rest : List Symbol) :
    Uses (used ++ rest) rest := ⟨used, rfl, h⟩

theorem uses_char (c : Char) (rest : List Symbol) : Uses (.char c :: rest) rest :=
  ⟨[.char c], rfl, by simp⟩

theorem uses_chars (cs : List Char) (rest : List Symbol) : Uses (cs.map .char ++ rest) rest :=
  uses_of_notMem (malformed_notMem_map cs) rest

theorem uses_spaces {run : List Symbol} (h : Spaces run) (rest : List Symbol) :
    Uses (run ++ rest) rest :=
  uses_of_notMem (malformed_notMem_spaces h) rest

theorem uses_newline (style : LineBreak) (rest : List Symbol) :
    Uses (.newline style :: rest) rest :=
  ⟨[.newline style], rfl, by simp⟩

theorem Eol.uses {input rest : List Symbol} (h : Eol input rest) : Uses input rest := by
  cases h with
  | newline style => exact uses_newline style rest
  | eof => exact .refl []

theorem Cont.uses {input rest : List Symbol} (h : Cont input rest) : Uses input rest := by
  cases h with
  | mk style hlines hrun _ =>
    exact (uses_newline style _).trans ((uses_of_notMem (malformed_notMem_blanks hlines) _).trans
      ((uses_char '\t' _).trans (uses_spaces hrun _)))

theorem Fold.uses {input rest : List Symbol} (h : Fold input rest) : Uses input rest := by
  cases h with
  | spaces hrun => exact uses_spaces hrun rest
  | cont hrun hcont => exact (uses_spaces hrun _).trans hcont.uses

/-- No phrase inside a message uses a malformed byte. By induction on `Derives`, where each clause
is a chain of `Uses`. -/
theorem Derives.uses {phrase : Phrase} {depth : Nat} {input rest : List Symbol}
    (h : Derives phrase depth input rest) : Uses input rest := by
  induction h with
  | nil => exact .refl _
  | text _ _ _ _ ih => exact (uses_chars _ _).trans ih
  | cont hcont _ ih => exact hcont.uses.trans ih
  | replacement _ _ ih₁ ih₂ => exact ih₁.trans ih₂
  | untyped _ _ _ ih =>
    exact (uses_char '$' _).trans ((uses_char '{' _).trans ((uses_chars _ _).trans ih))
  | typed _ _ _ _ ih =>
    exact (uses_char '$' _).trans ((uses_char '{' _).trans ((uses_chars _ _).trans
      ((uses_char ':' _).trans ((uses_chars _ _).trans ih))))
  | close hfold => exact hfold.uses.trans (uses_char '}' _)
  | more hfold _ _ ih₁ ih₂ => exact hfold.uses.trans (ih₁.trans ih₂)
  | bare _ => exact (uses_char '.' _).trans (uses_chars _ _)
  | braced _ _ ih =>
    exact (uses_char '.' _).trans ((uses_chars _ _).trans ((uses_char '{' _).trans
      (ih.trans (uses_char '}' _))))

/-- No item `Uses` a malformed byte, neither a section header nor a message. -/
theorem Item.uses {input rest : List Symbol} (h : Item input rest) : Uses input rest := by
  cases h with
  | blank style _ hrun => exact (uses_spaces hrun _).trans (uses_newline style rest)
  | header h₁ _ h₂ h₃ heol =>
    exact (uses_char '[' _).trans ((uses_char '[' _).trans ((uses_spaces h₁ _).trans
      ((uses_chars _ _).trans ((uses_spaces h₂ _).trans ((uses_char ']' _).trans
        ((uses_char ']' _).trans ((uses_spaces h₃ _).trans heol.uses)))))))
  | comment _ heol =>
    exact (uses_char '/' _).trans ((uses_char '/' _).trans ((uses_chars _ _).trans heol.uses))
  | key _ hrun heol =>
    exact (uses_chars _ _).trans ((uses_char ':' _).trans ((uses_spaces hrun _).trans heol.uses))
  | message _ hrun hcont hbody heol =>
    exact (uses_chars _ _).trans ((uses_char ':' _).trans ((uses_spaces hrun _).trans
      (hcont.uses.trans (hbody.uses.trans heol.uses))))

/-- A sequence of items holds no malformed byte, since `Items` uses its input up. -/
theorem malformed_notMem_of_items {input : List Symbol} (h : Items input) : .malformed ∉ input := by
  induction h with
  | stop hrun => exact malformed_notMem_spaces hrun
  | item hitem _ ih =>
    obtain ⟨used, rfl, hused⟩ := hitem.uses
    simp [hused, ih]

/-! ### Files

A byte order mark counts only where it opens a file, and then it is no part of the items. -/

/-- No item starts with a byte order mark. So a file that opens with two of them is no `File`. -/
theorem not_items_byteOrderMark (rest : List Symbol) : ¬ Items (.char '\uFEFF' :: rest) := by
  rw [@items_message (fun _ => False) _ rest rfl rfl (by decide) (by decide)]
  intro h
  obtain ⟨key, run, input, _, hkey, -, -, -, heq⟩ := h
  exact append_ne_of_startsIdent _ _ hkey (by decide +kernel) heq.symm

/-- A `File` is a sequence of items behind its byte order mark, if it has one. The mark is passed
over as bytes here, and as a character in the grammar. -/
theorem file_iff (bytes : List UInt8) :
    File bytes ↔ Items (ofRunes (runes (bytes.drop (Utf8.markWidth bytes)))) := by
  have hmark : Utf8.byteOrderMark = String.utf8EncodeChar '\uFEFF' := by decide
  constructor
  · intro h
    cases h with
    | @plain _ input hspells hitems =>
      -- a mark that opens the file is never part of an item
      have hno : Utf8.byteOrderMark.isPrefixOf bytes = false := by
        by_contra hprefix
        rw [Bool.not_eq_false, List.isPrefixOf_iff_prefix] at hprefix
        obtain ⟨rest, rfl⟩ := hprefix
        have hread := ofRunes_runes_of_spells hspells
        rw [hmark, Utf8.runes_encodeChar_append, Symbol.ofRunes_char_cons (by decide) (by decide)]
          at hread
        rw [← hread] at hitems
        exact not_items_byteOrderMark _ hitems
      rw [Utf8.markWidth, hno, if_neg (by simp), List.drop_zero, ofRunes_runes_of_spells hspells]
      exact hitems
    | @marked bytes input hspells hitems =>
      have hprefix : Utf8.byteOrderMark.isPrefixOf (Utf8.byteOrderMark ++ bytes) = true :=
        List.isPrefixOf_iff_prefix.mpr (List.prefix_append _ _)
      rw [Utf8.markWidth, hprefix, if_pos rfl, List.drop_left, ofRunes_runes_of_spells hspells]
      exact hitems
  · intro h
    -- nothing in an item is malformed, so the bytes spell what is read
    have hspells := spells_of_reads (reads_ofRunes_runes _) (malformed_notMem_of_items h)
    unfold Utf8.markWidth at h hspells
    split at h
    · rename_i hprefix
      obtain ⟨rest, rfl⟩ := List.isPrefixOf_iff_prefix.mp hprefix
      rw [if_pos hprefix, List.drop_left] at hspells
      rw [List.drop_left] at h
      exact .marked hspells h
    · rename_i hprefix
      rw [if_neg hprefix, List.drop_zero] at hspells
      exact .plain hspells h

end MessageCatalog.Grammar
