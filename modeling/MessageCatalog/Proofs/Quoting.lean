import MessageCatalog.Text.Quoted
import Mathlib.Data.List.TakeWhile
import Mathlib.Tactic.SplitIfs

/-!
# MessageCatalog.Proofs.Quoting

Where quoted text ends, and what it says, can be told from the text alone: a text in quotes with
something behind it is that of no other text in quotes with something else behind it
(`Text.quote_append_inj`).

How characters are written between the quote marks is said once for all such styles (`Escaping`): as
they are, as a letter behind a backslash, or in a longer form behind `\u`. What makes a style
readable is that the letters are for one character each and that the longer forms show where they
end. From that it is proved for a character (`Escaping.Writes.append_inj`) and, by induction, for a
text up to the quote mark that ends it (`Escaping.flatMap_append_inj`).

The style of `Text.quote` is `Text.escaping`, whose longer forms are hexadecimal numbers in braces.
The style of strings in `MessageCatalog.Proofs.JsonText` is another one, with numbers of four digits
and no braces.
-/

namespace MessageCatalog

/-! ### Runs of elements

Where a run of digits ends can be told if no digit follows it. -/

/-- Two runs of elements for which `p` holds, with elements behind them for which it does not: where
both are the same list, the runs are, and so is what is behind them. -/
theorem run_append_inj {α : Type} {p : α → Bool} {as bs xs ys : List α}
    (ha : ∀ a ∈ as, p a = true) (hb : ∀ a ∈ bs, p a = true)
    (hx : ∀ a ∈ xs.head?, p a = false) (hy : ∀ a ∈ ys.head?, p a = false)
    (h : as ++ xs = bs ++ ys) : as = bs ∧ xs = ys := by
  have hrun {cs zs : List α} (hc : ∀ a ∈ cs, p a = true) (hz : ∀ a ∈ zs.head?, p a = false) :
      (cs ++ zs).takeWhile p = cs := by
    rw [List.takeWhile_append_of_pos hc]
    cases zs with
    | nil => simp
    | cons z zs => simp [hz z rfl]
  obtain rfl : as = bs := by rw [← hrun ha hx, h, hrun hb hy]
  exact ⟨rfl, List.append_cancel_left h⟩

/-! ### Styles of escaping

An `Escaping` carries with it what makes it readable, so that a style is shown to be readable when
it is defined. -/

/-- A style of escaping in double quotes: `letters` that stand behind a backslash, each for a
character, and what may stand behind `\u` for a character (`Long`). It is a condition of the style
that letters are not ambiguous, and that a longer form can be told from what follows it. -/
structure Escaping where
  letters : List (Char × Char)
  Long : Char → List Char → Prop
  letters_inj : ∀ l ∈ letters, ∀ l' ∈ letters, l.1 = l'.1 → l.2 = l'.2
  letters_ne : ∀ l ∈ letters, l.1 ≠ 'u'
  long_inj : ∀ {c d : Char} {s t x y : List Char},
    Long c s → Long d t → s ++ x = t ++ y → c = d ∧ x = y

namespace Escaping

/-- What a character may be written as, under an `Escaping`. A backslash and a quote mark cannot
stand for themselves; for everything else a style may leave a choice. -/
inductive Writes (e : Escaping) (c : Char) : List Char → Prop
  | plain (hbackslash : c ≠ '\\') (hmark : c ≠ '"') : Writes e c [c]
  | letter {l : Char} (hl : (l, c) ∈ e.letters) : Writes e c ['\\', l]
  | long {s : List Char} (hs : e.Long c s) : Writes e c ('\\' :: 'u' :: s)

variable {e : Escaping} {c d : Char} {s t x y : List Char}

/-- No character is written as something that starts with a quote mark, so a quote mark ends the
text. -/
theorem Writes.exists_head (h : e.Writes c s) : ∃ a rest, s = a :: rest ∧ a ≠ '"' := by
  cases h with
  | plain hbackslash hmark => exact ⟨_, _, rfl, hmark⟩
  | letter hl => exact ⟨_, _, rfl, by decide⟩
  | long hs => exact ⟨_, _, rfl, by decide⟩

/-- Which character is written, and where it ends, can be told. What stands first tells which of the
three ways it is: something else than a backslash, a letter, or `u`. -/
theorem Writes.append_inj (hc : e.Writes c s) (hd : e.Writes d t) (h : s ++ x = t ++ y) :
    c = d ∧ x = y := by
  cases hc with
  | plain hbackslash hmark =>
    cases hd with
    | plain => simpa using h
    | letter | long => exact absurd (List.cons.inj h).1 hbackslash
  | @letter l hl =>
    cases hd with
    | plain hbackslash => exact absurd (List.cons.inj h).1.symm hbackslash
    | @letter l' hl' =>
      obtain ⟨rfl, rfl⟩ : l = l' ∧ x = y := by simpa using h
      exact ⟨e.letters_inj _ hl _ hl' rfl, rfl⟩
    | long => exact absurd (List.cons.inj (List.cons.inj h).2).1 (e.letters_ne _ hl)
  | long hs =>
    cases hd with
    | plain hbackslash => exact absurd (List.cons.inj h).1.symm hbackslash
    | @letter l' hl' =>
      exact absurd (List.cons.inj (List.cons.inj h).2).1.symm (e.letters_ne _ hl')
    | long ht => exact e.long_inj hs ht (List.cons.inj (List.cons.inj h).2).2

/-- Which text is written up to a quote mark can be told, if each character is written as `Writes`
allows. By induction on one of the texts; the other cannot be longer or shorter, as no character
starts with the quote mark. -/
theorem flatMap_append_inj {f : Char → List Char} (hf : ∀ c, e.Writes c (f c)) {cs ds : List Char}
    (h : cs.flatMap f ++ '"' :: x = ds.flatMap f ++ '"' :: y) : cs = ds ∧ x = y := by
  have hopen (c : Char) (z z' : List Char) : f c ++ z ≠ '"' :: z' := by
    obtain ⟨a, rest, hs, ha⟩ := (hf c).exists_head
    rw [hs]
    exact fun h => ha (List.cons.inj h).1
  induction cs generalizing ds with
  | nil =>
    cases ds with
    | nil => simpa using h
    | cons d ds =>
      rw [List.flatMap_cons, List.append_assoc] at h
      exact absurd h.symm (hopen d _ _)
  | cons c cs ih =>
    cases ds with
    | nil =>
      rw [List.flatMap_cons, List.append_assoc] at h
      exact absurd h (hopen c _ _)
    | cons d ds =>
      rw [List.flatMap_cons, List.flatMap_cons, List.append_assoc, List.append_assoc] at h
      obtain ⟨rfl, hrest⟩ := (hf c).append_inj (hf d) h
      obtain ⟨rfl, rfl⟩ := ih hrest
      exact ⟨rfl, rfl⟩

end Escaping

/-! ### Hexadecimal digits

Numbers are told by their digits. That is known of digits as numbers, and the sixteen digits are
different characters. -/

theorem digitChar_inj {m n : Nat} (hm : m < 16) (hn : n < 16)
    (h : Nat.digitChar m = Nat.digitChar n) : m = n := by
  have hall : ∀ m < 16, ∀ n < 16, Nat.digitChar m = Nat.digitChar n → m = n := by decide
  exact hall m hm n hn h

/-- Hexadecimal digits are those of numbers below sixteen, so nothing else is found among
`Nat.toDigits 16 n`. -/
theorem exists_digit_of_mem_toDigits {n : Nat} {c : Char} (h : c ∈ Nat.toDigits 16 n) :
    ∃ d < 16, c = Nat.digitChar d := by
  induction n using Nat.strongRecOn with
  | ind n ih =>
    rw [Nat.toDigits_eq_if (by decide)] at h
    split at h
    · rename_i hn
      exact ⟨n, hn, List.mem_singleton.mp h⟩
    · rcases List.mem_append.mp h with h | h
      · exact ih (n / 16) (by omega) h
      · exact ⟨n % 16, Nat.mod_lt _ (by decide), List.mem_singleton.mp h⟩

/-- Different numbers have different hexadecimal digits. The library knows that of `Nat.ofDigits`;
here the digits are characters. -/
theorem toDigits_inj {m n : Nat} (h : Nat.toDigits 16 m = Nat.toDigits 16 n) : m = n := by
  have hone (a : Char) (k : Nat) (b : Char) : [a] ≠ Nat.toDigits 16 k ++ [b] := by
    intro h
    have hlength := congrArg List.length h
    simp [Nat.toDigits_ne_nil] at hlength
  induction m using Nat.strongRecOn generalizing n with
  | ind m ih =>
    rw [Nat.toDigits_eq_if (by decide), Nat.toDigits_eq_if (n := n) (by decide)] at h
    split at h <;> split at h
    · exact digitChar_inj ‹_› ‹_› (List.cons.inj h).1
    · exact absurd h (hone _ _ _)
    · exact absurd h.symm (hone _ _ _)
    · obtain ⟨hfront, hlast⟩ := List.append_inj' h rfl
      have hquot := ih (m / 16) (by omega) hfront
      have hrem : m % 16 = n % 16 :=
        digitChar_inj (Nat.mod_lt _ (by decide)) (Nat.mod_lt _ (by decide)) (List.cons.inj hlast).1
      omega

/-! ### Text in double quotes

The braces of a longer form show where it ends, as no digit is a brace. -/

namespace Text

/-- The style of `Text.quote`. The longer form is the code point in braces. -/
def escaping : Escaping where
  letters := [('0', '\x00'), ('t', '\t'), ('r', '\r'), ('n', '\n'), ('\\', '\\'), ('"', '"')]
  Long c s := s = '{' :: (Nat.toDigits 16 c.toNat ++ ['}'])
  letters_inj := by decide
  letters_ne := by decide
  long_inj := by
    rintro c d _ _ x y rfl rfl h
    have hdigit (n : Nat) : ∀ a ∈ Nat.toDigits 16 n, (a != '}') = true := by
      intro a ha
      obtain ⟨k, hk, rfl⟩ := exists_digit_of_mem_toDigits ha
      exact bne_iff_ne.mpr (Nat.digitChar_ne '}' rfl)
    have h : Nat.toDigits 16 c.toNat ++ '}' :: x = Nat.toDigits 16 d.toNat ++ '}' :: y := by
      simpa using h
    obtain ⟨hdigits, hrest⟩ :=
      run_append_inj (hdigit _) (hdigit _) (by simp) (by simp) h
    exact ⟨Char.toNat_inj.mp (toDigits_inj hdigits), (List.cons.inj hrest).2⟩

/-- What `Text.escapeChar` writes for a character is one of the ways of the style `escaping`.
Whether a character is written out in full or not is decided there, and does not matter here. -/
theorem writes_escapeChar (c : Char) : escaping.Writes c (escapeChar '"' c) := by
  unfold escapeChar
  split_ifs with hnul htab hcr hlf hself
  · exact .letter (by simp [escaping, hnul])
  · exact .letter (by simp [escaping, htab])
  · exact .letter (by simp [escaping, hcr])
  · exact .letter (by simp [escaping, hlf])
  · rcases (by simpa using hself) with rfl | rfl
    · exact .letter (by decide)
    · exact .letter (by decide)
  · obtain ⟨hbackslash, hmark⟩ : c ≠ '\\' ∧ c ≠ '"' := by simpa using hself
    exact .plain hbackslash hmark
  · exact .long rfl

/-- Which text is in the quotes, and where they end, can be told: this is
`Escaping.flatMap_append_inj` for the style of `quote`. -/
theorem quote_append_inj {s t : String} {x y : List Char}
    (h : (quote s).toList ++ x = (quote t).toList ++ y) : s = t ∧ x = y := by
  simp only [quote, String.toList_ofList, escape, List.cons_append, List.append_assoc,
    List.nil_append, List.cons.injEq, true_and] at h
  obtain ⟨hchars, rfl⟩ := Escaping.flatMap_append_inj writes_escapeChar h
  exact ⟨String.toList_inj.mp hchars, rfl⟩

end Text

end MessageCatalog
