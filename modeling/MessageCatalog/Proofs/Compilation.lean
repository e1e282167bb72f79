import MessageCatalog.Compile
import MessageCatalog.Proofs.Duplicates
import MessageCatalog.Proofs.Stream

/-!
# MessageCatalog.Proofs.Compilation

A compilation takes its files one by one. What a file adds to the catalog and to the failures is
what it would add alone (`Compilation.OfEach`), so files in another order add the same in another
order. Only the warnings look at all messages together, and how often they name an address is
independent of the order too (`Duplicate.warnings_perm`).

`compile_each` states it for `compile`: with a locale that resolves there is a compilation, which is
of each file on its own, and so is that of the files in any other order. With a locale that does
not, there is none, and no warnings are issued (`Compilation.issued`).

That a file counts for itself is not a matter of course. Sections are opened in a file and hold for
what follows, and an open replacement swallows what follows; but a parse starts afresh with every
file and closes everything at its end, so that neither reaches into the next.
-/

namespace MessageCatalog

namespace Source

/-! ### Files with and without errors

Of one file by itself. `Source.failure?` says both whether there are errors and which; here the two
are apart. -/

/-- A file without errors, which is one whose `Source.parse` reports none. -/
def Clean (s : Source) : Prop := s.parse.errors = []

instance : DecidablePred Clean := fun s => inferInstanceAs (Decidable (s.parse.errors = []))

/-- What is reported about a file, whether it has errors or not: its name and the errors of its
parse. Where it has some this is `Source.failure?`. -/
def report (s : Source) : FileFailure := { file := s.name, errors := s.parse.errors }

/-- A file fails with its `report`, unless it is `Clean`. -/
theorem failure?_eq (s : Source) : s.failure? = if s.Clean then none else some s.report := by
  unfold failure? Clean report
  by_cases h : s.parse.errors = [] <;> simp [h]

theorem failure?_eq_none_iff (s : Source) : s.failure? = none ↔ s.Clean := by
  simp [failure?_eq]

/-- The files that fail are those that are not `Clean`, in their order, each with its `report`. -/
theorem filterMap_failure? (sources : List Source) :
    sources.filterMap failure? = (sources.filter fun s => ¬ s.Clean).map report := by
  induction sources with
  | nil => rfl
  | cons s rest ih =>
    rw [List.filterMap_cons, failure?_eq, List.filter_cons, ih]
    by_cases hs : s.Clean <;> simp [hs]

end Source

namespace Compilation

/-! ### File by file

The six parts of `OfEach` are the six things that a compilation is asked for. All are about
`Source.parse` of one file at a time, the warnings apart. -/

/-- A compilation in which every file counts for itself, whatever stands beside it: with its own
messages, and with its own errors if it has any. Nothing but the warnings looks at more than one
file; and `Compilation.toExcept` gives the catalog away exactly if every file is `Clean`. -/
structure OfEach (locale : Locale) (sources : List Source) (c : Compilation) : Prop where
  locale_eq : c.catalog.locale = locale
  messages_eq : c.catalog.messages = (sources.map fun s => s.parse.messages).flatten
  failures_eq : c.failures = (sources.filter fun s => ¬ s.Clean).map Source.report
  succeeded_iff : c.succeeded = true ↔ ∀ s ∈ sources, s.Clean
  toExcept_eq :
    c.toExcept = if ∀ s ∈ sources, s.Clean then .ok c.catalog else .error c.failures
  warnings_eq : c.warnings = Duplicate.warnings c.catalog.messages

/-- The warnings that are issued by a compilation (`Compilation.warnings`). Nothing is checked where
the locale is unknown. -/
def issued : Except Locale.Error Compilation → List String
  | .ok c => c.warnings
  | .error _ => []

theorem failures_isEmpty_iff (locale : Locale) (sources : List Source) :
    (compileFor locale sources).failures.isEmpty = true ↔ ∀ s ∈ sources, s.Clean := by
  rw [List.isEmpty_iff, compileFor, List.filterMap_eq_nil_iff]
  simp only [Source.failure?_eq_none_iff]

/-- Files are compiled one by one by `compileFor`, whatever the locale. -/
theorem ofEach (locale : Locale) (sources : List Source) :
    (compileFor locale sources).OfEach locale sources where
  locale_eq := rfl
  messages_eq := List.flatMap_def
  failures_eq := Source.filterMap_failure? sources
  succeeded_iff := failures_isEmpty_iff locale sources
  toExcept_eq := by
    rw [toExcept]
    exact ite_congr (propext (failures_isEmpty_iff locale sources)) (fun _ => rfl) fun _ => rfl
  warnings_eq := rfl

section Perm

variable {sources others : List Source} (h : others.Perm sources) (locale : Locale)

include h

/-- The messages of files in another order are the same, in another order. So are the failures
(`failures_perm`). -/
theorem messages_perm :
    (compileFor locale others).catalog.messages.Perm
      (compileFor locale sources).catalog.messages :=
  h.flatMap_right _

theorem failures_perm :
    (compileFor locale others).failures.Perm (compileFor locale sources).failures :=
  h.filterMap _

/-- The warnings about files in another order are the same, in another order, by
`Duplicate.warnings_perm`: the messages of all files are one list there, and that is in another
order. -/
theorem warnings_perm :
    (compileFor locale others).warnings.Perm (compileFor locale sources).warnings :=
  Duplicate.warnings_perm (messages_perm h locale)

end Perm

end Compilation

/-- With a locale that resolves, `compile` treats its files independently (`Compilation.OfEach`), in
every order of the files. Otherwise it comes to nothing, and issues no warnings. -/
theorem compile_each (locale : String) (sources : List Source) :
    (∀ l, Locale.resolve locale = .ok l →
      ∃ c, compile locale sources = .ok c ∧ c.OfEach l sources ∧
        ∀ others, others.Perm sources →
          ∃ d, compile locale others = .ok d ∧ d.OfEach l others ∧
            d.catalog.messages.Perm c.catalog.messages ∧ d.failures.Perm c.failures ∧
            (Compilation.issued (.ok d)).Perm (Compilation.issued (.ok c))) ∧
    (∀ e, Locale.resolve locale = .error e →
      compile locale sources = .error e ∧ Compilation.issued (compile locale sources) = []) := by
  constructor
  · intro l hresolve
    have hcompile (sources : List Source) :
        compile locale sources = .ok (compileFor l sources) := by rw [compile, hresolve]; rfl
    refine ⟨_, hcompile sources, Compilation.ofEach l sources, fun others h => ?_⟩
    exact ⟨_, hcompile others, Compilation.ofEach l others, Compilation.messages_perm h l,
      Compilation.failures_perm h l, Compilation.warnings_perm h l⟩
  · intro e hresolve
    have hcompile : compile locale sources = .error e := by rw [compile, hresolve]; rfl
    exact ⟨hcompile, by rw [hcompile]; rfl⟩

/-- Two files, of which the first opens a section and the second breaks off in a replacement: in
either order the section holds for its own file alone, and the other file alone fails. -/
theorem compile_each_of_two_files :
    let a : Source := ⟨"a.msg", Utf8.encode "[[s]]\nk:\n\tx\n"⟩
    let b : Source := ⟨"b.msg", Utf8.encode "k:\n\ty $\x7bn\n"⟩
    Locale.resolve "en_us" = .ok ⟨"en", none, some "US", []⟩ ∧ [b, a].Perm [a, b] ∧
      ∃ c d, compile "en_us" [a, b] = .ok c ∧ compile "en_us" [b, a] = .ok d ∧
        c.catalog.messages.map Message.address = [("s", "k"), ("", "k")] ∧
        d.catalog.messages.map Message.address = [("", "k"), ("s", "k")] ∧
        c.failures = [b.report] ∧ d.failures = [b.report] ∧
        c.toExcept = .error [b.report] := by
  intro a b
  have hresolve : Locale.resolve "en_us" = .ok ⟨"en", none, some "US", []⟩ := by decide +kernel
  have hperm : [b, a].Perm [a, b] := .swap a b []
  have ha : a.parse.messages.map Message.address = [("s", "k")] ∧ a.Clean := by
    rw [Source.Clean, Source.parse, parse, tokens_eq_runFor]
    decide +kernel
  have hb : b.parse.messages.map Message.address = [("", "k")] ∧ ¬ b.Clean := by
    rw [Source.Clean, Source.parse, parse, tokens_eq_runFor]
    decide +kernel
  obtain ⟨c, hc, hofc, hothers⟩ := (compile_each "en_us" [a, b]).1 _ hresolve
  obtain ⟨d, hd, hofd, -⟩ := hothers [b, a] hperm
  have hfailures : c.failures = [b.report] := by simp [hofc.failures_eq, ha.2, hb.2]
  refine ⟨hresolve, hperm, c, d, hc, hd, ?_, ?_, hfailures, ?_, ?_⟩
  · simp [hofc.messages_eq, ha.1, hb.1]
  · simp [hofd.messages_eq, ha.1, hb.1]
  · simp [hofd.failures_eq, ha.2, hb.2]
  · rw [hofc.toExcept_eq, if_neg (by simp [hb.2]), hfailures]

end MessageCatalog
