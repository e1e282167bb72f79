import MessageCatalog.CommandLine

/-!
# MessageCatalog.Proofs.Lookout

The two readings of the command line. The first (`configPath`, a `Lookout`) looks for the
configuration file alone, before anything else is known, and stops at the first argument that is
something else. The second (`parse`, a `Given`) reads all options. Where the second accepts the
arguments, the first has found the configuration file of the second if the arguments start with it,
and none otherwise (`configPath_eq_iff`): a configuration file that stands behind other arguments is
accepted, and then not read.

What the second reading does is followed by properties that every option, flag and file name keeps
(`Given.Kept`). There are two of them. A configuration file that has been named stays
(`Given.Names`); and where the option comes a second time nothing is accepted any more
(`Given.Repeated`). Each is shown to be kept once, in `Given.kept_names` and `Given.kept_repeated`,
and `Given.Kept.takeAll` carries it over all arguments.

Accepted arguments that start with the option therefore have one configuration file, which comes
from the first argument, or from the first two. The first reading sees as much of them, and no more
has to be known about it: it is followed argument by argument, up to the first that is something
else (`Lookout.run_of_settle`, `Lookout.run_eq_none`).
-/

namespace MessageCatalog.CommandLine

/-! ### What arguments look like

Two facts that both readings use: a computation that comes to something has come through its first
part, and the `shape` of an argument is never a cluster without a name. -/

/-- What a computation in two parts yields is yielded by its second part, from what the first has
yielded. -/
theorem exists_of_bind_eq_ok {ε α β : Type} {x : Except ε α} {f : α → Except ε β} {b : β}
    (h : x >>= f = .ok b) : ∃ a, x = .ok a ∧ f a = .ok b := by
  cases x with
  | error e => cases h
  | ok a => exact ⟨a, rfl, h⟩

/-- A cluster has a first name, as a single hyphen is no cluster for `shape`. -/
theorem ne_nil_of_shape {arg : String} {cluster : List Char} (h : shape arg = .short cluster) :
    cluster ≠ [] := by
  unfold shape at h
  split at h
  · cases h
  · cases h
  · obtain rfl := Shape.short.inj h
    simp
  · cases h

namespace Given

variable {g g' : Given} {o : Opt} {arg path : String} {args : List String}

/-! ### All options

Every switch settles what is pending before it counts itself, so `Given.settle` is described first,
and `Given.set`, to which it comes. Of both only what they do to the configuration file matters
here. -/

/-- Setting an option with `Given.set` changes no more than the values of options. A configuration
file can be set once, by a name that is not empty; nothing else changes it. -/
theorem set_cases {value : String} (h : g.set o value = .ok g') :
    ∃ config locale dump, g' = { g with config, locale, dump } ∧
      ((o = .config ∧ g.config = none ∧ value ≠ "" ∧ config = some value) ∨
        (o ≠ .config ∧ config = g.config)) := by
  unfold set at h
  split at h
  · split at h
    · cases h
    · split at h
      · cases h
      · rename_i hconfig hvalue
        obtain rfl := Except.ok.inj h
        exact ⟨_, _, _, rfl, .inl ⟨rfl, by simpa using hconfig, by simpa using hvalue, rfl⟩⟩
  · obtain rfl := Except.ok.inj h
    exact ⟨_, _, _, rfl, .inr ⟨by simp, rfl⟩⟩
  · split at h
    · obtain rfl := Except.ok.inj h
      exact ⟨_, _, _, rfl, .inr ⟨by simp, rfl⟩⟩
    · cases h

theorem set_spec {value : String} (h : g.set o value = .ok g') :
    g'.pending = g.pending ∧
      ((o = .config ∧ g.config = none ∧ value ≠ "" ∧ g'.config = some value) ∨
        (o ≠ .config ∧ g'.config = g.config)) := by
  obtain ⟨_, _, _, rfl, hconfig⟩ := set_cases h
  exact ⟨rfl, hconfig⟩

/-- When `Given.settle` is through nothing is pending. What was pending has been set if it was the
configuration file; anything else leaves the configuration file as it was. -/
theorem settle_spec (h : g.settle = .ok g') :
    g'.pending = .none ∧
      ((∃ path, g.pending = .opt .config (some path) ∧ g.config = none ∧ path ≠ "" ∧
          g'.config = some path) ∨
        ((∀ value, g.pending ≠ .opt .config value) ∧ g'.config = g.config)) := by
  unfold settle at h
  split at h
  · rename_i hpending
    obtain rfl := Except.ok.inj h
    exact ⟨hpending, .inr ⟨by simp [hpending], rfl⟩⟩
  · cases h
  · rename_i o value hpending
    obtain ⟨hnone, ⟨rfl, hconfig, hvalue, hset⟩ | ⟨hother, hkept⟩⟩ := set_spec h
    · exact ⟨hnone, .inl ⟨value, hpending, hconfig, hvalue, hset⟩⟩
    · refine ⟨hnone, .inr ⟨?_, hkept⟩⟩
      intro value' heq
      rw [hpending] at heq
      cases heq
      exact hother rfl
  · rename_i paths hpending
    split at h
    · cases h
    · obtain rfl := Except.ok.inj h
      exact ⟨rfl, .inr ⟨by simp [hpending], rfl⟩⟩

/-! ### What reading the arguments keeps

A property is checked for the four things that an argument can be, and for a value that is waited
for. That is enough for clusters, for any argument and for all of them. -/

/-- The property stays with every option, flag and file name that is taken, and when an option gets
its value. The last is no call of another function in `Given.takePlain`, so it is asked for as it is
written there. -/
structure Kept (P : Given → Prop) : Prop where
  opt : ∀ {g g' : Given} {o : Opt} {value : Option String},
    P g → g.takeOpt o value = .ok g' → P g'
  flag : ∀ {g g' : Given} {f : Flag}, P g → g.takeFlag f = .ok g' → P g'
  file : ∀ {g g' : Given} {path : String}, P g → g.takeFile path = .ok g' → P g'
  value : ∀ {g : Given} {o : Opt} (arg : String),
    P g → g.pending = .opt o none → P { g with pending := .opt o (some arg) }

namespace Kept

variable {P : Given → Prop}

/-- A cluster keeps the property. It is a row of flags with an option at its end, at most, so this
is an induction over `Given.takeCluster`. -/
theorem takeCluster (hP : Kept P) (cluster : List Char) :
    ∀ {g : Given}, P g → g.takeCluster cluster = .ok g' → P g' := by
  induction cluster with
  | nil =>
    intro g hg h
    obtain rfl := Except.ok.inj h
    exact hg
  | cons c rest ih =>
    intro g hg h
    unfold Given.takeCluster at h
    split at h
    · cases h
    · obtain ⟨g₁, hflag, hrest⟩ := exists_of_bind_eq_ok h
      exact ih (hP.flag hg hflag) hrest
    · split at h <;> exact hP.opt hg h

/-- Any one argument keeps the property. By its `shape` it is an option, a flag, a cluster, or a
plain one, for which `Kept` has a field each. -/
theorem take (hP : Kept P) (hg : P g) (h : g.take arg = .ok g') : P g' := by
  unfold Given.take at h
  split at h
  · obtain rfl := Except.ok.inj h
    exact hg
  · unfold takePlain at h
    split at h
    · rename_i hpending
      obtain rfl := Except.ok.inj h
      exact hP.value arg hg hpending
    · exact hP.file hg h
  · exact hP.takeCluster _ hg h
  · split at h
    · cases h
    · exact hP.opt hg h
    · exact hP.flag hg h
    · cases h

/-- The property holds when `Given.takeAll` has come to the end, until what is pending there is
settled. -/
theorem takeAll (hP : Kept P) :
    ∀ {g : Given}, P g → g.takeAll args = .ok g' → ∃ g₁, P g₁ ∧ g₁.settle = .ok g' := by
  have hfiles (paths : List String) : ∀ {g g₁ : Given}, P g →
      paths.foldlM takeFile g = .ok g₁ → P g₁ := by
    induction paths with
    | nil =>
      intro g g₁ hg h
      obtain rfl := Except.ok.inj h
      exact hg
    | cons path rest ih =>
      intro g g₁ hg h
      rw [List.foldlM_cons] at h
      obtain ⟨g₂, hfile, hrest⟩ := exists_of_bind_eq_ok h
      exact ih (hP.file hg hfile) hrest
  induction args with
  | nil => exact fun hg h => ⟨_, hg, h⟩
  | cons arg rest ih =>
    intro g hg h
    unfold Given.takeAll at h
    split at h
    · obtain ⟨g₁, hrest, hsettle⟩ := exists_of_bind_eq_ok h
      exact ⟨g₁, hfiles rest hg hrest, hsettle⟩
    · obtain ⟨g₁, htake, hrest⟩ := exists_of_bind_eq_ok h
      exact ih (hP.take hg htake) hrest

end Kept

/-! ### The configuration file among all options

The two properties. They are kept because `Given.takeOpt`, `Given.takeFlag` and `Given.takeFile`
settle first, and settling either keeps a configuration file or refuses a second one. -/

/-- The configuration file has been named `path`: it is set, or it is about to be. The one that is
set is not empty, since `Given.set` refuses an empty name. -/
def Names (g : Given) (path : String) : Prop :=
  (path ≠ "" ∧ g.config = some path) ∨
    (g.config = none ∧ g.pending = .opt .config (some path))

/-- A configuration file is set, and the option has come again, with a value or without one yet. No
argument can mend that: sooner or later `Given.settle` finds the conflict. -/
def Repeated (g : Given) : Prop := g.config ≠ none ∧ ∃ value, g.pending = .opt .config value

theorem Names.settle (h : g.Names path) (hsettle : g.settle = .ok g') :
    path ≠ "" ∧ g'.config = some path := by
  obtain ⟨-, ⟨path', hpending, hnone, hne, hset⟩ | ⟨hother, hkept⟩⟩ := settle_spec hsettle
  · rcases h with ⟨-, hconfig⟩ | ⟨-, hpath⟩
    · rw [hnone] at hconfig
      cases hconfig
    · rw [hpending] at hpath
      cases hpath
      exact ⟨hne, hset⟩
  · rcases h with ⟨hne, hconfig⟩ | ⟨-, hpath⟩
    · exact ⟨hne, hkept.trans hconfig⟩
    · exact absurd hpath (hother _)

/-- A second configuration file does not get past `Given.settle`. It is a conflict. -/
theorem Repeated.settle (h : g.Repeated) : g.settle ≠ .ok g' := by
  intro hsettle
  obtain ⟨hconfig, value, hvalue⟩ := h
  obtain ⟨-, ⟨path, -, hnone, -⟩ | ⟨hother, -⟩⟩ := settle_spec hsettle
  · exact hconfig hnone
  · exact hother value hvalue

/-- An option is taken when everything before it has been settled. Then it is set, or it is pending
if its value is still to come. Flags and file names are alike (`takeFlag_spec`, `takeFile_spec`). -/
theorem takeOpt_spec {value : Option String} (h : g.takeOpt o value = .ok g') :
    ∃ g₁, g.settle = .ok g₁ ∧
      match value with
      | some v => g₁.set o v = .ok g'
      | none => g' = { g₁ with pending := .opt o none } := by
  obtain ⟨g₁, hsettle, hrest⟩ := exists_of_bind_eq_ok h
  refine ⟨g₁, hsettle, ?_⟩
  cases value with
  | some v => exact hrest
  | none => exact (Except.ok.inj hrest).symm

theorem takeFlag_spec {f : Flag} (h : g.takeFlag f = .ok g') :
    ∃ g₁, g.settle = .ok g₁ ∧ g' = { g₁ with allErrors := true } := by
  obtain ⟨g₁, hsettle, hrest⟩ := exists_of_bind_eq_ok h
  refine ⟨g₁, hsettle, ?_⟩
  cases f with
  | allErrors =>
    dsimp only at hrest
    split at hrest
    · cases hrest
    · exact (Except.ok.inj hrest).symm
  | help | version => cases hrest

/-- A file name joins those in front of it that are pending (`Given.pending`), without settling
anything, or else it is taken when everything has been settled. -/
theorem takeFile_spec (h : g.takeFile path = .ok g') :
    (∃ paths, g.pending = .files paths ∧ g' = { g with pending := .files (paths ++ [path]) }) ∨
      ∃ g₁, g.settle = .ok g₁ ∧ g' = { g₁ with pending := .files [path] } := by
  unfold takeFile at h
  split at h
  · rename_i paths hpending
    exact .inl ⟨paths, hpending, (Except.ok.inj h).symm⟩
  · obtain ⟨g₁, hsettle, hrest⟩ := exists_of_bind_eq_ok h
    exact .inr ⟨g₁, hsettle, (Except.ok.inj hrest).symm⟩

/-- No option, flag or file name makes another configuration file of one that has been named
(`Names`). Another configuration file is refused, and the rest has nothing to do with it. -/
theorem kept_names (path : String) : Kept (Names · path) where
  opt := by
    intro g g' o value h htake
    obtain ⟨g₁, hsettle, hvalue⟩ := takeOpt_spec htake
    obtain ⟨hne, hconfig⟩ := h.settle hsettle
    cases value with
    | none =>
      obtain rfl : g' = _ := hvalue
      exact .inl ⟨hne, hconfig⟩
    | some v =>
      obtain ⟨-, ⟨-, hnone, -⟩ | ⟨-, hkept⟩⟩ := set_spec hvalue
      · rw [hnone] at hconfig
        cases hconfig
      · exact .inl ⟨hne, hkept.trans hconfig⟩
  flag := by
    intro g g' f h htake
    obtain ⟨g₁, hsettle, rfl⟩ := takeFlag_spec htake
    obtain ⟨hne, hconfig⟩ := h.settle hsettle
    exact .inl ⟨hne, hconfig⟩
  file := by
    intro g g' file h htake
    rcases takeFile_spec htake with ⟨paths, hpending, rfl⟩ | ⟨g₁, hsettle, rfl⟩
    · refine .inl (h.resolve_right ?_)
      rintro ⟨-, hpath⟩
      rw [hpending] at hpath
      cases hpath
    · obtain ⟨hne, hconfig⟩ := h.settle hsettle
      exact .inl ⟨hne, hconfig⟩
  value := by
    intro g o arg h hpending
    refine .inl (h.resolve_right ?_)
    rintro ⟨-, hpath⟩
    rw [hpending] at hpath
    cases hpath

/-- Nothing is accepted behind a second configuration file, so there is nothing that would not keep
`Repeated`. -/
theorem kept_repeated : Kept Repeated where
  opt := by
    intro g g' o value h htake
    obtain ⟨g₁, hsettle, -⟩ := takeOpt_spec htake
    exact absurd hsettle h.settle
  flag := by
    intro g g' f h htake
    obtain ⟨g₁, hsettle, -⟩ := takeFlag_spec htake
    exact absurd hsettle h.settle
  file := by
    intro g g' file h htake
    rcases takeFile_spec htake with ⟨paths, hpending, -⟩ | ⟨g₁, hsettle, -⟩
    · obtain ⟨-, value, hvalue⟩ := h
      rw [hpending] at hvalue
      cases hvalue
    · exact absurd hsettle h.settle
  value := by
    intro g o arg h hpending
    obtain ⟨hconfig, value, hvalue⟩ := h
    rw [hpending] at hvalue
    cases hvalue
    exact ⟨hconfig, _, rfl⟩

/-- A configuration file that has been named is the one that `Given.takeAll` ends with, by
`kept_names`. -/
theorem Names.takeAll (h : g.Names path) (htake : g.takeAll args = .ok g') :
    path ≠ "" ∧ g'.config = some path := by
  obtain ⟨g₁, h₁, hsettle⟩ := (kept_names path).takeAll h htake
  exact h₁.settle hsettle

/-- A configuration file is not accepted twice, whatever stands behind the second, by
`kept_repeated`. -/
theorem Repeated.takeAll (h : g.Repeated) : g.takeAll args ≠ .ok g' := by
  intro htake
  obtain ⟨g₁, h₁, hsettle⟩ := kept_repeated.takeAll h htake
  exact h₁.settle hsettle

theorem takeAll_cons {rest : List String} (h : shape arg ≠ .escape) :
    g.takeAll (arg :: rest) = g.take arg >>= (Given.takeAll · rest) := by
  rw [Given.takeAll, if_neg h]

/-- The long name of the option, with its value or without, is `Given.takeOpt`. -/
theorem take_config {value : Option String} (h : shape arg = .long "config" value) :
    g.take arg = g.takeOpt .config value := by
  rw [take, h]
  rfl

/-- Once a configuration file has been named, `Given.takeAll` does not accept the option again: with
it, the arguments are `Repeated`. -/
theorem Names.not_takeAll_config {rest : List String} {value : Option String}
    (h : g.Names path) (hshape : shape arg = .long "config" value) :
    g.takeAll (arg :: rest) ≠ .ok g' := by
  intro htake
  rw [takeAll_cons (by simp [hshape]), take_config hshape] at htake
  obtain ⟨g₁, hopt, hrest⟩ := exists_of_bind_eq_ok htake
  obtain ⟨g₂, hsettle, hvalue⟩ := takeOpt_spec hopt
  obtain ⟨-, hconfig⟩ := h.settle hsettle
  cases value with
  | none =>
    obtain rfl : g₁ = _ := hvalue
    exact Repeated.takeAll ⟨by simp [hconfig], none, rfl⟩ hrest
  | some v =>
    obtain ⟨-, ⟨-, hnone, -⟩ | ⟨hother, -⟩⟩ := set_spec hvalue
    · rw [hnone] at hconfig
      cases hconfig
    · exact hother rfl

/-- An option that waits for its value gets the next argument, which must not look like an option:
`Given.settle` refuses an option without a value, and everything but a plain argument settles. -/
theorem takeAll_of_waiting (hpending : g.pending = .opt o none) (h : g.takeAll args = .ok g') :
    ∃ arg rest, args = arg :: rest ∧ shape arg = .plain ∧
      Given.takeAll { g with pending := .opt o (some arg) } rest = .ok g' := by
  have hsettle (g₁ : Given) : g.settle ≠ .ok g₁ := by simp [settle, hpending]
  cases args with
  | nil => exact absurd h (hsettle g')
  | cons arg rest =>
    cases hshape : shape arg with
    | plain =>
      refine ⟨arg, rest, rfl, hshape, ?_⟩
      rwa [takeAll_cons (by simp [hshape]), take, hshape, takePlain, hpending] at h
    -- anything else settles what is pending first
    | escape =>
      rw [Given.takeAll, if_pos hshape] at h
      obtain ⟨g₁, hfiles, hlast⟩ := exists_of_bind_eq_ok h
      cases rest with
      | nil =>
        obtain rfl := Except.ok.inj hfiles
        exact absurd hlast (hsettle g')
      | cons path rest =>
        rw [List.foldlM_cons] at hfiles
        obtain ⟨g₂, hfile, -⟩ := exists_of_bind_eq_ok hfiles
        rcases takeFile_spec hfile with ⟨paths, hfiles, -⟩ | ⟨g₃, hset, -⟩
        · rw [hpending] at hfiles
          cases hfiles
        · exact absurd hset (hsettle g₃)
    | short cluster =>
      rw [takeAll_cons (by simp [hshape]), take, hshape] at h
      obtain ⟨g₁, hcluster, -⟩ := exists_of_bind_eq_ok h
      obtain ⟨c, cluster, rfl⟩ := List.exists_cons_of_ne_nil (ne_nil_of_shape hshape)
      dsimp only at hcluster
      unfold takeCluster at hcluster
      split at hcluster
      · cases hcluster
      · obtain ⟨g₂, hflag, -⟩ := exists_of_bind_eq_ok hcluster
        obtain ⟨g₃, hset, -⟩ := takeFlag_spec hflag
        exact absurd hset (hsettle g₃)
      · split at hcluster <;>
        · obtain ⟨g₂, hset, -⟩ := takeOpt_spec hcluster
          exact absurd hset (hsettle g₂)
    | long name value =>
      rw [takeAll_cons (by simp [hshape]), take, hshape] at h
      obtain ⟨g₁, hlong, -⟩ := exists_of_bind_eq_ok h
      dsimp only at hlong
      split at hlong
      · cases hlong
      · obtain ⟨g₂, hset, -⟩ := takeOpt_spec hlong
        exact absurd hset (hsettle g₂)
      · obtain ⟨g₂, hset, -⟩ := takeFlag_spec hlong
        exact absurd hset (hsettle g₂)
      · cases hlong

end Given

/-! ### The configuration file alone

What the first reading comes to. The environment says nothing here: the two readings are compared in
what they make of the arguments. -/

/-- The arguments start with the option for the configuration file, under its long name. It has no
other. -/
def startsWithConfig : List String → Bool
  | [] => false
  | arg :: _ =>
    match shape arg with
    | .long name _ => name = "config"
    | _ => false

/-- If they do, the first of them has that `shape`, with a value of its own or without one. -/
theorem exists_of_startsWithConfig {args : List String} (h : startsWithConfig args = true) :
    ∃ arg rest value, args = arg :: rest ∧ shape arg = .long "config" value := by
  cases args with
  | nil => cases h
  | cons arg rest =>
    rw [startsWithConfig] at h
    split at h
    · rename_i name value hshape
      exact ⟨arg, rest, value, rfl, by rw [hshape, of_decide_eq_true h]⟩
    · cases h

namespace Lookout

variable {l : Lookout} {path : String} {args : List String}

/-- What has been named is found by `Lookout.run`, where nothing else is said about the
configuration file. All other arguments end the reading, and at its end what has been named is
settled. -/
theorem run_of_settle (hpath : path ≠ "") (hsettle : l.settle = .ok { config := some path })
    (hpending : l.pending ≠ some none)
    (hargs : ∀ arg ∈ args.head?, ∀ value, shape arg ≠ .long "config" value) :
    l.run none args = some path := by
  have hfound : found { config := some path } none = some path := by simp [found, hpath]
  have hfinish : l.finish none = some path := by rw [finish, hsettle]; exact hfound
  have hstop : l.stop none = some path := by rw [stop, hsettle]; exact hfound
  cases args with
  | nil => exact hfinish
  | cons arg rest =>
    have harg := hargs arg rfl
    unfold run
    split
    · exact absurd ‹_› (harg _)
    · exact absurd ‹_› (harg _)
    · exact absurd ‹_› hpending
    · split
      · exact hfinish
      · exact hstop
    · exact hstop

/-- Where the arguments start with something else, `Lookout.run` stops at once, and nothing is found
as the environment says nothing. -/
theorem run_eq_none (h : startsWithConfig args = false) : run none {} args = none := by
  have hnone : found {} none = none := rfl
  unfold run
  split
  · rfl
  · rename_i arg rest
    have hshape (value : Option String) : shape arg ≠ .long "config" value := by
      intro hshape
      simp [startsWithConfig, hshape] at h
    split
    · exact absurd ‹_› (hshape _)
    · exact absurd ‹_› (hshape _)
    · cases ‹(_ : Option (Option String)) = some none›
    · split <;> rfl
    · rfl

theorem run_config_none {arg : String} (h : shape arg = .long "config" none) :
    run none {} (arg :: args) = run none { pending := some none } args := by
  rw [run]
  simp only [h]
  rfl

theorem run_config_some {arg : String} (h : shape arg = .long "config" (some path))
    (hpath : path ≠ "") :
    run none {} (arg :: args) = run none { config := some path } args := by
  have hset : (settle {}).bind (·.set path) = .ok { config := some path } := by
    simp [settle, set, Except.bind, hpath]
  rw [run]
  simp only [h, hset]

theorem run_waiting {arg : String} (h : shape arg = .plain) :
    run none { pending := some none } (arg :: args) =
      run none { pending := some (some arg) } args := by
  rw [run]
  simp only [h]

end Lookout

/-! ### Both readings

The arguments are split at the first one. If it is the option, the value stands in it or in the
next; then `Names` and `Repeated` say what the second reading makes of it, and
`Lookout.run_of_settle` what the first does. -/

variable {settings : Settings} {options : Options} {args : List String}

/-- The configuration file of accepted options is the one that `Given.takeAll` ends with, as the
environment says nothing. -/
theorem takeAll_of_parse (h : parse {} settings args = .ok options) :
    ∃ g, Given.takeAll {} args = .ok g ∧ options.config = g.config := by
  have henv {g g' : Given} {o : Opt} {given : Bool}
      (h : fromEnvironment g o given none = .ok g') : g = g' := by
    cases given <;> exact Except.ok.inj h
  obtain ⟨g, htake, hrest⟩ := exists_of_bind_eq_ok h
  obtain ⟨_, hconfig, hrest⟩ := exists_of_bind_eq_ok hrest
  obtain rfl := henv hconfig
  obtain ⟨_, hlocale, hrest⟩ := exists_of_bind_eq_ok hrest
  obtain rfl := henv hlocale
  obtain ⟨_, hdump, hrest⟩ := exists_of_bind_eq_ok hrest
  obtain rfl := henv hdump
  refine ⟨g, htake, ?_⟩
  split at hrest
  · cases hrest
  · obtain rfl := Except.ok.inj hrest
    rfl

/-- The first reading, `configPath`, finds the configuration file of accepted options if it comes
first, and finds no other. What is behind the first argument, and its value, is left to `Names` and
`Repeated`. -/
theorem configPath_of_parse (h : parse {} settings args = .ok options) :
    configPath none args = if startsWithConfig args then options.config else none := by
  obtain ⟨g, htake, hconfig⟩ := takeAll_of_parse h
  rw [hconfig, configPath]
  cases hstarts : startsWithConfig args with
  | false => exact Lookout.run_eq_none hstarts
  | true =>
    rw [if_pos rfl]
    obtain ⟨arg, rest, value, rfl, hshape⟩ := exists_of_startsWithConfig hstarts
    rw [Given.takeAll_cons (by simp [hshape]), Given.take_config hshape] at htake
    obtain ⟨g₁, hopt, hrest⟩ := exists_of_bind_eq_ok htake
    obtain ⟨_, hsettle, hvalue⟩ := Given.takeOpt_spec hopt
    obtain rfl := Except.ok.inj hsettle
    have hlater {path : String} {g₁ : Given} {rest : List String} (hnames : g₁.Names path)
        (hrest : g₁.takeAll rest = .ok g) :
        ∀ arg ∈ rest.head?, ∀ value, shape arg ≠ .long "config" value := by
      cases rest with
      | nil => simp
      | cons arg rest =>
        rintro _ ⟨⟩ value hshape
        exact hnames.not_takeAll_config hshape hrest
    cases value with
    | some path =>
      obtain ⟨-, ⟨-, -, hne, hset⟩ | ⟨hother, -⟩⟩ := Given.set_spec hvalue
      · have hnames : g₁.Names path := .inl ⟨hne, hset⟩
        rw [Lookout.run_config_some hshape hne, (hnames.takeAll hrest).2]
        exact Lookout.run_of_settle hne rfl (by simp) (hlater hnames hrest)
      · exact absurd rfl hother
    | none =>
      obtain rfl : g₁ = _ := hvalue
      obtain ⟨path, rest, rfl, hplain, hrest⟩ := Given.takeAll_of_waiting rfl hrest
      have hnames : Given.Names { pending := .opt .config (some path) } path := .inr ⟨rfl, rfl⟩
      obtain ⟨hne, hconfig⟩ := hnames.takeAll hrest
      rw [Lookout.run_config_none hshape, Lookout.run_waiting hplain, hconfig]
      refine Lookout.run_of_settle hne ?_ (by simp) (hlater hnames hrest)
      simp [Lookout.settle, Lookout.set, hne]

/-- Where `parse` accepts the options, both readings of the arguments find the same configuration
file exactly if the arguments start with it (`startsWithConfig`), or name none. Otherwise
`configPath` finds none, and the file that has been named is not read. -/
theorem configPath_eq_iff (settings : Settings) (args : List String) (options : Options)
    (h : parse {} settings args = .ok options) :
    (configPath none args = options.config ↔
        startsWithConfig args = true ∨ options.config = none) ∧
      (startsWithConfig args = false → configPath none args = none) := by
  rw [configPath_of_parse h]
  cases startsWithConfig args with
  | true => simp
  | false => simp [eq_comm]

/-- A configuration file in front of everything else is found by both readings, `parse` and
`configPath`. -/
theorem configPath_of_first_argument :
    parse {} {} ["--config", "s.toml", "-a", "a.msg"] =
        .ok ⟨some "s.toml", "en", .none, true, ["a.msg"]⟩ ∧
      configPath none ["--config", "s.toml", "-a", "a.msg"] = some "s.toml" := by
  have hparse : parse {} {} ["--config", "s.toml", "-a", "a.msg"] =
      .ok ⟨some "s.toml", "en", .none, true, ["a.msg"]⟩ := by rfl
  exact ⟨hparse, (configPath_eq_iff _ _ _ hparse).1.mpr (.inl (by decide))⟩

/-- Behind the name of a message file, the configuration file is accepted by `parse`, but
`configPath` does not find it. -/
theorem configPath_of_later_argument :
    parse {} {} ["a.msg", "--config", "s.toml"] =
        .ok ⟨some "s.toml", "en", .none, false, ["a.msg"]⟩ ∧
      configPath none ["a.msg", "--config", "s.toml"] = none :=
  ⟨by rfl, by decide⟩

end MessageCatalog.CommandLine
