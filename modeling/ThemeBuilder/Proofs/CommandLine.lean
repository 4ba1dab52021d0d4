import ThemeBuilder.CommandLine

/-! The argument lists that are commands, as a grammar. Reading from the left with a marker that
makes all that follows plain comes to the same. -/
namespace ThemeBuilder.CommandLine
open Bytes

/-- The argument that makes all later ones plain. -/
abbrev marker : Bytes := [dash, dash]

/-- What an argument is called if it looks like an option: all before the first `=`. -/
def optionName (arg : Bytes) : Bytes := arg.takeWhile (· != 0x3d)

/-- An argument that stands for itself without a marker before it. It may begin with dashes. -/
structure IsPlain (arg : Bytes) : Prop where
  ne_marker : arg ≠ marker
  ne_help : ∀ n, arg ≠ dash :: List.replicate (n + 1) 0x68
  ne_long_help : arg ≠ Utf8.encode "--help"
  not_help_value : ¬ Utf8.encode "--help=" <+: arg
  option_named : marker <+: arg → Utf8.valid (optionName arg) = true

/-- The arguments behind a verb that give it a name. -/
inductive Names : List Bytes → Bytes → Prop
  | plain {name : Bytes} : IsPlain name → Names [name] name
  | closed {name : Bytes} : IsPlain name → Names [name, marker] name
  | marked (name : Bytes) : Names [marker, name] name

/-- The argument lists that are commands. The first argument is the name of the program. -/
inductive Says : List Bytes → Command → Prop
  | makeAll (program : Bytes) {verb : Bytes} {args : List Bytes} :
      verb = Utf8.encode "make-all" ∨ verb = Utf8.encode "makeall" →
      args = [] ∨ args = [marker] → Says (program :: verb :: args) .makeAll
  | make (program : Bytes) {args : List Bytes} {name : Bytes} : Names args name →
      Says (program :: Utf8.encode "make" :: args) (.make name)
  | makeListing (program : Bytes) {args : List Bytes} {name : Bytes} : Names args name →
      Says (program :: Utf8.encode "default" :: args) (.makeListing name)

private theorem asksHelp_eq_true {arg : Bytes} : asksHelp arg = true ↔
    (∃ n, arg = dash :: List.replicate (n + 1) 0x68) ∨ arg = Utf8.encode "--help" ∨
      Utf8.encode "--help=" <+: arg := by
  unfold asksHelp
  rw [Bool.or_eq_true, Bool.or_eq_true, beq_iff_eq, List.isPrefixOf_iff_prefix, or_assoc]
  refine or_congr_left ?_
  obtain _ | ⟨b, _ | ⟨c, cs⟩⟩ := arg
  · simp
  · simp [List.replicate_succ]
  · rw [Bool.and_eq_true, beq_iff_eq, List.all_eq_true]
    simp only [beq_iff_eq, List.cons.injEq, exists_and_left]
    refine and_congr_right fun _ => ⟨fun h => ⟨cs.length, List.eq_replicate_iff.mpr ⟨rfl, h⟩⟩, ?_⟩
    rintro ⟨n, hn⟩
    exact (List.eq_replicate_iff.mp hn).2

private theorem isPlain_iff {arg : Bytes} :
    IsPlain arg ↔ arg ≠ marker ∧ (asksHelp arg || isGarbledOption arg) = false := by
  rw [← Bool.not_eq_true, Bool.or_eq_true, asksHelp_eq_true, isGarbledOption, Bool.and_eq_true,
    List.isPrefixOf_iff_prefix, Bool.not_eq_true', not_or, not_or, not_or, not_exists, not_and,
    Bool.not_eq_false]
  constructor
  · rintro ⟨hmarker, hhelp, hlong, hvalue, hname⟩
    exact ⟨hmarker, ⟨hhelp, hlong, hvalue⟩, hname⟩
  · rintro ⟨hmarker, ⟨hhelp, hlong, hvalue⟩, hname⟩
    exact ⟨hmarker, hhelp, hlong, hvalue, hname⟩

@[simp]
theorem plainArguments_marker (args : List Bytes) :
    plainArguments (marker :: args) = some args := by
  rw [plainArguments]
  exact if_pos rfl

private theorem plainArguments_plain {arg : Bytes} (h : IsPlain arg) (args : List Bytes) :
    plainArguments (arg :: args) = (plainArguments args).map (arg :: ·) := by
  obtain ⟨hmarker, hplain⟩ := isPlain_iff.mp h
  rw [plainArguments, if_neg hmarker, hplain]
  rfl

private theorem plainArguments_refused {arg : Bytes} (hmarker : arg ≠ marker) (h : ¬ IsPlain arg)
    (args : List Bytes) : plainArguments (arg :: args) = none := by
  rw [isPlain_iff, not_and, Bool.not_eq_false] at h
  rw [plainArguments, if_neg hmarker, if_pos (h hmarker)]

/-- What the reading from the left comes to. -/
private theorem plainArguments_cons_eq_some {arg : Bytes} {args names : List Bytes} :
    plainArguments (arg :: args) = some names ↔
      arg = marker ∧ args = names ∨
        IsPlain arg ∧ ∃ rest, plainArguments args = some rest ∧ arg :: rest = names := by
  by_cases hmarker : arg = marker
  · subst hmarker
    have hnot : ¬ IsPlain marker := fun h => h.ne_marker rfl
    simp [plainArguments_marker, hnot]
  · by_cases hplain : IsPlain arg
    · simp [plainArguments_plain hplain, hmarker, hplain]
    · simp [plainArguments_refused hmarker hplain, hmarker, hplain]

private theorem plainArguments_eq_nil {args : List Bytes} :
    plainArguments args = some [] ↔ args = [] ∨ args = [marker] := by
  cases args with
  | nil => simp [plainArguments]
  | cons arg args => simp [plainArguments_cons_eq_some]

private theorem plainArguments_eq_singleton {args : List Bytes} {name : Bytes} :
    plainArguments args = some [name] ↔ Names args name := by
  constructor
  · intro h
    cases args with
    | nil => cases h
    | cons arg args =>
      obtain ⟨rfl, rfl⟩ | ⟨hplain, rest, hrest, heq⟩ := plainArguments_cons_eq_some.mp h
      · exact .marked name
      · cases heq
        obtain rfl | rfl := plainArguments_eq_nil.mp hrest
        · exact .plain hplain
        · exact .closed hplain
  · intro h
    cases h with
    | plain hplain => rw [plainArguments_plain hplain]; rfl
    | closed hplain => rw [plainArguments_plain hplain, plainArguments_marker]; rfl
    | marked => exact plainArguments_marker _

private theorem ofVerb_eq_some {verb : Bytes} {names : List Bytes} {command : Command} :
    ofVerb verb names = some command ↔
      (verb = Utf8.encode "make-all" ∨ verb = Utf8.encode "makeall") ∧ names = [] ∧
          command = .makeAll ∨
        ∃ name, names = [name] ∧ (verb = Utf8.encode "make" ∧ command = .make name ∨
          verb = Utf8.encode "default" ∧ command = .makeListing name) := by
  have hall : ∀ v ∈ [Utf8.encode "make", Utf8.encode "default"],
      ¬ (v = Utf8.encode "make-all" ∨ v = Utf8.encode "makeall") := by
    decide +kernel
  have hmake : Utf8.encode "default" ≠ Utf8.encode "make" := by decide +kernel
  unfold ofVerb
  constructor
  · intro h
    split at h
    · rename_i hverb
      split at h <;> cases h
      exact .inl ⟨hverb, ‹_›, rfl⟩
    · split at h
      · rename_i name
        refine .inr ⟨name, rfl, ?_⟩
        split at h
        · cases h
          exact .inl ⟨‹_›, rfl⟩
        · split at h <;> cases h
          exact .inr ⟨‹_›, rfl⟩
      · cases h
  · rintro (⟨hverb, rfl, rfl⟩ | ⟨name, rfl, ⟨rfl, rfl⟩ | ⟨rfl, rfl⟩⟩)
    · rw [if_pos hverb, if_pos rfl]
    · rw [if_neg (hall _ (by simp))]
      exact if_pos rfl
    · rw [if_neg (hall _ (by simp))]
      dsimp only
      rw [if_neg hmake, if_pos rfl]

theorem parse_cons (program verb : Bytes) (args : List Bytes) (command : Command) :
    parse (program :: verb :: args) = some command ↔
      ∃ names, plainArguments args = some names ∧ ofVerb verb names = some command :=
  Option.bind_eq_some_iff

private theorem says_of_parse {args : List Bytes} {command : Command}
    (h : parse args = some command) : Says args command := by
  match args with
  | [] => cases h
  | [_] => cases h
  | program :: verb :: args =>
    obtain ⟨names, hnames, hcommand⟩ := (parse_cons ..).mp h
    obtain ⟨hverb, rfl, rfl⟩ | ⟨name, rfl, ⟨rfl, rfl⟩ | ⟨rfl, rfl⟩⟩ := ofVerb_eq_some.mp hcommand
    · exact .makeAll program hverb (plainArguments_eq_nil.mp hnames)
    · exact .make program (plainArguments_eq_singleton.mp hnames)
    · exact .makeListing program (plainArguments_eq_singleton.mp hnames)

private theorem parse_of_says {args : List Bytes} {command : Command} (h : Says args command) :
    parse args = some command := by
  cases h with
  | makeAll program hverb hargs =>
    exact (parse_cons ..).mpr
      ⟨[], plainArguments_eq_nil.mpr hargs, ofVerb_eq_some.mpr (.inl ⟨hverb, rfl, rfl⟩)⟩
  | @make program args name hnames =>
    exact (parse_cons ..).mpr ⟨[name], plainArguments_eq_singleton.mpr hnames,
      ofVerb_eq_some.mpr (.inr ⟨name, rfl, .inl ⟨rfl, rfl⟩⟩)⟩
  | @makeListing program args name hnames =>
    exact (parse_cons ..).mpr ⟨[name], plainArguments_eq_singleton.mpr hnames,
      ofVerb_eq_some.mpr (.inr ⟨name, rfl, .inr ⟨rfl, rfl⟩⟩)⟩

/-- An argument list is read as a command exactly if the grammar has it as that command. Whatever is
no command asks for the usage text. -/
theorem parse_iff_says (args : List Bytes) :
    (∀ command, parse args = some command ↔ Says args command) ∧
      (parse args = none ↔ ∀ command, ¬ Says args command) := by
  have hsome (command : Command) : parse args = some command ↔ Says args command :=
    ⟨says_of_parse, parse_of_says⟩
  refine ⟨hsome, ?_⟩
  rw [Option.eq_none_iff_forall_ne_some]
  exact forall_congr' fun command => not_congr (hsome command)

/-- A second marker is a name. -/
example : parse [[], Utf8.encode "default", marker, marker] = some (.makeListing marker) := by
  decide +kernel

/-- A name that looks like an option with a value need not be UTF-8. Only what stands before the
value has to be. -/
theorem parse_option_value :
    let name := Utf8.encode "--a=" ++ [0xff]
    (marker <+: name ∧ Utf8.valid name = false) ∧
      parse [Utf8.encode "scummtheme", Utf8.encode "make", name] = some (.make name) := by
  decide +kernel

end ThemeBuilder.CommandLine
