import Mathlib.Data.List.TakeWhile
import TapeTree.CommandLine.Arguments

/-! Which arguments are taken, and what they ask for. The options stand around the file in any
order, each of them in one of the ways in which it may be written, and nothing else is taken. -/

namespace TapeTree.CommandLine

inductive Given where
  | flag (flag : Flag)
  | quantity (quantity : Quantity) (amount : Amount)
deriving DecidableEq

def Given.amount? (quantity : Quantity) : Given → Option Amount
  | .flag _ => none
  | .quantity other amount => if other = quantity then some amount else none

/-- An option that is given several times has its last amount. -/
def lastAmount? (quantity : Quantity) (given : List Given) : Option Amount :=
  (given.filterMap (Given.amount? quantity)).getLast?

/-- An option may be shortened, as long as no other one begins so. -/
def Spells (spelling : String) (switch : Switch) : Prop :=
  (∃ entry ∈ Switch.spellings, spelling.toList <+: entry.1.toList) ∧
    ∀ entry ∈ Switch.spellings, spelling.toList <+: entry.1.toList → entry.2 = switch

def written (spelling : String) : Option String → String
  | none => spelling
  | some value => spelling ++ "=" ++ value

def IsPlain (argument : String) : Prop :=
  Word.ofArgument argument = .ok (.plain argument)

inductive Options : List Given → List String → Prop
  | nil : Options [] []
  | flag {flag spelling given rest} : Spells spelling (.flag flag) → Options given rest →
      Options (.flag flag :: given) (spelling :: rest)
  | attached {quantity spelling value amount given rest} : Spells spelling (.quantity quantity) →
      Amount.read? value = some amount → Options given rest →
      Options (.quantity quantity amount :: given) (written spelling (some value) :: rest)
  | apart {quantity spelling value amount given rest} : Spells spelling (.quantity quantity) →
      IsPlain value → Amount.read? value = some amount → Options given rest →
      Options (.quantity quantity amount :: given) (spelling :: value :: rest)

/-- A whole command line. A double dash may stand before the file or after it, at the end. -/
inductive Asks (file : String) : List Given → List String → Prop
  | among {before after front back} : Options before front → IsPlain file → Options after back →
      Asks file (before ++ after) (front ++ file :: back)
  | afterDash {given front} : Options given front → Asks file given (front ++ ["--", file])
  | beforeDash {given front} : Options given front → IsPlain file →
      Asks file given (front ++ [file, "--"])

/-! Spellings. -/

theorem dashes_begin {entry : String × Switch} (listed : entry ∈ Switch.spellings) :
    ['-', '-'] <+: entry.1.toList := by
  revert entry
  decide

theorem equals_not_mem {entry : String × Switch} (listed : entry ∈ Switch.spellings) :
    '=' ∉ entry.1.toList := by
  revert entry
  decide

theorem switch_eq_of_begins :
    ∀ entry ∈ Switch.spellings, ∀ other ∈ Switch.spellings,
      entry.1.toList <+: other.1.toList → other.2 = entry.2 := by
  decide

theorem listed_of_spelled {spelling : String} {switch : Switch}
    (found : Switch.spelled? spelling = some switch) : (spelling, switch) ∈ Switch.spellings := by
  rw [Switch.spelled?, Option.map_eq_some_iff] at found
  obtain ⟨⟨_, _⟩, found, rfl⟩ := found
  have same := List.find?_some found
  rw [decide_eq_true_iff] at same
  subst same
  exact List.mem_of_find?_eq_some found

theorem distinct_switches :
    Switch.spellings.Pairwise fun first second => first.2 ≠ second.2 := by
  decide

namespace Spells

variable {spelling : String} {switch : Switch}

theorem not_within_dashes (spells : Spells spelling switch) :
    ¬ spelling.toList <+: ['-', '-'] := by
  intro short
  have common {entry : String × Switch} (listed : entry ∈ Switch.spellings) : entry.2 = switch :=
    spells.2 entry listed (short.trans (dashes_begin listed))
  have help : Switch.help = switch := common (List.mem_cons_self)
  have time : Switch.flag .time = switch := common (show ("--time", _) ∈ _ by decide)
  rw [← help] at time
  cases time

theorem toList_eq (spells : Spells spelling switch) :
    ∃ char rest, spelling.toList = '-' :: '-' :: char :: rest := by
  obtain ⟨entry, listed, begins⟩ := spells.1
  rcases List.prefix_or_prefix_of_prefix (dashes_begin listed) begins with longer | shorter
  · obtain ⟨rest, split⟩ := longer
    cases rest with
    | nil => exact absurd ⟨[], by rw [← split]; rfl⟩ spells.not_within_dashes
    | cons char rest => exact ⟨char, rest, split.symm⟩
  · exact absurd shorter spells.not_within_dashes

theorem equals_not_mem (spells : Spells spelling switch) : '=' ∉ spelling.toList := by
  obtain ⟨entry, listed, begins⟩ := spells.1
  exact fun member => CommandLine.equals_not_mem listed (begins.subset member)

theorem candidates_eq (spells : Spells spelling switch) :
    ∃ title, Switch.candidates spelling.toList = [(title, switch)] := by
  have same : ∀ entry ∈ Switch.candidates spelling.toList, entry.2 = switch := by
    intro entry member
    obtain ⟨listed, begins⟩ := List.mem_filter.mp member
    exact spells.2 entry listed (List.isPrefixOf_iff_prefix.mp begins)
  have distinct : (Switch.candidates spelling.toList).Pairwise
      fun first second => first.2 ≠ second.2 :=
    distinct_switches.filter _
  obtain ⟨entry, listed, begins⟩ := spells.1
  have found : entry ∈ Switch.candidates spelling.toList :=
    List.mem_filter.mpr ⟨listed, List.isPrefixOf_iff_prefix.mpr begins⟩
  match all : Switch.candidates spelling.toList with
  | [] =>
      rw [all] at found
      cases found
  | [(title, other)] =>
      rw [all] at same
      cases same _ List.mem_cons_self
      exact ⟨title, rfl⟩
  | first :: second :: _ =>
      rw [all] at same distinct
      have one := same first List.mem_cons_self
      have two := same second (List.mem_cons_of_mem _ List.mem_cons_self)
      exact absurd (one.trans two.symm) (List.rel_of_pairwise_cons distinct List.mem_cons_self)

theorem of_candidates {title : String}
    (only : Switch.candidates spelling.toList = [(title, switch)]) : Spells spelling switch := by
  have member : (title, switch) ∈ Switch.candidates spelling.toList := by
    rw [only]
    exact List.mem_cons_self
  obtain ⟨listed, begins⟩ := List.mem_filter.mp member
  refine ⟨⟨_, listed, List.isPrefixOf_iff_prefix.mp begins⟩, ?_⟩
  intro entry listed begins
  have candidate : entry ∈ Switch.candidates spelling.toList :=
    List.mem_filter.mpr ⟨listed, List.isPrefixOf_iff_prefix.mpr begins⟩
  rw [only] at candidate
  rw [List.mem_singleton.mp candidate]

theorem of_listed (listed : (spelling, switch) ∈ Switch.spellings) : Spells spelling switch :=
  ⟨⟨_, listed, List.prefix_rfl⟩, switch_eq_of_begins _ listed⟩

end Spells

/-! One argument. -/

theorem splitValue_written {spelling : String} (single : '=' ∉ spelling.toList)
    (value : Option String) :
    Word.splitValue (written spelling value).toList = (spelling.toList, value) := by
  have before : ∀ char ∈ spelling.toList, decide (char ≠ '=') = true := by
    intro char member
    rw [decide_eq_true_iff]
    rintro rfl
    exact single member
  cases value with
  | none =>
      have all : spelling.toList.dropWhile (· ≠ '=') = [] :=
        List.dropWhile_eq_nil_iff.mpr before
      simp only [written, Word.splitValue, all]
  | some value =>
      have whole : (written spelling (some value)).toList =
          spelling.toList ++ '=' :: value.toList := by
        simp [written]
      have drop : (written spelling (some value)).toList.dropWhile (· ≠ '=') =
          '=' :: value.toList := by
        rw [whole, List.dropWhile_append_of_pos before]
        rfl
      have take : (written spelling (some value)).toList.takeWhile (· ≠ '=') =
          spelling.toList := by
        rw [whole, List.takeWhile_append_of_pos before]
        simp
      simp only [Word.splitValue, drop, take, String.ofList_toList]

theorem written_splitValue (argument : String) :
    written (String.ofList (Word.splitValue argument.toList).1)
      (Word.splitValue argument.toList).2 = argument := by
  have parts : argument.toList.takeWhile (· ≠ '=') ++ argument.toList.dropWhile (· ≠ '=') =
      argument.toList := List.takeWhile_append_dropWhile
  have stopped := List.head?_dropWhile_not (fun char => decide (char ≠ '=')) argument.toList
  rw [Word.splitValue]
  cases later : argument.toList.dropWhile (· ≠ '=') with
  | nil => exact String.ofList_toList
  | cons char value =>
      rw [later] at parts stopped
      have equals : char = '=' := by simpa using stopped
      subst equals
      apply String.toList_injective
      simpa [written] using parts

/-- An option is taken for what it spells, whether a value is attached to it or not. -/
theorem ofArgument_written {spelling : String} {switch : Switch} (spells : Spells spelling switch)
    (value : Option String) :
    Word.ofArgument (written spelling value) = .ok (.option switch value) := by
  obtain ⟨char, rest, dashes⟩ := spells.toList_eq
  have long : Word.ofArgument (written spelling value) = Word.ofLong (written spelling value) := by
    obtain ⟨tail, begins⟩ : ∃ tail, (written spelling value).toList = '-' :: '-' :: tail := by
      cases value <;> simp [written, dashes]
    simp only [Word.ofArgument, begins]
  obtain ⟨title, only⟩ := spells.candidates_eq
  rw [long, Word.ofLong, splitValue_written spells.equals_not_mem value]
  simp only [String.ofList_toList, only]
  cases found : Switch.spelled? spelling with
  | none => rfl
  | some other =>
      cases spells.2 _ (listed_of_spelled found) List.prefix_rfl
      rfl

inductive Word.TakenFor (argument : String) : Word → Prop
  | plain : TakenFor argument (.plain argument)
  | unknown : TakenFor argument (.unknown argument)
  | help (value : Option String) : TakenFor argument (.option .help value)
  | option {spelling switch} (value : Option String) : Spells spelling switch →
      argument = written spelling value → TakenFor argument (.option switch value)

theorem takenFor_ofUnspelled (argument : String) :
    (Word.ofUnspelled argument).TakenFor argument := by
  rw [Word.ofUnspelled]
  split
  · exact .plain
  · exact .unknown

theorem takenFor_shortHelp (argument : String) (tail : List Char) :
    (Word.shortHelp tail).TakenFor argument := by
  simp only [Word.shortHelp]
  split
  · exact .help _
  · split <;> exact .help _
  · split <;> exact .help _

theorem takenFor_ofLong {argument : String} {word : Word}
    (taken : Word.ofLong argument = .ok word) : word.TakenFor argument := by
  have whole := written_splitValue argument
  rw [Word.ofLong] at taken
  generalize Word.splitValue argument.toList = parts at taken whole
  obtain ⟨start, value⟩ := parts
  simp only at taken whole
  split at taken
  · rename_i found
    cases taken
    exact .option value (.of_listed (listed_of_spelled found)) whole.symm
  · cases taken
    exact takenFor_ofUnspelled argument
  · rename_i only
    cases taken
    rw [← String.toList_ofList (l := start)] at only
    exact .option value (.of_candidates only) whole.symm
  · cases taken

theorem takenFor_ofArgument {argument : String} {word : Word}
    (taken : Word.ofArgument argument = .ok word) : word.TakenFor argument := by
  rw [Word.ofArgument] at taken
  split at taken
  · exact takenFor_ofLong taken
  · cases taken
    exact takenFor_shortHelp argument _
  · cases taken
    exact takenFor_ofUnspelled argument
  · cases taken
    exact .plain

/-! All arguments. -/

theorem isPlain_of_head? {argument : String} (other : argument.toList.head? ≠ some '-') :
    IsPlain argument := by
  rw [IsPlain, Word.ofArgument]
  split <;> simp_all

theorem not_isPlain_dashes : ¬ IsPlain "--" := by
  intro plain
  cases plain

theorem ofArguments_cons {argument : String} {word : Word} {words : List Word}
    {rest : List String} (noDashes : argument ≠ "--") (one : Word.ofArgument argument = .ok word)
    (others : Word.ofArguments rest = .ok words) :
    Word.ofArguments (argument :: rest) = .ok (word :: words) := by
  simp only [Word.ofArguments, if_neg noDashes, one, others, Except.map]

theorem ofArguments_plain {argument : String} {words : List Word} {rest : List String}
    (plain : IsPlain argument) (others : Word.ofArguments rest = .ok words) :
    Word.ofArguments (argument :: rest) = .ok (.plain argument :: words) := by
  refine ofArguments_cons ?_ plain others
  rintro rfl
  exact not_isPlain_dashes plain

theorem ofArguments_written {spelling : String} {switch : Switch} {words : List Word}
    {rest : List String} (spells : Spells spelling switch) (value : Option String)
    (others : Word.ofArguments rest = .ok words) :
    Word.ofArguments (written spelling value :: rest) = .ok (.option switch value :: words) := by
  refine ofArguments_cons ?_ (ofArgument_written spells value) others
  intro dashes
  obtain ⟨char, tail, begins⟩ := spells.toList_eq
  have long : (written spelling value).toList.length = 2 := by
    rw [dashes]
    rfl
  cases value <;> simp [written, begins] at long

theorem ofArguments_cases {arguments : List String} {words : List Word}
    (taken : Word.ofArguments arguments = .ok words) :
    arguments = [] ∧ words = [] ∨
      (∃ rest, arguments = "--" :: rest ∧ words = .separator :: rest.map .plain) ∨
      ∃ argument rest word others, arguments = argument :: rest ∧ words = word :: others ∧
        Word.ofArgument argument = .ok word ∧ Word.ofArguments rest = .ok others := by
  cases arguments with
  | nil =>
      cases taken
      exact Or.inl ⟨rfl, rfl⟩
  | cons argument rest =>
      rw [Word.ofArguments] at taken
      split at taken
      · rename_i dashes
        cases taken
        exact Or.inr (Or.inl ⟨rest, by rw [dashes], rfl⟩)
      · split at taken
        · cases taken
        · rename_i word one
          cases behind : Word.ofArguments rest with
          | error =>
              rw [behind] at taken
              cases taken
          | ok others =>
              rw [behind] at taken
              cases taken
              exact Or.inr (Or.inr ⟨argument, rest, word, others, rfl, rfl, one, behind⟩)

theorem ofArguments_eq_plain {arguments : List String} {text : String} {words : List Word}
    (taken : Word.ofArguments arguments = .ok (.plain text :: words)) :
    ∃ rest, arguments = text :: rest ∧ IsPlain text ∧ Word.ofArguments rest = .ok words := by
  rcases ofArguments_cases taken with ⟨_, ⟨⟩⟩ | ⟨_, _, ⟨⟩⟩ | ⟨_, rest, _, _, rfl, ⟨⟩, one, behind⟩
  cases takenFor_ofArgument one
  exact ⟨rest, rfl, one, behind⟩

theorem ofArguments_eq_option {arguments : List String} {switch : Switch} {value : Option String}
    {words : List Word} (taken : Word.ofArguments arguments = .ok (.option switch value :: words))
    (noHelp : switch ≠ .help) :
    ∃ spelling rest, arguments = written spelling value :: rest ∧ Spells spelling switch ∧
      Word.ofArguments rest = .ok words := by
  rcases ofArguments_cases taken with ⟨_, ⟨⟩⟩ | ⟨_, _, ⟨⟩⟩ | ⟨_, rest, _, _, rfl, ⟨⟩, one, behind⟩
  cases takenFor_ofArgument one with
  | help => exact absurd rfl noHelp
  | option _ spells same => exact ⟨_, rest, by rw [same], spells, behind⟩

theorem ofArguments_eq_separator {arguments : List String} {words : List Word}
    (taken : Word.ofArguments arguments = .ok (.separator :: words)) :
    ∃ rest, arguments = "--" :: rest ∧ words = rest.map .plain := by
  rcases ofArguments_cases taken with ⟨_, ⟨⟩⟩ | ⟨rest, rfl, ⟨⟩⟩ | ⟨_, _, _, _, _, ⟨⟩, one, _⟩
  · exact ⟨rest, rfl, rfl⟩
  · cases takenFor_ofArgument one

/-! Reading the words. -/

namespace Settings

def take (settings : Settings) : Given → Settings
  | .flag flag => settings.setFlag flag
  | .quantity quantity amount => settings.setQuantity amount quantity

def ofGiven (given : List Given) : Settings :=
  given.foldl take {}

end Settings

namespace Progress

def take (progress : Progress) (given : List Given) : Progress :=
  { progress with settings := given.foldl Settings.take progress.settings }

theorem setQuantity_ok {value : String} {amount : Amount}
    (number : Amount.read? value = some amount) (progress : Progress) (quantity : Quantity) :
    progress.setQuantity quantity value = .ok (progress.take [.quantity quantity amount]) := by
  rw [setQuantity, number]
  rfl

end Progress

/-- Options are read one after another, whatever comes behind them. -/
theorem Options.exists_words {given : List Given} {front : List String}
    (options : Options given front) :
    ∃ words, words.head? ≠ some .separator ∧
      (∀ rest others, Word.ofArguments rest = .ok others →
        Word.ofArguments (front ++ rest) = .ok (words ++ others)) ∧
      ∀ (progress : Progress) (others : List Word),
        progress.read (words ++ others) = (progress.take given).read others := by
  induction options with
  | nil => exact ⟨[], nofun, fun _ _ taken => taken, fun _ _ => rfl⟩
  | @flag flag spelling given rest spells options ih =>
      obtain ⟨words, _, taken, read⟩ := ih
      refine ⟨.option (.flag flag) none :: words, nofun, fun after others behind => ?_, ?_⟩
      · exact ofArguments_written spells none (taken after others behind)
      · intro progress others
        rw [List.cons_append, Progress.read, read]
        rfl
  | @attached quantity spelling value amount given rest spells number options ih =>
      obtain ⟨words, _, taken, read⟩ := ih
      refine ⟨.option (.quantity quantity) (some value) :: words, nofun,
        fun after others behind => ?_, ?_⟩
      · exact ofArguments_written spells (some value) (taken after others behind)
      · intro progress others
        simp only [List.cons_append, Progress.read, Progress.setQuantity_ok number, read]
        rfl
  | @apart quantity spelling value amount given rest spells plain number options ih =>
      obtain ⟨words, _, taken, read⟩ := ih
      refine ⟨.option (.quantity quantity) none :: .plain value :: words, nofun,
        fun after others behind => ?_, ?_⟩
      · exact ofArguments_written spells none (ofArguments_plain plain (taken after others behind))
      · intro progress others
        simp only [List.cons_append, Progress.read, Progress.setQuantity_ok number, read]
        rfl

namespace Progress

variable {progress : Progress} {file : String} {settings : Settings}

theorem read_plain (progress : Progress) (text : String) {rest : List Word}
    (next : rest.head? ≠ some .separator) :
    progress.read (.plain text :: rest) = (progress.addPlain text).read rest := by
  cases rest with
  | nil => rfl
  | cons word rest =>
      cases word with
      | separator => exact absurd rfl next
      | plain | option | unknown => simp only [read]

theorem extra_addPlain {text : String} :
    (progress.addPlain text).extra = [] ↔ progress.file = none ∧ progress.extra = [] := by
  cases named : progress.file <;> simp [addPlain, addExtra, named]

theorem addPlain_eq {text : String} (unnamed : progress.file = none) :
    progress.addPlain text = { progress with file := some text } := by
  simp only [addPlain, unnamed]

theorem extra_addSeparator {besideFile : Bool} :
    (progress.addSeparator besideFile).extra = [] ↔
      besideFile = true ∧ progress.extra = [] := by
  cases besideFile <;> simp [addSeparator, addExtra]

theorem setQuantity_eq_ok {quantity : Quantity} {value : String} {after : Progress}
    (changed : progress.setQuantity quantity value = .ok after) :
    ∃ amount, Amount.read? value = some amount ∧
      after = progress.take [.quantity quantity amount] := by
  cases number : Amount.read? value with
  | none =>
      rw [setQuantity, number] at changed
      cases changed
  | some amount =>
      rw [setQuantity_ok number] at changed
      cases changed
      exact ⟨amount, rfl, rfl⟩

theorem finish_eq_run :
    progress.finish = .ok (.run file settings) ↔
      progress.file = some file ∧ progress.extra = [] ∧ progress.settings = settings := by
  cases named : progress.file with
  | none => simp [finish, named]
  | some name => by_cases placed : progress.extra = [] <;> simp [finish, named, placed]

/-- Words without a place make the whole line refused. -/
theorem extra_of_read {words : List Word}
    (accepted : progress.read words = .ok (.run file settings)) : progress.extra = [] := by
  fun_induction Progress.read progress words with
  | case1 progress => exact (finish_eq_run.mp accepted).2.1
  | case2 progress text rest ih => cases ih accepted
  | case3 progress text rest ih =>
      exact (extra_addPlain.mp (extra_addSeparator.mp (ih accepted)).2).2
  | case4 progress text rest _ ih => exact (extra_addPlain.mp (ih accepted)).2
  | case5 progress rest ih => exact (extra_addSeparator.mp (ih accepted)).2
  | case7 progress flag rest ih => exact ih accepted
  | case8 progress quantity value rest after changed ih =>
      obtain ⟨_, _, rfl⟩ := setQuantity_eq_ok changed
      exact ih accepted
  | case10 progress quantity value rest after changed ih =>
      obtain ⟨_, _, rfl⟩ := setQuantity_eq_ok changed
      exact ih accepted
  | case6 | case9 | case11 | case12 | case13 => cases accepted

theorem read_plains {texts : List String}
    (accepted : progress.read (texts.map .plain) = .ok (.run file settings)) :
    progress.settings = settings ∧
      (progress.file = some file ∧ texts = [] ∨ progress.file = none ∧ texts = [file]) := by
  have next (rest : List String) : (rest.map Word.plain).head? ≠ some .separator := by
    cases rest <;> nofun
  cases texts with
  | nil =>
      obtain ⟨named, _, same⟩ := finish_eq_run.mp accepted
      exact ⟨same, Or.inl ⟨named, rfl⟩⟩
  | cons text rest =>
      rw [List.map_cons, read_plain progress text (next rest)] at accepted
      obtain ⟨unnamed, _⟩ := extra_addPlain.mp (extra_of_read accepted)
      rw [addPlain_eq unnamed] at accepted
      cases rest with
      | nil =>
          obtain ⟨⟨⟩, _, same⟩ := finish_eq_run.mp accepted
          exact ⟨same, Or.inr ⟨unnamed, rfl⟩⟩
      | cons other rest =>
          rw [List.map_cons, read_plain _ other (next rest)] at accepted
          obtain ⟨⟨⟩, _⟩ := extra_addPlain.mp (extra_of_read accepted)

end Progress

def Progress.Leaves (progress : Progress) (file : String) (settings : Settings)
    (arguments : List String) : Prop :=
  ∃ given, (progress.take given).settings = settings ∧
    (progress.file = some file ∧ Options given arguments ∨
      progress.file = none ∧ Asks file given arguments)

theorem Options.append {first second : List Given} {front back : List String}
    (options : Options first front) (others : Options second back) :
    Options (first ++ second) (front ++ back) := by
  induction options with
  | nil => exact others
  | flag spells _ ih => exact .flag spells ih
  | attached spells number _ ih => exact .attached spells number ih
  | apart spells plain number _ ih => exact .apart spells plain number ih

theorem Asks.append {file : String} {first second : List Given} {front back : List String}
    (options : Options first front) (asks : Asks file second back) :
    Asks file (first ++ second) (front ++ back) := by
  cases asks with
  | among before plain after =>
      rw [← List.append_assoc, ← List.append_assoc]
      exact .among (options.append before) plain after
  | afterDash before =>
      rw [← List.append_assoc]
      exact .afterDash (options.append before)
  | beforeDash before plain =>
      rw [← List.append_assoc]
      exact .beforeDash (options.append before) plain

namespace Progress

variable {progress : Progress} {file : String} {settings : Settings}

theorem Leaves.append {given : List Given} {front back : List String}
    (options : Options given front) (leaves : (progress.take given).Leaves file settings back) :
    progress.Leaves file settings (front ++ back) := by
  obtain ⟨others, same, rest⟩ := leaves
  refine ⟨given ++ others, ?_, ?_⟩
  · rw [← same]
    simp only [take, List.foldl_append]
  · rcases rest with ⟨named, behind⟩ | ⟨unnamed, behind⟩
    · exact Or.inl ⟨named, options.append behind⟩
    · exact Or.inr ⟨unnamed, .append options behind⟩

theorem leaves_of_read {words : List Word}
    (accepted : progress.read words = .ok (.run file settings)) {arguments : List String}
    (taken : Word.ofArguments arguments = .ok words) :
    progress.Leaves file settings arguments := by
  fun_induction Progress.read progress words generalizing arguments with
  | case1 progress =>
      rcases ofArguments_cases taken with ⟨rfl, _⟩ | ⟨_, _, ⟨⟩⟩ | ⟨_, _, _, _, _, ⟨⟩, _⟩
      obtain ⟨named, _, same⟩ := finish_eq_run.mp accepted
      exact ⟨[], same, Or.inl ⟨named, .nil⟩⟩
  | case2 progress text rest ih => cases extra_of_read accepted
  | case3 progress text rest ih =>
      -- the file, with a double dash right behind it, and then nothing
      have placed := (extra_addSeparator.mp (extra_of_read accepted)).2
      have unnamed := (extra_addPlain.mp placed).1
      obtain ⟨_, rfl, plain, behind⟩ := ofArguments_eq_plain taken
      obtain ⟨texts, rfl, rfl⟩ := ofArguments_eq_separator behind
      rw [addPlain_eq unnamed, unnamed] at accepted
      obtain ⟨same, ⟨⟨⟩, rfl⟩ | ⟨⟨⟩, _⟩⟩ := read_plains accepted
      exact ⟨[], same, Or.inr ⟨unnamed, .beforeDash .nil plain⟩⟩
  | case4 progress text rest _ ih =>
      have unnamed := (extra_addPlain.mp (extra_of_read accepted)).1
      obtain ⟨_, rfl, plain, behind⟩ := ofArguments_eq_plain taken
      have leaves := ih accepted behind
      rw [addPlain_eq unnamed] at leaves
      obtain ⟨given, same, ⟨⟨⟩, options⟩ | ⟨⟨⟩, _⟩⟩ := leaves
      exact ⟨given, same, Or.inr ⟨unnamed, .among .nil plain options⟩⟩
  | case5 progress rest ih =>
      -- a double dash before the file
      have beside := (extra_addSeparator.mp (extra_of_read accepted)).1
      have unnamed := Option.isNone_iff_eq_none.mp beside
      obtain ⟨texts, rfl, rfl⟩ := ofArguments_eq_separator taken
      rw [unnamed] at accepted
      obtain ⟨same, ⟨named, _⟩ | ⟨_, rfl⟩⟩ := read_plains accepted
      · cases unnamed.symm.trans named
      · exact ⟨[], same, Or.inr ⟨unnamed, .afterDash .nil⟩⟩
  | case7 progress flag rest ih =>
      obtain ⟨_, _, rfl, spells, behind⟩ := ofArguments_eq_option taken nofun
      exact .append (.flag spells .nil) (ih accepted behind)
  | case8 progress quantity value rest after changed ih =>
      obtain ⟨_, number, rfl⟩ := setQuantity_eq_ok changed
      obtain ⟨_, _, rfl, spells, behind⟩ := ofArguments_eq_option taken nofun
      exact .append (.attached spells number .nil) (ih accepted behind)
  | case10 progress quantity value rest after changed ih =>
      -- the value is an argument of its own
      obtain ⟨_, number, rfl⟩ := setQuantity_eq_ok changed
      obtain ⟨_, _, rfl, spells, behind⟩ := ofArguments_eq_option taken nofun
      obtain ⟨_, rfl, plain, later⟩ := ofArguments_eq_plain behind
      exact .append (.apart spells plain number .nil) (ih accepted later)
  | case6 | case9 | case11 | case12 | case13 => cases accepted

end Progress

theorem Asks.readArguments_eq {file : String} {given : List Given} {arguments : List String}
    (asks : Asks file given arguments) :
    readArguments arguments = .ok (.run file (Settings.ofGiven given)) := by
  rw [readArguments]
  cases asks with
  | @among before after front back options plain others =>
      obtain ⟨words, _, taken, read⟩ := options.exists_words
      obtain ⟨more, begins, also, readOn⟩ := others.exists_words
      have behind := also [] [] rfl
      have whole := taken _ _ (ofArguments_plain plain behind)
      rw [List.append_nil, List.append_nil] at whole
      rw [whole]
      simp only
      rw [read, Progress.read_plain _ _ begins, ← List.append_nil more, readOn]
      simp [Progress.take, Progress.addPlain, Progress.read, Progress.finish, Settings.ofGiven]
  | afterDash options =>
      obtain ⟨words, _, taken, read⟩ := options.exists_words
      rw [taken ["--", file] [.separator, .plain file] rfl]
      exact read {} _
  | beforeDash options plain =>
      obtain ⟨words, _, taken, read⟩ := options.exists_words
      rw [taken [file, "--"] [.plain file, .separator] (ofArguments_plain plain rfl)]
      exact read {} _

/-- The command lines that are taken, and the settings that they ask for. -/
theorem readArguments_eq_run_iff {arguments : List String} {file : String} {settings : Settings} :
    readArguments arguments = .ok (.run file settings) ↔
      ∃ given, Asks file given arguments ∧ Settings.ofGiven given = settings := by
  constructor
  · intro accepted
    rw [readArguments] at accepted
    cases taken : Word.ofArguments arguments with
    | error =>
        rw [taken] at accepted
        cases accepted
    | ok words =>
        rw [taken] at accepted
        obtain ⟨given, same, ⟨⟨⟩, _⟩ | ⟨_, asks⟩⟩ := Progress.leaves_of_read accepted taken
        exact ⟨given, asks, same⟩
  · rintro ⟨given, asks, rfl⟩
    exact asks.readArguments_eq

/-! What the settings are. -/

namespace Settings

def isSet (settings : Settings) : Flag → Bool
  | .fixedPoint => settings.fixedPoint
  | .noOptimize => !settings.optimize
  | .strict => settings.strict
  | .noTree => !settings.showTree
  | .time => settings.showTimes
  | .strip => settings.strip

def amount? (settings : Settings) : Quantity → Option Amount
  | .passes => some settings.passes
  | .maxSteps => settings.stepLimit
  | .dumpTape => some settings.tapeWidth

theorem isSet_take (settings : Settings) (given : Given) (flag : Flag) :
    (settings.take given).isSet flag = (settings.isSet flag || decide (given = .flag flag)) := by
  cases given with
  | flag other => cases other <;> cases flag <;> simp [take, setFlag, isSet]
  | quantity other amount => cases other <;> cases flag <;> simp [take, setQuantity, isSet]

theorem isSet_foldl (given : List Given) (settings : Settings) (flag : Flag) :
    (given.foldl take settings).isSet flag =
      (settings.isSet flag || decide (.flag flag ∈ given)) := by
  induction given generalizing settings with
  | nil => simp
  | cons first rest ih => simp [ih, isSet_take, eq_comm, Bool.or_assoc]

theorem isSet_ofGiven (given : List Given) (flag : Flag) :
    (ofGiven given).isSet flag = decide (.flag flag ∈ given) := by
  rw [ofGiven, isSet_foldl]
  cases flag <;> rfl

theorem strip_ofGiven {given : List Given} (absent : .flag .strip ∉ given) :
    (ofGiven given).strip = false :=
  (isSet_ofGiven given .strip).trans (decide_eq_false absent)

theorem showTimes_ofGiven {given : List Given} (absent : .flag .time ∉ given) :
    (ofGiven given).showTimes = false :=
  (isSet_ofGiven given .time).trans (decide_eq_false absent)

theorem showTree_ofGiven (given : List Given) :
    (ofGiven given).showTree = decide (.flag .noTree ∉ given) := by
  rw [decide_not, ← isSet_ofGiven, isSet, Bool.not_not]

theorem optimize_ofGiven (given : List Given) :
    (ofGiven given).optimize = decide (.flag .noOptimize ∉ given) := by
  rw [decide_not, ← isSet_ofGiven, isSet, Bool.not_not]

theorem amount?_take (settings : Settings) (given : Given) (quantity : Quantity) :
    (settings.take given).amount? quantity =
      (given.amount? quantity).or (settings.amount? quantity) := by
  cases given with
  | flag flag => cases flag <;> cases quantity <;> rfl
  | quantity other amount => cases other <;> cases quantity <;> rfl

theorem amount?_foldl (given : List Given) (settings : Settings) (quantity : Quantity) :
    (given.foldl take settings).amount? quantity =
      (lastAmount? quantity given).or (settings.amount? quantity) := by
  induction given generalizing settings with
  | nil => rfl
  | cons first rest ih =>
      have last : lastAmount? quantity (first :: rest) =
          (lastAmount? quantity rest).or (first.amount? quantity) := by
        rw [lastAmount?, List.filterMap_cons]
        cases first.amount? quantity <;> simp [lastAmount?, List.getLast?_cons]
      rw [List.foldl_cons, ih, amount?_take, last, Option.or_assoc]

theorem passes_ofGiven (given : List Given) :
    (ofGiven given).passes = (lastAmount? .passes given).getD (.number defaultPasses) :=
  Option.some.inj ((amount?_foldl given {} .passes).trans Option.or_some)

theorem stepLimit_ofGiven (given : List Given) :
    (ofGiven given).stepLimit = lastAmount? .maxSteps given :=
  (amount?_foldl given {} .maxSteps).trans Option.or_none

theorem tapeWidth_ofGiven (given : List Given) :
    (ofGiven given).tapeWidth = (lastAmount? .dumpTape given).getD (.number 0) :=
  Option.some.inj ((amount?_foldl given {} .dumpTape).trans Option.or_some)

end Settings

end TapeTree.CommandLine
