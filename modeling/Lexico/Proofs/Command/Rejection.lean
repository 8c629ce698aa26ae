import Lexico.Proofs.Command.Options

/-!
# Arguments that ask for no run

Items are taken off the front of the arguments for as long as there is one, with one file among them
at most. What has been taken in the end is the longest run of items in front (`LongestItems`), and
the outcome of arguments that ask for no run is decided right behind it: by the next argument, for
`-o` by the one after that as well, or by the lack of a file where nothing is left (`Decides`).

    parse args = outcome ↔ Decides items rest outcome

What stands farther behind has no say. So more arguments change nothing, unless they supply what was
missing at the end.
-/

namespace Lexico.Options

/-- The items are the longest ones in front of the arguments that name one file at most, and `rest`
is what follows them. -/
structure LongestItems (args : List String) (items : List Item) (rest : List String) : Prop where
  args_eq : args = items.flatMap Item.args ++ rest
  one_file : (files items).length ≤ 1
  longest : ∀ items' rest', args = items'.flatMap Item.args ++ rest' →
    (files items').length ≤ 1 →
      (items'.flatMap Item.args).length ≤ (items.flatMap Item.args).length

/-- What follows the items decides the outcome. -/
inductive Decides (items : List Item) : List String → Except UsageError Command → Prop
  | missingFile : files items = [] → Decides items [] (.error .missingFile)
  | help {arg rest} : arg = "-h" ∨ arg = "--help" → Decides items (arg :: rest) (.ok .help)
  | missingReportPath {rest} : (∀ path, rest.head? = some path → isDashed path = true) →
      Decides items ("-o" :: rest) (.error .missingReportPath)
  | unknownOption {arg rest} : isDashed arg = true → arg ∉ ["-h", "--help", "-o"] →
      Decides items (arg :: rest) (.error (.unknownOption arg))
  | unexpectedArgument {arg rest} : isDashed arg = false → files items ≠ [] →
      Decides items (arg :: rest) (.error (.unexpectedArgument arg))

/-! ### The longest items -/

theorem Item.args_ne_nil (item : Item) : item.args ≠ [] := by
  cases item <;> exact List.cons_ne_nil _ _

/-- Arguments have one item in front at most. -/
theorem Item.args_append_inj {i j : Item} {r r' : List String} (h : i.args ++ r = j.args ++ r') :
    i = j ∧ r = r' := by
  -- A file is no option, so the first argument tells the kind of the item.
  have hfile {p : Plain} {option : String} (hdash : isDashed option = true) {r r' : List String} :
      p.val :: r ≠ option :: r' :=
    fun heq => p.ne hdash (List.cons.inj heq).1
  have hstats : isDashed "--stats" = true := by decide
  have hcomments : isDashed "--no-comments" = true := by decide
  have hreport : isDashed "-o" = true := by decide
  cases i <;> cases j <;>
    simp only [Item.args, List.cons_append, List.nil_append] at h
  case noComments.noComments | stats.stats => exact ⟨rfl, (List.cons.inj h).2⟩
  case report.report p q =>
    obtain ⟨hpath, hrest⟩ := List.cons.inj (List.cons.inj h).2
    exact ⟨congrArg Item.report (Subtype.ext hpath), hrest⟩
  case file.file p q =>
    obtain ⟨hpath, hrest⟩ := List.cons.inj h
    exact ⟨congrArg Item.file (Subtype.ext hpath), hrest⟩
  case file.noComments => exact absurd h (hfile hcomments)
  case file.stats => exact absurd h (hfile hstats)
  case file.report => exact absurd h (hfile hreport)
  case noComments.file => exact absurd h.symm (hfile hcomments)
  case stats.file => exact absurd h.symm (hfile hstats)
  case report.file => exact absurd h.symm (hfile hreport)
  all_goals exact absurd (List.cons.inj h).1 (by decide)

/-- What is set names one file at most. -/
theorem takes_nil (d : Draft) : d.Takes [] := by
  cases hfile : d.file <;> simp [Draft.Takes, hfile]

/-- An item that names no file can be taken. -/
theorem takes_of_file?_eq_none {d : Draft} {item : Item} (h : item.file? = none) :
    d.Takes [item] := by
  cases hfile : d.file <;> simp [Draft.Takes, hfile, h]

theorem takes_snoc {d : Draft} {items : List Item} {item : Item} :
    d.Takes (items ++ [item]) ↔ d.Takes items ∧ (items.foldl Draft.add d).Takes [item] := by
  induction items generalizing d with
  | nil => exact (and_iff_right (takes_nil d)).symm
  | cons i items ih =>
    have hsplit : d.Takes (i :: items) ↔ _ := takes_cons
    rw [List.cons_append, takes_cons, hsplit, ih, and_assoc]
    rfl

/-- No item in front of the arguments can be taken any more. -/
def Draft.Stuck (d : Draft) (args : List String) : Prop :=
  ∀ item rest, args = item.args ++ rest → ¬ d.Takes [item]

/-- Items can be taken until no more can. -/
theorem exists_stuck (d : Draft) (args : List String) :
    ∃ items rest, args = items.flatMap Item.args ++ rest ∧ d.Takes items ∧
      (items.foldl Draft.add d).Stuck rest := by
  induction hn : args.length using Nat.strongRecOn generalizing d args with
  | ind n ih =>
    by_cases hstuck : d.Stuck args
    · exact ⟨[], args, rfl, takes_nil d, hstuck⟩
    · simp only [Draft.Stuck, Classical.not_forall, Classical.not_not] at hstuck
      obtain ⟨item, rest, rfl, htakes⟩ := hstuck
      have hpos := List.length_pos_iff.mpr item.args_ne_nil
      have hlen : rest.length < n := by
        rw [← hn, List.length_append]
        omega
      obtain ⟨items, rest', rfl, hitems, hend⟩ := ih rest.length hlen (d.add item) rest rfl
      refine ⟨item :: items, rest', ?_, takes_cons.mpr ⟨htakes, hitems⟩, hend⟩
      rw [List.flatMap_cons, List.append_assoc]

/-- Where no more can be taken, no other items reach farther. -/
theorem length_le_of_stuck {d : Draft} {items items' : List Item} {rest rest' : List String}
    (hstuck : (items.foldl Draft.add d).Stuck rest) (htakes : d.Takes items')
    (h : items.flatMap Item.args ++ rest = items'.flatMap Item.args ++ rest') :
    (items'.flatMap Item.args).length ≤ (items.flatMap Item.args).length := by
  induction items generalizing d items' with
  | nil =>
    cases items' with
    | nil => exact Nat.le_refl _
    | cons item items' =>
      rw [List.flatMap_nil, List.nil_append, List.flatMap_cons, List.append_assoc] at h
      exact absurd (takes_cons.mp htakes).1 (hstuck item _ h)
  | cons item items ih =>
    cases items' with
    | nil => exact Nat.zero_le _
    | cons item' items' =>
      rw [List.flatMap_cons, List.flatMap_cons, List.append_assoc, List.append_assoc] at h
      obtain ⟨rfl, hrest⟩ := Item.args_append_inj h
      rw [List.flatMap_cons, List.flatMap_cons, List.length_append, List.length_append]
      exact Nat.add_le_add_left (ih hstuck (takes_cons.mp htakes).2 hrest) _

theorem exists_longestItems (args : List String) : ∃ items rest, LongestItems args items rest := by
  obtain ⟨items, rest, rfl, htakes, hstuck⟩ := exists_stuck .empty args
  exact ⟨items, rest, rfl, htakes, fun _ _ h h' => length_le_of_stuck hstuck h' h⟩

/-- Behind the longest items no more can be taken. -/
theorem LongestItems.stuck {args rest : List String} {items : List Item}
    (h : LongestItems args items rest) : (items.foldl Draft.add .empty).Stuck rest := by
  rintro item rest' rfl htakes
  have hmore : args = (items ++ [item]).flatMap Item.args ++ rest' := by
    rw [h.args_eq, List.flatMap_append, List.flatMap_singleton, List.append_assoc]
  have hone : Draft.empty.Takes (items ++ [item]) := takes_snoc.mpr ⟨h.one_file, htakes⟩
  have hle := h.longest _ _ hmore hone
  rw [List.flatMap_append, List.flatMap_singleton, List.length_append] at hle
  have hpos := List.length_pos_iff.mpr item.args_ne_nil
  omega

/-! ### What follows them -/

/-- Only the option that takes a path has a part in front. -/
theorem Item.eq_of_append {item : Item} {args v : List String} (h : item.args = args ++ v)
    (hargs : args ≠ []) (hv : v ≠ []) : args = ["-o"] := by
  obtain ⟨arg, args, rfl⟩ := List.exists_cons_of_ne_nil hargs
  obtain ⟨a, v, rfl⟩ := List.exists_cons_of_ne_nil hv
  cases item with
  | report path =>
    obtain ⟨rfl, htail⟩ := List.cons.inj h
    cases args with
    | nil => rfl
    | cons b args => simp at htail
  | noComments | stats | file path => simp [Item.args] at h

/-- Arguments behind others do not bring back an item in front, unless it lacked its path. -/
theorem Draft.Stuck.append {d : Draft} {args : List String} (h : d.Stuck args) (hne : args ≠ [])
    (hpath : args ≠ ["-o"]) (more : List String) : d.Stuck (args ++ more) := by
  intro item rest heq
  rcases List.append_eq_append_iff.mp heq with ⟨v, hitem, -⟩ | ⟨v, hargs, -⟩
  · by_cases hv : v = []
    · rw [hv, List.append_nil] at hitem
      exact h item [] (by rw [List.append_nil, hitem])
    · exact absurd (Item.eq_of_append hitem hne hv) hpath
  · exact h item v hargs

/-- A file is set just when an item names one. -/
theorem isSome_file_foldl {items : List Item} :
    (items.foldl Draft.add .empty).file.isSome = true ↔ files items ≠ [] := by
  rw [file_foldl, Draft.empty, Option.or_none]
  cases files items <;> simp

/-- Where no item can be taken, the outcome is decided, or nothing is left and a run is asked
for. -/
theorem decides_of_stuck {items : List Item} {rest : List String}
    (hstuck : (items.foldl Draft.add .empty).Stuck rest) :
    (rest = [] ∧ ∃ o, parseAfter (items.foldl Draft.add .empty) rest = .ok (.analyze o)) ∨
      Decides items rest (parseAfter (items.foldl Draft.add .empty) rest) := by
  have hfile : (items.foldl Draft.add .empty).file.isSome = true ↔ _ := isSome_file_foldl
  generalize items.foldl Draft.add .empty = d at hstuck hfile
  -- A branch that reads on has taken an item.
  fun_cases parseAfter d rest with
  | case1 file hd => exact .inl ⟨rfl, _, rfl⟩
  | case2 hd =>
    refine .inr (.missingFile ?_)
    rw [hd] at hfile
    exact Classical.not_not.mp fun hne => Bool.false_ne_true (hfile.mpr hne)
  | case3 arg rest hhelp => exact .inr (.help (by simpa using hhelp))
  | case4 rest => exact absurd (takes_of_file?_eq_none rfl) (hstuck .noComments rest rfl)
  | case5 rest => exact absurd (takes_of_file?_eq_none rfl) (hstuck .stats rest rfl)
  | case6 => exact .inr (.missingReportPath nofun)
  | case7 path rest hdash =>
    refine .inr (.missingReportPath ?_)
    intro path' hpath
    cases hpath
    exact hdash
  | case8 path rest hdash =>
    exact absurd (takes_of_file?_eq_none rfl)
      (hstuck (.report ⟨path, eq_false_of_ne_true hdash⟩) rest rfl)
  | case9 arg rest hhelp _ _ hpath hdash =>
    refine .inr (.unknownOption hdash ?_)
    simpa [hpath] using hhelp
  | case10 arg rest _ _ _ _ hdash hd =>
    exact .inr (.unexpectedArgument (eq_false_of_ne_true hdash) (hfile.mp hd))
  | case11 arg rest _ _ _ _ hdash hd =>
    refine absurd ?_ (hstuck (.file ⟨arg, eq_false_of_ne_true hdash⟩) rest rfl)
    simp [Draft.Takes, Option.not_isSome_iff_eq_none.mp hd, Item.file?]

/-- The outcome is decided in one way. -/
theorem Decides.unique {items : List Item} {rest : List String}
    {outcome outcome' : Except UsageError Command} (h : Decides items rest outcome)
    (h' : Decides items rest outcome') : outcome = outcome' := by
  cases h with
  | missingFile => cases h'; rfl
  | help hhelp =>
    cases h' with
    | help => rfl
    | missingReportPath => simp at hhelp
    | unknownOption _ hother => rcases hhelp with rfl | rfl <;> simp at hother
    | unexpectedArgument hplain => rcases hhelp with rfl | rfl <;> cases hplain
  | missingReportPath =>
    cases h' with
    | help hhelp => simp at hhelp
    | missingReportPath => rfl
    | unknownOption _ hother => simp at hother
    | unexpectedArgument hplain => cases hplain
  | unknownOption hdash hother =>
    cases h' with
    | help hhelp => rcases hhelp with rfl | rfl <;> simp at hother
    | missingReportPath => simp at hother
    | unknownOption => rfl
    | unexpectedArgument hplain => rw [hdash] at hplain; cases hplain
  | unexpectedArgument hplain =>
    cases h' with
    | help hhelp => rcases hhelp with rfl | rfl <;> cases hplain
    | missingReportPath => cases hplain
    | unknownOption hdash => rw [hdash] at hplain; cases hplain
    | unexpectedArgument => rfl

theorem Decides.of_nil {items : List Item} {outcome : Except UsageError Command}
    (h : Decides items [] outcome) : outcome = .error .missingFile := by
  cases h
  rfl

/-- More arguments decide nothing else, where one has decided. -/
theorem Decides.append {items : List Item} {rest : List String}
    {outcome : Except UsageError Command} (h : Decides items rest outcome) (hne : rest ≠ [])
    (hpath : rest ≠ ["-o"]) (more : List String) : Decides items (rest ++ more) outcome := by
  cases h with
  | missingFile => exact absurd rfl hne
  | help hhelp => exact .help hhelp
  | @missingReportPath rest hdash =>
    refine .missingReportPath ?_
    cases rest with
    | nil => exact absurd rfl hpath
    | cons path rest => exact hdash
  | unknownOption hdash hother => exact .unknownOption hdash hother
  | unexpectedArgument hplain hfile => exact .unexpectedArgument hplain hfile

/-! ### Arguments that ask for no run -/

/-- The items in front are read before what follows them is. -/
theorem LongestItems.parse_append {args rest : List String} {items : List Item}
    (h : LongestItems args items rest) (more : List String) :
    parse (args ++ more) = parseAfter (items.foldl Draft.add .empty) (rest ++ more) := by
  have htakes : Draft.empty.Takes items := h.one_file
  rw [h.args_eq, List.append_assoc]
  exact parseAfter_items htakes (rest ++ more)

/-- **The first decisive argument wins.** Arguments that ask for no run have longest items in front,
and what follows these decides the outcome. No further argument changes it, but for a missing file
and for the path that is missing behind a last `-o`. -/
theorem parse_rejected {args : List String} (h : ∀ o, parse args ≠ .ok (.analyze o)) :
    (∃ items rest, LongestItems args items rest) ∧
    ∀ items rest, LongestItems args items rest →
      (∀ outcome, parse args = outcome ↔ Decides items rest outcome) ∧
      ∀ more, parse args ≠ .error .missingFile → rest ≠ ["-o"] →
        parse (args ++ more) = parse args := by
  refine ⟨exists_longestItems args, ?_⟩
  intro items rest hitems
  have hparse := hitems.parse_append []
  rw [List.append_nil, List.append_nil] at hparse
  have hdecides : Decides items rest (parse args) := by
    rcases decides_of_stuck hitems.stuck with ⟨-, o, ho⟩ | hdecides
    · exact absurd (hparse.trans ho) (h o)
    · rwa [hparse]
  refine ⟨?_, ?_⟩
  · intro outcome
    constructor
    · rintro rfl
      exact hdecides
    · exact hdecides.unique
  · intro more hfile hpath
    have hne : rest ≠ [] := by
      rintro rfl
      exact hfile hdecides.of_nil
    rcases decides_of_stuck (hitems.stuck.append hne hpath more) with ⟨hnil, -⟩ | hmore
    · exact absurd (List.append_eq_nil_iff.mp hnil).1 hne
    · rw [hitems.parse_append more]
      exact hmore.unique (hdecides.append hne hpath more)

/-- The path that is missing in front of `-h` stays missing, whatever else is said. -/
theorem parse_rejected_dash :
    let args := ["--stats", "a", "-o", "-h"]
    (∀ o, parse args ≠ .ok (.analyze o)) ∧
      ∃ items rest, LongestItems args items rest ∧
        Decides items rest (.error .missingReportPath) ∧
        ∀ more, parse (args ++ more) = .error .missingReportPath := by
  intro args
  have hparse : parse args = .error .missingReportPath := rfl
  have hrejected : ∀ o, parse args ≠ .ok (.analyze o) := by
    rw [hparse]
    exact nofun
  obtain ⟨⟨items, rest, hitems⟩, hall⟩ := parse_rejected hrejected
  obtain ⟨hdecides, hmore⟩ := hall items rest hitems
  have hpath : rest ≠ ["-o"] := by
    rintro rfl
    -- The last argument is another one.
    have hlast := congrArg List.getLast? hitems.args_eq
    rw [List.getLast?_concat] at hlast
    exact absurd hlast (by decide)
  refine ⟨hrejected, items, rest, hitems, (hdecides _).mp hparse, ?_⟩
  intro more
  rw [hmore more (by rw [hparse]; nofun) hpath, hparse]

end Lexico.Options
