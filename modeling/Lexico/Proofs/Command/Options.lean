import Lexico.Command.Options

/-!
# The grammar of arguments

Arguments that ask for a run are cut into **items**: a flag, `-o` with the path of a report, or the
file to analyse. The reader takes the arguments item by item (`parseAfter_items`), and what it
accepts was cut into items (`exists_items`). The two give

    parse_eq_analyze_iff : parse args = .ok (.analyze o) ↔
      ∃ items, args = items.flatMap Item.args ∧ Describes items o

where `Describes` says what the items set, whatever their order.
-/

namespace Lexico.Options

/-- An argument that is not taken for an option. -/
abbrev Plain := { arg : String // isDashed arg = false }

/-- What an argument, or `-o` and the argument behind it, asks for. -/
inductive Item where
  | noComments
  | stats
  | report (path : Plain)
  | file (path : Plain)
  deriving DecidableEq

namespace Item

/-- The arguments of an item. -/
def args : Item → List String
  | noComments => ["--no-comments"]
  | stats => ["--stats"]
  | report path => ["-o", path]
  | file path => [path]

/-- The file that an item names. -/
def file? : Item → Option String
  | file path => some path
  | _ => none

/-- The path of the report that an item names. -/
def report? : Item → Option String
  | report path => some path
  | _ => none

end Item

/-- The files that items name. -/
def files (items : List Item) : List String := items.filterMap Item.file?

/-- The reports that items name. -/
def reports (items : List Item) : List String := items.filterMap Item.report?

@[simp] theorem files_nil : files [] = [] := rfl

@[simp] theorem files_cons (item : Item) (items : List Item) :
    files (item :: items) = item.file?.toList ++ files items := by
  cases item <;> rfl

/-- The items set the options: one of them is the file, a flag is set that is among them, and the
last report counts. -/
structure Describes (items : List Item) (o : Options) : Prop where
  files_eq : files items = [o.file]
  noComments_iff : o.noComments = true ↔ .noComments ∈ items
  stats_iff : o.stats = true ↔ .stats ∈ items
  report_eq : o.report = (reports items).getLast?

/-! ### One item -/

/-- What an item sets. -/
def Draft.add (d : Draft) : Item → Draft
  | .noComments => { d with noComments := true }
  | .stats => { d with stats := true }
  | .report path => { d with report := some path.val }
  | .file path => { d with file := some path.val }

/-- What is set and the items together name one file at most. -/
def Draft.Takes (d : Draft) (items : List Item) : Prop :=
  (d.file.toList ++ files items).length ≤ 1

theorem Plain.ne (p : Plain) {option : String} (h : isDashed option = true) : p.val ≠ option := by
  intro heq
  have hp := p.property
  rw [heq, h] at hp
  cases hp

/-- A plain argument names the file, or one file too many. -/
theorem parseAfter_plain (d : Draft) (p : Plain) (rest : List String) :
    parseAfter d (p.val :: rest) =
      if d.file.isSome then .error (.unexpectedArgument p.val)
      else parseAfter { d with file := some p.val } rest := by
  have hhelp : (p.val = "-h" || p.val = "--help") = false := by
    simp only [p.ne (show isDashed "-h" = true by decide),
      p.ne (show isDashed "--help" = true by decide), decide_false, Bool.or_false]
  rw [parseAfter.eq_def]
  simp only [hhelp, p.ne (show isDashed "--no-comments" = true by decide),
    p.ne (show isDashed "--stats" = true by decide), p.ne (show isDashed "-o" = true by decide),
    p.property, Bool.false_eq_true, if_false]

/-- **An item is read as a whole**, unless it names a second file. -/
theorem parseAfter_item {d : Draft} {item : Item} (h : d.Takes [item])
    (rest : List String) : parseAfter d (item.args ++ rest) = parseAfter (d.add item) rest := by
  cases item with
  | noComments =>
    show parseAfter d ("--no-comments" :: rest) = _
    rw [parseAfter.eq_def]
    simp [Draft.add]
  | stats =>
    show parseAfter d ("--stats" :: rest) = _
    rw [parseAfter.eq_def]
    simp [Draft.add]
  | report path =>
    show parseAfter d ("-o" :: path.val :: rest) = _
    rw [parseAfter.eq_def]
    simp [Draft.add, path.property]
  | file path =>
    show parseAfter d (path.val :: rest) = _
    cases hfile : d.file with
    | none =>
      rw [parseAfter_plain, hfile]
      rfl
    | some file => simp [Draft.Takes, hfile, Item.file?] at h

/-! ### What items set -/

section

variable (d : Draft) (items : List Item)

/-- What each item may set anew is what the last item says of it. -/
theorem foldl_add_option {field : Draft → Option String} {name? : Item → Option String}
    (h : ∀ d item, field (d.add item) = (name? item).or (field d)) :
    field (items.foldl Draft.add d) = (items.filterMap name?).getLast?.or (field d) := by
  induction items generalizing d with
  | nil => rfl
  | cons item items ih =>
    rw [List.foldl_cons, ih, h, List.filterMap_cons]
    cases name? item with
    | none => rfl
    | some name =>
      rw [List.getLast?_cons]
      cases (items.filterMap name?).getLast? <;> rfl

/-- What one item sets for good is set if that item is there. -/
theorem foldl_add_flag {field : Draft → Bool} {flag : Item}
    (h : ∀ d item, field (d.add item) = (field d || decide (item = flag))) :
    field (items.foldl Draft.add d) = (field d || decide (flag ∈ items)) := by
  induction items generalizing d with
  | nil => simp
  | cons item items ih =>
    rw [List.foldl_cons, ih, h, Bool.or_assoc, ← Bool.decide_or]
    simp [eq_comm]

theorem file_foldl : (items.foldl Draft.add d).file = (files items).getLast?.or d.file :=
  foldl_add_option d items fun _ item => by cases item <;> rfl

theorem report_foldl : (items.foldl Draft.add d).report = (reports items).getLast?.or d.report :=
  foldl_add_option d items fun _ item => by cases item <;> rfl

theorem noComments_foldl :
    (items.foldl Draft.add d).noComments = (d.noComments || decide (.noComments ∈ items)) :=
  foldl_add_flag d items fun _ item => by cases item <;> simp [Draft.add]

theorem stats_foldl :
    (items.foldl Draft.add d).stats = (d.stats || decide (.stats ∈ items)) :=
  foldl_add_flag d items fun _ item => by cases item <;> simp [Draft.add]

end

/-! ### Many items -/

theorem takes_cons {d : Draft} {item : Item} {items : List Item} :
    d.Takes (item :: items) ↔ d.Takes [item] ∧ (d.add item).Takes items := by
  cases item <;> cases hfile : d.file <;>
    simp [Draft.Takes, Item.file?, Draft.add, hfile]

/-- Items with at most one file among them are read one after the other. -/
theorem parseAfter_items {d : Draft} {items : List Item} (h : d.Takes items) (rest : List String) :
    parseAfter d (items.flatMap Item.args ++ rest) =
      parseAfter (items.foldl Draft.add d) rest := by
  induction items generalizing d with
  | nil => rfl
  | cons item items ih =>
    obtain ⟨hitem, hitems⟩ := takes_cons.mp h
    rw [List.flatMap_cons, List.append_assoc, parseAfter_item hitem, ih hitems, List.foldl_cons]

theorem parseAfter_nil_iff {d : Draft} {o : Options} :
    parseAfter d [] = .ok (.analyze o) ↔
      d.file = some o.file ∧ d.noComments = o.noComments ∧ d.stats = o.stats ∧
        d.report = o.report := by
  obtain ⟨file, noComments, stats, report⟩ := d
  obtain ⟨file', noComments', stats', report'⟩ := o
  cases file with
  | none => exact ⟨nofun, nofun⟩
  | some file => simp [parseAfter]

/-- Nothing is set before the first argument. -/
def Draft.empty : Draft := ⟨none, false, false, none⟩

theorem getLast?_eq_some_iff {α : Type} {as : List α} {a : α} (h : as.length ≤ 1) :
    as.getLast? = some a ↔ as = [a] := by
  match as with
  | [] => exact ⟨nofun, nofun⟩
  | [b] => simp
  | _ :: _ :: _ => simp at h

/-- **Items with one file at most** ask for what they describe. -/
theorem parse_items_iff {items : List Item} (h : Draft.empty.Takes items) {o : Options} :
    parse (items.flatMap Item.args) = .ok (.analyze o) ↔ Describes items o := by
  have hread := parseAfter_items h []
  rw [List.append_nil] at hread
  show parseAfter .empty _ = _ ↔ _
  rw [hread, parseAfter_nil_iff, file_foldl, noComments_foldl, stats_foldl, report_foldl]
  have hfiles : (files items).length ≤ 1 := h
  simp only [Draft.empty, Option.or_none, Bool.false_or, getLast?_eq_some_iff hfiles]
  constructor
  · rintro ⟨hfile, hcomments, hstats, hreport⟩
    exact ⟨hfile, by simp [← hcomments], by simp [← hstats], hreport.symm⟩
  · rintro ⟨hfile, hcomments, hstats, hreport⟩
    exact ⟨hfile, by simp [← hcomments], by simp [← hstats], hreport.symm⟩

/-! ### What is accepted -/

/-- **What is accepted was cut into items**, with one file at most. -/
theorem exists_items {d : Draft} {args : List String} {o : Options}
    (h : parseAfter d args = .ok (.analyze o)) :
    ∃ items, args = items.flatMap Item.args ∧ d.Takes items := by
  -- Each argument that is read on from is an item, or the two of a report.
  fun_induction parseAfter d args with
  | case1 d file hfile => exact ⟨[], rfl, by simp [Draft.Takes, hfile]⟩
  | case4 d rest _ ih =>
    obtain ⟨items, rfl, htakes⟩ := ih h
    exact ⟨.noComments :: items, rfl, htakes⟩
  | case5 d rest _ _ ih =>
    obtain ⟨items, rfl, htakes⟩ := ih h
    exact ⟨.stats :: items, rfl, htakes⟩
  | case8 d path rest hplain _ _ _ ih =>
    obtain ⟨items, rfl, htakes⟩ := ih h
    exact ⟨.report ⟨path, eq_false_of_ne_true hplain⟩ :: items, rfl, htakes⟩
  | case11 d path rest _ _ _ _ hplain hfile ih =>
    obtain ⟨items, rfl, htakes⟩ := ih h
    refine ⟨.file ⟨path, eq_false_of_ne_true hplain⟩ :: items, rfl, takes_cons.mpr ⟨?_, htakes⟩⟩
    simp [Draft.Takes, Option.not_isSome_iff_eq_none.mp hfile, Item.file?]
  | case2 | case3 | case6 | case7 | case9 | case10 => cases h

theorem Describes.takes {items : List Item} {o : Options} (h : Describes items o) :
    Draft.empty.Takes items := by
  show (files items).length ≤ 1
  rw [h.files_eq]
  exact Nat.le_refl 1

theorem parse_eq_analyze_iff {args : List String} {o : Options} :
    parse args = .ok (.analyze o) ↔
      ∃ items, args = items.flatMap Item.args ∧ Describes items o := by
  constructor
  · intro h
    obtain ⟨items, rfl, htakes⟩ := exists_items h
    exact ⟨items, rfl, (parse_items_iff htakes).mp h⟩
  · rintro ⟨items, rfl, h⟩
    exact (parse_items_iff h.takes).mpr h

/-! ### Any order -/

/-- The items that ask for a run, each flag as often as is said. -/
def arrangement (file : Plain) (report : Option Plain) (noComments stats : Nat) : List Item :=
  .file file :: (report.toList.map .report ++ List.replicate noComments .noComments ++
    List.replicate stats .stats)

variable {file : Plain} {report : Option Plain} {noComments stats : Nat} {items : List Item}

/-- Flags name nothing, so what is named is the file and the report. -/
theorem filterMap_arrangement {f : Item → Option String} (hcomments : f .noComments = none)
    (hstats : f .stats = none) :
    (arrangement file report noComments stats).filterMap f =
      ((f (.file file)).toList ++ report.toList.filterMap fun path => f (.report path)) := by
  rw [arrangement, List.filterMap_cons, List.filterMap_append, List.filterMap_append,
    List.filterMap_replicate_of_none hcomments, List.filterMap_replicate_of_none hstats,
    List.append_nil, List.append_nil, List.filterMap_map]
  cases f (.file file) <;> rfl

theorem describes_of_perm (h : items.Perm (arrangement file report noComments stats)) :
    Describes items
      ⟨file, decide (0 < noComments), decide (0 < stats), report.map Subtype.val⟩ := by
  have hfiles : (files items).Perm _ := h.filterMap Item.file?
  have hreports : (reports items).Perm _ := h.filterMap Item.report?
  rw [filterMap_arrangement rfl rfl] at hfiles hreports
  refine ⟨?_, ?_, ?_, ?_⟩
  · cases report <;> exact List.perm_singleton.mp hfiles
  · rw [h.mem_iff]
    simp [arrangement, Nat.pos_iff_ne_zero]
  · rw [h.mem_iff]
    simp [arrangement, Nat.pos_iff_ne_zero]
  · cases report with
    | none => rw [List.perm_nil.mp hreports]; rfl
    | some path => rw [List.perm_singleton.mp hreports]; rfl

/-- **Arguments ask for a run** just when they can be cut into items with one file among them. The
items say what the run is to do, in any order, but that the last report counts; so options are read
back from their items in any arrangement, with each flag as often as one likes. -/
theorem parse_grammar :
    (∀ (args : List String) (o : Options), parse args = .ok (.analyze o) ↔
      ∃ items, args = items.flatMap Item.args ∧ Describes items o) ∧
    ∀ (file : Plain) (report : Option Plain) (noComments stats : Nat) (items : List Item),
      items.Perm (arrangement file report noComments stats) →
        parse (items.flatMap Item.args) = .ok (.analyze
          ⟨file, decide (0 < noComments), decide (0 < stats), report.map Subtype.val⟩) := by
  refine ⟨fun args o => parse_eq_analyze_iff, ?_⟩
  intro file report noComments stats items hperm
  exact parse_eq_analyze_iff.mpr ⟨items, rfl, describes_of_perm hperm⟩

/-- The empty argument may be a path, and a flag may be said twice. -/
theorem parse_grammar_twice :
    let items : List Item :=
      [.stats, .report ⟨"", by decide⟩, .file ⟨"a", by decide⟩, .stats]
    items.Perm (arrangement ⟨"a", by decide⟩ (some ⟨"", by decide⟩) 0 2) ∧
      items.flatMap Item.args = ["--stats", "-o", "", "a", "--stats"] ∧
      parse ["--stats", "-o", "", "a", "--stats"] =
        .ok (.analyze ⟨"a", false, true, some ""⟩) := by
  intro items
  have hperm : items.Perm (arrangement ⟨"a", by decide⟩ (some ⟨"", by decide⟩) 0 2) := by decide
  exact ⟨hperm, rfl, parse_grammar.2 _ _ _ _ items hperm⟩

end Lexico.Options
