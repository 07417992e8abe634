import DistanceField.CommandLine

/-!
# Arguments in groups

Arguments are options one after the other, each with its value if it takes one. What a value looks
like does not matter: it may be spelled like an option.
-/

namespace DistanceField

inductive Group where
  | config (value : String)
  | operators (value : String)
  | output (value : String)
  /-- The output under its short name. -/
  | shortOutput (value : String)
  | validate
  | mapOnly
  deriving DecidableEq

namespace Group

def words : Group → List String
  | config value => ["--config", value]
  | operators value => ["--operators", value]
  | output value => ["--output", value]
  | shortOutput value => ["-o", value]
  | validate => ["--validate"]
  | mapOnly => ["--map-only"]

def config? : Group → Option String
  | config value => some value
  | _ => none

def operators? : Group → Option String
  | operators value => some value
  | _ => none

def output? : Group → Option String
  | output value => some value
  | shortOutput value => some value
  | _ => none

def apply (options : Options) : Group → Options
  | config value => { options with config := some value }
  | operators value => { options with operators := options.operators ++ [value] }
  | output value => { options with output := some value }
  | shortOutput value => { options with output := some value }
  | validate => { options with validate := true }
  | mapOnly => { options with mapOnly := true }

end Group

namespace Options

variable {options result : Options} {groups : List Group} {arguments : List String}

/-- The options of groups: the last configuration, all manifests in order, the last output, and what
is switched on. -/
def ofGroups (groups : List Group) : Options where
  config := (groups.filterMap Group.config?).getLast?
  operators := groups.filterMap Group.operators?
  output := (groups.filterMap Group.output?).getLast?
  validate := .validate ∈ groups
  mapOnly := .mapOnly ∈ groups

theorem read_words (options : Options) (group : Group) (rest : List String) :
    options.read (group.words ++ rest) = (group.apply options).read rest := by
  cases group <;> simp [Group.words, Group.apply, read]

theorem read_flatMap_words (options : Options) (groups : List Group) :
    options.read (groups.flatMap Group.words) = .ok (groups.foldl Group.apply options) := by
  induction groups generalizing options with
  | nil => simp [read]
  | cons group groups ih => rw [List.flatMap_cons, read_words, ih, List.foldl_cons]

/-- Arguments that are read are groups. -/
theorem exists_groups_of_read (h : options.read arguments = .ok result) :
    ∃ groups : List Group, arguments = groups.flatMap Group.words := by
  fun_induction read options arguments with
  | case1 => exact ⟨[], rfl⟩
  | case2 options rest ih =>
    obtain ⟨groups, rfl⟩ := ih h
    exact ⟨.validate :: groups, rfl⟩
  | case3 options rest ih =>
    obtain ⟨groups, rfl⟩ := ih h
    exact ⟨.mapOnly :: groups, rfl⟩
  | case4 options value rest ih =>
    obtain ⟨groups, rfl⟩ := ih h
    exact ⟨.config value :: groups, rfl⟩
  | case5 options value rest ih =>
    obtain ⟨groups, rfl⟩ := ih h
    exact ⟨.operators value :: groups, rfl⟩
  | case6 options value rest ih =>
    obtain ⟨groups, rfl⟩ := ih h
    exact ⟨.output value :: groups, rfl⟩
  | case7 options value rest ih =>
    obtain ⟨groups, rfl⟩ := ih h
    exact ⟨.shortOutput value :: groups, rfl⟩
  | case8 => cases h

theorem foldl_apply (options : Options) (groups : List Group) :
    groups.foldl Group.apply options =
      { config := (ofGroups groups).config.or options.config
        operators := options.operators ++ (ofGroups groups).operators
        output := (ofGroups groups).output.or options.output
        validate := options.validate || (ofGroups groups).validate
        mapOnly := options.mapOnly || (ofGroups groups).mapOnly } := by
  induction groups generalizing options with
  | nil => simp [ofGroups]
  | cons group groups ih =>
    rw [List.foldl_cons, ih]
    cases group <;> simp [ofGroups, Group.apply, Group.config?, Group.operators?, Group.output?,
      List.filterMap_cons, List.getLast?_cons]

theorem ofArguments_flatMap_words (groups : List Group) :
    ofArguments (groups.flatMap Group.words) =
      if .mapOnly ∈ groups ∧ .validate ∈ groups then .error .validateMapOnly
      else .ok (ofGroups groups) := by
  have spelled : ({} : Options).read (groups.flatMap Group.words) = .ok (ofGroups groups) := by
    rw [read_flatMap_words, foldl_apply]
    simp
  have both : (ofGroups groups).mapOnly ∧ (ofGroups groups).validate ↔
      .mapOnly ∈ groups ∧ .validate ∈ groups := by simp [ofGroups]
  simp only [ofArguments, spelled, bind, Except.bind, both]
  split <;> rfl

/-- Arguments are accepted if they are groups that do not ask for a validation and for the map
alone. -/
theorem ofArguments_eq_ok_iff : ofArguments arguments = .ok options ↔
    ∃ groups : List Group, arguments = groups.flatMap Group.words ∧
      ¬ (.mapOnly ∈ groups ∧ .validate ∈ groups) ∧ options = ofGroups groups := by
  constructor
  · intro accepted
    cases parsed : ({} : Options).read arguments with
    | error error =>
      rw [ofArguments, parsed] at accepted
      cases accepted
    | ok result =>
      obtain ⟨groups, rfl⟩ := exists_groups_of_read parsed
      rw [ofArguments_flatMap_words] at accepted
      split at accepted
      · cases accepted
      · rename_i apart
        cases accepted
        exact ⟨groups, rfl, apart, rfl⟩
  · rintro ⟨groups, rfl, apart, rfl⟩
    rw [ofArguments_flatMap_words, if_neg apart]

end Options

end DistanceField
