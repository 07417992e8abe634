import DistanceField.Proofs.CommandLine.Arguments
import Mathlib.Data.List.Basic

/-!
# The grammar of arguments

Arguments fall into groups in one way at most, and only the groups matter: which values an option
was given, in their order. How the groups of different options stand to each other does not.
-/

namespace DistanceField

/-- What an option of the command line is about. Both names of the output are one option. -/
inductive Subject where
  | config
  | operators
  | output
  | validate
  | mapOnly
  deriving DecidableEq

namespace Group

def subject : Group → Subject
  | config _ => .config
  | operators _ => .operators
  | output _ => .output
  | shortOutput _ => .output
  | validate => .validate
  | mapOnly => .mapOnly

theorem words_append_inj {group other : Group} {rest rest' : List String}
    (same : group.words ++ rest = other.words ++ rest') : group = other ∧ rest = rest' := by
  cases group <;> cases other <;> simp_all [words]

theorem words_ne_nil (group : Group) : group.words ≠ [] := by cases group <;> simp [words]

/-- Arguments are cut into groups in no more than one way. -/
theorem flatMap_words_inj {groups others : List Group}
    (same : groups.flatMap words = others.flatMap words) : groups = others := by
  induction groups generalizing others with
  | nil =>
    cases others with
    | nil => rfl
    | cons other others => simp [words_ne_nil] at same
  | cons group groups ih =>
    cases others with
    | nil => simp [words_ne_nil] at same
    | cons other others =>
      rw [List.flatMap_cons, List.flatMap_cons] at same
      obtain ⟨rfl, onward⟩ := words_append_inj same
      rw [ih onward]

/-- Groups in another order: of every option there are the same groups, and they stand in the order
in which they stood. -/
def Reorders (groups others : List Group) : Prop :=
  ∀ subject : Subject,
    others.filter (·.subject = subject) = groups.filter (·.subject = subject)

variable {groups others : List Group}

theorem filterMap_of_reorders (value? : Group → Option String) (subject : Subject)
    (own : ∀ group value, value? group = some value → group.subject = subject)
    (reorders : Reorders groups others) : others.filterMap value? = groups.filterMap value? := by
  have only (list : List Group) :
      (list.filter (·.subject = subject)).filterMap value? = list.filterMap value? := by
    rw [List.filterMap_filter]
    refine List.filterMap_congr fun group _ => ?_
    cases given : value? group with
    | none => simp
    | some value => simp [own group value given]
  rw [← only others, reorders, only groups]

theorem mem_of_reorders {group : Group} (reorders : Reorders groups others) :
    group ∈ others ↔ group ∈ groups := by
  have only (list : List Group) :
      group ∈ list.filter (·.subject = group.subject) ↔ group ∈ list := by simp
  rw [← only others, reorders, only groups]

end Group

namespace Options
open DistanceField.Group

variable {groups others : List Group}

theorem ofGroups_of_reorders (reorders : Reorders groups others) :
    ofGroups others = ofGroups groups := by
  have config := filterMap_of_reorders config? .config
    (fun group _ => by cases group <;> simp [config?, subject]) reorders
  have operators := filterMap_of_reorders operators? .operators
    (fun group _ => by cases group <;> simp [operators?, subject]) reorders
  have output := filterMap_of_reorders output? .output
    (fun group _ => by cases group <;> simp [output?, subject]) reorders
  simp only [ofGroups, config, operators, output, mem_of_reorders reorders]

/-- Arguments are accepted exactly if they are groups, one after the other, that do not ask both for
a validation and for the map alone, and the options are then those of the groups. There is only one
way to cut arguments into groups, and groups in another order, as long as those of one option keep
theirs, have the same result. -/
theorem ofArguments_grammatical (arguments : List String) :
    (∀ options, ofArguments arguments = .ok options ↔
      ∃ groups : List Group, arguments = groups.flatMap words ∧
        ¬(.mapOnly ∈ groups ∧ .validate ∈ groups) ∧ options = ofGroups groups) ∧
    (∀ groups others : List Group, arguments = groups.flatMap words →
      arguments = others.flatMap words → groups = others) ∧
    ∀ groups others : List Group, arguments = groups.flatMap words → Reorders groups others →
      ofArguments (others.flatMap words) = ofArguments arguments := by
  refine ⟨fun options => ofArguments_eq_ok_iff, fun groups others spelled spelled' => ?_,
    fun groups others spelled reorders => ?_⟩
  · exact flatMap_words_inj (spelled.symm.trans spelled')
  · rw [spelled, ofArguments_flatMap_words, ofArguments_flatMap_words,
      ofGroups_of_reorders reorders]
    simp only [mem_of_reorders reorders]

def deceptive : List Group := [.config "--validate", .shortOutput "", .mapOnly, .output "-o"]

theorem ofArguments_deceptive :
    ofArguments ["--config", "--validate", "-o", "", "--map-only", "--output", "-o"] =
      .ok { config := some "--validate", output := some "-o", mapOnly := true } ∧
    ofArguments ["--map-only", "-o", "", "--output", "-o", "--config", "--validate"] =
      ofArguments ["--config", "--validate", "-o", "", "--map-only", "--output", "-o"] := by
  obtain ⟨accepted, -, reordered⟩ :=
    ofArguments_grammatical ["--config", "--validate", "-o", "", "--map-only", "--output", "-o"]
  refine ⟨(accepted _).mpr ⟨deceptive, rfl, by decide, rfl⟩, ?_⟩
  refine reordered deceptive [.mapOnly, .shortOutput "", .output "-o", .config "--validate"] rfl ?_
  rintro ⟨⟩ <;> rfl

end Options

end DistanceField
