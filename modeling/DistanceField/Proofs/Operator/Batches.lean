import DistanceField.Proofs.Operator.Registered

/-!
# Definitions registered together

Definitions that are registered together join the registry one after the other, up to the first that
is rejected. What joined before it stays.
-/

namespace DistanceField.Registry
open List (Forall₂)

variable {registry : Registry} {definition : Definition} {definitions : List Definition}
  {operator : Operator} {operators : List Operator}

def extended (registry : Registry) (operators : List Operator) : Registry :=
  ⟨registry.operators ++ operators⟩

@[simp] theorem extended_nil : registry.extended [] = registry := by simp [extended]

theorem extended_extended (operators more : List Operator) :
    (registry.extended operators).extended more = registry.extended (operators ++ more) := by
  simp [extended]

theorem symbols_extended : (registry.extended operators).symbols =
    registry.symbols ++ operators.map Operator.symbol := by simp [extended, symbols]

/-- A registry takes definitions one after the other, as operators whose symbols neither it nor
another one of them has. -/
structure Joins (registry : Registry) (definitions : List Definition) (operators : List Operator) :
    Prop where
  checked : Forall₂ (fun definition operator => Operator.ofDefinition definition = .ok operator)
    definitions operators
  nodup : (operators.map Operator.symbol).Nodup
  free : ∀ operator ∈ operators, operator.symbol ∉ registry.symbols

theorem joins_nil : registry.Joins [] [] := ⟨.nil, .nil, by simp⟩

theorem Joins.cons (checked : Operator.ofDefinition definition = .ok operator)
    (free : operator.symbol ∉ registry.symbols)
    (joins : (registry.extended [operator]).Joins definitions operators) :
    registry.Joins (definition :: definitions) (operator :: operators) := by
  have apart : ∀ other ∈ operators,
      other.symbol ∉ registry.symbols ∧ other.symbol ≠ operator.symbol := by
    intro other mem
    simpa [symbols_extended] using joins.free other mem
  refine ⟨.cons checked joins.checked, List.nodup_cons.mpr ⟨?_, joins.nodup⟩, ?_⟩
  · intro mem
    obtain ⟨other, mem, same⟩ := List.mem_map.mp mem
    exact (apart other mem).2 same
  · exact List.forall_mem_cons.mpr ⟨free, fun other mem => (apart other mem).1⟩

/-- Of some definitions either all join, or those before the first that is rejected, with this one's
rejection. -/
theorem registerAll_cases (definitions : List Definition) (registry : Registry) :
    (∃ operators, registry.Joins definitions operators ∧
      (registerAll definitions).run registry = .ok () (registry.extended operators)) ∨
    ∃ before definition rest operators rejection, definitions = before ++ definition :: rest ∧
      registry.Joins before operators ∧
        Faulty (registry.extended operators) definition rejection ∧
          (registerAll definitions).run registry = .error rejection (registry.extended operators) := by
  induction definitions generalizing registry with
  | nil => exact .inl ⟨[], joins_nil, by simp [registerAll]⟩
  | cons definition definitions ih =>
    rcases register_cases definition registry with ⟨rejection, faulty, run⟩ |
      ⟨operator, checked, free, run⟩
    · right
      refine ⟨[], definition, definitions, [], rejection, rfl, joins_nil, by simpa using faulty, ?_⟩
      rw [registerAll, EStateM.run_bind, run, extended_nil]
    · have onward : (registerAll (definition :: definitions)).run registry =
          (registerAll definitions).run (registry.extended [operator]) := by
        rw [registerAll, EStateM.run_bind, run]
        rfl
      rcases ih (registry.extended [operator]) with ⟨operators, joins, run⟩ |
        ⟨before, other, rest, operators, rejection, rfl, joins, faulty, run⟩
      · rw [extended_extended] at run
        exact .inl ⟨operator :: operators, .cons checked free joins, onward.trans run⟩
      · rw [extended_extended] at run faulty
        exact .inr ⟨definition :: before, other, rest, operator :: operators, rejection, rfl,
          .cons checked free joins, faulty, onward.trans run⟩

/-- Two lists of definitions registered as one are registered one after the other. -/
theorem registerAll_append (first second : List Definition) :
    registerAll (first ++ second) = (do registerAll first; registerAll second) := by
  induction first with
  | nil => simp [registerAll]
  | cons definition first ih => simp [registerAll, ih]

theorem run_registerAll_append_eq_ok_iff {first second : List Definition} {after : Registry} :
    (registerAll (first ++ second)).run registry = .ok () after ↔
      ∃ between, (registerAll first).run registry = .ok () between ∧
        (registerAll second).run between = .ok () after := by
  rw [registerAll_append, EStateM.run_bind]
  cases (registerAll first).run registry with
  | ok _ between =>
    constructor
    · exact fun done => ⟨between, rfl, done⟩
    · rintro ⟨_, same, done⟩
      cases same
      exact done
  | error rejection between =>
    exact ⟨fun done => (by cases done), fun ⟨_, done, _⟩ => (by cases done)⟩

theorem Joins.run (joins : registry.Joins definitions operators) :
    (registerAll definitions).run registry = .ok () (registry.extended operators) := by
  obtain ⟨checked, nodup, free⟩ := joins
  induction checked generalizing registry with
  | nil => simp [registerAll]
  | @cons definition operator definitions operators first _ ih =>
    obtain ⟨new, nodup⟩ := List.nodup_cons.mp nodup
    obtain ⟨here, free⟩ := List.forall_mem_cons.mp free
    have apart : ∀ other ∈ operators, other.symbol ∉ (registry.extended [operator]).symbols := by
      intro other mem
      have ne : other.symbol ≠ operator.symbol := fun same => new (same ▸ List.mem_map_of_mem mem)
      simp [symbols_extended, free other mem, ne]
    have onward := ih nodup apart
    rw [extended_extended, List.singleton_append] at onward
    rw [registerAll, EStateM.run_bind, run_register first here]
    exact onward

theorem run_registerAll_eq_ok_iff {after : Registry} :
    (registerAll definitions).run registry = .ok () after ↔
      ∃ operators, registry.Joins definitions operators ∧ after = registry.extended operators := by
  constructor
  · intro run
    rcases registerAll_cases definitions registry with ⟨operators, joins, run'⟩ |
      ⟨_, _, _, _, _, -, -, -, run'⟩
    · rw [run] at run'
      cases run'
      exact ⟨operators, joins, rfl⟩
    · rw [run] at run'
      cases run'
  · rintro ⟨operators, joins, rfl⟩
    exact joins.run

end DistanceField.Registry
