import DistanceField.Proofs.Operator.Accepted
import Mathlib.Data.List.Nodup

/-!
# Registries that are reached

Whatever definitions are handed to a new registry, and whichever of them it rejects, it holds
accepted operators with pairwise different symbols.
-/

namespace DistanceField.Registry

variable {registry later : Registry} {definition : Definition} {operator other : Operator}

def after (definition : Definition) (registry : Registry) : Registry :=
  match (register definition).run registry with
  | .ok _ after => after
  | .error _ after => after

/-- Registrations lead from the empty registry to this one. -/
inductive Reached : Registry → Prop
  | empty : Reached empty
  | step {registry : Registry} (definition : Definition) :
    Reached registry → Reached (registry.after definition)

theorem get?_eq_none_iff {symbol : String} :
    registry.get? symbol = none ↔ symbol ∉ registry.symbols := by
  simp [get?, symbols]

theorem run_register (checked : Operator.ofDefinition definition = .ok operator)
    (free : operator.symbol ∉ registry.symbols) :
    (register definition).run registry = .ok operator ⟨registry.operators ++ [operator]⟩ := by
  simp only [register, checked, insert, EStateM.run_bind, EStateM.run_get, get?_eq_none_iff.mpr free]
  rfl

/-- Why a registry rejects a definition: it does not pass its check, or its symbol is taken. -/
inductive Faulty (registry : Registry) (definition : Definition) : Rejection → Prop
  | malformed {rejection : Rejection}
    (fault : Operator.ofDefinition definition = .error rejection) :
    Faulty registry definition rejection
  | duplicate {operator : Operator} (checked : Operator.ofDefinition definition = .ok operator)
    (taken : operator.symbol ∈ registry.symbols) :
    Faulty registry definition (.duplicateSymbol operator.symbol)

/-- A definition is rejected and changes nothing, or its operator joins the others. -/
theorem register_cases (definition : Definition) (registry : Registry) :
    (∃ rejection, Faulty registry definition rejection ∧
      (register definition).run registry = .error rejection registry) ∨
      ∃ operator, Operator.ofDefinition definition = .ok operator ∧
        operator.symbol ∉ registry.symbols ∧
          (register definition).run registry = .ok operator ⟨registry.operators ++ [operator]⟩ := by
  cases checked : Operator.ofDefinition definition with
  | error rejection =>
    left
    exact ⟨rejection, .malformed checked, by rw [register, checked]; rfl⟩
  | ok operator =>
    by_cases taken : operator.symbol ∈ registry.symbols
    · left
      refine ⟨.duplicateSymbol operator.symbol, .duplicate checked taken, ?_⟩
      have bound : registry.get? operator.symbol ≠ none := fun free => get?_eq_none_iff.mp free taken
      obtain ⟨other, found⟩ := Option.ne_none_iff_exists'.mp bound
      simp only [register, checked, insert, EStateM.run_bind, EStateM.run_get, found]
      rfl
    · exact .inr ⟨operator, rfl, taken, run_register checked taken⟩

theorem after_eq (registry : Registry) (definition : Definition) :
    registry.after definition = registry ∨ ∃ operator, Operator.ofDefinition definition = .ok operator ∧
      operator.symbol ∉ registry.symbols ∧
        registry.after definition = ⟨registry.operators ++ [operator]⟩ := by
  rcases register_cases definition registry with ⟨rejection, -, run⟩ | ⟨operator, checked, free, run⟩
  · exact .inl (by rw [after, run])
  · exact .inr ⟨operator, checked, free, by rw [after, run]⟩

theorem Reached.accepted (h : registry.Reached) (mem : operator ∈ registry.operators) :
    operator.Accepted := by
  induction h with
  | empty => cases mem
  | @step registry definition _ ih =>
    rcases registry.after_eq definition with eq | ⟨new, checked, -, eq⟩
    · exact ih (eq ▸ mem)
    · rw [eq] at mem
      rcases List.mem_append.mp mem with mem | mem
      · exact ih mem
      · obtain rfl := List.mem_singleton.mp mem
        exact ⟨definition, checked⟩

theorem Reached.nodup_symbols (h : registry.Reached) : registry.symbols.Nodup := by
  induction h with
  | empty => exact .nil
  | @step registry definition _ ih =>
    rcases registry.after_eq definition with eq | ⟨new, -, free, eq⟩
    · rwa [eq]
    · rw [eq, symbols, List.map_append, List.map_singleton, ← List.concat_eq_append]
      exact ih.concat free

theorem Reached.eq_of_symbol (h : registry.Reached) (mem : operator ∈ registry.operators)
    (mem' : other ∈ registry.operators) (same : operator.symbol = other.symbol) :
    operator = other := List.inj_on_of_nodup_map h.nodup_symbols mem mem' same

/-- No two registered operators answer to one symbol. -/
theorem Reached.filter_symbol (h : registry.Reached) (mem : operator ∈ registry.operators) :
    registry.operators.filter (·.symbol = operator.symbol) = [operator] := by
  have nodup := h.nodup_symbols
  obtain ⟨before, after, eq⟩ := List.append_of_mem mem
  rw [symbols, eq, List.map_append, List.map_cons, List.nodup_middle, List.nodup_cons,
    List.mem_append, not_or] at nodup
  have none : ∀ {others : List Operator}, operator.symbol ∉ others.map Operator.symbol →
      others.filter (·.symbol = operator.symbol) = [] := by
    intro others free
    apply List.filter_eq_nil_iff.mpr
    intro other mem same
    exact free (of_decide_eq_true same ▸ List.mem_map_of_mem mem)
  rw [eq, List.filter_append, none nodup.1.1, List.filter_cons_of_pos (by simp), none nodup.1.2,
    List.nil_append]

theorem Reached.get?_of_mem (h : registry.Reached) (mem : operator ∈ registry.operators) :
    registry.get? operator.symbol = some operator := by
  cases found : registry.get? operator.symbol with
  | none => exact absurd (List.mem_map_of_mem mem) (get?_eq_none_iff.mp found)
  | some other =>
    have same : other.symbol = operator.symbol := by simpa using List.find?_some found
    rw [h.eq_of_symbol (List.mem_of_find?_eq_some found) mem same]

/-- Registrations, rejected ones among them, lead from one registry to a later one. -/
inductive Grows (earlier : Registry) : Registry → Prop
  | refl : Grows earlier earlier
  | step {later : Registry} (definition : Definition) :
    Grows earlier later → Grows earlier (later.after definition)

theorem Grows.isPrefix (h : registry.Grows later) : registry.operators <+: later.operators := by
  induction h with
  | refl => exact List.prefix_rfl
  | @step later definition _ ih =>
    rcases later.after_eq definition with eq | ⟨operator, -, -, eq⟩
    · rwa [eq]
    · rw [eq]
      exact ih.trans (List.prefix_append ..)

end DistanceField.Registry
