import DistanceField.Proofs.Operator.Extended
import DistanceField.Proofs.Operator.Indexed

/-!
# Registries under any calls

However a registry is called, with single definitions or with many at once, accepted or rejected, it
knows each symbol by one position, and what it once knows it does not forget.
-/

namespace DistanceField.Registry

inductive Call where
  | bare (inputs : List ValueType) (output : ValueType) (code : String)
  | single (definition : Definition)
  | batch (definitions : List Definition)

def Call.registration : Call → Registration Unit
  | bare inputs output code => discard (register (.bare inputs output code))
  | single definition => discard (register definition)
  | batch definitions => registerAll definitions

def Call.indexed : Call → EStateM Rejection Indexed Unit
  | bare inputs output code => discard (Indexed.register (.bare inputs output code))
  | single definition => discard (Indexed.register definition)
  | batch definitions => Indexed.registerAll definitions

/-- The registry after some calls, rejected ones among them. -/
def afterCalls (registry : Registry) (calls : List Call) : Registry :=
  calls.foldl (fun registry call => left call.registration registry) registry

def Indexed.left (registration : EStateM Rejection Indexed Unit) (indexed : Indexed) : Indexed :=
  match registration.run indexed with
  | .ok _ after => after
  | .error _ after => after

def Indexed.afterCalls (indexed : Indexed) (calls : List Call) : Indexed :=
  calls.foldl (fun indexed call => indexed.left call.indexed) indexed

/-- The definitions that a call hands over. -/
def Call.definitions : Call → List Definition
  | bare inputs output code => [.bare inputs output code]
  | single definition => [definition]
  | batch definitions => definitions

variable {registry : Registry} {definitions : List Definition} {operator : Operator}
  {symbol : String} {index : Nat}

theorem discard_register (definition : Definition) :
    discard (register definition) = registerAll [definition] := by
  funext registry
  simp only [registerAll, discard, Functor.mapConst, EStateM.map, bind, EStateM.bind, pure,
    EStateM.pure, Function.comp, Function.const]

theorem Call.registration_eq (call : Call) : call.registration = registerAll call.definitions := by
  cases call with
  | bare inputs output code => exact discard_register _
  | single definition => exact discard_register definition
  | batch definitions => rfl

/-- What a registry makes of definitions that are registered together: it handles them one by one
up to the first that is rejected. -/
theorem exists_left_registerAll (definitions : List Definition) (registry : Registry) :
    ∃ handled, left (registerAll definitions) registry = registry.afterAll handled := by
  induction definitions generalizing registry with
  | nil => exact ⟨[], rfl⟩
  | cons definition definitions ih =>
    rw [left, registerAll, EStateM.run_bind]
    cases first : (register definition).run registry with
    | ok operator next =>
      obtain ⟨handled, eq⟩ := ih next
      refine ⟨definition :: handled, ?_⟩
      rw [afterAll_cons, after, first]
      exact eq
    | error rejection next =>
      refine ⟨[definition], ?_⟩
      rw [afterAll_cons, after, first]
      rfl

theorem exists_afterCalls (calls : List Call) (registry : Registry) :
    ∃ handled, registry.afterCalls calls = registry.afterAll handled := by
  induction calls generalizing registry with
  | nil => exact ⟨[], rfl⟩
  | cons call calls ih =>
    obtain ⟨first, eq⟩ := exists_left_registerAll call.definitions registry
    obtain ⟨others, eq'⟩ := ih (registry.afterAll first)
    refine ⟨first ++ others, ?_⟩
    rw [afterAll_append, ← eq', ← eq, ← call.registration_eq]
    rfl

theorem Reached.afterCalls (h : registry.Reached) (calls : List Call) :
    (registry.afterCalls calls).Reached := by
  obtain ⟨handled, eq⟩ := exists_afterCalls calls registry
  exact eq ▸ h.afterAll handled

theorem getElem?_afterCalls (held : registry.operators[index]? = some operator)
    (calls : List Call) : (registry.afterCalls calls).operators[index]? = some operator := by
  obtain ⟨handled, eq⟩ := exists_afterCalls calls registry
  obtain ⟨inside, -⟩ := List.getElem?_eq_some_iff.mp held
  rw [eq, operators_afterAll, List.getElem?_append_left inside, held]

/-- In a registry that is reached, the position of a symbol is that of its operator. -/
theorem Reached.indexOf?_eq_some_iff (h : registry.Reached) :
    registry.indexOf? symbol = some index ↔
      (registry.operators[index]?).map Operator.symbol = some symbol := by
  rw [indexOf?, List.findIdx?_eq_some_iff_getElem, Option.map_eq_some_iff]
  constructor
  · rintro ⟨inside, own, -⟩
    exact ⟨_, List.getElem?_eq_getElem inside, of_decide_eq_true own⟩
  · rintro ⟨operator, held, own⟩
    obtain ⟨inside, eq⟩ := List.getElem?_eq_some_iff.mp held
    refine ⟨inside, by simp [eq, own], fun earlier before same => ?_⟩
    have inner : index < registry.symbols.length := by simpa [symbols] using inside
    have outer : earlier < registry.symbols.length := Nat.lt_trans before inner
    have alike : registry.symbols[earlier] = registry.symbols[index] := by
      simpa [symbols, eq, own] using same
    exact (Nat.ne_of_lt before) (h.nodup_symbols.getElem_inj_iff.mp alike)

namespace Indexed

theorem follows_discard {mine : EStateM Rejection Indexed Operator}
    {registration : Registration Operator} (follows : Follows mine registration) :
    Follows (discard mine) (discard registration) :=
  follows.bind fun _ => follows_pure ()

theorem follows_call (call : Call) : Follows call.indexed call.registration := by
  cases call with
  | bare inputs output code => exact follows_discard (follows_register _)
  | single definition => exact follows_discard (follows_register definition)
  | batch definitions => exact follows_registerAll definitions

theorem Agrees.left {indexed : Indexed} {mine : EStateM Rejection Indexed Unit}
    {registration : Registration Unit} (follows : Follows mine registration)
    (agrees : indexed.Agrees registry) :
    (indexed.left mine).Agrees (Registry.left registration registry) := by
  have both := follows indexed registry agrees
  rw [Indexed.left, Registry.left]
  generalize mine.run indexed = outcome, registration.run registry = outcome' at both
  cases both with
  | ok _ agrees => exact agrees
  | error _ agrees => exact agrees

theorem Agrees.afterCalls {indexed : Indexed} (agrees : indexed.Agrees registry)
    (calls : List Call) : (indexed.afterCalls calls).Agrees (registry.afterCalls calls) := by
  induction calls generalizing indexed registry with
  | nil => exact agrees
  | cons call calls ih => exact ih (agrees.left (follows_call call))

end Indexed

/-- A registry in order. Its symbols differ, so each has one position, and no later call takes it
away. A definition that is rejected changes nothing. Of definitions that are registered together
those before the first that is rejected join; what is registered in two batches is registered in
one. -/
structure Orderly (registry : Registry) : Prop where
  nodup : registry.symbols.Nodup
  indexOf? : ∀ symbol index, registry.indexOf? symbol = some index ↔
    (registry.operators[index]?).map Operator.symbol = some symbol
  get? : ∀ symbol, registry.get? symbol = (registry.indexOf? symbol).bind (registry.operators[·]?)
  lasting : ∀ calls index operator, registry.operators[index]? = some operator →
    (registry.afterCalls calls).operators[index]? = some operator ∧
      (registry.afterCalls calls).indexOf? operator.symbol = some index ∧
        (registry.afterCalls calls).get? operator.symbol = some operator
  single : ∀ definition,
    (∃ rejection, Faulty registry definition rejection ∧
      (register definition).run registry = .error rejection registry) ∨
    ∃ operator, registry.Joins [definition] [operator] ∧
      (register definition).run registry = .ok operator (registry.extended [operator])
  batch : ∀ definitions,
    (∃ operators, registry.Joins definitions operators ∧
      (registerAll definitions).run registry = .ok () (registry.extended operators)) ∨
    ∃ before definition rest operators rejection, definitions = before ++ definition :: rest ∧
      registry.Joins before operators ∧
        Faulty (registry.extended operators) definition rejection ∧
          (registerAll definitions).run registry = .error rejection (registry.extended operators)
  split : ∀ first second, (registerAll (first ++ second)).run registry =
    match (registerAll first).run registry with
    | .ok _ after => (registerAll second).run after
    | .error rejection after => .error rejection after

theorem Reached.orderly (h : registry.Reached) : registry.Orderly where
  nodup := h.nodup_symbols
  indexOf? _ _ := h.indexOf?_eq_some_iff
  get? _ := List.find?_eq_bind_findIdx?_getElem?
  lasting := by
    intro calls index operator held
    have stays := getElem?_afterCalls held calls
    have place : (registry.afterCalls calls).indexOf? operator.symbol = some index := by
      rw [(h.afterCalls calls).indexOf?_eq_some_iff, stays, Option.map_some]
    refine ⟨stays, place, ?_⟩
    exact (h.afterCalls calls).get?_of_mem (List.mem_of_getElem? stays)
  single := by
    intro definition
    rcases register_cases definition registry with rejected | ⟨operator, checked, free, run⟩
    · exact .inl rejected
    · exact .inr ⟨operator, .cons checked free joins_nil, run⟩
  batch definitions := registerAll_cases definitions registry
  split first second := by
    rw [registerAll_append, EStateM.run_bind]
    cases (registerAll first).run registry <;> rfl

/-- Any calls lead from the empty registry to one in order. With an index the same calls have the
same outcomes and lead to the same operators at the same positions. -/
theorem orderly_afterCalls (calls : List Call) :
    (empty.afterCalls calls).Orderly ∧
      (Indexed.empty.afterCalls calls).Agrees (empty.afterCalls calls) ∧
        (∀ symbol, (Indexed.empty.afterCalls calls).get? symbol =
          (empty.afterCalls calls).get? symbol) ∧
          ∀ call : Call, Indexed.Together (call.indexed.run (Indexed.empty.afterCalls calls))
            (call.registration.run (empty.afterCalls calls)) := by
  have agrees := Indexed.agrees_empty.afterCalls calls
  exact ⟨(Reached.empty.afterCalls calls).orderly, agrees, agrees.get?,
    fun call => Indexed.follows_call call _ _ agrees⟩

end DistanceField.Registry
