import DistanceField.Proofs.Shader.Surroundings

/-!
# The sections of the fragment stage

The fragment stage falls into the tokens of its sections, one section after the other. A section may
end in a comment, a directive, a slash or a number, since a line feed stands behind it; only a
comment of several lines that it leaves open would reach into the next one.
-/

namespace DistanceField.Shader
open Glsl

variable {registry : Registry} {operator : Operator} {mapSource : String}

theorem tokens_block_append (closed : endsInBlock operator.code = false) (rest : String) :
    tokens (Registry.block operator ++ rest) =
      tokens (Text.trimEnd operator.code) ++ tokens rest := by
  have closedEmpty : endsInBlock "" = false := endsInBlockFrom_nil
  have empty : tokens "" = [] := tokensFrom_nil true
  have cut : Registry.block operator ++ rest =
      Text.trimEnd operator.code ++ "\n" ++ ("" ++ "\n" ++ rest) :=
    String.toList_inj.mp (by simp [Registry.block])
  rw [cut, tokens_line_append (endsInBlock_trimEnd closed), tokens_line_append closedEmpty, empty,
    List.nil_append]

theorem tokens_preamble_append
    (closed : ∀ operator ∈ registry.operators, endsInBlock operator.code = false) (rest : String) :
    tokens (registry.preamble ++ rest) =
      registry.operators.flatMap (fun operator => tokens (Text.trimEnd operator.code)) ++
        tokens rest := by
  obtain ⟨operators⟩ := registry
  induction operators with
  | nil => simp [Registry.preamble]
  | cons operator operators ih =>
    obtain ⟨here, onward⟩ := List.forall_mem_cons.mp closed
    have cut : Registry.preamble ⟨operator :: operators⟩ ++ rest =
        Registry.block operator ++ (Registry.preamble ⟨operators⟩ ++ rest) := by
      simp [Registry.preamble, String.append_assoc]
    rw [cut, tokens_block_append here, ih onward, List.flatMap_cons, List.append_assoc]

theorem tokens_header_append (config : Config) (rest : String) :
    tokens (header config ++ rest) = tokens (header config) ++ tokens rest := by
  obtain ⟨lines, eq, lined⟩ := exists_section_header config
  rw [eq, tokens_ofLines lined.calm, tokens_lines lined.calm]

/-- The sections of a shader do not reach into each other, whatever they end with, unless one leaves
a comment open. -/
theorem tokens_fragment (config : Config)
    (closed : ∀ operator ∈ registry.operators, endsInBlock operator.code = false)
    (closedMap : endsInBlock mapSource = false) :
    tokens (fragment registry mapSource config) = tokens (header config) ++
      registry.operators.flatMap (fun operator => tokens (Text.trimEnd operator.code)) ++
        tokens mapSource ++ tokens engine := by
  have cut : fragment registry mapSource config =
      header config ++ (registry.preamble ++ (mapSource ++ "\n" ++ engine)) := by
    simp [fragment, String.append_assoc]
  rw [cut, tokens_header_append, tokens_preamble_append closed, tokens_line_append closedMap]
  simp only [List.append_assoc]

def ragged : Registry := ⟨[
  ⟨[.vec3], .scalar, "float a(vec3 p) \x7b return 1.0; \x7d // ends here\u00a0 ", "a", [none]⟩,
  ⟨[.vec3], .scalar, "float b(vec3 p) \x7b return 1.0; \x7d\n#define LIMIT 1.5e\t", "b", [none]⟩,
  ⟨[.vec3], .scalar, "float c(vec3 p) \x7b return 1.0; \x7d /\u3000\n", "c", [none]⟩,
  ⟨[.vec3], .scalar, "float d(vec3 p) \x7b return 1.0; \x7d 2e", "d", [none]⟩]⟩

theorem tokens_fragment_ragged :
    (∀ operator ∈ ragged.operators, endsInBlock operator.code = false) ∧
      endsInBlock "1.5e" = false ∧
      tokens (fragment ragged "1.5e" {}) = tokens (header {}) ++
        ragged.operators.flatMap (fun operator => tokens (Text.trimEnd operator.code)) ++
          [.number "1.5e"] ++ tokens engine := by
  have closed : ∀ operator ∈ ragged.operators, endsInBlock operator.code = false := by
    decide +kernel
  have closedMap : endsInBlock "1.5e" = false := by decide +kernel
  have map : tokens "1.5e" = [.number "1.5e"] := by decide +kernel
  have whole := tokens_fragment {} closed closedMap
  rw [map] at whole
  exact ⟨closed, closedMap, whole⟩

end DistanceField.Shader
