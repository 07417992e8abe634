import DistanceField.Proofs.Glsl.Tokens
import DistanceField.Proofs.Numeral.Constants

/-!
# Constants as tokens

A constant is cut into its sign, if it has one, and one number. Two constants with a point have the
same tokens only if they are the same. The float literal of a finite number is such a constant, and
nothing of the number is lost in it.
-/

namespace DistanceField.Numeral.Constant
open Glsl

variable {constant other : Constant}

def unsigned (constant : Constant) : List Char :=
  constant.whole ++ if constant.fraction = [] then [] else '.' :: constant.fraction

def tokens (constant : Constant) : List Token :=
  (if constant.negative then [.punctuation '-'] else []) ++ [.number (.ofList constant.unsigned)]

theorem chars_eq (constant : Constant) : constant.chars =
    (if constant.negative then ['-'] else []) ++ constant.unsigned := by
  rw [chars, unsigned, List.append_assoc]

theorem tokensFrom_unsigned (constant : Constant) (lineStart : Bool) :
    tokensFrom lineStart constant.unsigned = [.number (.ofList constant.unsigned)] := by
  obtain ⟨c, rest, eq⟩ := List.exists_cons_of_ne_nil constant.whole_ne_nil
  have digits : ∀ d ∈ c :: rest, d.isDigit := fun d mem => constant.isDigit_whole d (eq ▸ mem)
  obtain ⟨digit, digits⟩ := List.forall_mem_cons.mp digits
  rw [unsigned, eq, List.cons_append]
  refine tokensFrom_number digit (fun d mem => ?_) lineStart
  rcases List.mem_append.mp mem with mem | mem
  · exact .inl (digits d mem)
  · split at mem
    · cases mem
    · rcases List.mem_cons.mp mem with point | mem
      · exact .inr point
      · exact .inl (constant.isDigit_fraction d mem)

theorem tokensFrom_chars (constant : Constant) (lineStart : Bool) :
    tokensFrom lineStart constant.chars = constant.tokens := by
  rw [chars_eq, tokens]
  cases constant.negative with
  | false => exact constant.tokensFrom_unsigned lineStart
  | true =>
    have sign : scan lineStart '-' constant.unsigned =
        ⟨some (.punctuation '-'), false, constant.unsigned⟩ := rfl
    rw [if_pos rfl, if_pos rfl, List.singleton_append, tokensFrom_cons, sign, tokensFrom_unsigned]
    rfl

/-- The tokens of a constant are its sign and its number. -/
theorem eq_of_mem_tokens {token : Token} (mem : token ∈ constant.tokens) :
    token = .punctuation '-' ∨ ∃ text, token = .number text := by
  rcases List.mem_append.mp mem with mem | mem
  · split at mem
    · exact .inl (List.mem_singleton.mp mem)
    · cases mem
  · exact .inr ⟨_, List.mem_singleton.mp mem⟩

theorem eq_of_unsigned (sign : constant.negative = other.negative)
    (point : constant.fraction ≠ []) (point' : other.fraction ≠ [])
    (same : constant.unsigned = other.unsigned) : constant = other := by
  have whole : '.' ∉ constant.whole :=
    fun mem => Decimal.ne_point_of_isDigit (constant.isDigit_whole _ mem) rfl
  have fraction : '.' ∉ constant.fraction :=
    fun mem => Decimal.ne_point_of_isDigit (constant.isDigit_fraction _ mem) rfl
  rw [unsigned, unsigned, if_neg point, if_neg point',
    List.append_cons_inj_of_notMem whole fraction] at same
  obtain ⟨negative, whole, fraction, _, _, _⟩ := constant
  obtain ⟨rfl, -, rfl⟩ := same
  obtain rfl := sign
  rfl

theorem tokens_append_inj {rest rest' : List Token} (point : constant.fraction ≠ [])
    (point' : other.fraction ≠ []) (same : constant.tokens ++ rest = other.tokens ++ rest') :
    constant = other ∧ rest = rest' := by
  simp only [tokens] at same
  have sign : constant.negative = other.negative := by
    revert same
    cases constant.negative <;> cases other.negative <;> simp
  rw [sign, List.append_assoc, List.append_assoc, List.append_cancel_left_eq] at same
  simp only [List.singleton_append, List.cons.injEq, Token.number.injEq, String.ofList_inj] at same
  exact ⟨eq_of_unsigned sign point point' same.1, same.2⟩

end DistanceField.Numeral.Constant

namespace DistanceField.Numeral.Binary32
open Glsl

variable {x y : Binary32}

theorem floatText_inj (finite : x.isFinite) (finite' : y.isFinite)
    (same : floatText x = floatText y) : x = y :=
  x.writes_floatText.inj finite finite' (same ▸ y.writes_floatText)

/-- The float literal of a finite number is a constant with a point. It is cut into a minus, if the
number has one, and a single number, it reads as this number and as no other, and no other finite
number has the same float literal. -/
theorem lossless_floatText (finite : x.isFinite) :
    (∃ constant : Constant, (floatText x).toList = constant.chars ∧ constant.fraction ≠ [] ∧
      tokens (floatText x) = (if x.negative then [.punctuation '-'] else []) ++
        [.number (.ofList constant.unsigned)] ∧
      ∀ y, constant.Reads y ↔ y = x) ∧
    ∀ y : Binary32, y.isFinite → y.bits ≠ x.bits → floatText y ≠ floatText x := by
  obtain ⟨constant, shown, point, reads⟩ := exists_constant_floatText finite
  refine ⟨⟨constant, shown, point, ?_, fun y => ?_⟩, fun y finite' apart same => ?_⟩
  · rw [tokens, shown, constant.tokensFrom_chars, Constant.tokens, reads.negative]
  · constructor
    · exact fun reads' => reads'.unique reads
    · rintro rfl
      exact reads
  · exact apart (congrArg bits (floatText_inj finite' finite same))

def leastBelowZero : Binary32 := ⟨0x80000001⟩

theorem lossless_leastBelowZero : leastBelowZero.isFinite ∧
    floatText leastBelowZero = "-0.000000000000000000000000000000000000000000001" ∧
    (∃ constant : Constant, (floatText leastBelowZero).toList = constant.chars ∧
      tokens (floatText leastBelowZero) =
        [.punctuation '-', .number (.ofList constant.unsigned)] ∧
      ∀ y, constant.Reads y ↔ y = leastBelowZero) ∧
    floatText 0 ≠ floatText leastBelowZero := by
  have finite : leastBelowZero.isFinite := by decide
  obtain ⟨⟨constant, shown, -, cut, reads⟩, apart⟩ := lossless_floatText finite
  exact ⟨finite, by decide +kernel, ⟨constant, shown, cut, reads⟩,
    apart 0 (by decide) (by decide)⟩

end DistanceField.Numeral.Binary32
