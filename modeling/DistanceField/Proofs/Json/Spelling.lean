import DistanceField.Json.Token
import DistanceField.Proofs.Text.Cuts

/-!
# How tokens of JSON are written

The grammar of texts: what stands for a token, and the layouts of a list of tokens, with any blanks
before, between and behind them. The tokens of a text are exactly those of which it is a layout.
-/

namespace DistanceField.Json
open Text

def digitsOf (digits : List Char) : List Nat := digits.map fun c => c.toNat - '0'.toNat

structure AreDigits (digits : List Char) : Prop where
  ne_nil : digits ≠ []
  all : ∀ c ∈ digits, c.isDigit

inductive SpellsFraction : List Nat → List Char → Prop
  | absent : SpellsFraction [] []
  | present {digits : List Char} (areDigits : AreDigits digits) :
    SpellsFraction (digitsOf digits) ('.' :: digits)

inductive SpellsSign : Bool → List Char → Prop
  | absent : SpellsSign false []
  | plus : SpellsSign false ['+']
  | minus : SpellsSign true ['-']

inductive SpellsExponent : Option (Bool × List Nat) → List Char → Prop
  | absent : SpellsExponent none []
  | present {letter : Char} {negative : Bool} {sign digits : List Char}
    (marks : letter = 'e' ∨ letter = 'E') (signed : SpellsSign negative sign)
    (areDigits : AreDigits digits) :
    SpellsExponent (some (negative, digitsOf digits)) (letter :: (sign ++ digits))

/-- How a number is written behind its sign. No zero stands before other digits of its whole
part. -/
inductive SpellsSize (negative : Bool) : Number → List Char → Prop
  | parts {whole fractionText exponentText : List Char} {fraction : List Nat}
    {exponent : Option (Bool × List Nat)} (areDigits : AreDigits whole)
    (shortest : whole.head? = some '0' → whole.length = 1)
    (fractional : SpellsFraction fraction fractionText)
    (scaled : SpellsExponent exponent exponentText) :
    SpellsSize negative ⟨negative, digitsOf whole, fraction, exponent⟩
      (whole ++ (fractionText ++ exponentText))

def goesOn (c : Char) : Bool := c.isDigit || c = '.' || c = 'e' || c = 'E'

variable {text rest digits chars : List Char}

theorem isDigit_of_stopsAt (stops : StopsAt goesOn rest) : StopsAt Char.isDigit rest := by
  intro c first
  have stop := stops c first
  simp only [goesOn, Bool.or_eq_false_iff] at stop
  exact stop.1.1.1

theorem leadingDigits_append (all : ∀ c ∈ digits, c.isDigit) (stops : StopsAt Char.isDigit rest) :
    leadingDigits (digits ++ rest) = digitsOf digits := by
  rw [leadingDigits, takeWhile_append_stop stops, List.takeWhile_eq_self_iff.mpr all]
  rfl

theorem afterDigits_append (all : ∀ c ∈ digits, c.isDigit) (stops : StopsAt Char.isDigit rest) :
    afterDigits (digits ++ rest) = rest := by
  rw [afterDigits, dropWhile_append_stop stops, List.dropWhile_eq_nil_iff.mpr all, List.nil_append]

theorem exists_digits (text : List Char) : ∃ digits, text = digits ++ afterDigits text ∧
    (∀ c ∈ digits, c.isDigit) ∧ leadingDigits text = digitsOf digits ∧
      StopsAt Char.isDigit (afterDigits text) := by
  refine ⟨text.takeWhile Char.isDigit, List.takeWhile_append_dropWhile.symm,
    fun c mem => List.mem_takeWhile_imp mem, rfl, fun c first => ?_⟩
  have stop := List.head?_dropWhile_not Char.isDigit text
  rw [afterDigits] at first
  simpa [first] using stop

@[simp] theorem digitsOf_eq_nil_iff : digitsOf digits = [] ↔ digits = [] := List.map_eq_nil_iff

theorem fraction?_append {fraction : List Nat} (spells : SpellsFraction fraction chars)
    (point : rest.head? ≠ some '.') (stops : StopsAt Char.isDigit rest) :
    fraction? (chars ++ rest) = some (fraction, rest) := by
  cases spells with
  | absent =>
    cases rest with
    | nil => rfl
    | cons c rest =>
      have ne : c ≠ '.' := by simpa using point
      rw [List.nil_append, fraction?]
      simpa using ne
  | present areDigits =>
    have ne := areDigits.ne_nil
    simp only [List.cons_append, fraction?, leadingDigits_append areDigits.all stops,
      afterDigits_append areDigits.all stops, digitsOf_eq_nil_iff, ne, if_false]

theorem exists_spellsFraction {fraction : List Nat} (stops : StopsAt Char.isDigit text)
    (read : fraction? text = some (fraction, rest)) :
    ∃ chars, SpellsFraction fraction chars ∧ text = chars ++ rest ∧ StopsAt Char.isDigit rest := by
  unfold fraction? at read
  split at read
  · rename_i after
    obtain ⟨digits, eq, all, leading, ends⟩ := exists_digits after
    split at read
    · cases read
    · rename_i ne
      cases read
      rw [leading] at ne ⊢
      refine ⟨_, .present ⟨fun empty => ne (by simp [empty]), all⟩, ?_, ends⟩
      rw [List.cons_append, ← eq]
  · cases read
    exact ⟨[], .absent, rfl, stops⟩

theorem exponentSign_append {negative : Bool} {sign : List Char} (signed : SpellsSign negative sign)
    (areDigits : AreDigits digits) :
    exponentSign (sign ++ (digits ++ rest)) = (negative, digits ++ rest) := by
  cases signed with
  | absent =>
    obtain ⟨c, others, rfl⟩ := List.exists_cons_of_ne_nil areDigits.ne_nil
    have digit := areDigits.all c List.mem_cons_self
    rw [List.nil_append, List.cons_append, exponentSign]
    · rintro _ ⟨⟩
      simp at digit
    · rintro _ ⟨⟩
      simp at digit
  | plus => rfl
  | minus => rfl

theorem exists_spellsSign (text : List Char) :
    ∃ sign, SpellsSign (exponentSign text).1 sign ∧ text = sign ++ (exponentSign text).2 := by
  unfold exponentSign
  split
  · exact ⟨_, .plus, rfl⟩
  · exact ⟨_, .minus, rfl⟩
  · exact ⟨_, .absent, rfl⟩

theorem exponent?_append {exponent : Option (Bool × List Nat)}
    (spells : SpellsExponent exponent chars) (stops : StopsAt goesOn rest) :
    exponent? (chars ++ rest) = some (exponent, rest) := by
  cases spells with
  | absent =>
    cases rest with
    | nil => rfl
    | cons c rest =>
      have stop := stops c rfl
      simp only [goesOn, Bool.or_eq_false_iff, decide_eq_false_iff_not] at stop
      rw [List.nil_append, exponent?, if_neg (by simp [stop])]
  | present marks signed areDigits =>
    have ne := areDigits.ne_nil
    have ends := isDigit_of_stopsAt stops
    rw [List.cons_append, exponent?, if_pos marks, List.append_assoc]
    simp only [exponentSign_append signed areDigits, leadingDigits_append areDigits.all ends,
      afterDigits_append areDigits.all ends, digitsOf_eq_nil_iff, ne, if_false]

theorem exists_spellsExponent {exponent : Option (Bool × List Nat)}
    (stops : StopsAt Char.isDigit text) (read : exponent? text = some (exponent, rest)) :
    ∃ chars, SpellsExponent exponent chars ∧ text = chars ++ rest ∧ StopsAt Char.isDigit rest := by
  unfold exponent? at read
  split at read
  · cases read
    exact ⟨[], .absent, rfl, stops⟩
  · rename_i c after
    split at read
    · rename_i marks
      obtain ⟨sign, signed, behind⟩ := exists_spellsSign after
      obtain ⟨digits, eq, all, leading, ends⟩ := exists_digits (exponentSign after).2
      dsimp only at read
      split at read
      · cases read
      · rename_i ne
        cases read
        rw [leading] at ne ⊢
        refine ⟨_, .present marks signed ⟨fun empty => ne (by simp [empty]), all⟩, ?_, ends⟩
        rw [List.cons_append, List.append_assoc, ← eq, ← behind]
    · cases read
      exact ⟨[], .absent, rfl, stops⟩

theorem stopsAt_spellsExponent {exponent : Option (Bool × List Nat)}
    (spells : SpellsExponent exponent chars) (stops : StopsAt goesOn rest) :
    (chars ++ rest).head? ≠ some '.' ∧ StopsAt Char.isDigit (chars ++ rest) := by
  cases spells with
  | absent =>
    refine ⟨fun point => ?_, isDigit_of_stopsAt stops⟩
    have stop := stops '.' point
    simp [goesOn] at stop
  | present marks =>
    rcases marks with rfl | rfl
    · exact ⟨by simp, stopsAt_cons rfl⟩
    · exact ⟨by simp, stopsAt_cons rfl⟩

theorem stopsAt_spellsFraction {fraction : List Nat} (spells : SpellsFraction fraction chars)
    (stops : StopsAt Char.isDigit rest) : StopsAt Char.isDigit (chars ++ rest) := by
  cases spells with
  | absent => exact stops
  | present => exact stopsAt_cons rfl

theorem toNat_sub_eq_zero_iff {c : Char} (digit : c.isDigit) :
    c.toNat - '0'.toNat = 0 ↔ c = '0' := by
  simp only [Char.isDigit, Bool.and_eq_true, decide_eq_true_eq, UInt32.le_iff_toNat_le] at digit
  have zero : '0'.toNat = 48 := rfl
  constructor
  · intro none
    apply Char.toNat_inj.mp
    have low : 48 ≤ c.toNat := digit.1
    omega
  · rintro rfl
    rfl

theorem leadingZero_iff (all : ∀ c ∈ digits, c.isDigit) :
    ((digitsOf digits).head? = some 0 ∧ 1 < (digitsOf digits).length) ↔
      digits.head? = some '0' ∧ 1 < digits.length := by
  cases digits with
  | nil => simp [digitsOf]
  | cons c digits =>
    have zero := toNat_sub_eq_zero_iff (all c List.mem_cons_self)
    simp only [digitsOf, List.map_cons, List.head?_cons, Option.some.injEq, zero, List.length_cons,
      List.length_map]

theorem number?_append {negative : Bool} {number : Number}
    (spells : SpellsSize negative number chars) (stops : StopsAt goesOn rest) :
    number? negative (chars ++ rest) = some (number, rest) := by
  obtain ⟨areDigits, shortest, fractional, scaled⟩ := spells
  obtain ⟨point, ends⟩ := stopsAt_spellsExponent scaled stops
  have ends' := stopsAt_spellsFraction fractional ends
  have nonzero := (leadingZero_iff areDigits.all).not.mpr fun ⟨zero, more⟩ =>
    (shortest zero).not_gt more
  have ne := areDigits.ne_nil
  rw [List.append_assoc, List.append_assoc, number?]
  simp only [leadingDigits_append areDigits.all ends', afterDigits_append areDigits.all ends',
    digitsOf_eq_nil_iff, ne, nonzero, or_self, if_false, fraction?_append fractional point ends,
    Option.bind_eq_bind, Option.bind_some, exponent?_append scaled stops, Option.pure_def]

theorem exists_spellsSize {negative : Bool} {number : Number}
    (read : number? negative text = some (number, rest)) :
    ∃ chars, SpellsSize negative number chars ∧ text = chars ++ rest ∧
      StopsAt Char.isDigit rest := by
  obtain ⟨whole, eq, all, leading, stops⟩ := exists_digits text
  simp only [number?] at read
  split at read
  · simp at read
  · rename_i proper
    rw [leading, leadingZero_iff all, digitsOf_eq_nil_iff, not_or, not_and, not_lt] at proper
    obtain ⟨⟨fraction, afterFraction⟩, fractional, read⟩ := Option.bind_eq_some_iff.mp read
    obtain ⟨⟨exponent, afterExponent⟩, scaled, read⟩ := Option.bind_eq_some_iff.mp read
    cases read
    dsimp only at scaled
    obtain ⟨fractionText, fractional, eq', stops'⟩ := exists_spellsFraction stops fractional
    obtain ⟨exponentText, scaled, eq'', ends⟩ := exists_spellsExponent stops' scaled
    have areDigits : AreDigits whole := ⟨proper.1, all⟩
    rw [leading]
    refine ⟨_, .parts areDigits (fun zero => ?_) fractional scaled, ?_, ends⟩
    · exact (proper.2 zero).antisymm (List.length_pos_iff.mpr proper.1)
    · rw [eq, eq', eq'', List.append_assoc, List.append_assoc]

/-- How a code unit of a string is written: as a character that needs no backslash, or behind one as
a letter or as four hexadecimal digits. -/
inductive SpellsUnit : Nat → List Char → Prop
  | plain {c : Char} (visible : 0x20 ≤ c.toNat) (quote : c ≠ '"') (backslash : c ≠ '\\') :
    SpellsUnit c.toNat [c]
  | escape {letter char : Char} (known : escape? letter = some char) :
    SpellsUnit char.toNat ['\\', letter]
  | hex {a b c d : Char} {unit : Nat} (digits : hexUnit? a b c d = some unit) :
    SpellsUnit unit ['\\', 'u', a, b, c, d]

inductive SpellsUnits : List Nat → List Char → Prop
  | nil : SpellsUnits [] []
  | cons {unit : Nat} {units : List Nat} {chars more : List Char} (first : SpellsUnit unit chars)
    (others : SpellsUnits units more) : SpellsUnits (unit :: units) (chars ++ more)

theorem stringUnits_append {units : List Nat} (spells : SpellsUnits units chars) :
    stringUnits (chars ++ '"' :: rest) = some (units, rest) := by
  induction spells with
  | nil => rfl
  | cons first others ih =>
    rw [List.append_assoc]
    cases first with
    | @plain c visible quote backslash =>
      rw [List.singleton_append, stringUnits, if_neg (Nat.not_lt.mpr visible), ih]
      · rfl
      · exact quote
      · exact fun _ _ _ _ _ same => absurd same backslash
      · exact fun _ _ same => absurd same backslash
    | @escape letter char known =>
      have ne : letter ≠ 'u' := by
        rintro rfl
        cases known
      rw [List.cons_append, List.cons_append, List.nil_append, stringUnits, known, ih]
      · rfl
      · exact fun _ _ _ _ _ same => absurd same ne
    | hex digits =>
      simp only [List.cons_append, List.nil_append, stringUnits, digits, ih]
      rfl

theorem exists_spellsUnits {units : List Nat} (read : stringUnits text = some (units, rest)) :
    ∃ chars, SpellsUnits units chars ∧ text = chars ++ '"' :: rest := by
  fun_induction stringUnits text generalizing units rest with
  | case1 => cases read
  | case2 after =>
    cases read
    exact ⟨[], .nil, rfl⟩
  | case3 a b c d after ih =>
    obtain ⟨unit, digits, read⟩ := Option.bind_eq_some_iff.mp read
    obtain ⟨⟨more, _⟩, others, read⟩ := Option.bind_eq_some_iff.mp read
    cases read
    obtain ⟨chars, spells, rfl⟩ := ih others
    exact ⟨_, .cons (.hex digits) spells, rfl⟩
  | case4 letter after _ ih =>
    obtain ⟨char, known, read⟩ := Option.bind_eq_some_iff.mp read
    obtain ⟨⟨more, _⟩, others, read⟩ := Option.bind_eq_some_iff.mp read
    cases read
    obtain ⟨chars, spells, rfl⟩ := ih others
    exact ⟨_, .cons (.escape known) spells, rfl⟩
  | case5 => cases read
  | case6 c after quote _ escape visible ih =>
    obtain ⟨⟨more, _⟩, others, read⟩ := Option.bind_eq_some_iff.mp read
    cases read
    obtain ⟨chars, spells, rfl⟩ := ih others
    have backslash : c ≠ '\\' := by
      intro same
      obtain ⟨d, tail, eq⟩ := List.exists_cons_of_ne_nil
        (List.append_ne_nil_of_right_ne_nil chars (List.cons_ne_nil '"' rest))
      exact escape d tail same eq
    exact ⟨_, .cons (.plain (Nat.not_lt.mp visible) quote backslash) spells, rfl⟩

namespace Token

inductive Spells : Token → List Char → Prop
  | openBrace : Spells .openBrace ['{']
  | closeBrace : Spells .closeBrace ['}']
  | openBracket : Spells .openBracket ['[']
  | closeBracket : Spells .closeBracket [']']
  | comma : Spells .comma [',']
  | colon : Spells .colon [':']
  | null : Spells .null ['n', 'u', 'l', 'l']
  | true : Spells (.boolean true) ['t', 'r', 'u', 'e']
  | false : Spells (.boolean false) ['f', 'a', 'l', 's', 'e']
  | string {units : List Nat} {chars : List Char} (spells : SpellsUnits units chars) :
    Spells (.string ((decodeUnits units).map .ofList)) ('"' :: (chars ++ ['"']))
  | number {number : Number} {chars : List Char} (spells : SpellsSize false number chars) :
    Spells (.number number) chars
  | negative {number : Number} {chars : List Char} (spells : SpellsSize true number chars) :
    Spells (.number number) ('-' :: chars)

end Token

/-- Whether a character is a blank. -/
def IsBlank (c : Char) : Prop := c = ' ' ∨ c = '\t' ∨ c = '\n' ∨ c = '\r'

/-- The layouts of tokens: what is written for them one after the other, with blanks wherever there
is no token. Behind a number stands no digit. -/
inductive Laid : List Token → List Char → Prop
  | nil : Laid [] []
  | blank {c : Char} {tokens : List Token} {text : List Char} (isBlank : IsBlank c)
    (others : Laid tokens text) : Laid tokens (c :: text)
  | token {token : Token} {chars : List Char} {tokens : List Token} {text : List Char}
    (spells : token.Spells chars)
    (ends : ∀ number, token = .number number → StopsAt Char.isDigit text)
    (others : Laid tokens text) : Laid (token :: tokens) (chars ++ text)

theorem exists_digit_of_spellsSize {negative : Bool} {number : Number}
    (spells : SpellsSize negative number chars) : ∃ c more, chars = c :: more ∧ c.isDigit := by
  obtain ⟨⟨ne, all⟩, -, -, -⟩ := spells
  obtain ⟨c, more, rfl⟩ := List.exists_cons_of_ne_nil ne
  exact ⟨c, _, rfl, all c List.mem_cons_self⟩

theorem lexeme?_of_isDigit {c : Char} (digit : c.isDigit) : lexeme? (c :: rest) =
    (number? false (c :: rest)).bind fun (number, rest) => some (some (.number number), rest) := by
  unfold lexeme?
  split <;> first | rfl | simp_all

theorem lexeme?_of_isBlank {c : Char} (isBlank : IsBlank c) :
    lexeme? (c :: rest) = some (none, rest) := by
  rcases isBlank with rfl | rfl | rfl | rfl <;> rfl

theorem lexeme?_append {token : Token} (spells : token.Spells chars)
    (ends : ∀ number, token = .number number → StopsAt goesOn rest) :
    lexeme? (chars ++ rest) = some (some token, rest) := by
  cases spells with
  | openBrace | closeBrace | openBracket | closeBracket | comma | colon | null | true | false => rfl
  | string spells =>
    rw [List.cons_append, List.append_assoc, List.singleton_append, lexeme?,
      stringUnits_append spells]
    rfl
  | number spells =>
    have read := number?_append spells (ends _ rfl)
    obtain ⟨c, more, rfl, digit⟩ := exists_digit_of_spellsSize spells
    rw [List.cons_append] at read ⊢
    rw [lexeme?_of_isDigit digit, read]
    rfl
  | negative spells =>
    rw [List.cons_append, lexeme?, number?_append spells (ends _ rfl)]
    rfl

/-- What a text begins with is a blank or is written for a token. -/
theorem exists_spells_of_lexeme? {token : Option Token} (read : lexeme? text = some (token, rest)) :
    (∃ c, token = none ∧ IsBlank c ∧ text = c :: rest) ∨
      ∃ written chars, token = some written ∧ written.Spells chars ∧ text = chars ++ rest ∧
        ∀ number, written = .number number → StopsAt Char.isDigit rest := by
  unfold lexeme? at read
  split at read
  · cases read
    exact .inl ⟨_, rfl, by simp [IsBlank], rfl⟩
  · cases read
    exact .inl ⟨_, rfl, by simp [IsBlank], rfl⟩
  · cases read
    exact .inl ⟨_, rfl, by simp [IsBlank], rfl⟩
  · cases read
    exact .inl ⟨_, rfl, by simp [IsBlank], rfl⟩
  · cases read
    exact .inr ⟨_, _, rfl, .openBrace, rfl, nofun⟩
  · cases read
    exact .inr ⟨_, _, rfl, .closeBrace, rfl, nofun⟩
  · cases read
    exact .inr ⟨_, _, rfl, .openBracket, rfl, nofun⟩
  · cases read
    exact .inr ⟨_, _, rfl, .closeBracket, rfl, nofun⟩
  · cases read
    exact .inr ⟨_, _, rfl, .comma, rfl, nofun⟩
  · cases read
    exact .inr ⟨_, _, rfl, .colon, rfl, nofun⟩
  · cases read
    exact .inr ⟨_, _, rfl, .null, rfl, nofun⟩
  · cases read
    exact .inr ⟨_, _, rfl, .true, rfl, nofun⟩
  · cases read
    exact .inr ⟨_, _, rfl, .false, rfl, nofun⟩
  · obtain ⟨⟨units, after⟩, string, read⟩ := Option.bind_eq_some_iff.mp read
    cases read
    obtain ⟨chars, spells, rfl⟩ := exists_spellsUnits string
    exact .inr ⟨_, _, rfl, .string spells, by simp, nofun⟩
  · obtain ⟨⟨number, after⟩, size, read⟩ := Option.bind_eq_some_iff.mp read
    cases read
    obtain ⟨chars, spells, rfl, stops⟩ := exists_spellsSize size
    exact .inr ⟨_, _, rfl, .negative spells, rfl, fun _ _ => stops⟩
  · obtain ⟨⟨number, after⟩, size, read⟩ := Option.bind_eq_some_iff.mp read
    cases read
    obtain ⟨chars, spells, rfl, stops⟩ := exists_spellsSize size
    exact .inr ⟨_, _, rfl, .number spells, rfl, fun _ _ => stops⟩

variable {tokens : List Token}

theorem head_spells {token : Token} {c : Char} (spells : token.Spells chars)
    (first : (chars ++ rest).head? = some c) : goesOn c → c.isDigit := by
  cases spells with
  | number spells =>
    obtain ⟨d, more, rfl, digit⟩ := exists_digit_of_spellsSize spells
    cases first
    exact fun _ => digit
  | _ =>
    cases first
    decide

/-- What goes on with a number behind its digits does not begin a layout. -/
theorem Laid.stopsAt (laid : Laid tokens text) (stops : StopsAt Char.isDigit text) :
    StopsAt goesOn text := by
  intro c first
  have noDigit := stops c first
  cases laid with
  | nil => cases first
  | blank isBlank others =>
    cases first
    rcases isBlank with rfl | rfl | rfl | rfl <;> rfl
  | token spells =>
    by_contra more
    have digit := head_spells spells first (by simpa using more)
    rw [noDigit] at digit
    cases digit

theorem tokensOf?_of_lexeme? {token : Option Token} (read : lexeme? text = some (token, rest)) :
    tokensOf? text = (tokensOf? rest).map (token.toList ++ ·) := by
  have ne : text ≠ [] := by
    rintro rfl
    cases read
  rw [Json.tokensOf?, if_neg ne]
  split
  · rename_i failed
    rw [read] at failed
    cases failed
  · rename_i read'
    rw [read] at read'
    cases read'
    rfl

theorem Laid.tokensOf? (laid : Laid tokens text) : tokensOf? text = some tokens := by
  induction laid with
  | nil => simp [Json.tokensOf?]
  | blank isBlank others ih =>
    rw [tokensOf?_of_lexeme? (lexeme?_of_isBlank isBlank), ih]
    rfl
  | token spells ends others ih =>
    rw [tokensOf?_of_lexeme? (lexeme?_append spells fun number same =>
      others.stopsAt (ends number same)), ih]
    rfl

theorem laid_of_tokensOf? (read : tokensOf? text = some tokens) : Laid tokens text := by
  fun_induction tokensOf? text generalizing tokens with
  | case1 =>
    cases read
    exact .nil
  | case2 => cases read
  | case3 text _ token rest first ih =>
    obtain ⟨others, onward, rfl⟩ := Option.map_eq_some_iff.mp read
    rcases exists_spells_of_lexeme? first with
      ⟨c, rfl, isBlank, rfl⟩ | ⟨written, chars, rfl, spells, rfl, ends⟩
    · exact .blank isBlank (ih onward)
    · exact .token spells ends (ih onward)

/-- The tokens of a text are those of which it is a layout. -/
theorem tokens?_eq_some_iff {text : String} :
    tokens? text = some tokens ↔ Laid tokens text.toList :=
  ⟨laid_of_tokensOf?, Laid.tokensOf?⟩

end DistanceField.Json
