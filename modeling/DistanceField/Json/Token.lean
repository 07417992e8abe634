import DistanceField.Json.Number

/-!
# Tokens of JSON

A text is cut into tokens; the four blanks space, tab, line feed and carriage return may stand
between them. A string whose escapes name half of a surrogate pair is a token, but it has no text.
-/

namespace DistanceField.Json

inductive Token where
  | openBrace
  | closeBrace
  | openBracket
  | closeBracket
  | comma
  | colon
  | null
  | boolean (value : Bool)
  | number (value : Number)
  | string (text : Option String)
  deriving DecidableEq

def hexDigit? (c : Char) : Option Nat :=
  if c.isDigit then some (c.toNat - '0'.toNat)
  else if 'a' ≤ c ∧ c ≤ 'f' then some (c.toNat - 'a'.toNat + 10)
  else if 'A' ≤ c ∧ c ≤ 'F' then some (c.toNat - 'A'.toNat + 10)
  else none

def hexUnit? (a b c d : Char) : Option Nat := do
  return (((← hexDigit? a) * 16 + (← hexDigit? b)) * 16 + (← hexDigit? c)) * 16 + (← hexDigit? d)

def escape? : Char → Option Char
  | '"' => some '"'
  | '\\' => some '\\'
  | '/' => some '/'
  | 'b' => some '\x08'
  | 'f' => some '\x0c'
  | 'n' => some '\n'
  | 'r' => some '\r'
  | 't' => some '\t'
  | _ => none

/-- The code units of a string whose opening quote has been read, and what follows it. A character
that is written as it is is one unit. -/
def stringUnits : List Char → Option (List Nat × List Char)
  | [] => none
  | '"' :: rest => some ([], rest)
  | '\\' :: 'u' :: a :: b :: c :: d :: rest => do
    let unit ← hexUnit? a b c d
    let (units, rest) ← stringUnits rest
    return (unit :: units, rest)
  | '\\' :: c :: rest => do
    let char ← escape? c
    let (units, rest) ← stringUnits rest
    return (char.toNat :: units, rest)
  | c :: rest =>
    if c.toNat < 0x20 then none
    else do
      let (units, rest) ← stringUnits rest
      return (c.toNat :: units, rest)

def isHighSurrogate (unit : Nat) : Bool := 0xD800 ≤ unit && unit < 0xDC00

def isLowSurrogate (unit : Nat) : Bool := 0xDC00 ≤ unit && unit < 0xE000

/-- The characters that code units stand for; a half of a pair without the other stands for none. -/
def decodeUnits : List Nat → Option (List Char)
  | [] => some []
  | unit :: units =>
    if isHighSurrogate unit then
      match units with
      | [] => none
      | low :: units =>
        if isLowSurrogate low then
          (decodeUnits units).map
            (Char.ofNat (0x10000 + (unit - 0xD800) * 0x400 + (low - 0xDC00)) :: ·)
        else none
    else if isLowSurrogate unit then none
    else (decodeUnits units).map (Char.ofNat unit :: ·)

def leadingDigits (text : List Char) : List Nat :=
  (text.takeWhile Char.isDigit).map fun c => c.toNat - '0'.toNat

def afterDigits (text : List Char) : List Char := text.dropWhile Char.isDigit

def fraction? : List Char → Option (List Nat × List Char)
  | '.' :: rest =>
    if leadingDigits rest = [] then none else some (leadingDigits rest, afterDigits rest)
  | rest => some ([], rest)

def exponentSign : List Char → Bool × List Char
  | '+' :: rest => (false, rest)
  | '-' :: rest => (true, rest)
  | rest => (false, rest)

def exponent? : List Char → Option (Option (Bool × List Nat) × List Char)
  | [] => some (none, [])
  | c :: rest =>
    if c = 'e' ∨ c = 'E' then
      let (negative, rest) := exponentSign rest
      if leadingDigits rest = [] then none
      else some (some (negative, leadingDigits rest), afterDigits rest)
    else some (none, c :: rest)

/-- The number at the beginning of a text without a sign, and what follows. Its whole part has no
zero before other digits. -/
def number? (negative : Bool) (text : List Char) : Option (Number × List Char) := do
  let whole := leadingDigits text
  if whole = [] ∨ (whole.head? = some 0 ∧ 1 < whole.length) then none
  let (fraction, rest) ← fraction? (afterDigits text)
  let (exponent, rest) ← exponent? rest
  return (⟨negative, whole, fraction, exponent⟩, rest)

/-- What the first character of a text leads to: the token it begins, if it is no blank, and what
follows. -/
def lexeme? : List Char → Option (Option Token × List Char)
  | ' ' :: rest | '\t' :: rest | '\n' :: rest | '\r' :: rest => some (none, rest)
  | '{' :: rest => some (some .openBrace, rest)
  | '}' :: rest => some (some .closeBrace, rest)
  | '[' :: rest => some (some .openBracket, rest)
  | ']' :: rest => some (some .closeBracket, rest)
  | ',' :: rest => some (some .comma, rest)
  | ':' :: rest => some (some .colon, rest)
  | 'n' :: 'u' :: 'l' :: 'l' :: rest => some (some .null, rest)
  | 't' :: 'r' :: 'u' :: 'e' :: rest => some (some (.boolean true), rest)
  | 'f' :: 'a' :: 'l' :: 's' :: 'e' :: rest => some (some (.boolean false), rest)
  | '"' :: rest => do
    let (units, rest) ← stringUnits rest
    return (some (.string ((decodeUnits units).map String.ofList)), rest)
  | '-' :: rest => do
    let (number, rest) ← number? true rest
    return (some (.number number), rest)
  | text => do
    let (number, rest) ← number? false text
    return (some (.number number), rest)

theorem length_afterDigits_le (text : List Char) : (afterDigits text).length ≤ text.length :=
  (List.dropWhile_sublist _).length_le

theorem length_fraction?_le {text rest : List Char} {digits : List Nat}
    (h : fraction? text = some (digits, rest)) : rest.length ≤ text.length := by
  unfold fraction? at h
  split at h
  · split at h
    · simp at h
    · simp only [Option.some.injEq, Prod.mk.injEq] at h
      exact h.2 ▸ Nat.le_succ_of_le (length_afterDigits_le _)
  · simp only [Option.some.injEq, Prod.mk.injEq] at h
    exact h.2 ▸ Nat.le_refl _

theorem length_exponentSign_le (text : List Char) :
    (exponentSign text).2.length ≤ text.length := by
  unfold exponentSign
  split <;> simp

theorem length_exponent?_le {text rest : List Char} {exponent : Option (Bool × List Nat)}
    (h : exponent? text = some (exponent, rest)) : rest.length ≤ text.length := by
  unfold exponent? at h
  split at h
  · simp_all
  · rename_i c after
    split at h
    · dsimp only at h
      split at h
      · simp at h
      · simp only [Option.some.injEq, Prod.mk.injEq] at h
        have := length_afterDigits_le (exponentSign after).2
        have := length_exponentSign_le after
        rw [← h.2, List.length_cons]
        omega
    · simp only [Option.some.injEq, Prod.mk.injEq] at h
      exact h.2 ▸ Nat.le_refl _

theorem length_number?_lt {negative : Bool} {text rest : List Char} {number : Number}
    (h : number? negative text = some (number, rest)) : rest.length < text.length := by
  simp only [number?] at h
  split at h
  · simp at h
  · rename_i digits
    obtain ⟨⟨fraction, afterFraction⟩, hf, h⟩ := Option.bind_eq_some_iff.mp h
    obtain ⟨⟨exponent, afterExponent⟩, he, h⟩ := Option.bind_eq_some_iff.mp h
    simp only [Option.pure_def, Option.some.injEq, Prod.mk.injEq] at h
    have := length_fraction?_le hf
    have := length_exponent?_le he
    have nonempty : 0 < (text.takeWhile Char.isDigit).length := by
      rw [List.length_pos_iff]
      intro empty
      exact digits (.inl (by rw [leadingDigits, empty]; rfl))
    have parts := congrArg List.length
      (List.takeWhile_append_dropWhile (p := Char.isDigit) (l := text))
    rw [List.length_append] at parts
    rw [← h.2]
    simp only [afterDigits] at *
    omega

theorem length_stringUnits_le {text rest : List Char} {units : List Nat}
    (h : stringUnits text = some (units, rest)) : rest.length ≤ text.length := by
  fun_induction stringUnits text generalizing units rest with
  | case1 => simp at h
  | case2 => simp_all
  | case3 a b c d after ih =>
    obtain ⟨unit, hu, h⟩ := Option.bind_eq_some_iff.mp h
    obtain ⟨⟨units', rest'⟩, hs, h⟩ := Option.bind_eq_some_iff.mp h
    simp only [Option.pure_def, Option.some.injEq, Prod.mk.injEq] at h
    have := ih hs
    simp only [← h.2, List.length_cons]
    omega
  | case4 c after _ ih =>
    obtain ⟨char, hc, h⟩ := Option.bind_eq_some_iff.mp h
    obtain ⟨⟨units', rest'⟩, hs, h⟩ := Option.bind_eq_some_iff.mp h
    simp only [Option.pure_def, Option.some.injEq, Prod.mk.injEq] at h
    have := ih hs
    simp only [← h.2, List.length_cons]
    omega
  | case5 => simp at h
  | case6 c after _ _ _ _ ih =>
    obtain ⟨⟨units', rest'⟩, hs, h⟩ := Option.bind_eq_some_iff.mp h
    simp only [Option.pure_def, Option.some.injEq, Prod.mk.injEq] at h
    have := ih hs
    simp only [← h.2, List.length_cons]
    omega

theorem length_lexeme?_lt {text rest : List Char} {token : Option Token}
    (h : lexeme? text = some (token, rest)) : rest.length < text.length := by
  unfold lexeme? at h
  split at h
  all_goals try
    simp only [Option.some.injEq, Prod.mk.injEq] at h
    rw [← h.2]
    simp only [List.length_cons]
    omega
  · obtain ⟨⟨units, after⟩, hs, h⟩ := Option.bind_eq_some_iff.mp h
    simp only [Option.pure_def, Option.some.injEq, Prod.mk.injEq] at h
    exact h.2 ▸ Nat.lt_succ_of_le (length_stringUnits_le hs)
  · obtain ⟨⟨number, after⟩, hn, h⟩ := Option.bind_eq_some_iff.mp h
    simp only [Option.pure_def, Option.some.injEq, Prod.mk.injEq] at h
    exact h.2 ▸ Nat.lt_succ_of_lt (length_number?_lt hn)
  · obtain ⟨⟨number, after⟩, hn, h⟩ := Option.bind_eq_some_iff.mp h
    simp only [Option.pure_def, Option.some.injEq, Prod.mk.injEq] at h
    exact h.2 ▸ length_number?_lt hn

def tokensOf? (text : List Char) : Option (List Token) :=
  if text = [] then some []
  else
    match _h : lexeme? text with
    | none => none
    | some (token, rest) => (tokensOf? rest).map (token.toList ++ ·)
termination_by text.length
decreasing_by exact length_lexeme?_lt ‹_›

def tokens? (text : String) : Option (List Token) := tokensOf? text.toList

end DistanceField.Json
