import DistanceField.Proofs.Glsl.Tokens

/-!
# Tokens in any layout

Blanks and closed comments may stand anywhere between tokens, as long as they keep each token apart
from what would continue it. However they are chosen, the text has the tokens that were written.
-/

namespace DistanceField.Glsl

variable {lineStart : Bool} {c : Char} {text rest : List Char} {token : Token}

theorem numberTail_idem (previous : Char) (text : List Char) :
    numberTail previous (numberTail previous text).1 = ((numberTail previous text).1, []) := by
  induction text generalizing previous with
  | nil => rfl
  | cons c rest ih => by_cases h : continuesNumber previous c <;> simp [numberTail, h, ih]

inductive IsLexeme : Token → Prop where
  | identifier {name : String} (isIdentifier : IsIdentifier name) : IsLexeme (.identifier name)
  | number {text : String} {c : Char} {rest : List Char} (eq : text.toList = c :: rest)
      (starts : startsNumber c rest) (whole : numberTail c rest = (rest, [])) :
      IsLexeme (.number text)
  | punctuation {c : Char} (mark : IsMark c) : IsLexeme (.punctuation c)

theorem startsNumber_numberTail (starts : startsNumber c rest) :
    startsNumber c (numberTail c rest).1 := by
  simp only [startsNumber, Bool.or_eq_true, Bool.and_eq_true, decide_eq_true_eq] at starts ⊢
  refine starts.imp_right ?_
  rintro ⟨point, digit⟩
  refine ⟨point, ?_⟩
  cases rest with
  | nil => simp at digit
  | cons d rest =>
    have digit : d.isDigit := by simpa using digit
    have continues : continuesNumber c d := by simp [continuesNumber, Char.isAlphanum, digit]
    simpa [numberTail, continues] using digit

theorem isLexeme_of_scan (h : (scan lineStart c rest).token = some token) : IsLexeme token := by
  revert h
  fun_cases scan lineStart c rest with
  | case1 => simp
  | case2 => simp
  | case3 => simp
  | case4 => simp
  | case5 => simp
  | case6 _ _ _ _ _ starts =>
    rintro ⟨⟩
    exact .identifier ⟨c, _, String.toList_ofList, starts, fun d mem => List.mem_takeWhile_imp mem⟩
  | case7 _ _ _ _ _ _ starts =>
    rintro ⟨⟩
    exact .number String.toList_ofList (startsNumber_numberTail starts) (numberTail_idem c rest)
  | case8 feed blank _ _ _ noWord noNumber =>
    rintro ⟨⟩
    simp only [startsNumber, Bool.or_eq_true, not_or] at noNumber
    simp only [not_or] at blank
    exact .punctuation ⟨⟨feed, blank⟩, by simpa using noWord, by simpa using noNumber.1⟩

theorem isLexeme_of_mem (mem : token ∈ tokensFrom lineStart text) : IsLexeme token := by
  fun_induction tokensFrom lineStart text with
  | case1 => cases mem
  | case2 lineStart c rest next ih =>
    rcases List.mem_append.mp mem with mem | mem
    · exact isLexeme_of_scan (Option.mem_toList.mp mem)
    · exact ih mem

/-- What follows a token does not continue it. -/
inductive Apart : Token → List Char → Prop where
  | identifier {name : String} {rest : List Char} (stops : ∀ d, rest.head? = some d → Stops d) :
      Apart (.identifier name) rest
  | number {text : String} {rest : List Char} (stops : ∀ d, rest.head? = some d → Stops d) :
      Apart (.number text) rest
  | punctuation {c : Char} {rest : List Char} (alone : Alone c rest) : Apart (.punctuation c) rest

/-- A token is read before anything that does not continue it. -/
theorem IsLexeme.tokensFrom_append (lexeme : IsLexeme token) (apart : Apart token rest)
    (noDirective : token = .punctuation '#' → lineStart = false) :
    tokensFrom lineStart (token.chars ++ rest) = token :: tokensFrom false rest := by
  cases lexeme with
  | @identifier name isIdentifier =>
    obtain ⟨c, more, eq, starts, all⟩ := isIdentifier
    cases apart with
    | identifier stops =>
      have ends : Text.StopsAt continuesIdentifier rest := fun d first => (stops d first).1
      have taken : (more ++ rest).takeWhile continuesIdentifier = more := by
        rw [Text.takeWhile_append_stop ends, List.takeWhile_eq_self_iff.mpr all]
      have left : (more ++ rest).dropWhile continuesIdentifier = rest := by
        rw [Text.dropWhile_append_stop ends, List.dropWhile_eq_nil_iff.mpr all, List.nil_append]
      rw [Token.chars, eq, List.cons_append, tokensFrom_cons, scan_identifier starts, taken, left,
        ← eq, String.ofList_toList]
      rfl
  | @number text c more eq starts whole =>
    cases apart with
    | number stops =>
      have starts : startsNumber c (more ++ rest) := by rwa [startsNumber_append stops]
      have read : numberTail c (more ++ rest) = (more, rest) := by
        rw [numberTail_append_stop stops, whole, List.nil_append]
      rw [Token.chars, eq, List.cons_append, tokensFrom_cons, scan_number starts, read, ← eq,
        String.ofList_toList]
      rfl
  | @punctuation c mark =>
    cases apart with
    | punctuation alone =>
      have directive : c = '#' → lineStart = false := fun sign => noDirective (by rw [sign])
      rw [Token.chars, List.cons_append, List.nil_append, tokensFrom_cons,
        scan_punctuation mark alone directive]
      rfl

/-- A blank or a closed comment. A line comment is closed by a line feed, which belongs to it
here. -/
inductive Trivium where
  | blank (c : Char) (isBlank : c = ' ' ∨ c = '\t' ∨ c = '\r' ∨ c = '\n')
  | block (body : List Char) (unclosed : ¬ ['*', '/'] <:+: body)
  | line (body : List Char) (free : '\n' ∉ body)

namespace Trivium

def space : Trivium := blank ' ' (.inl rfl)

def chars : Trivium → List Char
  | blank c _ => [c]
  | block body _ => '/' :: '*' :: (body ++ ['*', '/'])
  | line body _ => '/' :: '/' :: (body ++ ['\n'])

def charsOf (trivia : List Trivium) : List Char := trivia.flatMap chars

@[simp] theorem charsOf_nil : charsOf [] = [] := rfl

@[simp] theorem charsOf_cons (trivium : Trivium) (trivia : List Trivium) :
    charsOf (trivium :: trivia) = trivium.chars ++ charsOf trivia := rfl

end Trivium

/-- A comment ends where it is closed first. -/
theorem dropBlock_body {body : List Char} (unclosed : ¬ ['*', '/'] <:+: body) (lineStart : Bool)
    (rest : List Char) : dropBlock lineStart (body ++ '*' :: '/' :: rest) =
      (lineStart || decide ('\n' ∈ body), rest) := by
  induction body generalizing lineStart with
  | nil => simp [dropBlock]
  | cons c body ih =>
    have later : ¬ ['*', '/'] <:+: body := fun inner =>
      unclosed (inner.trans (List.suffix_cons c body).isInfix)
    have open_ : ∀ after, c = '*' → body ++ '*' :: '/' :: rest = '/' :: after → False := by
      rintro after rfl eq
      cases body with
      | nil => simp at eq
      | cons d body =>
        obtain ⟨rfl, -⟩ := List.cons.inj eq
        exact unclosed ⟨[], body, rfl⟩
    rw [List.cons_append, dropBlock.eq_3 _ _ _ open_, ih later]
    simp [Bool.or_assoc, eq_comm]

theorem Trivium.tokensFrom_append (trivium : Trivium) (lineStart : Bool) (rest : List Char) :
    tokensFrom lineStart (trivium.chars ++ rest) =
      tokensFrom (lineStart || decide ('\n' ∈ trivium.chars)) rest := by
  cases trivium with
  | blank c isBlank =>
    rcases isBlank with rfl | rfl | rfl | rfl <;> simp [chars, tokensFrom_cons, scan]
  | block body unclosed =>
    have whole : (block body unclosed).chars ++ rest =
        '/' :: '*' :: (body ++ '*' :: '/' :: rest) := by simp [chars]
    have scanned : scan lineStart '/' ('*' :: (body ++ '*' :: '/' :: rest)) =
        ⟨none, lineStart || decide ('\n' ∈ body), rest⟩ := by
      simp [scan, dropBlock_body unclosed]
    rw [whole, tokensFrom_cons, scanned]
    simp [chars]
  | line body free =>
    have whole : (line body free).chars ++ rest = '/' :: '/' :: (body ++ '\n' :: rest) := by
      simp [chars]
    have free' : '\n' ∉ '/' :: body := by simp [free]
    have left : dropLine ('/' :: (body ++ '\n' :: rest)) = '\n' :: rest := by
      rw [← List.cons_append, dropLine_append_of_free free']
      rfl
    have scanned : scan lineStart '/' ('/' :: (body ++ '\n' :: rest)) =
        ⟨none, lineStart, '\n' :: rest⟩ := by
      simp [scan, left]
    rw [whole, tokensFrom_cons, scanned, tokensFrom_cons]
    simp [scan, chars]

theorem Trivium.tokensFrom_charsOf_append (trivia : List Trivium) (lineStart : Bool)
    (rest : List Char) : tokensFrom lineStart (charsOf trivia ++ rest) =
      tokensFrom (lineStart || decide ('\n' ∈ charsOf trivia)) rest := by
  induction trivia generalizing lineStart with
  | nil => simp
  | cons trivium trivia ih =>
    rw [charsOf_cons, List.append_assoc, trivium.tokensFrom_append, ih]
    simp [Bool.or_assoc]

/-- What may stand before the first token of a text: a blank, a comment or the line of a
directive. -/
inductive Opening where
  | trivium (one : Trivium)
  | directive (line : List Char) (free : '\n' ∉ line)

namespace Opening

def chars : Opening → List Char
  | trivium one => one.chars
  | directive line _ => '#' :: (line ++ ['\n'])

def charsOf (openings : List Opening) : List Char := openings.flatMap chars

theorem tokensFrom_append (opening : Opening) (rest : List Char) :
    tokensFrom true (opening.chars ++ rest) = tokensFrom true rest := by
  cases opening with
  | trivium one => rw [chars, one.tokensFrom_append, Bool.true_or]
  | directive line free =>
    have whole : (directive line free).chars ++ rest = '#' :: (line ++ '\n' :: rest) := by
      simp [chars]
    have left : dropLine (line ++ '\n' :: rest) = '\n' :: rest := by
      rw [dropLine_append_of_free free]
      rfl
    have scanned : scan true '#' (line ++ '\n' :: rest) = ⟨none, true, '\n' :: rest⟩ := by
      simp [scan, left]
    rw [whole, tokensFrom_cons, scanned, tokensFrom_cons]
    simp [scan]

/-- Before its first token a text is at the beginning of a line, so all directives are passed
over. -/
theorem tokensFrom_charsOf_append (openings : List Opening) (rest : List Char) :
    tokensFrom true (charsOf openings ++ rest) = tokensFrom true rest := by
  induction openings with
  | nil => rfl
  | cons opening openings ih =>
    rw [charsOf, List.flatMap_cons, List.append_assoc, opening.tokensFrom_append, ← charsOf, ih]

end Opening

/-- Tokens one after the other, each with trivia behind it that suit it and the next token. -/
inductive Laid (suits : Token → Option Token → List Trivium → Prop) :
    List Token → List Char → Prop where
  | nil : Laid suits [] []
  | cons {token : Token} {tokens : List Token} (trivia : List Trivium) {text : List Char}
      (here : suits token tokens.head? trivia) (onward : Laid suits tokens text) :
      Laid suits (token :: tokens) (token.chars ++ (Trivium.charsOf trivia ++ text))

theorem Laid.tokensFrom_append {suits : Token → Option Token → List Trivium → Prop}
    {tokens : List Token} (laid : Laid suits tokens text)
    (lexemes : ∀ token ∈ tokens, IsLexeme token) (noSign : .punctuation '#' ∉ tokens)
    (apart : ∀ {token after trivia text}, token :: after <:+ tokens →
      suits token after.head? trivia → Laid suits after text →
        Apart token (Trivium.charsOf trivia ++ (text ++ rest)))
    (lineStart : Bool) : ∃ lineStart',
      tokensFrom lineStart (text ++ rest) = tokens ++ tokensFrom lineStart' rest := by
  induction laid generalizing lineStart with
  | nil => exact ⟨lineStart, rfl⟩
  | @cons token tokens trivia text here onward ih =>
    obtain ⟨lexeme, lexemes⟩ := List.forall_mem_cons.mp lexemes
    rw [List.mem_cons, not_or] at noSign
    have noDirective : token = .punctuation '#' → lineStart = false := fun sign =>
      absurd sign.symm noSign.1
    obtain ⟨lineStart', eq⟩ := ih lexemes noSign.2
      (fun suffix => apart (suffix.trans (List.suffix_cons token tokens)))
      (false || decide ('\n' ∈ Trivium.charsOf trivia))
    refine ⟨lineStart', ?_⟩
    rw [List.append_assoc, List.append_assoc,
      lexeme.tokensFrom_append (apart List.suffix_rfl here onward) noDirective,
      Trivium.tokensFrom_charsOf_append, eq, List.cons_append]

/-- Trivia that begin with a blank, or nothing behind the last token. -/
def BlankFirst (_ : Token) (next : Option Token) (trivia : List Trivium) : Prop :=
  (∃ c isBlank more, trivia = .blank c isBlank :: more) ∨ (next = none ∧ trivia = [])

theorem IsLexeme.apart (lexeme : IsLexeme token)
    (blank : ∀ c, rest.head? = some c → c = ' ' ∨ c = '\t' ∨ c = '\r' ∨ c = '\n') :
    Apart token rest := by
  have stops : ∀ c, rest.head? = some c → Stops c := by
    intro c first
    rcases blank c first with rfl | rfl | rfl | rfl <;> decide
  cases lexeme with
  | identifier => exact .identifier stops
  | number => exact .number stops
  | @punctuation c mark =>
    refine .punctuation ⟨fun _ => ⟨fun first => ?_, fun first => ?_⟩, fun _ => ?_⟩
    · rcases blank _ first with eq | eq | eq | eq <;> simp at eq
    · rcases blank _ first with eq | eq | eq | eq <;> simp at eq
    · cases rest with
      | nil => rfl
      | cons d rest => rcases blank d rfl with rfl | rfl | rfl | rfl <;> rfl

/-- Tokens with blanks between them are read back, whatever comments stand behind the blanks. -/
theorem tokens_of_laid {tokens : List Token} {before : List Trivium}
    (produced : ∀ token ∈ tokens, ∃ source, token ∈ Glsl.tokens source)
    (noSign : .punctuation '#' ∉ tokens) (laid : Laid BlankFirst tokens text) :
    Glsl.tokens (.ofList (Trivium.charsOf before ++ text)) = tokens := by
  have lexemes : ∀ token ∈ tokens, IsLexeme token := fun token mem =>
    have ⟨_, mem⟩ := produced token mem
    isLexeme_of_mem mem
  have apart : ∀ {token after trivia text}, token :: after <:+ tokens →
      BlankFirst token after.head? trivia → Laid BlankFirst after text →
        Apart token (Trivium.charsOf trivia ++ (text ++ [])) := by
    intro token after trivia text final blank onward
    apply (lexemes token (final.subset List.mem_cons_self)).apart
    intro c first
    rcases blank with ⟨d, isBlank, more, rfl⟩ | ⟨last, rfl⟩
    · cases first
      exact isBlank
    · obtain rfl := List.head?_eq_none_iff.mp last
      cases onward
      cases first
  obtain ⟨lineStart, eq⟩ := laid.tokensFrom_append lexemes noSign apart
    (true || decide ('\n' ∈ Trivium.charsOf before))
  rw [Glsl.tokens, String.toList_ofList, Trivium.tokensFrom_charsOf_append,
    ← List.append_nil text, eq, tokensFrom_nil, List.append_nil]

def signs : List Token :=
  [.number "1e+", .punctuation '/', .punctuation '*', .punctuation '.', .number ".5e",
    .punctuation 'é', .identifier "e"]

theorem tokens_of_laid_signs :
    (∀ token ∈ signs, ∃ source, token ∈ tokens source) ∧ .punctuation '#' ∉ signs ∧
      Laid BlankFirst signs "1e+ /* \x7b# */ /\n//*\n*\t.\r.5e é e".toList ∧
        tokens (.ofList (Trivium.charsOf [.line "/*".toList (by decide)] ++
          "1e+ /* \x7b# */ /\n//*\n*\t.\r.5e é e".toList)) = signs := by
  have produced : ∀ token ∈ signs, token ∈ tokens "1e+ / * . .5e é e" := by decide +kernel
  have noSign : .punctuation '#' ∉ signs := by decide
  have space : ∀ trivia next token, BlankFirst token next (.space :: trivia) :=
    fun _ _ _ => .inl ⟨_, _, _, rfl⟩
  have laid : Laid BlankFirst signs "1e+ /* \x7b# */ /\n//*\n*\t.\r.5e é e".toList :=
    .cons [.space, .block " \x7b# ".toList (by decide), .space] (space _ _ _) <|
    .cons [.blank '\n' (by decide), .line "*".toList (by decide)] (.inl ⟨_, _, _, rfl⟩) <|
    .cons [.blank '\t' (by decide)] (.inl ⟨_, _, _, rfl⟩) <|
    .cons [.blank '\r' (by decide)] (.inl ⟨_, _, _, rfl⟩) <|
    .cons [.space] (space _ _ _) <|
    .cons [.space] (space _ _ _) <|
    .cons [] (.inr ⟨rfl, rfl⟩) .nil
  exact ⟨fun token mem => ⟨_, produced token mem⟩, noSign, laid,
    tokens_of_laid (fun token mem => ⟨_, produced token mem⟩) noSign laid⟩

def Token.isWord : Token → Bool
  | identifier _ => true
  | _ => false

/-- Trivia that stand between two words, if there are any, or between other tokens, also if there
are none. -/
def WordsApart (token : Token) (next : Option Token) (trivia : List Trivium) : Prop :=
  token.isWord → next.any Token.isWord → trivia ≠ []

inductive InHeader : Token → Prop where
  | word {name : String} (isIdentifier : IsIdentifier name) : InHeader (.identifier name)
  | sign {c : Char} (mem : c ∈ ['(', ',', ')', '{']) : InHeader (.punctuation c)

theorem InHeader.isLexeme (h : InHeader token) : IsLexeme token := by
  cases h with
  | word isIdentifier => exact .identifier isIdentifier
  | @sign c mem =>
    have mark : ['(', ',', ')', '{'].all (fun c => decide (IsMark c)) := by decide
    exact .punctuation (of_decide_eq_true (List.all_eq_true.mp mark c mem))

theorem Trivium.stops_of_ne_nil {trivia : List Trivium} (ne : trivia ≠ []) (rest : List Char) :
    ∀ c, (charsOf trivia ++ rest).head? = some c → Stops c := by
  intro c first
  cases trivia with
  | nil => exact absurd rfl ne
  | cons trivium trivia =>
    cases trivium with
    | blank d isBlank =>
      cases first
      rcases isBlank with rfl | rfl | rfl | rfl <;> decide
    | block body unclosed =>
      cases first
      decide
    | line body free =>
      cases first
      decide

/-- The tokens of a header are read from any text that keeps the words apart. -/
theorem Laid.tokensFrom_header {tokens : List Token}
    (laid : Laid WordsApart (tokens ++ [.punctuation c]) text)
    (header : ∀ token ∈ tokens ++ [.punctuation c], InHeader token) (lineStart : Bool)
    (rest : List Char) : ∃ lineStart',
      tokensFrom lineStart (text ++ rest) =
        (tokens ++ [.punctuation c]) ++ tokensFrom lineStart' rest := by
  have noSign : .punctuation '#' ∉ tokens ++ [.punctuation c] := by
    intro mem
    cases header _ mem with
    | sign mem => simp at mem
  refine laid.tokensFrom_append (fun token mem => (header token mem).isLexeme) noSign ?_ lineStart
  intro token after trivia text final apart onward
  cases header token (final.subset List.mem_cons_self) with
  | @sign d mem =>
    refine .punctuation ⟨?_, ?_⟩
    · rintro rfl
      simp at mem
    · rintro rfl
      simp at mem
  | word isIdentifier =>
    apply Apart.identifier
    by_cases some : trivia = []
    · subst some
      cases onward with
      | nil =>
        -- the last token is no word
        obtain ⟨before, eq⟩ := final
        cases (List.append_inj' eq rfl).2
      | @cons next after trivia text here onward =>
        cases header next (final.subset (by simp)) with
        | word => exact absurd rfl (apart rfl rfl)
        | @sign d mem =>
          intro e first
          cases first
          have stops : ['(', ',', ')', '{'].all (fun c => decide (Stops c)) := by decide
          exact of_decide_eq_true (List.all_eq_true.mp stops d mem)
    · exact Trivium.stops_of_ne_nil some _

end DistanceField.Glsl
