import DistanceField.Proofs.Glsl.Comments
import DistanceField.Proofs.Text.Cuts
import DistanceField.Text.Blank

/-!
# Tokens of texts put together

A text falls into its tokens piece by piece: where a piece ends at a character that continues
neither a word nor a number, the tokens of the whole are those of the pieces. A piece with a slash
or a number sign has to be followed by a line feed, since it may end in a comment or a directive,
and no piece may end in a comment of several lines that nothing closes.
-/

namespace DistanceField.Glsl

variable {lineStart : Bool} {previous c : Char} {text rest more : List Char} {token : Token}
  {name source : String}

def IsIdentifier (name : String) : Prop :=
  ∃ c rest, name.toList = c :: rest ∧ startsIdentifier c ∧ ∀ d ∈ rest, continuesIdentifier d

instance (name : String) : Decidable (IsIdentifier name) :=
  match eq : name.toList with
  | [] => .isFalse fun ⟨c, rest, eq', _⟩ => by simp [eq] at eq'
  | c :: rest =>
    decidable_of_iff (startsIdentifier c ∧ rest.all continuesIdentifier)
      ⟨fun h => ⟨c, rest, eq, h.1, List.all_eq_true.mp h.2⟩, fun ⟨c', rest', eq', h⟩ => by
        obtain ⟨rfl, rfl⟩ := List.cons.inj (eq.symm.trans eq')
        exact ⟨h.1, List.all_eq_true.mpr h.2⟩⟩

/-- The characters of a token are taken from the text, an identifier is a name, and no letter and no
digit is punctuation. -/
structure ReadFrom (text : List Char) (token : Token) : Prop where
  chars : token.chars ⊆ text
  isIdentifier : ∀ {name}, token = .identifier name → IsIdentifier name
  punctuation : ∀ {c}, token = .punctuation c → c.isAlphanum = false

theorem ReadFrom.mono {text more : List Char} (h : ReadFrom text token) (sub : text ⊆ more) :
    ReadFrom more token := { h with chars := List.Subset.trans h.chars sub }

/-- What is scanned belongs to the text, and so does what is left, which ends the text. -/
theorem scan_spec (lineStart : Bool) (c : Char) (rest : List Char) :
    (∀ {token}, (scan lineStart c rest).token = some token → ReadFrom (c :: rest) token) ∧
      (scan lineStart c rest).rest <:+ rest := by
  unfold scan
  split
  · exact ⟨by simp, List.suffix_rfl⟩
  split
  · exact ⟨by simp, List.suffix_rfl⟩
  split
  · exact ⟨by simp, List.dropWhile_suffix _⟩
  split
  · exact ⟨by simp, List.dropWhile_suffix _⟩
  split
  · exact ⟨by simp, (dropBlock_suffix ..).trans (List.tail_suffix rest)⟩
  split
  · rename_i starts
    refine ⟨fun eq => ?_, List.dropWhile_suffix _⟩
    cases eq
    constructor
    · rw [Token.chars, String.toList_ofList]
      exact List.cons_subset_cons c (List.takeWhile_sublist _).subset
    · intro name eq
      cases eq
      exact ⟨c, _, String.toList_ofList, starts, fun d mem => List.mem_takeWhile_imp mem⟩
    · simp
  rename_i noWord
  split
  · have whole := numberTail_append c rest
    refine ⟨fun eq => ?_, ⟨_, whole⟩⟩
    cases eq
    constructor
    · rw [Token.chars, String.toList_ofList]
      exact List.cons_subset_cons c (List.IsPrefix.subset ⟨_, whole⟩)
    · simp
    · simp
  · rename_i noNumber
    refine ⟨fun eq => ?_, List.suffix_rfl⟩
    cases eq
    constructor
    · exact List.cons_subset_cons c (List.nil_subset rest)
    · simp
    · intro d eq
      cases eq
      simp only [startsIdentifier, startsNumber, Bool.or_eq_true, not_or] at noWord noNumber
      simp [Char.isAlphanum, noWord.1, noNumber.1]

theorem readFrom_of_mem (mem : token ∈ tokensFrom lineStart text) : ReadFrom text token := by
  fun_induction tokensFrom lineStart text with
  | case1 => cases mem
  | case2 lineStart c rest next ih =>
    obtain ⟨here, left⟩ := scan_spec lineStart c rest
    rcases List.mem_append.mp mem with mem | mem
    · exact here (Option.mem_toList.mp mem)
    · exact (ih mem).mono (List.Subset.trans left.subset (List.subset_cons_self c rest))

theorem mem_of_punctuation_mem (mem : .punctuation c ∈ tokensFrom lineStart text) : c ∈ text :=
  (readFrom_of_mem mem).chars List.mem_cons_self

theorem isAlpha_eq (c : Char) :
    c.isAlpha = (decide (c.val ≥ 65 ∧ c.val ≤ 90) || (c.val ≥ 97 && c.val ≤ 122)) := rfl

def Stops (c : Char) : Prop :=
  continuesIdentifier c = false ∧ c ≠ '.' ∧ c ≠ '+' ∧ c ≠ '-'

instance : DecidablePred Stops := fun _ => inferInstanceAs (Decidable (_ ∧ _))

theorem stops_cons (stop : Stops c) : ∀ d, (c :: rest).head? = some d → Stops d := by
  intro d eq
  cases eq
  exact stop

theorem numberTail_append_stop (stop : ∀ c, rest.head? = some c → Stops c) :
    numberTail previous (text ++ rest) =
      ((numberTail previous text).1, (numberTail previous text).2 ++ rest) := by
  induction text generalizing previous with
  | nil =>
    cases rest with
    | nil => rfl
    | cons c rest =>
      obtain ⟨word, point, plus, minus⟩ := stop c rfl
      have ends : continuesNumber previous c = false := by
        simp only [continuesIdentifier, Bool.or_eq_false_iff] at word
        simp [continuesNumber, word, point, plus, minus]
      simp [numberTail, ends]
  | cons c text ih => by_cases h : continuesNumber previous c <;> simp [numberTail, h, ih]

theorem startsNumber_append (stop : ∀ c, rest.head? = some c → Stops c) :
    startsNumber c (text ++ rest) = startsNumber c text := by
  cases text with
  | cons d text => rfl
  | nil =>
    cases rest with
    | nil => rfl
    | cons d rest =>
      have digit : d.isDigit = false := by
        have word := (stop d rfl).1
        simp only [continuesIdentifier, Char.isAlphanum, Bool.or_eq_false_iff] at word
        exact word.1.2
      simp [startsNumber, digit]

/-- The lexeme that `c` begins ends before `rest`: nothing in it goes on behind the text. -/
structure Ends (lineStart : Bool) (c : Char) (text rest : List Char) : Prop where
  stops : ∀ d, rest.head? = some d → Stops d
  slash : c = '/' → text = [] → rest.head? ≠ some '/' ∧ rest.head? ≠ some '*'
  line : c = '#' ∧ lineStart ∨ c = '/' ∧ text.head? = some '/' →
    '\n' ∈ text ∨ rest.head? = some '\n'
  closed : c = '/' → text.head? = some '*' → ['*', '/'] <:+: text.tail

theorem dropLine_append (ends : '\n' ∈ text ∨ rest.head? = some '\n') :
    dropLine (text ++ rest) = dropLine text ++ rest := by
  induction text with
  | nil =>
    have feed : rest.head? = some '\n' := by simpa using ends
    obtain ⟨rest, rfl⟩ := List.head?_eq_some_iff.mp feed
    rfl
  | cons c text ih =>
    by_cases feed : c = '\n'
    · simp [dropLine, feed]
    · have ends : '\n' ∈ text ∨ rest.head? = some '\n' := by simpa [Ne.symm feed] using ends
      simpa [dropLine, feed] using ih ends

theorem dropLine_append_of_free (free : '\n' ∉ text) (rest : List Char) :
    dropLine (text ++ rest) = dropLine rest :=
  List.dropWhile_append_of_pos (Text.ne_of_free free)

/-- Reading the first lexeme of a piece does not depend on what follows the piece. -/
theorem scan_append (ends : Ends lineStart c text rest) : scan lineStart c (text ++ rest) =
    { scan lineStart c text with rest := (scan lineStart c text).rest ++ rest } := by
  obtain ⟨stops, slash, line, closed⟩ := ends
  unfold scan
  by_cases feed : c = '\n'
  · rw [if_pos feed, if_pos feed]
  rw [if_neg feed, if_neg feed]
  by_cases blank : c = ' ' ∨ c = '\t' ∨ c = '\r'
  · rw [if_pos blank, if_pos blank]
  rw [if_neg blank, if_neg blank]
  by_cases directive : c = '#' ∧ lineStart
  · rw [if_pos directive, if_pos directive, dropLine_append (line (.inl directive))]
  rw [if_neg directive, if_neg directive]
  by_cases isSlash : c = '/'
  · -- no comment begins at the cut, so the second character is that of the piece
    have second : ∀ d, (d = '/' ∨ d = '*') →
        ((text ++ rest).head? = some d ↔ text.head? = some d) := by
      intro d kind
      cases text with
      | nil =>
        obtain ⟨noLine, noBlock⟩ := slash isSlash rfl
        rcases kind with rfl | rfl
        · simpa using noLine
        · simpa using noBlock
      | cons e text => simp
    simp only [second '/' (.inl rfl), second '*' (.inr rfl)]
    by_cases comment : c = '/' ∧ text.head? = some '/'
    · rw [if_pos comment, if_pos comment, dropLine_append (line (.inr comment))]
    rw [if_neg comment, if_neg comment]
    by_cases block : c = '/' ∧ text.head? = some '*'
    · obtain ⟨after, rfl⟩ := List.head?_eq_some_iff.mp block.2
      have inner : ['*', '/'] <:+: after := closed isSlash rfl
      rw [if_pos block, if_pos block, List.cons_append, List.tail_cons, List.tail_cons,
        dropBlock_append lineStart inner]
    · have word : startsIdentifier c = false := by rw [isSlash]; rfl
      have number : ∀ text, startsNumber c text = false := by
        intro text
        rw [isSlash]
        rfl
      simp [if_neg block, word, number]
  · have noComment : ∀ (d : Char) (text : List Char), ¬ (c = '/' ∧ text.head? = some d) :=
      fun d text h => isSlash h.1
    simp only [if_neg (noComment _ _)]
    have ends : Text.StopsAt continuesIdentifier rest := fun d eq => (stops d eq).1
    rw [startsNumber_append stops, numberTail_append_stop stops, Text.takeWhile_append_stop ends,
      Text.dropWhile_append_stop ends]
    split
    · rfl
    · split <;> rfl

/-- A text may be cut before `rest`: nothing in it goes on behind the cut. -/
structure Cut (lineStart : Bool) (text rest : List Char) : Prop where
  stops : ∀ c, rest.head? = some c → Stops c
  feeds : '/' ∈ text ∨ '#' ∈ text → rest.head? = some '\n'
  closed : endsInBlockFrom lineStart text = false

theorem Cut.ends (cut : Cut lineStart (c :: text) rest) : Ends lineStart c text rest where
  stops := cut.stops
  slash isSlash _ := by simp [cut.feeds (.inl (by simp [isSlash]))]
  line mem := .inr (cut.feeds (mem.symm.imp (fun h => by simp [h.1]) (fun h => by simp [h.1])))
  closed := (endsInBlockFrom_cons_eq_false_iff.mp cut.closed).1

theorem Cut.scan (cut : Cut lineStart (c :: text) rest) :
    Cut (scan lineStart c text).lineStart (scan lineStart c text).rest rest := by
  have left : (Glsl.scan lineStart c text).rest ⊆ c :: text :=
    List.subset_cons_of_subset c (scan_spec lineStart c text).2.subset
  constructor
  · exact cut.stops
  · exact fun mem => cut.feeds (mem.imp (fun h => left h) (fun h => left h))
  · exact (endsInBlockFrom_cons_eq_false_iff.mp cut.closed).2

theorem tokensFrom_append (cut : Cut lineStart text rest) :
    ∃ lineStart', tokensFrom lineStart (text ++ rest) =
      tokensFrom lineStart text ++ tokensFrom lineStart' rest := by
  fun_induction tokensFrom lineStart text with
  | case1 lineStart => exact ⟨lineStart, rfl⟩
  | case2 lineStart c text next ih =>
    obtain ⟨lineStart', eq⟩ := ih cut.scan
    refine ⟨lineStart', ?_⟩
    rw [List.cons_append, tokensFrom_cons, scan_append cut.ends, List.append_assoc, ← eq]

theorem endsInBlockFrom_of_noBlock (noBlock : ¬ ['/', '*'] <:+: text) :
    endsInBlockFrom lineStart text = false := by
  fun_induction endsInBlockFrom lineStart text with
  | case1 => rfl
  | case2 lineStart c text ih =>
    have left : (scan lineStart c text).rest <:+ text := (scan_spec lineStart c text).2
    rw [ih fun block => noBlock (block.trans (left.trans (List.suffix_cons c text)).isInfix)]
    have noOpening : ¬ (c = '/' ∧ text.head? = some '*') := by
      rintro ⟨rfl, second⟩
      obtain ⟨after, rfl⟩ := List.head?_eq_some_iff.mp second
      exact noBlock ⟨[], after, rfl⟩
    simp only [Bool.or_false, Bool.and_eq_false_iff, decide_eq_false_iff_not]
    tauto

theorem dropBlock_lineStart (lineStart lineStart' : Bool) (text : List Char) :
    (dropBlock lineStart text).2 = (dropBlock lineStart' text).2 := by
  fun_induction dropBlock lineStart text generalizing lineStart' with
  | case1 => rfl
  | case2 => rfl
  | case3 lineStart c rest unclosed ih =>
    rw [dropBlock.eq_3 _ _ _ unclosed]
    exact ih _

theorem scan_lineStart (ne : c ≠ '#') (lineStart lineStart' : Bool) (rest : List Char) :
    (scan lineStart c rest).token = (scan lineStart' c rest).token ∧
      (scan lineStart c rest).rest = (scan lineStart' c rest).rest := by
  have noDirective : ∀ lineStart : Bool, ¬ (c = '#' ∧ lineStart) := fun _ h => ne h.1
  unfold scan
  simp only [if_neg (noDirective _), dropBlock_lineStart lineStart lineStart']
  repeat' split
  all_goals exact ⟨rfl, rfl⟩

/-- Without number signs there are no directives. -/
theorem tokensFrom_lineStart (free : '#' ∉ text) (lineStart lineStart' : Bool) :
    tokensFrom lineStart text = tokensFrom lineStart' text := by
  fun_induction tokensFrom lineStart text generalizing lineStart' with
  | case1 => rw [tokensFrom_nil]
  | case2 lineStart c text next ih =>
    rw [List.mem_cons, not_or] at free
    obtain ⟨token, left⟩ := scan_lineStart (Ne.symm free.1) lineStart lineStart' text
    have free' : '#' ∉ next.rest := fun mem => free.2 ((scan_spec lineStart c text).2.subset mem)
    rw [tokensFrom_cons, ← token, ← left, ih free']

/-- What stands before a line feed has its own tokens, whatever follows. -/
theorem tokensFrom_line (closed : endsInBlockFrom lineStart text = false) :
    tokensFrom lineStart (text ++ '\n' :: rest) =
      tokensFrom lineStart text ++ tokensFrom true rest := by
  obtain ⟨lineStart', eq⟩ := tokensFrom_append ⟨stops_cons (by decide), fun _ => rfl, closed⟩
  rw [eq, tokensFrom_cons]
  rfl

theorem tokens_line_append (closed : endsInBlock source = false) (rest : String) :
    tokens (source ++ "\n" ++ rest) = tokens source ++ tokens rest := by
  have cut : (source ++ "\n" ++ rest).toList = source.toList ++ '\n' :: rest.toList := by simp
  rw [tokens, cut, tokensFrom_line closed]
  rfl

/-- A text without slashes and number signs is cut at any stop. -/
theorem tokensFrom_append_of_plain (plain : '/' ∉ text ∧ '#' ∉ text) (free : '#' ∉ rest)
    (stops : ∀ c, rest.head? = some c → Stops c) (lineStart lineStart' : Bool) :
    tokensFrom lineStart (text ++ rest) = tokensFrom lineStart text ++ tokensFrom lineStart' rest := by
  have noBlock : ¬ ['/', '*'] <:+: text := fun block => plain.1 (block.subset List.mem_cons_self)
  have feeds : '/' ∈ text ∨ '#' ∈ text → rest.head? = some '\n' := fun mem =>
    (mem.elim plain.1 plain.2).elim
  obtain ⟨lineStart'', eq⟩ :=
    tokensFrom_append ⟨stops, feeds, @endsInBlockFrom_of_noBlock lineStart _ noBlock⟩
  rw [eq, tokensFrom_lineStart free lineStart'' lineStart']

section Blanks

variable {blanks : List Char}

theorem stops_of_isBlank (blank : Text.isBlank c) : Stops c := by
  have ne : ∀ d, Text.isBlank d = false → c ≠ d := fun _ => Text.ne_of_apart blank
  refine ⟨?_, ne '.' (by decide), ne '+' (by decide), ne '-' (by decide)⟩
  have underscore : c ≠ '_' := ne '_' (by decide)
  have value : c.toNat = c.val.toNat := rfl
  simp only [Text.isBlank, Text.blankRanges, List.any_cons, List.any_nil, Bool.or_eq_true,
    Bool.and_eq_true, decide_eq_true_eq, Bool.or_false, value] at blank
  simp only [continuesIdentifier, Char.isAlphanum, isAlpha_eq, Char.isDigit, underscore,
    decide_false, Bool.or_false, Bool.or_eq_false_iff, Bool.and_eq_false_iff,
    decide_eq_false_iff_not, ge_iff_le, UInt32.le_iff_toNat_le, Char.reduceVal, UInt32.reduceToNat]
  omega

theorem scan_rest_of_line (line : c = '#' ∧ lineStart ∨ c = '/' ∧ text.head? = some '/') :
    (scan lineStart c text).rest = dropLine text := by
  rcases line with ⟨rfl, start⟩ | ⟨rfl, second⟩
  · simp [scan, start]
  · simp [scan, second]

/-- Blanks at its end neither open nor close a comment of a text. -/
theorem endsInBlockFrom_of_append_blanks (blank : blanks.all Text.isBlank)
    (closed : endsInBlockFrom lineStart (text ++ blanks) = false) :
    endsInBlockFrom lineStart text = false := by
  have all : ∀ d ∈ blanks, Text.isBlank d := List.all_eq_true.mp blank
  have notFirst : ∀ {d}, Text.isBlank d = false → blanks.head? ≠ some d :=
    fun other first => Text.notMem_of_apart all other (List.mem_of_mem_head? first)
  induction lineStart, text using endsInBlockFrom.induct with
  | case1 => exact endsInBlockFrom_nil
  | case2 lineStart c text ih =>
    rw [List.cons_append, endsInBlockFrom_cons_eq_false_iff] at closed
    rw [endsInBlockFrom_cons_eq_false_iff]
    obtain ⟨here, onward⟩ := closed
    have here : c = '/' → text.head? = some '*' → ['*', '/'] <:+: text.tail := by
      intro isSlash second
      obtain ⟨after, rfl⟩ := List.head?_eq_some_iff.mp second
      refine (infix_or_infix_of_append (notFirst (by decide)) (here isSlash rfl)).resolve_right ?_
      intro inner
      have star : Text.isBlank '*' = false := by decide
      exact Text.notMem_of_apart all star (inner.subset List.mem_cons_self)
    refine ⟨here, ?_⟩
    by_cases last : (c = '#' ∧ lineStart ∨ c = '/' ∧ text.head? = some '/') ∧ '\n' ∉ text
    · -- the last line of the text: nothing is left behind it
      obtain ⟨line, free⟩ := last
      have none : dropLine text = [] := List.dropWhile_eq_nil_iff.mpr (Text.ne_of_free free)
      rw [scan_rest_of_line line, none]
      exact endsInBlockFrom_nil
    · have ends : Ends lineStart c text blanks :=
        { stops := fun d first => stops_of_isBlank (all d (List.mem_of_mem_head? first))
          slash := fun _ _ => ⟨notFirst (by decide), notFirst (by decide)⟩
          line := fun line => .inl (not_not.mp fun free => last ⟨line, free⟩)
          closed := here }
      rw [scan_append ends] at onward
      exact ih onward

theorem endsInBlock_trimEnd (closed : endsInBlock source = false) :
    endsInBlock (Text.trimEnd source) = false := by
  obtain ⟨blanks, blank, eq⟩ := Text.exists_dropBlankEnd_append source.toList
  rw [endsInBlock, ← eq] at closed
  rw [endsInBlock, Text.toList_trimEnd]
  exact endsInBlockFrom_of_append_blanks blank closed

end Blanks

theorem startsIdentifier_of_isDigit (digit : c.isDigit) : startsIdentifier c = false := by
  have underscore : c ≠ '_' := Text.ne_of_apart digit rfl
  simp only [Char.isDigit, Bool.and_eq_true, decide_eq_true_eq, ge_iff_le,
    UInt32.le_iff_toNat_le, Char.reduceVal, UInt32.reduceToNat] at digit
  simp only [startsIdentifier, isAlpha_eq, underscore, decide_false, Bool.or_false,
    Bool.or_eq_false_iff, Bool.and_eq_false_iff, decide_eq_false_iff_not, ge_iff_le,
    UInt32.le_iff_toNat_le, UInt32.reduceToNat]
  omega

theorem scan_identifier (starts : startsIdentifier c) (lineStart : Bool) (rest : List Char) :
    scan lineStart c rest =
      ⟨some (.identifier (.ofList (c :: rest.takeWhile continuesIdentifier))), false,
        rest.dropWhile continuesIdentifier⟩ := by
  have ne : ∀ d, startsIdentifier d = false → c ≠ d := fun _ => Text.ne_of_apart starts
  simp [scan, ne '\n' rfl, ne ' ' rfl, ne '\t' rfl, ne '\r' rfl, ne '#' rfl, ne '/' rfl, starts]

theorem scan_number (starts : startsNumber c rest) (lineStart : Bool) :
    scan lineStart c rest =
      ⟨some (.number (.ofList (c :: (numberTail c rest).1))), false, (numberTail c rest).2⟩ := by
  have noWord : startsIdentifier c = false := by
    simp only [startsNumber, Bool.or_eq_true, Bool.and_eq_true, decide_eq_true_eq] at starts
    rcases starts with digit | ⟨rfl, -⟩
    · exact startsIdentifier_of_isDigit digit
    · rfl
  have ne : ∀ d, startsNumber d rest = false → c ≠ d := by
    rintro d other rfl
    rw [starts] at other
    cases other
  simp [scan, ne '\n' rfl, ne ' ' rfl, ne '\t' rfl, ne '\r' rfl, ne '#' rfl, ne '/' rfl, noWord,
    starts]

structure IsMark (c : Char) : Prop where
  notBlank : c ≠ '\n' ∧ c ≠ ' ' ∧ c ≠ '\t' ∧ c ≠ '\r'
  notWord : startsIdentifier c = false
  notDigit : c.isDigit = false

instance (c : Char) : Decidable (IsMark c) :=
  decidable_of_iff ((c ≠ '\n' ∧ c ≠ ' ' ∧ c ≠ '\t' ∧ c ≠ '\r') ∧ startsIdentifier c = false ∧
    c.isDigit = false) ⟨fun h => ⟨h.1, h.2.1, h.2.2⟩, fun h => ⟨h.1, h.2, h.3⟩⟩

/-- What follows a mark neither makes a comment nor a number of it. -/
structure Alone (c : Char) (rest : List Char) : Prop where
  slash : c = '/' → rest.head? ≠ some '/' ∧ rest.head? ≠ some '*'
  point : c = '.' → rest.head?.any Char.isDigit = false

theorem scan_punctuation (mark : IsMark c) (alone : Alone c rest)
    (noDirective : c = '#' → lineStart = false) :
    scan lineStart c rest = ⟨some (.punctuation c), false, rest⟩ := by
  obtain ⟨⟨feed, space, tab, back⟩, notWord, notDigit⟩ := mark
  have directive : ¬ (c = '#' ∧ lineStart = true) := by
    rintro ⟨sign, start⟩
    rw [noDirective sign] at start
    cases start
  have line : ¬ (c = '/' ∧ rest.head? = some '/') := fun h => (alone.slash h.1).1 h.2
  have block : ¬ (c = '/' ∧ rest.head? = some '*') := fun h => (alone.slash h.1).2 h.2
  have notNumber : startsNumber c rest = false := by
    simp only [startsNumber, notDigit, Bool.false_or, Bool.and_eq_false_iff,
      decide_eq_false_iff_not]
    exact not_or_of_imp alone.point
  simp only [scan, feed, space, tab, back, directive, line, block, notWord, notNumber, or_self,
    if_false, Bool.false_eq_true]

theorem tokensFrom_identifier (h : IsIdentifier name) (lineStart : Bool) :
    tokensFrom lineStart name.toList = [.identifier name] := by
  obtain ⟨c, rest, eq, starts, continues⟩ := h
  rw [eq, tokensFrom_cons, scan_identifier starts, List.takeWhile_eq_self_iff.mpr continues,
    List.dropWhile_eq_nil_iff.mpr continues, ← eq, String.ofList_toList]
  simp

theorem tokensFrom_number (digit : c.isDigit) (all : ∀ d ∈ rest, d.isDigit ∨ d = '.')
    (lineStart : Bool) : tokensFrom lineStart (c :: rest) = [.number (.ofList (c :: rest))] := by
  have tail : ∀ previous, numberTail previous rest = (rest, []) := by
    clear digit
    induction rest with
    | nil => simp [numberTail]
    | cons d rest ih =>
      obtain ⟨here, all⟩ := List.forall_mem_cons.mp all
      intro previous
      have continues : continuesNumber previous d := by
        rcases here with digit | rfl
        · simp [continuesNumber, Char.isAlphanum, digit]
        · simp [continuesNumber]
      simp [numberTail, continues, ih all]
  have starts : startsNumber c rest := by simp [startsNumber, digit]
  rw [tokensFrom_cons, scan_number starts, tail]
  simp

end DistanceField.Glsl
