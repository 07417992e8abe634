import DistanceField.Glsl.Header
import DistanceField.Proofs.Glsl.Tokens
import Mathlib.Data.List.DropRight

/-!
# Texts without their comments

A text is cut into characters of code and whole comments. With one blank in the place of each
comment it reads the same: a line feed for a comment of several lines, since what follows such a
comment stands at the beginning of a line, and a space for every other. Only a directive has to be
on one line together with its comments, since it is passed over up to the end of the line.
-/

namespace DistanceField.Glsl

variable {lineStart : Bool} {previous c : Char} {text rest : List Char} {p : Char → Bool}
  {source : String}

/-- A piece of a text: a character outside of all comments, or a comment. -/
inductive Piece where
  | code (c : Char)
  | comment (text : List Char)

namespace Piece

def block : List Char → List Char
  | [] => []
  | '*' :: '/' :: _ => ['*', '/']
  | c :: rest => c :: block rest

theorem block_isPrefix (text : List Char) : block text <+: text := by
  fun_induction block text with
  | case1 => exact List.prefix_rfl
  | case2 rest => exact ⟨rest, rfl⟩
  | case3 c rest _ ih => exact List.cons_prefix_cons.mpr ⟨rfl, ih⟩

/-- The pieces of a text. A comment reaches up to the end of its line, or through the first `*/`
behind its opening. -/
def cut : List Char → List Piece
  | [] => []
  | c :: rest =>
    if c = '/' ∧ rest.head? = some '/' then
      .comment (c :: rest.takeWhile (· ≠ '\n')) :: cut (rest.dropWhile (· ≠ '\n'))
    else if c = '/' ∧ rest.head? = some '*' then
      .comment (c :: '*' :: block rest.tail) :: cut (rest.tail.drop (block rest.tail).length)
    else .code c :: cut rest
termination_by text => text.length
decreasing_by
  · exact Nat.lt_succ_of_le (length_dropWhile_le _ _)
  · simp only [List.length_drop, List.length_tail, List.length_cons]
    omega
  · exact Nat.lt_succ_self _

/-- The character that stands for a piece if one character stands for each comment. -/
def shown (mark : List Char → Char) : Piece → Char
  | code c => c
  | comment text => mark text

end Piece

def withMarks (mark : List Char → Char) (text : List Char) : List Char :=
  (Piece.cut text).map (Piece.shown mark)

/-- A blank for a comment: the line feed of a comment of several lines is kept. -/
def blankFor (comment : List Char) : Char := if '\n' ∈ comment then '\n' else ' '

def uncommented (text : List Char) : List Char := withMarks blankFor text

@[simp] theorem uncommented_nil : uncommented [] = [] := by
  rw [uncommented, withMarks, Piece.cut, List.map_nil]

theorem cut_code (noLine : ¬ (c = '/' ∧ rest.head? = some '/'))
    (noBlock : ¬ (c = '/' ∧ rest.head? = some '*')) :
    Piece.cut (c :: rest) = .code c :: Piece.cut rest := by
  rw [Piece.cut, if_neg noLine, if_neg noBlock]

theorem uncommented_code (noLine : ¬ (c = '/' ∧ rest.head? = some '/'))
    (noBlock : ¬ (c = '/' ∧ rest.head? = some '*')) :
    uncommented (c :: rest) = c :: uncommented rest := by
  rw [uncommented, withMarks, cut_code noLine noBlock]
  rfl

theorem cut_of_ne (ne : c ≠ '/') (rest : List Char) :
    Piece.cut (c :: rest) = .code c :: Piece.cut rest :=
  cut_code (fun h => ne h.1) fun h => ne h.1

theorem uncommented_of_ne (ne : c ≠ '/') (rest : List Char) :
    uncommented (c :: rest) = c :: uncommented rest :=
  uncommented_code (fun h => ne h.1) fun h => ne h.1

theorem dropBlock_eq (lineStart : Bool) (text : List Char) : dropBlock lineStart text =
    (lineStart || decide ('\n' ∈ Piece.block text), text.drop (Piece.block text).length) := by
  fun_induction dropBlock lineStart text with
  | case1 => simp [Piece.block]
  | case2 => simp [Piece.block]
  | case3 lineStart c rest unclosed ih =>
    rw [ih, Piece.block.eq_3 c rest unclosed]
    simp [Bool.or_assoc, eq_comm]

theorem notMem_lineComment (rest : List Char) :
    '\n' ∉ '/' :: '/' :: rest.takeWhile (· ≠ '\n') := by
  simp only [List.mem_cons, Char.reduceEq, false_or]
  intro mem
  simpa using List.mem_takeWhile_imp mem

theorem cut_line (rest : List Char) : Piece.cut ('/' :: '/' :: rest) =
    .comment ('/' :: '/' :: rest.takeWhile (· ≠ '\n')) :: Piece.cut (dropLine rest) := by
  rw [Piece.cut, if_pos ⟨rfl, rfl⟩, List.takeWhile_cons_of_pos (by decide),
    List.dropWhile_cons_of_pos (by decide)]
  rfl

theorem cut_block (rest : List Char) : Piece.cut ('/' :: '*' :: rest) =
    .comment ('/' :: '*' :: Piece.block rest) ::
      Piece.cut (rest.drop (Piece.block rest).length) := by
  rw [Piece.cut, if_neg (by simp), if_pos ⟨rfl, rfl⟩]
  rfl

theorem uncommented_line (rest : List Char) :
    uncommented ('/' :: '/' :: rest) = ' ' :: uncommented (dropLine rest) := by
  have space : blankFor ('/' :: '/' :: rest.takeWhile (· ≠ '\n')) = ' ' :=
    if_neg (notMem_lineComment rest)
  rw [uncommented, withMarks, cut_line, List.map_cons, Piece.shown, space]
  rfl

theorem uncommented_block (rest : List Char) : uncommented ('/' :: '*' :: rest) =
    blankFor (Piece.block rest) :: uncommented (rest.drop (Piece.block rest).length) := by
  rw [uncommented, withMarks, cut_block, List.map_cons, Piece.shown]
  simp [blankFor, uncommented, withMarks]

/-- What a text begins with stands for itself, unless it is a comment. -/
theorem head_uncommented (c : Char) (rest : List Char) :
    ∃ d more, uncommented (c :: rest) = d :: more ∧ (d = c ∨ c = '/' ∧ (d = ' ' ∨ d = '\n')) := by
  have blank : ∀ comment, blankFor comment = ' ' ∨ blankFor comment = '\n' := by
    intro comment
    unfold blankFor
    split
    · exact .inr rfl
    · exact .inl rfl
  rw [uncommented, withMarks, Piece.cut]
  split
  · rename_i opens
    exact ⟨_, _, rfl, .inr ⟨opens.1, blank _⟩⟩
  · split
    · rename_i opens
      exact ⟨_, _, rfl, .inr ⟨opens.1, blank _⟩⟩
    · exact ⟨_, _, rfl, .inl rfl⟩

/-- Words stop at comments, and at blanks in their place. -/
theorem span_uncommented (slash : p '/' = false) (space : p ' ' = false) (feed : p '\n' = false)
    (text : List Char) : (uncommented text).takeWhile p = text.takeWhile p ∧
      (uncommented text).dropWhile p = uncommented (text.dropWhile p) := by
  induction text with
  | nil => simp
  | cons c rest ih =>
    by_cases inside : p c
    · rw [uncommented_of_ne (Text.ne_of_apart inside slash)]
      simp [inside, ih]
    · obtain ⟨d, more, eq, first⟩ := head_uncommented c rest
      have outside : p d = false := by
        rcases first with rfl | ⟨-, rfl | rfl⟩
        · simpa using inside
        · exact space
        · exact feed
      rw [List.takeWhile_cons_of_neg inside, List.dropWhile_cons_of_neg inside, eq]
      simp [outside]

theorem numberTail_uncommented (previous : Char) (text : List Char) :
    numberTail previous (uncommented text) =
      ((numberTail previous text).1, uncommented (numberTail previous text).2) := by
  induction text generalizing previous with
  | nil => simp [numberTail]
  | cons c rest ih =>
    have other : ∀ d, d = '/' ∨ d = ' ' ∨ d = '\n' → continuesNumber previous d = false := by
      rintro d (rfl | rfl | rfl) <;> rfl
    by_cases inside : continuesNumber previous c
    · have ne : c ≠ '/' := Text.ne_of_apart inside (other '/' (.inl rfl))
      simp [uncommented_of_ne ne, numberTail, inside, ih]
    · obtain ⟨d, more, eq, first⟩ := head_uncommented c rest
      have outside : continuesNumber previous d = false := by
        rcases first with rfl | ⟨-, blank⟩
        · simpa using inside
        · exact other d (.inr blank)
      rw [numberTail, if_neg inside, eq, numberTail, if_neg (by simp [outside])]

theorem startsNumber_uncommented (c : Char) (rest : List Char) :
    startsNumber c (uncommented rest) = startsNumber c rest := by
  cases rest with
  | nil => simp
  | cons e rest =>
    obtain ⟨d, more, eq, first⟩ := head_uncommented e rest
    have digit : d.isDigit = e.isDigit := by
      rcases first with rfl | ⟨rfl, rfl | rfl⟩ <;> rfl
    simp [startsNumber, eq, digit]

theorem continues_of_mem_numberTail {d : Char} (mem : d ∈ (numberTail previous text).1) :
    ∃ before, continuesNumber before d := by
  induction text generalizing previous with
  | nil => cases mem
  | cons c rest ih =>
    by_cases inside : continuesNumber previous c
    · simp only [numberTail, inside, if_true, List.mem_cons] at mem
      rcases mem with rfl | mem
      · exact ⟨previous, inside⟩
      · exact ih mem
    · simp [numberTail, inside] at mem

/-- A slash that begins no comment does not begin one either when the comments are gone. -/
theorem alone_uncommented (alone : Alone c rest) : Alone c (uncommented rest) := by
  cases rest with
  | nil => simpa using alone
  | cons e rest =>
    obtain ⟨d, more, eq, first⟩ := head_uncommented e rest
    rw [eq]
    rcases first with rfl | ⟨rfl, rfl | rfl⟩
    · exact ⟨alone.slash, alone.point⟩
    · exact ⟨fun _ => by simp, fun _ => rfl⟩
    · exact ⟨fun _ => by simp, fun _ => rfl⟩

/-- What a line has so far, apart from blanks and comments. -/
inductive Line where
  | fresh
  | code
  | directive
  deriving DecidableEq

/-- A directive begins with a number sign that stands first on its line. -/
def Line.next (line : Line) (c : Char) : Line :=
  if c = '\n' then fresh
  else if c = ' ' ∨ c = '\t' ∨ c = '\r' then line
  else if line = fresh then if c = '#' then directive else code
  else line

/-- No comment goes on behind the line of a directive. -/
def Contained (line : Line) : List Piece → Prop
  | [] => True
  | .code c :: rest => Contained (line.next c) rest
  | .comment text :: rest =>
    (line = .directive → '\n' ∉ text) ∧ Contained (line.next (blankFor text)) rest

instance decidableContained (line : Line) :
    (pieces : List Piece) → Decidable (Contained line pieces)
  | [] => .isTrue trivial
  | .code c :: rest => decidableContained (line.next c) rest
  | .comment text :: rest =>
    have := decidableContained (line.next (blankFor text)) rest
    inferInstanceAs (Decidable (_ ∧ _))

def Line.of (lineStart : Bool) : Line := if lineStart then fresh else code

variable {line : Line}

theorem contained_cons_of_ne (ne : c ≠ '/') :
    Contained line (Piece.cut (c :: rest)) ↔ Contained (line.next c) (Piece.cut rest) := by
  rw [cut_of_ne ne]
  rfl

theorem contained_line_iff : Contained line (Piece.cut ('/' :: '/' :: rest)) ↔
    Contained line (Piece.cut (dropLine rest)) := by
  have free := notMem_lineComment rest
  rw [cut_line, Contained, blankFor, if_neg free]
  simp only [free, not_false_eq_true, implies_true, true_and]
  rfl

theorem contained_block_iff : Contained line (Piece.cut ('/' :: '*' :: rest)) ↔
    (line = .directive → '\n' ∉ Piece.block rest) ∧
      Contained (line.next (blankFor (Piece.block rest)))
        (Piece.cut (rest.drop (Piece.block rest).length)) := by
  rw [cut_block, Contained]
  simp [blankFor]

theorem Line.next_of_ne (feed : c ≠ '\n') (notFresh : line ≠ fresh) : line.next c = line := by
  simp [next, feed, notFresh]

theorem contained_of_append (text : List Char) (plain : ∀ d ∈ text, d ≠ '/' ∧ d ≠ '\n')
    (contained : Contained .code (Piece.cut (text ++ rest))) :
    Contained .code (Piece.cut rest) := by
  induction text with
  | nil => exact contained
  | cons c text ih =>
    obtain ⟨⟨slash, feed⟩, plain⟩ := List.forall_mem_cons.mp plain
    rw [List.cons_append, contained_cons_of_ne slash, Line.next_of_ne feed (by decide)] at contained
    exact ih plain contained

theorem dropLine_cons_of_ne (ne : c ≠ '\n') (rest : List Char) :
    dropLine (c :: rest) = dropLine rest := List.dropWhile_cons_of_pos (by simpa using ne)

/-- A directive with its comments ends at the end of its line. -/
theorem dropLine_uncommented (contained : Contained .directive (Piece.cut text)) :
    dropLine (uncommented text) = uncommented (dropLine text) ∧
      Contained .fresh (Piece.cut (dropLine text)) := by
  induction text using Piece.cut.induct with
  | case1 => simp [dropLine, Piece.cut, Contained]
  -- a comment of one line ends where the directive ends
  | case2 c rest opens ih =>
    obtain ⟨rfl, second⟩ := opens
    obtain ⟨rest, rfl⟩ := List.head?_eq_some_iff.mp second
    have left : dropLine ('/' :: '/' :: rest) = dropLine (dropLine rest) := by
      rw [dropLine_cons_of_ne (by decide), dropLine_cons_of_ne (by decide), dropLine, dropLine,
        List.dropWhile_idempotent]
    rw [contained_line_iff, ← dropLine_cons_of_ne (c := '/') (by decide)] at contained
    rw [uncommented_line, dropLine_cons_of_ne (by decide), left,
      ← dropLine_cons_of_ne (c := '/') (by decide) rest]
    exact ih contained
  -- the comment holds no line feed, since it is contained, and the directive goes on behind it
  | case3 c rest _ opens ih =>
    obtain ⟨rfl, second⟩ := opens
    obtain ⟨rest, rfl⟩ := List.head?_eq_some_iff.mp second
    obtain ⟨single, contained⟩ := contained_block_iff.mp contained
    have free : '\n' ∉ Piece.block rest := single rfl
    have space : blankFor (Piece.block rest) = ' ' := if_neg free
    have left : dropLine ('/' :: '*' :: rest) = dropLine (rest.drop (Piece.block rest).length) := by
      obtain ⟨after, whole⟩ := Piece.block_isPrefix rest
      rw [dropLine_cons_of_ne (by decide), dropLine_cons_of_ne (by decide)]
      generalize Piece.block rest = body at free whole
      rw [← whole, dropLine_append_of_free free, List.drop_left]
    rw [uncommented_block, space, dropLine_cons_of_ne (by decide), left]
    rw [space] at contained
    exact ih contained
  | case4 c rest noLine noBlock ih =>
    rw [cut_code noLine noBlock] at contained
    rw [uncommented_code noLine noBlock]
    by_cases feed : c = '\n'
    · subst feed
      have stays : ∀ rest, dropLine ('\n' :: rest) = '\n' :: rest := fun rest =>
        List.dropWhile_cons_of_neg (by simp)
      rw [stays, stays, cut_code noLine noBlock, uncommented_code noLine noBlock]
      exact ⟨rfl, contained⟩
    · rw [dropLine_cons_of_ne feed, dropLine_cons_of_ne feed]
      rw [Contained, Line.next_of_ne feed (by decide)] at contained
      exact ih contained

/-- A token is read alike with and without the comments behind it. -/
theorem scan_uncommented_of_token (feed : c ≠ '\n') (blank : ¬ (c = ' ' ∨ c = '\t' ∨ c = '\r'))
    (directive : ¬ (c = '#' ∧ lineStart)) (line : ¬ (c = '/' ∧ rest.head? = some '/'))
    (block : ¬ (c = '/' ∧ rest.head? = some '*'))
    (contained : Contained .code (Piece.cut rest)) :
    scan lineStart c (uncommented rest) = { scan lineStart c rest with
        rest := uncommented (scan lineStart c rest).rest } ∧
      Contained (.of (scan lineStart c rest).lineStart)
        (Piece.cut (scan lineStart c rest).rest) := by
  by_cases word : startsIdentifier c
  · obtain ⟨taken, left⟩ :=
      @span_uncommented continuesIdentifier (by decide) (by decide) (by decide) rest
    rw [scan_identifier word, scan_identifier word, taken, left]
    refine ⟨rfl, contained_of_append (rest.takeWhile continuesIdentifier) ?_ ?_⟩
    · intro d mem
      have continues := List.mem_takeWhile_imp mem
      exact ⟨Text.ne_of_apart continues (by decide), Text.ne_of_apart continues (by decide)⟩
    · rwa [List.takeWhile_append_dropWhile]
  by_cases number : startsNumber c rest
  · have number' : startsNumber c (uncommented rest) := by rwa [startsNumber_uncommented]
    rw [scan_number number, scan_number number', numberTail_uncommented]
    refine ⟨rfl, contained_of_append (numberTail c rest).1 ?_ ?_⟩
    · intro d mem
      obtain ⟨before, continues⟩ := continues_of_mem_numberTail mem
      exact ⟨Text.ne_of_apart continues rfl, Text.ne_of_apart continues rfl⟩
    · rwa [numberTail_append]
  · simp only [startsNumber, Bool.or_eq_true, Bool.and_eq_true, decide_eq_true_eq, not_or,
      not_and, Bool.not_eq_true] at number
    simp only [not_or] at blank
    have mark : IsMark c := ⟨⟨feed, blank⟩, by simpa using word, number.1⟩
    have alone : Alone c rest :=
      ⟨fun slash => ⟨not_and.mp line slash, not_and.mp block slash⟩, number.2⟩
    have noDirective : c = '#' → lineStart = false := fun sign => by
      simpa [sign] using directive
    rw [scan_punctuation mark alone noDirective,
      scan_punctuation mark (alone_uncommented alone) noDirective]
    exact ⟨rfl, contained⟩

/-- Reading a lexeme of a text and of the text without its comments leaves the same. -/
theorem scan_uncommented (contained : Contained (.of lineStart) (Piece.cut (c :: rest))) :
    ∃ d more, uncommented (c :: rest) = d :: more ∧
      scan lineStart d more = { scan lineStart c rest with
        rest := uncommented (scan lineStart c rest).rest } ∧
      Contained (.of (scan lineStart c rest).lineStart)
        (Piece.cut (scan lineStart c rest).rest) := by
  by_cases feed : c = '\n'
  · subst feed
    rw [contained_cons_of_ne (by decide)] at contained
    refine ⟨_, _, uncommented_of_ne (by decide) rest, by simp [scan], ?_⟩
    simpa [scan, Line.next, Line.of] using contained
  by_cases blank : c = ' ' ∨ c = '\t' ∨ c = '\r'
  · have ne : c ≠ '/' := by rintro rfl; simp at blank
    rw [contained_cons_of_ne ne] at contained
    refine ⟨_, _, uncommented_of_ne ne rest, by simp [scan, feed, blank], ?_⟩
    simpa [scan, feed, blank, Line.next] using contained
  by_cases directive : c = '#' ∧ lineStart
  · obtain ⟨rfl, rfl⟩ := directive
    rw [contained_cons_of_ne (by decide)] at contained
    obtain ⟨same, onward⟩ := dropLine_uncommented contained
    exact ⟨_, _, uncommented_of_ne (by decide) rest, by simp [scan, same], by simpa [scan, Line.of]⟩
  by_cases line : c = '/' ∧ rest.head? = some '/'
  · obtain ⟨rfl, second⟩ := line
    obtain ⟨rest, rfl⟩ := List.head?_eq_some_iff.mp second
    rw [contained_line_iff] at contained
    refine ⟨_, _, uncommented_line rest, ?_, ?_⟩
    · simp [scan, dropLine_cons_of_ne]
    · simpa [scan, dropLine_cons_of_ne] using contained
  by_cases block : c = '/' ∧ rest.head? = some '*'
  · obtain ⟨rfl, second⟩ := block
    obtain ⟨rest, rfl⟩ := List.head?_eq_some_iff.mp second
    obtain ⟨-, contained⟩ := contained_block_iff.mp contained
    refine ⟨_, _, uncommented_block rest, ?_⟩
    by_cases several : '\n' ∈ Piece.block rest
    · refine ⟨by simp [scan, dropBlock_eq, blankFor, several], ?_⟩
      simpa [scan, dropBlock_eq, blankFor, several, Line.next, Line.of] using contained
    · refine ⟨by simp [scan, dropBlock_eq, blankFor, several], ?_⟩
      simpa [scan, dropBlock_eq, blankFor, several, Line.next] using contained
  -- a token makes the line one of code
  have isCode : (Line.of lineStart).next c = .code := by
    rw [not_and] at directive
    cases lineStart with
    | false => simp [Line.of, Line.next, feed]
    | true =>
      have noSign : c ≠ '#' := fun sign => directive sign rfl
      simp [Line.of, Line.next, feed, blank, noSign]
  rw [cut_code line block, Contained, isCode] at contained
  exact ⟨_, _, uncommented_code line block,
    scan_uncommented_of_token feed blank directive line block contained⟩

theorem tokensFrom_uncommented (contained : Contained (.of lineStart) (Piece.cut text)) :
    tokensFrom lineStart (uncommented text) = tokensFrom lineStart text := by
  fun_induction tokensFrom lineStart text with
  | case1 => simp
  | case2 lineStart c rest next ih =>
    obtain ⟨d, more, eq, scanned, onward⟩ := scan_uncommented contained
    rw [eq, tokensFrom_cons, scanned, ih onward]

def markComments (mark : List Char → Char) (source : String) : String :=
  .ofList (withMarks mark source.toList)

/-- No comment of a source text goes on behind the line of a directive. -/
def DirectivesContained (source : String) : Prop := Contained .fresh (Piece.cut source.toList)

instance (source : String) : Decidable (DirectivesContained source) :=
  decidableContained _ _

theorem tokens_markComments (contained : DirectivesContained source) :
    tokens (markComments blankFor source) = tokens source := by
  rw [tokens, markComments, String.toList_ofList]
  exact tokensFrom_uncommented contained

/-- The header of a source text is the one that it has without its comments. -/
theorem sameHeader_markComments (contained : DirectivesContained source) :
    header? (markComments blankFor source) = header? source := by
  rw [header?, tokens_markComments contained, header?]

def commented : String :=
  "/* \x7b\n */ #define R 2 // \x7b /*\nfloat/* */f(float x /* a\n# \x7b */) \x7b \x7d"

theorem sameHeader_commented :
    DirectivesContained commented ∧ header? (markComments blankFor commented) = header? commented :=
  ⟨by decide +kernel, sameHeader_markComments (by decide +kernel)⟩

def spanning : String := "float f(float x) /* distance\n */ # \x7b\n\x7b return x; \x7d"

/-- A space in the place of a comment of several lines may keep a directive from being one. -/
theorem not_sameHeader_spanning :
    header? (markComments (fun _ => ' ') spanning) ≠ header? spanning := by
  decide +kernel

end DistanceField.Glsl
