import DistanceField.Proofs.Glsl.Layout
import DistanceField.Proofs.Glsl.Uncommented

/-!
# Texts cut into tokens and trivia

A text falls into tokens and what may stand between them: blanks, comments and directives. Nothing
is left over, each segment is as long as it can be, and there is one way to tell the tokens.
-/

namespace DistanceField.Glsl

variable {lineStart : Bool} {previous c : Char} {text rest body : List Char} {token : Token}

/-- A part of a text: a token, a blank, a comment or a directive. -/
inductive Segment where
  | token (token : Token)
  | blank (c : Char)
  | line (body : List Char)
  | block (body : List Char)
  /-- A block comment that takes the rest of the text. -/
  | unclosed (body : List Char)
  | directive (body : List Char)

/-- A number of the language: it begins with a digit, or with a point before a digit, and goes on
with letters, digits and points, and with signs right behind the letter of an exponent. -/
def IsNumber (text : String) : Prop :=
  ∃ c rest, text.toList = c :: rest ∧ startsNumber c rest ∧
    (c :: rest).IsChain fun previous c => continuesNumber previous c

/-- A text goes up to the end of its line: to the next line feed, or to the end of all. -/
def EndsLine (body rest : List Char) : Prop := '\n' ∉ body ∧ ∀ c, rest.head? = some c → c = '\n'

namespace Segment

def chars : Segment → List Char
  | .token one => one.chars
  | .blank c => [c]
  | .line body => '/' :: '/' :: body
  | .block body => '/' :: '*' :: (body ++ ['*', '/'])
  | .unclosed body => '/' :: '*' :: body
  | .directive body => '#' :: body

def token? : Segment → Option Token
  | .token one => some one
  | .blank _ | .line _ | .block _ | .unclosed _ | .directive _ => none

def charsOf (segments : List Segment) : List Char := segments.flatMap chars

@[simp] theorem charsOf_nil : charsOf [] = [] := rfl

@[simp] theorem charsOf_cons (segment : Segment) (segments : List Segment) :
    charsOf (segment :: segments) = segment.chars ++ charsOf segments := rfl

@[simp] theorem charsOf_append (segments more : List Segment) :
    charsOf (segments ++ more) = charsOf segments ++ charsOf more := List.flatMap_append

/-- After these segments no token stands behind the last line feed, or behind the beginning if there
is no line feed. -/
def AtLineStart (before : List Segment) : Prop :=
  ∀ earlier token later, before = earlier ++ .token token :: later → '\n' ∈ charsOf later

/-- A segment is what it has to be between the segments before it and the text behind it. -/
def Fits (before : List Segment) (rest : List Char) : Segment → Prop
  | .token (.identifier name) =>
    IsIdentifier name ∧ ∀ d, rest.head? = some d → continuesIdentifier d = false
  | .token (.number text) => IsNumber text ∧ ∀ last d, text.toList.getLast? = some last →
    rest.head? = some d → continuesNumber last d = false
  | .token (.punctuation c) => IsMark c ∧ Alone c rest ∧ (c = '#' → ¬ AtLineStart before)
  | .blank c => c = ' ' ∨ c = '\t' ∨ c = '\r' ∨ c = '\n'
  | .line body => EndsLine body rest
  | .block body => ¬ ['*', '/'] <:+: body
  | .unclosed body => ¬ ['*', '/'] <:+: body ∧ rest = []
  | .directive body => EndsLine body rest ∧ AtLineStart before

end Segment

open Segment (charsOf AtLineStart Fits)

variable {before segments : List Segment} {segment : Segment}

structure Segmented (before : List Segment) (text : List Char) (segments : List Segment) :
    Prop where
  chars_eq : charsOf segments = text
  fits : ∀ {earlier segment later}, segments = earlier ++ segment :: later →
    segment.Fits (before ++ earlier) (charsOf later)

theorem segmented_nil : Segmented before [] [] := ⟨rfl, by simp⟩

theorem segmented_cons_iff : Segmented before text (segment :: segments) ↔ ∃ rest,
    text = segment.chars ++ rest ∧ segment.Fits before rest ∧
      Segmented (before ++ [segment]) rest segments := by
  constructor
  · rintro ⟨rfl, fits⟩
    have first : segment.Fits (before ++ []) (charsOf segments) := fits rfl
    rw [List.append_nil] at first
    refine ⟨charsOf segments, rfl, first, rfl, ?_⟩
    rintro earlier other later rfl
    rw [List.append_assoc]
    exact fits rfl
  · rintro ⟨rest, rfl, first, rfl, fits⟩
    refine ⟨rfl, fun {earlier other later} eq => ?_⟩
    rcases List.cons_eq_append_iff.mp eq with ⟨rfl, same⟩ | ⟨earlier, rfl, same⟩
    · obtain ⟨rfl, rfl⟩ := List.cons.inj same
      rwa [List.append_nil]
    · rw [← List.singleton_append, ← List.append_assoc]
      exact fits same

theorem atLineStart_nil : AtLineStart [] := by simp [AtLineStart]

theorem not_atLineStart_token : ¬ AtLineStart (before ++ [.token token]) := by
  intro start
  simpa using start before token [] rfl

theorem atLineStart_append_iff (noToken : segment.token? = none) :
    AtLineStart (before ++ [segment]) ↔ AtLineStart before ∨ '\n' ∈ segment.chars := by
  constructor
  · intro start
    by_cases feed : '\n' ∈ segment.chars
    · exact .inr feed
    refine .inl fun earlier token later eq => ?_
    have mem := start earlier token (later ++ [segment]) (by simp [eq])
    simpa [feed] using mem
  · rintro start earlier token later eq
    -- the last segment is no token, so it is among those behind the token
    rcases List.eq_nil_or_concat later with rfl | ⟨later, last, rfl⟩
    · obtain ⟨-, same⟩ := List.append_inj' eq rfl
      obtain rfl := List.singleton_inj.mp same
      cases noToken
    · have eq : before ++ [segment] = (earlier ++ .token token :: later) ++ [last] := by
        simpa using eq
      obtain ⟨left, same⟩ := List.append_inj' eq rfl
      obtain rfl := List.singleton_inj.mp same
      rw [List.concat_eq_append, Segment.charsOf_append, List.mem_append]
      refine start.imp (fun start => start earlier token later left) fun feed => ?_
      rwa [Segment.charsOf_cons, Segment.charsOf_nil, List.append_nil]

theorem dropLine_of_endsLine (ends : EndsLine body rest) : dropLine (body ++ rest) = rest := by
  rw [dropLine_append_of_free ends.1]
  cases rest with
  | nil => rfl
  | cons d rest =>
    obtain rfl := ends.2 d rfl
    rfl

theorem endsLine_takeWhile (text : List Char) :
    EndsLine (text.takeWhile (· ≠ '\n')) (dropLine text) := by
  constructor
  · intro mem
    simpa using List.mem_takeWhile_imp mem
  · intro d first
    have stops := List.head?_dropWhile_not (fun d => decide (d ≠ '\n')) text
    rw [← dropLine, first] at stops
    simpa using stops

theorem dropBlock_of_unclosed (unclosed : ¬ ['*', '/'] <:+: text) (lineStart : Bool) :
    dropBlock lineStart text = (lineStart || decide ('\n' ∈ text), []) := by
  fun_induction dropBlock lineStart text with
  | case1 => simp
  | case2 lineStart rest => exact absurd ⟨[], rest, rfl⟩ unclosed
  | case3 lineStart c rest _ ih =>
    rw [ih fun inner => unclosed (inner.trans (List.suffix_cons c rest).isInfix)]
    simp [Bool.or_assoc, eq_comm]

theorem exists_closed_or_unclosed (text : List Char) :
    (∃ body rest, text = body ++ '*' :: '/' :: rest ∧ ¬ ['*', '/'] <:+: body) ∨
      ¬ ['*', '/'] <:+: text := by
  induction text with
  | nil => simp
  | cons c text ih =>
    by_cases first : ['*', '/'] <+: c :: text
    · obtain ⟨rest, eq⟩ := first
      exact .inl ⟨[], rest, eq.symm, by simp⟩
    rcases ih with ⟨body, rest, rfl, unclosed⟩ | unclosed
    · refine .inl ⟨c :: body, rest, rfl, fun inner => ?_⟩
      rcases List.infix_cons_iff.mp inner with here | later
      · exact first (here.trans (List.prefix_append (c :: body) _))
      · exact unclosed later
    · refine .inr fun inner => ?_
      exact (List.infix_cons_iff.mp inner).elim first unclosed

theorem numberTail_spec (previous : Char) (text : List Char) :
    (previous :: (numberTail previous text).1).IsChain (fun a b => continuesNumber a b) ∧
      ∀ last d, (previous :: (numberTail previous text).1).getLast? = some last →
        (numberTail previous text).2.head? = some d → continuesNumber last d = false := by
  induction text generalizing previous with
  | nil => simp [numberTail]
  | cons c text ih =>
    by_cases continues : continuesNumber previous c
    · obtain ⟨chain, stops⟩ := ih c
      simp only [numberTail, continues, if_true, List.getLast?_cons_cons]
      exact ⟨List.isChain_cons_cons.mpr ⟨continues, chain⟩, stops⟩
    · simp [numberTail, continues]

/-- A run that is as long as it can be is the continuation of a number. -/
theorem numberTail_of_chain
    (chain : (previous :: body).IsChain fun a b => continuesNumber a b)
    (stops : ∀ last d, (previous :: body).getLast? = some last → rest.head? = some d →
      continuesNumber last d = false) :
    numberTail previous (body ++ rest) = (body, rest) := by
  induction body generalizing previous with
  | nil =>
    cases rest with
    | nil => rfl
    | cons d rest => simp [numberTail, stops previous d rfl rfl]
  | cons c body ih =>
    obtain ⟨continues, chain⟩ := List.isChain_cons_cons.mp chain
    have left := ih chain (by simpa using stops)
    simp [numberTail, continues, left]

theorem startsNumber_append_of_starts (starts : startsNumber c body) (rest : List Char) :
    startsNumber c (body ++ rest) := by
  cases body with
  | nil =>
    have digit : c.isDigit := by simpa [startsNumber] using starts
    simp [startsNumber, digit]
  | cons d body => exact starts

/-- A token that fits is what the scan of the text reads. -/
theorem Segment.Fits.scan_token (fits : (Segment.token token).Fits before rest)
    (start : lineStart = true ↔ AtLineStart before) : ∃ c more, token.chars = c :: more ∧
      Glsl.scan lineStart c (more ++ rest) = ⟨some token, false, rest⟩ := by
  cases token with
  | identifier name =>
    obtain ⟨⟨c, more, eq, starts, all⟩, stops⟩ := fits
    have taken : (more ++ rest).takeWhile continuesIdentifier = more := by
      rw [Text.takeWhile_append_stop stops, List.takeWhile_eq_self_iff.mpr all]
    have left : (more ++ rest).dropWhile continuesIdentifier = rest := by
      rw [Text.dropWhile_append_stop stops, List.dropWhile_eq_nil_iff.mpr all, List.nil_append]
    refine ⟨c, more, eq, ?_⟩
    rw [scan_identifier starts, taken, left, ← eq, String.ofList_toList]
  | number text =>
    obtain ⟨⟨c, more, eq, starts, chain⟩, stops⟩ := fits
    rw [eq] at stops
    refine ⟨c, more, eq, ?_⟩
    rw [scan_number (startsNumber_append_of_starts starts rest), numberTail_of_chain chain stops,
      ← eq, String.ofList_toList]
  | punctuation c =>
    obtain ⟨mark, alone, noDirective⟩ := fits
    have noDirective : c = '#' → lineStart = false := fun sign =>
      Bool.eq_false_iff.mpr (mt start.mp (noDirective sign))
    exact ⟨c, [], rfl, scan_punctuation mark alone noDirective⟩

/-- A segment that fits is what the scan of the text passes over, and the scan knows whether the
text behind it is at the beginning of a line. -/
theorem Segment.Fits.scan (fits : segment.Fits before rest)
    (start : lineStart = true ↔ AtLineStart before) : ∃ c more lineStart',
      segment.chars = c :: more ∧
        Glsl.scan lineStart c (more ++ rest) = ⟨segment.token?, lineStart', rest⟩ ∧
          (lineStart' = true ↔ AtLineStart (before ++ [segment])) := by
  have behindTrivium (other : Segment) (noToken : other.token? = none) :
      (lineStart || decide ('\n' ∈ other.chars)) = true ↔ AtLineStart (before ++ [other]) := by
    rw [atLineStart_append_iff noToken, ← start, Bool.or_eq_true, decide_eq_true_eq]
  cases segment with
  | token token =>
    obtain ⟨c, more, eq, scanned⟩ := fits.scan_token start
    exact ⟨c, more, false, eq, scanned, by simpa using not_atLineStart_token⟩
  | blank c =>
    refine ⟨c, [], _, rfl, ?_, behindTrivium _ rfl⟩
    rcases fits with rfl | rfl | rfl | rfl <;> simp [Glsl.scan, Segment.token?, Segment.chars]
  | line body =>
    have ends : EndsLine ('/' :: body) rest := ⟨by simp [fits.1], fits.2⟩
    have left : dropLine ('/' :: body ++ rest) = rest := dropLine_of_endsLine ends
    rw [List.cons_append] at left
    refine ⟨'/', '/' :: body, _, rfl, ?_, behindTrivium _ rfl⟩
    simp [Glsl.scan, Segment.token?, Segment.chars, left, fits.1]
  | block body =>
    refine ⟨'/', '*' :: (body ++ ['*', '/']), _, rfl, ?_, behindTrivium _ rfl⟩
    simp [Glsl.scan, Segment.token?, Segment.chars, dropBlock_body fits]
  | unclosed body =>
    obtain ⟨unclosed, rfl⟩ := fits
    refine ⟨'/', '*' :: body, _, rfl, ?_, behindTrivium _ rfl⟩
    simp [Glsl.scan, Segment.token?, Segment.chars, dropBlock_of_unclosed unclosed]
  | directive body =>
    obtain ⟨ends, atStart⟩ := fits
    refine ⟨'#', body, _, rfl, ?_, behindTrivium _ rfl⟩
    simp [Glsl.scan, Segment.token?, start.mpr atStart, dropLine_of_endsLine ends]

theorem exists_fits_scan (c : Char) (text : List Char)
    (start : lineStart = true ↔ AtLineStart before) : ∃ segment : Segment,
      segment.chars ++ (scan lineStart c text).rest = c :: text ∧
        segment.Fits before (scan lineStart c text).rest := by
  fun_cases scan lineStart c text with
  | case1 feed => exact ⟨.blank c, rfl, .inr (.inr (.inr feed))⟩
  | case2 _ blank => exact ⟨.blank c, rfl, blank.imp_right fun blank => blank.imp_right .inl⟩
  | case3 _ _ sign =>
    obtain ⟨rfl, atStart⟩ := sign
    refine ⟨.directive (text.takeWhile (· ≠ '\n')), ?_, endsLine_takeWhile text,
      start.mp atStart⟩
    exact congrArg ('#' :: ·) List.takeWhile_append_dropWhile
  | case4 _ _ _ line =>
    obtain ⟨rfl, first⟩ := line
    obtain ⟨text, rfl⟩ := List.head?_eq_some_iff.mp first
    rw [dropLine_cons_of_ne (by decide)]
    refine ⟨.line (text.takeWhile (· ≠ '\n')), ?_, endsLine_takeWhile text⟩
    exact congrArg ('/' :: '/' :: ·) List.takeWhile_append_dropWhile
  | case5 _ _ _ _ block =>
    obtain ⟨rfl, first⟩ := block
    obtain ⟨text, rfl⟩ := List.head?_eq_some_iff.mp first
    rw [List.tail_cons]
    rcases exists_closed_or_unclosed text with ⟨body, rest, rfl, unclosed⟩ | unclosed
    · rw [dropBlock_body unclosed]
      exact ⟨.block body, by simp [Segment.chars], unclosed⟩
    · rw [dropBlock_of_unclosed unclosed]
      exact ⟨.unclosed text, by simp [Segment.chars], unclosed, rfl⟩
  | case6 _ _ _ _ _ starts =>
    refine ⟨.token (.identifier (.ofList (c :: text.takeWhile continuesIdentifier))), ?_,
      ⟨c, _, String.toList_ofList, starts, fun d mem => List.mem_takeWhile_imp mem⟩, ?_⟩
    · simp [Segment.chars, Token.chars]
    · intro d first
      have stops := List.head?_dropWhile_not continuesIdentifier text
      rw [first] at stops
      simpa using stops
  | case7 _ _ _ _ _ _ starts =>
    obtain ⟨chain, stops⟩ := numberTail_spec c text
    refine ⟨.token (.number (.ofList (c :: (numberTail c text).1))), ?_,
      ⟨c, _, String.toList_ofList, startsNumber_numberTail starts, chain⟩, ?_⟩
    · simp [Segment.chars, Token.chars, numberTail_append]
    · rwa [String.toList_ofList]
  -- punctuation is what is left, so every case before rules out something that it might begin
  | case8 feed blank noDirective noLine noBlock noWord noNumber =>
    simp only [startsNumber, Bool.or_eq_true, not_or] at noNumber
    simp only [not_or] at blank
    refine ⟨.token (.punctuation c), rfl, ⟨⟨feed, blank⟩, by simpa using noWord,
      by simpa using noNumber.1⟩, ⟨fun slash => ?_, fun point => ?_⟩, fun sign atStart => ?_⟩
    · exact ⟨fun first => noLine ⟨slash, first⟩, fun first => noBlock ⟨slash, first⟩⟩
    · simpa [point] using noNumber.2
    · exact noDirective ⟨sign, start.mpr atStart⟩

theorem exists_segmented (lineStart : Bool) (text : List Char) (before : List Segment)
    (start : lineStart = true ↔ AtLineStart before) :
    ∃ segments, Segmented before text segments := by
  fun_induction tokensFrom lineStart text generalizing before with
  | case1 => exact ⟨[], segmented_nil⟩
  | case2 lineStart c text next ih =>
    obtain ⟨segment, whole, fits⟩ := exists_fits_scan c text start
    obtain ⟨c', more, lineStart', eq, scanned, start'⟩ := fits.scan start
    rw [eq, List.cons_append] at whole
    obtain ⟨rfl, behind⟩ := List.cons.inj whole
    rw [behind] at scanned
    have onward : next.lineStart = true ↔ AtLineStart (before ++ [segment]) := by
      rwa [show next = _ from scanned]
    obtain ⟨segments, segmented⟩ := ih _ onward
    refine ⟨segment :: segments, segmented_cons_iff.mpr ⟨_, ?_, fits, segmented⟩⟩
    rw [eq, List.cons_append, behind]

theorem Segmented.tokensFrom_eq (segmented : Segmented before text segments)
    (start : lineStart = true ↔ AtLineStart before) :
    tokensFrom lineStart text = segments.filterMap Segment.token? := by
  induction segments generalizing before text lineStart with
  | nil => rw [← segmented.chars_eq, Segment.charsOf_nil, tokensFrom_nil, List.filterMap_nil]
  | cons segment segments ih =>
    obtain ⟨rest, rfl, fits, segmented⟩ := segmented_cons_iff.mp segmented
    obtain ⟨c, more, lineStart', eq, scanned, start⟩ := fits.scan start
    rw [eq, List.cons_append, tokensFrom_cons, scanned, ih segmented start]
    cases h : segment.token? <;> simp [h]

/-- Each text falls into segments, and the tokens among them are its tokens, in order: what stands
before, between and behind them is blanks, comments and directives. All segments begin and end
between two characters of the text, so none of them splits a character of several bytes. -/
theorem tokens_of_segmented (source : String) :
    (∃ segments, Segmented [] source.toList segments) ∧
      ∀ segments, Segmented [] source.toList segments →
        segments.filterMap Segment.token? = tokens source ∧
          ∀ before after, segments = before ++ after →
            (String.ofList (charsOf before)).rawEndPos.IsValid source := by
  have start : true = true ↔ AtLineStart [] := iff_of_true rfl atLineStart_nil
  refine ⟨exists_segmented true source.toList [] start, fun segments segmented => ⟨?_, ?_⟩⟩
  · exact (segmented.tokensFrom_eq start).symm
  · rintro before after rfl
    refine String.Pos.Raw.isValid_iff_exists_append.mpr ⟨_, .ofList (charsOf after), ?_, rfl⟩
    rw [← String.ofList_append, ← Segment.charsOf_append, segmented.chars_eq, String.ofList_toList]

example : tokens "/*/\n*/ #if 1\nx.5e+1é/**" =
    [.identifier "x", .number ".5e+1", .punctuation 'é'] := by
  cbv

end DistanceField.Glsl
