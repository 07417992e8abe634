import DistanceField.Proofs.Glsl.Headers

/-!
# The grammar of headers

The reader of function headers accepts exactly the texts whose tokens fall apart around a header,
and they fall apart in one way. The parenthesis before the first `{` is the last one of the list,
and its partner is found by counting back from it.
-/

namespace DistanceField.Glsl

variable {tokens inside before left : List Token} {token : Token} {depth : Nat} {header : Header}

/-- A run of tokens, given last first, opens exactly the `depth` parentheses that are closed behind
it, besides those that it closes itself. -/
structure Matches (depth : Nat) (tokens : List Token) : Prop where
  all : tokens.count (.punctuation '(') = depth + tokens.count (.punctuation ')')
  behind : ∀ part, part <+: tokens →
    part.count (.punctuation '(') ≤ depth + part.count (.punctuation ')')

theorem matches_nil_iff : Matches depth [] ↔ depth = 0 := by
  constructor
  · intro h
    simpa using h.all.symm
  · rintro rfl
    constructor
    · rfl
    · intro part initial
      rw [List.prefix_nil.mp initial]
      rfl

theorem matches_cons_iff : Matches depth (token :: tokens) ↔
    [token].count (.punctuation '(') ≤ depth + [token].count (.punctuation ')') ∧
      Matches (depth + [token].count (.punctuation ')') - [token].count (.punctuation '('))
        tokens := by
  have cut : ∀ other tokens, (token :: tokens).count other = [token].count other +
      tokens.count other := by
    intro other tokens
    rw [← List.singleton_append, List.count_append]
  have opens := cut (.punctuation '(')
  have closes := cut (.punctuation ')')
  constructor
  · rintro ⟨all, behind⟩
    have first := behind [token] (List.prefix_append [token] tokens)
    rw [opens tokens, closes tokens] at all
    refine ⟨first, by omega, ?_⟩
    intro part initial
    have longer := behind (token :: part) (List.cons_prefix_cons.mpr ⟨rfl, initial⟩)
    rw [opens part, closes part] at longer
    omega
  · rintro ⟨first, all, behind⟩
    constructor
    · rw [opens tokens, closes tokens]
      omega
    · intro part initial
      rcases List.prefix_cons_iff.mp initial with rfl | ⟨rest, rfl, within⟩
      · simp
      · have shorter := behind rest within
        rw [opens rest, closes rest]
        omega

theorem matches_close_iff :
    Matches depth (.punctuation ')' :: tokens) ↔ Matches (depth + 1) tokens := by
  rw [matches_cons_iff]
  simp

theorem matches_open_iff :
    Matches depth (.punctuation '(' :: tokens) ↔ 0 < depth ∧ Matches (depth - 1) tokens := by
  rw [matches_cons_iff]
  simp [Nat.one_le_iff_ne_zero, Nat.pos_iff_ne_zero]

theorem matches_other_iff (notClose : token ≠ .punctuation ')')
    (notOpen : token ≠ .punctuation '(') : Matches depth (token :: tokens) ↔ Matches depth tokens := by
  rw [matches_cons_iff]
  simp [notClose, notOpen]

/-- The tokens before the open parenthesis, the parenthesis and what it encloses, last first. -/
theorem splitOpen_eq_some_iff : splitOpen depth inside before = some (tokens, left) ↔
    ∃ middle, before = middle ++ .punctuation '(' :: left ∧ tokens = middle.reverse ++ inside ∧
      Matches depth middle := by
  constructor
  · intro h
    fun_induction splitOpen depth inside before with
    | case1 => cases h
    | case2 depth inside before ih =>
      obtain ⟨middle, rfl, rfl, matched⟩ := ih h
      exact ⟨.punctuation ')' :: middle, rfl, by simp, matches_close_iff.mpr matched⟩
    | case3 inside before =>
      cases h
      exact ⟨[], rfl, rfl, matches_nil_iff.mpr rfl⟩
    | case4 inside before depth ih =>
      obtain ⟨middle, rfl, rfl, matched⟩ := ih h
      exact ⟨.punctuation '(' :: middle, rfl, by simp,
        matches_open_iff.mpr ⟨Nat.succ_pos depth, matched⟩⟩
    | case5 depth inside token before notClose notOpen ih =>
      obtain ⟨middle, rfl, rfl, matched⟩ := ih h
      exact ⟨token :: middle, rfl, by simp, (matches_other_iff notClose notOpen).mpr matched⟩
  · rintro ⟨middle, rfl, rfl, matched⟩
    -- on the middle, which is walked with as many parentheses open as the rest of it opens
    induction middle generalizing depth inside with
    | nil =>
      obtain rfl := matches_nil_iff.mp matched
      rfl
    | cons token middle ih =>
      rw [List.reverse_cons, List.append_assoc, List.cons_append]
      by_cases closing : token = .punctuation ')'
      · subst closing
        rw [splitOpen, ih (matches_close_iff.mp matched)]
        rfl
      by_cases opening : token = .punctuation '('
      · subst opening
        obtain ⟨positive, matched⟩ := matches_open_iff.mp matched
        obtain ⟨depth, rfl⟩ := Nat.exists_eq_succ_of_ne_zero positive.ne'
        rw [splitOpen, ih (Nat.add_sub_cancel depth 1 ▸ matched)]
        rfl
      · have matched := (matches_other_iff closing opening).mp matched
        rw [splitOpen.eq_5 _ _ _ _ closing opening, ih matched]
        rfl

/-- As many parentheses are opened as closed, and in no final part more are opened than closed. -/
structure Balanced (tokens : List Token) : Prop where
  even : tokens.count (.punctuation '(') = tokens.count (.punctuation ')')
  closed : ∀ tail, tail <:+ tokens →
    tail.count (.punctuation '(') ≤ tail.count (.punctuation ')')

theorem matches_reverse_iff : Matches 0 tokens.reverse ↔ Balanced tokens := by
  constructor
  · rintro ⟨all, behind⟩
    constructor
    · simpa using all
    · intro tail final
      simpa using behind tail.reverse (List.reverse_prefix.mpr final)
  · rintro ⟨even, closed⟩
    constructor
    · simpa using even
    · intro part initial
      have final : part.reverse <:+ tokens := by
        rw [← List.reverse_prefix, List.reverse_reverse]
        exact initial
      simpa using closed part.reverse final

theorem balanced_of_free (free : .punctuation '(' ∉ inside ∧ .punctuation ')' ∉ inside) :
    Balanced inside := by
  constructor
  · rw [List.count_eq_zero_of_not_mem free.1, List.count_eq_zero_of_not_mem free.2]
  · intro tail final
    have none : .punctuation '(' ∉ tail := fun mem => free.1 (final.subset mem)
    rw [List.count_eq_zero_of_not_mem none]
    exact Nat.zero_le _

/-- What the tokens of a text consist of besides the words of a header. -/
structure Parts where
  before : List Token
  inside : List Token
  declarators : List (List Token)
  after : List Token

/-- Right before the first `{` stands a header: a result type, a name and parameters in the
parentheses that the last one before the brace closes. -/
structure Spells (header : Header) (parts : Parts) (tokens : List Token) : Prop where
  whole : tokens = parts.before ++ .identifier header.returnType :: .identifier header.name ::
    .punctuation '(' :: parts.inside ++ .punctuation ')' :: .punctuation '{' :: parts.after
  free : .punctuation '{' ∉ parts.before ++ parts.inside
  balanced : Balanced parts.inside
  lists : ParameterList header.parameters parts.declarators parts.inside

variable {parts parts' : Parts} {header' : Header}

theorem Spells.exists_run (h : Spells header parts tokens) : ∃ run,
    tokens = run ++ .punctuation '{' :: parts.after ∧ .punctuation '{' ∉ run ∧
      run.reverse = .punctuation ')' :: (parts.inside.reverse ++ .punctuation '(' ::
        .identifier header.name :: .identifier header.returnType :: parts.before.reverse) := by
  refine ⟨parts.before ++ .identifier header.returnType :: .identifier header.name ::
    .punctuation '(' :: parts.inside ++ [.punctuation ')'], ?_, ?_, ?_⟩
  · simp [h.whole]
  · have free := h.free
    rw [List.mem_append, not_or] at free
    simp [free]
  · simp

theorem splitOpen_of_balanced (balanced : Balanced inside) (left : List Token) :
    splitOpen 0 [] (inside.reverse ++ .punctuation '(' :: left) = some (inside, left) := by
  have matched : Matches 0 inside.reverse := matches_reverse_iff.mpr balanced
  exact splitOpen_eq_some_iff.mpr ⟨inside.reverse, rfl, by simp, matched⟩

theorem headerOf?_eq_some_iff :
    headerOf? tokens = some header ↔ ∃ parts, Spells header parts tokens := by
  constructor
  · intro h
    unfold headerOf? at h
    split at h
    · rename_i opens
      obtain ⟨after, whole, free⟩ := Text.eq_takeWhile_append opens
      generalize tokens.takeWhile (· ≠ .punctuation '{') = run at h whole free
      unfold headerBefore? at h
      split at h
      · rename_i last reversed
        split at h
        · rename_i inside name returnType start opened
          obtain ⟨parameters, read, rfl⟩ := Option.map_eq_some_iff.mp h
          obtain ⟨declarators, lists⟩ := parameters?_eq_some_iff.mp read
          obtain ⟨middle, rfl, rfl, matched⟩ := splitOpen_eq_some_iff.mp opened
          obtain rfl : run = start.reverse ++ .identifier returnType :: .identifier name ::
              .punctuation '(' :: middle.reverse ++ [.punctuation ')'] := by
            rw [← List.reverse_inj, reversed]
            simp
          rw [List.append_nil] at lists
          refine ⟨⟨start.reverse, middle.reverse, declarators, after⟩, ?_, ?_, ?_, lists⟩
          · simp [whole]
          · simp_all
          · apply matches_reverse_iff.mp
            rwa [List.reverse_reverse]
        · cases h
      · cases h
    · cases h
  · rintro ⟨parts, spells⟩
    obtain ⟨run, rfl, free, reversed⟩ := spells.exists_run
    have opens : .punctuation '{' ∈ run ++ .punctuation '{' :: parts.after := by simp
    rw [headerOf?, if_pos opens, Text.takeWhile_append_of_free free, reversed, headerBefore?,
      splitOpen_of_balanced spells.balanced]
    simp [parameters?_eq_some_iff.mpr ⟨_, spells.lists⟩]

theorem Spells.unique (h : Spells header parts tokens) (h' : Spells header' parts' tokens) :
    header = header' ∧ parts = parts' := by
  obtain ⟨run, whole, free, reversed⟩ := h.exists_run
  obtain ⟨run', whole', free', reversed'⟩ := h'.exists_run
  obtain ⟨rfl, after⟩ := Text.append_cons_inj_of_free free free' (whole.symm.trans whole')
  -- both lists end with the same parenthesis, and counting back from it finds one partner
  have list := (List.cons.inj (reversed.symm.trans reversed')).2
  have split := splitOpen_of_balanced h.balanced
    (.identifier header.name :: .identifier header.returnType :: parts.before.reverse)
  rw [list, splitOpen_of_balanced h'.balanced] at split
  obtain ⟨inside, left⟩ := Prod.mk.inj (Option.some.inj split)
  simp only [List.cons.injEq, Token.identifier.injEq, List.reverse_inj] at left
  obtain ⟨name, returnType, before⟩ := left
  obtain ⟨parameters, declarators⟩ := h.lists.unique (inside ▸ h'.lists)
  constructor
  · cases header
    cases header'
    simp_all
  · cases parts
    cases parts'
    simp_all

theorem eq_of_headerOf? (h : headerOf? tokens = some header) : ∃ before inside after,
    tokens = before ++ .identifier header.returnType :: .identifier header.name ::
      .punctuation '(' :: inside ++ .punctuation ')' :: .punctuation '{' :: after ∧
    .punctuation '{' ∉ before ++ inside ∧ parameters? inside = some header.parameters := by
  obtain ⟨parts, spells⟩ := headerOf?_eq_some_iff.mp h
  exact ⟨_, _, _, spells.whole, spells.free, parameters?_eq_some_iff.mpr ⟨_, spells.lists⟩⟩

/-- A text has a header exactly if its tokens spell one, and then in one way. -/
theorem reads_iff_spells (code : String) :
    (∀ header, header? code = some header ↔ ∃ parts, Spells header parts (Glsl.tokens code)) ∧
      (∀ header header' parts parts', Spells header parts (Glsl.tokens code) →
        Spells header' parts' (Glsl.tokens code) → header = header' ∧ parts = parts') ∧
      (header? code = none ↔ ∀ header parts, ¬ Spells header parts (Glsl.tokens code)) := by
  refine ⟨fun header => headerOf?_eq_some_iff, fun _ _ _ _ => Spells.unique, ?_⟩
  rw [Option.eq_none_iff_forall_ne_some]
  apply forall_congr'
  intro header
  rw [header?, ne_eq, headerOf?_eq_some_iff, not_exists]

theorem spells_brackets :
    (∃ parts, Spells ⟨"float", "f", [⟨["in"], "vec3", some "p"⟩, ⟨[], "floata[3]", none⟩]⟩ parts
      (Glsl.tokens "uniform float w;\nfloat f(in vec3 p, float a[3]) \x7b return w; \x7d")) ∧
    ∀ header parts, ¬ Spells header parts (Glsl.tokens "float f(const) \x7b return 1.0; \x7d") := by
  constructor
  · exact ((reads_iff_spells _).1 _).mp (by decide +kernel)
  · exact (reads_iff_spells _).2.2.mp (by decide +kernel)

end DistanceField.Glsl
