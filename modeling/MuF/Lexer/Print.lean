import MuF.Lexer.Complete
import Mathlib.Data.List.Infix

/-!
# Lexing a printed list of lexemes

* `Lexeme`: the lexemes of the language, with their texts and their tokens;
* `Sep`: white space, newlines and comments between them;
* `print`, `expected`: the text of lexemes and separators, and the tokens with their lines;
* **`lex_print_iff`**: the lexer returns these tokens unless one of the lexemes is the operator
  `xor`, which it takes for an identifier.
-/

set_option linter.unusedVariables false
set_option linter.unusedSectionVars false

namespace MuF

/-! ## characters of tokens -/

theorem fixed_all_plain : ((keywords ++ operators).all fun p => p.1.all isPlain) = true := by
  decide +kernel

theorem fixed_plain {p : Str × Token × Option Lval} (hp : p ∈ keywords ++ operators) {c : UInt8}
    (hc : c ∈ p.1) : isPlain c = true :=
  List.all_eq_true.1 (List.all_eq_true.1 fixed_all_plain p hp) c hc

/-- a class of characters without the five special ones -/
theorem plain_of (p : UInt8 → Bool) (hp : [32, 9, newline, bang, quote].all (!p ·) = true)
    {c : UInt8} (h : p c = true) : isPlain c = true := by
  cases hc : isPlain c with
  | true => rfl
  | false =>
    have hs : c ∈ [32, 9, newline, bang, quote] := by
      simpa [isPlain, isBlank, or_assoc, imp_iff_not_or] using hc
    have hn := List.all_eq_true.1 hp c hs
    rw [h] at hn
    cases hn

theorem isDigit_plain {c : UInt8} (h : isDigit c = true) : isPlain c = true :=
  plain_of isDigit (by decide) h

theorem isWordPart_plain {c : UInt8} (h : isWordPart c = true) : isPlain c = true :=
  plain_of isWordPart (by decide) h

theorem isDigits_plain {s : Str} (h : isDigits s = true) : ∀ c ∈ s, isPlain c = true := by
  have h' : s.all isDigit = true := (Bool.and_eq_true_iff.1 h).2
  exact fun c hc => isDigit_plain (List.all_eq_true.1 h' c hc)

theorem regexInt_plain {s : Str} (h : (regexInt s).isSome) : ∀ c ∈ s, isPlain c = true := by
  unfold regexInt at h
  split at h
  · next c s =>
    split at h
    · next hb =>
      obtain ⟨hb, hs⟩ := Bool.and_eq_true_iff.1 hb
      have hc : c = 120 ∨ c = 98 := by simpa [isBase] using hb
      intro d hd
      rcases List.mem_cons.1 hd with rfl | hd
      · rfl
      · rcases List.mem_cons.1 hd with rfl | hd
        · rcases hc with rfl | rfl <;> rfl
        · exact isDigits_plain hs d hd
    · split at h
      · next hs => exact isDigits_plain hs
      · cases h
  · split at h
    · next hs => exact isDigits_plain hs
    · cases h

theorem regexExponent_plain {s : Str} (h : regexExponent s = true) : ∀ c ∈ s, isPlain c = true := by
  have he {c : UInt8} := plain_of (fun c => c == 69 || c == 101) (by decide) (c := c)
  have hsign {c : UInt8} := plain_of (fun c => c == 43 || c == 45 || isDigit c) (by decide) (c := c)
  unfold regexExponent at h
  split at h
  · simp
  · simpa using he h
  · next c sign s =>
    simp only [Bool.and_eq_true] at h
    obtain ⟨⟨h1, h2⟩, h3⟩ := h
    intro d hd
    rcases List.mem_cons.1 hd with rfl | hd
    · exact he h1
    · rcases List.mem_cons.1 hd with rfl | hd
      · exact hsign h2
      · exact isDigit_plain (List.all_eq_true.1 h3 d hd)

/-- characters behind digits -/
theorem plain_of_dropWhile {s : Str} (h : ∀ c ∈ s.dropWhile isDigit, isPlain c = true) :
    ∀ c ∈ s, isPlain c = true := by
  intro c hc
  rw [← List.takeWhile_append_dropWhile (p := isDigit) (l := s)] at hc
  rcases List.mem_append.1 hc with hc | hc
  · exact isDigit_plain (List.all_eq_true.1 (List.all_takeWhile ..) c hc)
  · exact h c hc

theorem regexReal_plain {s : Str} (h : regexReal s = true) : ∀ c ∈ s, isPlain c = true := by
  unfold regexReal at h
  split at h
  · next c s =>
    obtain ⟨hc, h⟩ := Bool.and_eq_true_iff.1 h
    have hs : ∀ c ∈ s, isPlain c = true := by
      refine plain_of_dropWhile ?_
      unfold regexFraction at h
      split at h
      · next s' e =>
        rw [e]
        intro d hd
        rcases List.mem_cons.1 hd with rfl | hd
        · rfl
        · exact plain_of_dropWhile (regexExponent_plain h) d hd
      · exact regexExponent_plain h
    intro d hd
    rcases List.mem_cons.1 hd with rfl | hd
    · exact isDigit_plain hc
    · exact hs d hd
  · cases h

theorem regexIdent_plain {s : Str} (h : regexIdent s = true) : ∀ c ∈ s, isPlain c = true := by
  unfold regexIdent at h
  split at h
  · next c s =>
    obtain ⟨hc, h⟩ := Bool.and_eq_true_iff.1 h
    intro d hd
    rcases List.mem_cons.1 hd with rfl | hd
    · exact isWordPart_plain (by rw [isWordPart, hc, Bool.true_or])
    · exact isWordPart_plain (List.all_eq_true.1 h d hd)
  · cases h

theorem dot_plain {s : Str} (h : ∀ c ∈ s, isPlain c = true) : ∀ c ∈ 46 :: s, isPlain c = true := by
  intro d hd
  rcases List.mem_cons.1 hd with rfl | hd
  · rfl
  · exact h d hd

theorem regexLabel_plain {s : Str} (h : regexLabel s = true) : ∀ c ∈ s, isPlain c = true := by
  unfold regexLabel at h
  split at h
  · exact dot_plain (regexIdent_plain h)
  · cases h

theorem regexPartial_plain {s : Str} (h : regexPartial s = true) : ∀ c ∈ s, isPlain c = true := by
  unfold regexPartial at h
  split at h
  · refine dot_plain fun d hd => isWordPart_plain ?_
    rw [isWordPart, List.all_eq_true.1 h d hd, Bool.true_or]
  · cases h

section
variable [MathLib TReal]

theorem lookup_plain {l : List (Str × Token × Option Lval)} (hl : l ⊆ keywords ++ operators)
    {s : Str} (h : ∃ c ∈ s, isPlain c = false) : l.lookup s = none := by
  cases e : l.lookup s with
  | none => rfl
  | some tok =>
    obtain ⟨l1, l2, e', -⟩ := List.lookup_eq_some_iff.1 e
    obtain ⟨c, hc, hp⟩ := h
    rw [fixed_plain (p := (s, tok)) (hl (by rw [e']; simp)) hc] at hp
    cases hp

/-- a text with white space, a quotation mark or an exclamation mark is no token -/
theorem matchTokens_none {s : Str} (h : ∃ c ∈ s, isPlain c = false) : matchTokens s = .ok [] := by
  have hno : ∀ {b : Bool}, (b = true → ∀ c ∈ s, isPlain c = true) → b = false := by
    intro b hb
    cases b with
    | false => rfl
    | true =>
      obtain ⟨c, hc, hp⟩ := h
      rw [hb rfl c hc] at hp
      cases hp
  have hs : s ≠ [] := by
    rintro rfl
    obtain ⟨c, hc, -⟩ := h
    cases hc
  have h1 : regexInt s = none := by
    rw [← Option.not_isSome_iff_eq_none, hno regexInt_plain]
    simp
  have h2 : ¬ (s = [48, 120] ∨ s = [48, 98]) := by
    rintro (rfl | rfl)
    · exact absurd h (by decide)
    · exact absurd h (by decide)
  have hi : matchInt s = .ok [] := by
    rw [matchInt, h1]
    exact if_neg h2
  rw [matchTokens, if_neg hs, hi]
  rw [matchReal, hno regexReal_plain, matchWord, lookup_plain (List.subset_append_left _ _) h,
    hno regexIdent_plain, hno regexLabel_plain, hno regexPartial_plain, matchOp,
    lookup_plain (List.subset_append_right _ _) h]
  rfl

end

/-! ## tokens by their classes -/

/-- a text that does not start with a digit is no number -/
def startsPlainWord (s : Str) : Bool := s.head?.all fun c => !isDigit c

section
variable [MathLib TReal] {s : Str}

theorem regexInt_none (h : startsPlainWord s = true) : regexInt s = none := by
  have hd : isDigits s = false := by
    cases s with
    | nil => rfl
    | cons c s =>
      have hc : isDigit c = false := by simpa [startsPlainWord] using h
      simp [isDigits, hc]
  unfold regexInt
  split
  · exact absurd h (by simp [startsPlainWord]; decide)
  · rw [if_neg (by simp [hd])]

theorem regexReal_false (h : startsPlainWord s = true) : regexReal s = false := by
  cases s with
  | nil => rfl
  | cons c s =>
    have hc : isDigit c = false := by simpa [startsPlainWord] using h
    rw [regexReal, hc, Bool.false_and]

/-- the tokens of a text that is no number -/
theorem matchTokens_word (hs : s ≠ []) (h : startsPlainWord s = true) :
    matchTokens s = .ok (matchWord s ++ matchOp s) := by
  have h2 : ¬ (s = [48, 120] ∨ s = [48, 98]) := by
    rintro (rfl | rfl)
    · exact absurd h (by decide)
    · exact absurd h (by decide)
  have hi : matchInt s = .ok [] := by
    rw [matchInt, regexInt_none h]
    exact if_neg h2
  rw [matchTokens, if_neg hs, hi, matchReal, regexReal_false h]
  rfl

/-- what makes a text a word or an operator -/
def isWordLike (s : Str) : Bool :=
  (keywords.lookup s).isSome || regexIdent s || regexLabel s || regexPartial s ||
    (operators.lookup s).isSome

theorem isToken_word (hs : s ≠ []) (h : startsPlainWord s = true) (hw : isWordLike s = true) :
    IsToken s := by
  have hne : matchWord s ++ matchOp s ≠ [] := by
    intro e
    obtain ⟨e1, e2⟩ := List.append_eq_nil_iff.1 e
    have ho : (operators.lookup s).isSome = false := by
      cases hl : operators.lookup s with
      | none => rfl
      | some tok =>
        rw [matchOp, hl] at e2
        cases e2
    rw [matchWord] at e1
    cases hk : keywords.lookup s with
    | some tok =>
      rw [hk] at e1
      cases e1
    | none =>
      rw [hk] at e1
      dsimp only at e1
      rw [isWordLike, hk, ho] at hw
      split at e1
      · cases e1
      · next h1 =>
        split at e1
        · cases e1
        · next h2 =>
          split at e1
          · cases e1
          · next h3 => simp [h1, h2, h3] at hw
  obtain ⟨tok, toks, e⟩ := List.exists_cons_of_ne_nil hne
  exact ⟨tok, toks, by rw [matchTokens_word hs h, e]⟩

/-- words and operators grow if all their beginnings are such -/
theorem grows_word (hs : s ≠ []) (h : startsPlainWord s = true)
    (hw : ∀ u, u <+: s → u ≠ [] → isWordLike u = true) : Grows s := by
  refine ⟨hs, fun u hu hn => isToken_word hn ?_ (hw u hu hn)⟩
  obtain ⟨v, rfl⟩ := hu
  cases u with
  | nil => exact absurd rfl hn
  | cons c u => exact h

/-! ### identifiers and labels -/

theorem isWordStart_not_digit {c : UInt8} (h : isWordStart c = true) : isDigit c = false := by
  simp only [isWordStart, Bool.or_eq_true, Bool.and_eq_true, beq_iff_eq, decide_eq_true_eq,
    UInt8.le_iff_toNat_le] at h
  have h' : c.toNat = 95 ∨ (65 ≤ c.toNat ∧ c.toNat ≤ 90) ∨ (97 ≤ c.toNat ∧ c.toNat ≤ 122) := by
    rcases h with (rfl | h) | h
    · exact Or.inl rfl
    · exact Or.inr (Or.inl h)
    · exact Or.inr (Or.inr h)
  have h57 : ¬ c ≤ 57 := by
    rw [UInt8.le_iff_toNat_le]
    show ¬ c.toNat ≤ 57
    omega
  simp [isDigit, h57]

theorem regexIdent_starts (h : regexIdent s = true) : startsPlainWord s = true := by
  cases s with
  | nil => rfl
  | cons c s =>
    have hc := isWordStart_not_digit (Bool.and_eq_true_iff.1 h).1
    simp [startsPlainWord, hc]

theorem regexIdent_of_isPrefix {u : Str} (h : regexIdent s = true) (hu : u <+: s) (hn : u ≠ []) :
    regexIdent u = true := by
  obtain ⟨v, rfl⟩ := hu
  cases u with
  | nil => exact absurd rfl hn
  | cons c u =>
    obtain ⟨h1, h2⟩ := Bool.and_eq_true_iff.1 h
    have h3 : u.all isWordPart = true ∧ v.all isWordPart = true := by
      rw [← Bool.and_eq_true_iff, ← List.all_append]
      exact h2
    exact Bool.and_eq_true_iff.2 ⟨h1, h3.1⟩

theorem grows_ident (h : regexIdent s = true) : Grows s := by
  have hs : s ≠ [] := by
    rintro rfl
    cases h
  refine grows_word hs (regexIdent_starts h) fun u hu hn => ?_
  rw [isWordLike, regexIdent_of_isPrefix h hu hn]
  simp

theorem regexLabel_starts (h : regexLabel s = true) : startsPlainWord s = true := by
  unfold regexLabel at h
  split at h
  · rfl
  · cases h

theorem grows_label (h : regexLabel s = true) : Grows s := by
  have hs : s ≠ [] := by
    rintro rfl
    cases h
  refine grows_word hs (regexLabel_starts h) fun u hu hn => ?_
  unfold regexLabel at h
  split at h
  · next s =>
    cases u with
    | nil => exact absurd rfl hn
    | cons c u =>
      obtain ⟨e, hpre⟩ := List.cons_prefix_cons.1 hu
      subst e
      cases hu' : u with
      | nil => rfl
      | cons d u' =>
        have hi : regexIdent (d :: u') = true :=
          regexIdent_of_isPrefix h (by rw [← hu']; exact hpre) (by simp)
        have hl : regexLabel (46 :: d :: u') = true := hi
        rw [isWordLike, hl]
        simp
  · cases h

/-! ### numbers -/

theorem isBase_not_digit {c : UInt8} (h : isBase c = true) : isDigit c = false := by
  have hc : c = 120 ∨ c = 98 := by simpa [isBase] using h
  rcases hc with rfl | rfl <;> rfl

theorem regexInt_digits (h : isDigits s = true) : regexInt s = some ([], s) := by
  unfold regexInt
  split
  · next c s =>
    have hc : isDigit c = true :=
      List.all_eq_true.1 (Bool.and_eq_true_iff.1 h).2 c (by simp)
    have hb : isBase c = false := by
      cases hb : isBase c with
      | false => rfl
      | true =>
        rw [isBase_not_digit hb] at hc
        cases hc
    rw [hb, Bool.false_and, if_neg (by simp), if_pos h]
  · rw [if_pos h]

theorem matchInt_digits (h : isDigits s = true) :
    matchInt s = .ok [(.int, some (.int (clampInt (decVal s))))] := by
  rw [matchInt, regexInt_digits h]
  rfl

theorem isDigits_of_isPrefix {u : Str} (h : isDigits s = true) (hu : u <+: s) (hn : u ≠ []) :
    isDigits u = true := by
  have h' := (Bool.and_eq_true_iff.1 h).2
  refine Bool.and_eq_true_iff.2 ⟨by simpa using hn, ?_⟩
  rw [List.all_eq_true] at h' ⊢
  exact fun c hc => h' c (hu.subset hc)

theorem ne_nil_of_isDigits (h : isDigits s = true) : s ≠ [] := by
  rintro rfl
  cases h

theorem grows_int (h : isDigits s = true) : Grows s := by
  refine ⟨ne_nil_of_isDigits h, fun u hu hn => ?_⟩
  refine ⟨(.int, some (.int (clampInt (decVal u)))), matchReal u ++ matchWord u ++ matchOp u, ?_⟩
  rw [matchTokens, if_neg hn, matchInt_digits (isDigits_of_isPrefix h hu hn)]
  simp [bind, Except.bind, pure, Except.pure]

theorem regexReal_base {c : UInt8} {v : Str} (hb : isBase c = true) :
    regexReal (48 :: c :: v) = false := by
  have hd : List.dropWhile isDigit (c :: v) = c :: v :=
    List.dropWhile_cons_of_neg (by simp [isBase_not_digit hb])
  have hc : c = 120 ∨ c = 98 := by simpa [isBase] using hb
  rw [regexReal, hd]
  rcases hc with rfl | rfl <;> cases v <;> rfl

/-- a real that does not consist of digits is no integer -/
theorem matchInt_real (h : regexReal s = true) (hd : isDigits s = false) : matchInt s = .ok [] := by
  have h1 : regexInt s = none := by
    unfold regexInt
    split
    · next c v =>
      have hb : isBase c = false := by
        cases hb : isBase c with
        | false => rfl
        | true =>
          rw [regexReal_base hb] at h
          cases h
      rw [hb, Bool.false_and, if_neg (by simp), if_neg (by rw [hd]; simp)]
    · rw [if_neg (by rw [hd]; simp)]
  have h2 : ¬ (s = [48, 120] ∨ s = [48, 98]) := by
    rintro (rfl | rfl)
    · exact absurd h (by decide)
    · exact absurd h (by decide)
  rw [matchInt, h1]
  exact if_neg h2

theorem isToken_real (h : regexReal s = true) : IsToken s := by
  have hs : s ≠ [] := by
    rintro rfl
    cases h
  cases hd : isDigits s with
  | true => exact (grows_int hd).isToken
  | false =>
    refine ⟨(.real, some (.real (MathLib.scan s).2.1)), matchWord s ++ matchOp s, ?_⟩
    rw [matchTokens, if_neg hs, matchInt_real h hd, matchReal, if_pos h]
    simp [bind, Except.bind, pure, Except.pure]

/-- digits at the end of a text -/
theorem dropWhile_snoc (s : Str) (c : UInt8) : s.dropWhile isDigit = [] ∨
    (s ++ [c]).dropWhile isDigit = s.dropWhile isDigit ++ [c] := by
  rw [List.dropWhile_append]
  cases h : s.dropWhile isDigit with
  | nil => exact Or.inl rfl
  | cons d v => exact Or.inr rfl

theorem regexExponent_snoc {c : UInt8} (h : regexExponent (s ++ [c]) = true) :
    regexExponent s = true := by
  match s, h with
  | [], _ => rfl
  | [d], h => exact (Bool.and_eq_true_iff.1 (Bool.and_eq_true_iff.1 h).1).1
  | d :: sign :: v, h =>
    obtain ⟨h1, h2⟩ := Bool.and_eq_true_iff.1 h
    refine Bool.and_eq_true_iff.2 ⟨h1, ?_⟩
    rw [List.all_eq_true] at h2 ⊢
    exact fun x hx => h2 x (List.mem_append_left _ hx)

theorem regexFraction_cons {d : UInt8} (hd : d ≠ 46) (v : Str) :
    regexFraction (d :: v) = regexExponent (d :: v) := by
  unfold regexFraction
  split
  · next e => exact absurd (List.cons.inj e).1 hd
  · rfl

theorem regexFraction_snoc {c : UInt8} (h : regexFraction (s ++ [c]) = true) :
    regexFraction s = true := by
  cases s with
  | nil => rfl
  | cons d v =>
    by_cases hd : d = 46
    · subst hd
      have h' : regexExponent ((v ++ [c]).dropWhile isDigit) = true := h
      show regexExponent (v.dropWhile isDigit) = true
      rcases dropWhile_snoc v c with e | e
      · rw [e]
        rfl
      · rw [e] at h'
        exact regexExponent_snoc h'
    · rw [regexFraction_cons hd]
      rw [List.cons_append, regexFraction_cons hd, ← List.cons_append] at h
      exact regexExponent_snoc h

theorem regexReal_snoc {c : UInt8} (hs : s ≠ []) (h : regexReal (s ++ [c]) = true) :
    regexReal s = true := by
  cases s with
  | nil => exact absurd rfl hs
  | cons d v =>
    obtain ⟨h1, h2⟩ := Bool.and_eq_true_iff.1 h
    refine Bool.and_eq_true_iff.2 ⟨h1, ?_⟩
    rcases dropWhile_snoc v c with e | e
    · rw [e]
      rfl
    · have h3 : regexFraction ((v ++ [c]).dropWhile isDigit) = true := h2
      rw [e] at h3
      exact regexFraction_snoc h3

theorem regexReal_append_left {u v : Str} (h : regexReal (u ++ v) = true) (hn : u ≠ []) :
    regexReal u = true := by
  induction v using List.reverseRecOn with
  | nil => rwa [List.append_nil] at h
  | append_singleton v c ih =>
    rw [← List.append_assoc] at h
    exact ih (regexReal_snoc (by simp [hn]) h)

theorem grows_real (h : regexReal s = true) : Grows s := by
  refine ⟨?_, fun u hu hn => ?_⟩
  · rintro rfl
    cases h
  · obtain ⟨v, rfl⟩ := hu
    exact isToken_real (regexReal_append_left h hn)

end

/-! ### keywords and operators -/

/-- the operator that is taken for an identifier -/
def xorOp : Str × Token × Option Lval := word "xor" .xor

/-- Almost all beginnings of keywords and operators are matched by a regular expression, and all of
them but `xor` are found as what they are. -/
theorem fixed_checked :
    (((keywords ++ operators).all fun p => !p.1.isEmpty && startsPlainWord p.1 &&
      p.1.inits.all fun u => u.isEmpty || (regexIdent u || regexPartial u || isWordLike u)) =
        true) ∧
    (∀ p ∈ keywords, keywords.lookup p.1 = some p.2 ∧ regexLabel p.1 = false) ∧
    ∀ p ∈ operators, operators.lookup p.1 = some p.2 ∧ keywords.lookup p.1 = none ∧
      (p = xorOp ∨ regexIdent p.1 = false ∧ regexLabel p.1 = false ∧
        regexPartial p.1 = false) := by
  decide +kernel

theorem fixed_wordLike {p : Str × Token × Option Lval} (hp : p ∈ keywords ++ operators) :
    p.1 ≠ [] ∧ startsPlainWord p.1 = true ∧ ∀ u ∈ p.1.inits, u ≠ [] → isWordLike u = true := by
  have h := List.all_eq_true.1 fixed_checked.1 p hp
  simp only [Bool.and_eq_true, Bool.not_eq_true', List.isEmpty_eq_false_iff] at h
  refine ⟨h.1.1, h.1.2, fun u hu hn => ?_⟩
  have hw := List.all_eq_true.1 h.2 u hu
  simp only [Bool.or_eq_true, List.isEmpty_iff] at hw
  rcases hw with e | (hi | hl) | hw
  · exact absurd e hn
  · simp [isWordLike, hi]
  · simp [isWordLike, hl]
  · exact hw

/-! ## lexemes -/

/-- lexemes -/
inductive Lexeme
  | ident (s : Str)
  | label (s : Str)
  /-- a decimal integer -/
  | int (digits : Str)
  | real (s : Str)
  | str (body : Str)
  /-- a keyword or an operator -/
  | fixed (p : Str × Token × Option Lval)
  deriving DecidableEq

/-- the text of a lexeme -/
def Lexeme.text : Lexeme → Str
  | .ident s => s
  | .label s => s
  | .int digits => digits
  | .real s => s
  | .str body => quote :: (body ++ [quote])
  | .fixed p => p.1

/-- well-formed lexemes: no identifier is a keyword or an operator, an integer is below `2^63`, a
real has digits behind the sign of its exponent, a string has no quotation mark, backslash or
newline -/
def Lexeme.Wf : Lexeme → Prop
  | .ident s => regexIdent s = true ∧ ∀ p ∈ keywords ++ operators, s ≠ p.1
  | .label s => regexLabel s = true
  | .int digits => isDigits digits = true ∧ decVal digits < 2^63
  | .real s => regexReal s = true ∧ isDigits s = false ∧ s.getLast? ≠ some 43 ∧ s.getLast? ≠ some 45
  | .str body => quote ∉ body ∧ 92 ∉ body ∧ newline ∉ body
  | .fixed p => p ∈ keywords ++ operators

section
variable [MathLib TReal]

/-- the token of a lexeme with its value -/
def Lexeme.token : Lexeme → Token × Option Lval
  | .ident s => (.ident, some (.str s))
  | .label s => (.label, some (.str s))
  | .int digits => (.int, some (.int (Int64.ofNat (decVal digits))))
  | .real s => (.real, some (.real (MathLib.scan s).2.1))
  | .str body => (.str, some (.str body))
  | .fixed p => p.2

/-- what the lexer returns for a lexeme -/
def Lexeme.read (l : Lexeme) : Token × Option Lval :=
  if l = .fixed xorOp then (.ident, some (.str (ascii "xor"))) else l.token

/-- the piece of a lexeme -/
def Lexeme.seg : Lexeme → Seg
  | .str body => .str body
  | l => .lexeme l.text

theorem lookup_none_of_ne {l : List (Str × Token × Option Lval)} {s : Str}
    (h : ∀ p ∈ l, s ≠ p.1) : l.lookup s = none := by
  rw [List.lookup_eq_none_iff]
  intro p hp
  rw [bne_iff_ne]
  exact h p hp

theorem Lexeme.read_eq {l : Lexeme} (h : l ≠ .fixed xorOp) : l.read = l.token := if_neg h

theorem grows_fixed {p : Str × Token × Option Lval} (hp : p ∈ keywords ++ operators) :
    Grows p.1 := by
  obtain ⟨h1, h2, h3⟩ := fixed_wordLike hp
  exact grows_word h1 h2 fun u hu hn => h3 u ((List.mem_inits _ _).2 hu) hn

theorem matchTokens_fixed {p : Str × Token × Option Lval} (hp : p ∈ keywords ++ operators) :
    ∃ toks, matchTokens p.1 = .ok ((Lexeme.fixed p).read :: toks) := by
  obtain ⟨h1, h2, -⟩ := fixed_wordLike hp
  rw [matchTokens_word h1 h2, matchWord, matchOp]
  rcases List.mem_append.1 hp with hk | ho
  · have hx : p ≠ xorOp := by
      rintro rfl
      exact absurd hk (by decide +kernel)
    rw [(fixed_checked.2.1 p hk).1, Lexeme.read_eq (by simpa using hx)]
    exact ⟨_, rfl⟩
  · obtain ⟨h3, h4, h5⟩ := fixed_checked.2.2 p ho
    rw [h3, h4]
    rcases h5 with rfl | ⟨h5, h6, h7⟩
    · exact ⟨_, rfl⟩
    · have hx : p ≠ xorOp := by
        rintro rfl
        cases h5
      rw [Lexeme.read_eq (by simpa using hx), h5, h6, h7]
      exact ⟨_, rfl⟩

/-- lexemes other than strings grow, and their token comes first -/
theorem Lexeme.grows {l : Lexeme} (h : l.Wf) (hs : ∀ body, l ≠ .str body) :
    Grows l.text ∧ ∃ toks, matchTokens l.text = .ok (l.read :: toks) := by
  cases l with
  | ident s =>
    obtain ⟨hi, hne⟩ := h
    have hk := lookup_none_of_ne fun p hp => hne p (List.mem_append_left _ hp)
    refine ⟨grows_ident hi, matchOp s, ?_⟩
    show matchTokens s = _
    rw [matchTokens_word (grows_ident hi).ne_nil (regexIdent_starts hi), matchWord, hk]
    dsimp only
    rw [if_pos hi, Lexeme.read_eq (by simp)]
    rfl
  | label s =>
    have hl : regexLabel s = true := h
    have hk : keywords.lookup s = none := lookup_none_of_ne fun p hp e => by
      rw [e, (fixed_checked.2.1 p hp).2] at hl
      cases hl
    have hi : regexIdent s = false := by
      unfold regexLabel at hl
      split at hl
      · rfl
      · cases hl
    refine ⟨grows_label hl, matchOp s, ?_⟩
    show matchTokens s = _
    rw [matchTokens_word (grows_label hl).ne_nil (regexLabel_starts hl), matchWord, hk]
    dsimp only
    rw [if_neg (by rw [hi]; simp), if_pos hl, Lexeme.read_eq (by simp)]
    rfl
  | int digits =>
    obtain ⟨hd, hv⟩ := h
    refine ⟨grows_int hd, matchReal digits ++ matchWord digits ++ matchOp digits, ?_⟩
    show matchTokens digits = _
    rw [matchTokens, if_neg (ne_nil_of_isDigits hd), matchInt_digits hd, clampInt, if_pos hv,
      Lexeme.read_eq (by simp)]
    simp [bind, Except.bind, pure, Except.pure, Lexeme.token]
  | real s =>
    obtain ⟨hr, hd, -⟩ := h
    refine ⟨grows_real hr, matchWord s ++ matchOp s, ?_⟩
    show matchTokens s = _
    rw [matchTokens, if_neg (grows_real hr).ne_nil, matchInt_real hr hd, matchReal, if_pos hr,
      Lexeme.read_eq (by simp)]
    simp [bind, Except.bind, pure, Except.pure, Lexeme.token]
  | str body => exact absurd rfl (hs body)
  | fixed p => exact ⟨grows_fixed h, matchTokens_fixed h⟩

/-! ## separators -/

/-- white space, newlines and comments, which end with a newline -/
inductive Sep
  | blank (c : UInt8)
  | newline
  | comment (body : Str)
  deriving DecidableEq

def Sep.text : Sep → Str
  | .blank c => [c]
  | .newline => [MuF.newline]
  | .comment body => bang :: (body ++ [MuF.newline])

def Sep.Wf : Sep → Prop
  | .blank c => isBlank c = true
  | .newline => True
  | .comment body => MuF.newline ∉ body

/-- the pieces of a separator -/
def Sep.segs : Sep → List Seg
  | .blank c => [.blank c]
  | .newline => [.newline]
  | .comment body => [.comment body, .newline]

/-- the text of separators -/
def sepText (seps : List Sep) : Str := seps.flatMap Sep.text

theorem Sep.cut {sep : Sep} {rest : Str} {segs : List Seg} {e : Ending} (h : sep.Wf)
    (hr : Cut rest segs e) : Cut (sep.text ++ rest) (sep.segs ++ segs) e := by
  cases sep with
  | blank c => exact .blank h hr
  | newline => exact .newline hr
  | comment body =>
    have ht : Sep.text (.comment body) ++ rest = bang :: (body ++ MuF.newline :: rest) := by
      simp [Sep.text]
    rw [ht]
    exact .comment h (.newline hr)

theorem cut_seps {seps : List Sep} {rest : Str} {segs : List Seg} {e : Ending}
    (h : ∀ sep ∈ seps, sep.Wf) (hr : Cut rest segs e) :
    Cut (sepText seps ++ rest) (seps.flatMap Sep.segs ++ segs) e := by
  induction seps with
  | nil => exact hr
  | cons sep seps ih =>
    rw [sepText, List.flatMap_cons, List.flatMap_cons, List.append_assoc, List.append_assoc]
    exact Sep.cut (h sep List.mem_cons_self) (ih fun s hs => h s (List.mem_cons_of_mem _ hs))

/-- separators have no tokens, they count newlines -/
theorem tokensFrom_seps {seps : List Sep} (h : ∀ sep ∈ seps, sep.Wf) (line : Nat)
    (segs : List Seg) : tokensFrom line (seps.flatMap Sep.segs ++ segs) =
      tokensFrom (line + (sepText seps).count newline) segs := by
  induction seps generalizing line with
  | nil => rfl
  | cons sep seps ih =>
    have ih' := fun n => ih (fun s hs => h s (List.mem_cons_of_mem _ hs)) n
    have hsep := h sep List.mem_cons_self
    rw [sepText, List.flatMap_cons, List.flatMap_cons, List.append_assoc, List.count_append,
      ← Nat.add_assoc]
    cases sep with
    | blank c =>
      have hc : c = 32 ∨ c = 9 := by
        simpa [isBlank] using (show isBlank c = true from hsep)
      rcases hc with rfl | rfl <;> exact ih' line
    | newline => exact ih' (line + 1)
    | comment body =>
      have hb : (Sep.text (.comment body)).count newline = 1 := by
        have hn : newline ∉ body := hsep
        rw [Sep.text, List.count_cons_of_ne (by decide), List.count_append,
          List.count_eq_zero_of_not_mem hn]
        rfl
      rw [hb]
      exact ih' (line + 1)

/-- behind a lexeme a separator stops the search -/
theorem stops_sep {w rest : Str} {sep : Sep} (seps : List Sep) (h : sep.Wf) :
    Stops w (sepText (sep :: seps) ++ rest) := by
  intro c rest' e
  refine matchTokens_none ⟨c, by simp, ?_⟩
  have hc : ∃ v, sep.text = c :: v := by
    cases sep with
    | blank d => exact ⟨[], by rw [(List.cons.inj e).1]; rfl⟩
    | newline => exact ⟨[], by rw [← (List.cons.inj e).1]; rfl⟩
    | comment body => exact ⟨body ++ [newline], by rw [← (List.cons.inj e).1]; rfl⟩
  obtain ⟨v, hv⟩ := hc
  cases sep with
  | blank d =>
    cases hv
    simp [isPlain, show isBlank c = true from h]
  | newline =>
    cases hv
    rfl
  | comment body =>
    cases hv
    rfl

/-! ## printed lists -/

/-- the text of lexemes, each with the separators behind it -/
def print_ (items : List (Lexeme × List Sep)) : Str :=
  items.flatMap fun x => x.1.text ++ sepText x.2

/-- separators stand between any two lexemes -/
def Separated : List (Lexeme × List Sep) → Prop
  | [] => True
  | [_] => True
  | x :: y :: items => x.2 ≠ [] ∧ Separated (y :: items)

/-- the lexemes and separators are well-formed -/
structure Printable (lead : List Sep) (items : List (Lexeme × List Sep)) : Prop where
  lead : ∀ sep ∈ lead, sep.Wf
  lexemes : ∀ x ∈ items, x.1.Wf
  seps : ∀ x ∈ items, ∀ sep ∈ x.2, sep.Wf
  separated : Separated items

/-- tokens with the numbers of their lines: the newlines in front of them from the given one on;
`HALT` is the last one -/
def numbered (tok : Lexeme → Token × Option Lval) : Nat → List (Lexeme × List Sep) →
    List LexerMatch
  | line, [] => [⟨.halt, none, line⟩]
  | line, x :: items => ⟨(tok x.1).1, (tok x.1).2, line⟩ ::
    numbered tok (line + (x.1.text ++ sepText x.2).count newline) items

/-- the tokens of a printed list -/
def expected (lead : List Sep) (items : List (Lexeme × List Sep)) : List LexerMatch :=
  numbered Lexeme.token (1 + (sepText lead).count newline) items

/-- the pieces of a printed list -/
def printSegs (items : List (Lexeme × List Sep)) : List Seg :=
  items.flatMap fun x => x.1.seg :: x.2.flatMap Sep.segs

theorem replaceAll_none {c1 c2 d : UInt8} {s : Str} (h : c1 ∉ s) : replaceAll c1 c2 d s = s := by
  induction s with
  | nil => rfl
  | cons x s ih =>
    rw [List.mem_cons, not_or] at h
    cases s with
    | nil => rfl
    | cons y s => rw [replaceAll, if_neg fun e => h.1 e.1.symm, ih h.2]

theorem replaceEscapes_none {s : Str} (h : 92 ∉ s) : replaceEscapes s = s := by
  rw [replaceEscapes, replaceAll_none h, replaceAll_none h, replaceAll_none h]

theorem filter_newline {s : Str} (h : newline ∉ s) : s.filter (fun c => c != newline) = s := by
  rw [List.filter_eq_self]
  intro c hc
  rw [bne_iff_ne]
  rintro rfl
  exact h hc

/-- the token of a piece, whose text has no newlines -/
theorem tokensFrom_seg {l : Lexeme} (h : l.Wf) (line : Nat) (segs : List Seg) :
    tokensFrom line (l.seg :: segs) = ⟨l.read.1, l.read.2, line⟩ :: tokensFrom line segs ∧
      l.text.count newline = 0 := by
  by_cases hs : ∃ body, l = .str body
  · obtain ⟨body, rfl⟩ := hs
    obtain ⟨h1, h2, h3⟩ := h
    have h0 : body.count newline = 0 := List.count_eq_zero_of_not_mem h3
    refine ⟨?_, ?_⟩
    · rw [Lexeme.seg, tokensFrom, h0, filter_newline h3, replaceEscapes_none h2,
        Lexeme.read_eq (by simp)]
      rfl
    · rw [Lexeme.text, List.count_cons_of_ne (by decide), List.count_append, h0]
      rfl
  · have hs' : ∀ body, l ≠ .str body := fun body e => hs ⟨body, e⟩
    have hseg : l.seg = .lexeme l.text := by
      cases l with
      | str body => exact absurd rfl (hs' body)
      | _ => rfl
    obtain ⟨hg, toks, ht⟩ := Lexeme.grows h hs'
    refine ⟨?_, ?_⟩
    · rw [hseg, tokensFrom, firstToken_eq ht]
      rfl
    · refine List.count_eq_zero_of_not_mem fun hm => ?_
      rw [matchTokens_none ⟨newline, hm, rfl⟩] at ht
      cases ht

/-- a lexeme in front of a text that is cut -/
theorem Lexeme.cut {l : Lexeme} {rest : Str} {segs : List Seg} {e : Ending} (h : l.Wf)
    (hr : Cut rest segs e) (hs : (∀ body, l ≠ .str body) → Stops l.text rest) :
    Cut (l.text ++ rest) (l.seg :: segs) e := by
  by_cases hb : ∃ body, l = .str body
  · obtain ⟨body, rfl⟩ := hb
    have ht : Lexeme.text (.str body) ++ rest = quote :: (body ++ quote :: rest) := by
      simp [Lexeme.text]
    rw [ht]
    exact .str h.1 hr
  · have hb' : ∀ body, l ≠ .str body := fun body e => hb ⟨body, e⟩
    have hseg : l.seg = .lexeme l.text := by
      cases l with
      | str body => exact absurd rfl (hb' body)
      | _ => rfl
    rw [hseg]
    exact .lexeme (Lexeme.grows h hb').1 (hs hb') hr

/-- a printed list is cut into its lexemes and separators -/
theorem cut_print {items : List (Lexeme × List Sep)} (h : Printable [] items) :
    Cut (print_ items) (printSegs items) .complete := by
  induction items with
  | nil => exact .done
  | cons x items ih =>
    obtain ⟨l, seps⟩ := x
    have hl : l.Wf := h.lexemes _ List.mem_cons_self
    have hseps : ∀ sep ∈ seps, sep.Wf := h.seps _ List.mem_cons_self
    have hrest : Printable [] items :=
      ⟨by simp, fun y hy => h.lexemes y (List.mem_cons_of_mem _ hy),
        fun y hy => h.seps y (List.mem_cons_of_mem _ hy), by
          cases items with
          | nil => trivial
          | cons y items => exact h.separated.2⟩
    have hc := cut_seps hseps (ih hrest)
    rw [print_, printSegs, List.flatMap_cons, List.flatMap_cons, List.append_assoc,
      List.cons_append]
    refine Lexeme.cut hl hc fun _ => ?_
    cases seps with
    | cons sep seps => exact stops_sep seps (hseps sep List.mem_cons_self)
    | nil =>
      cases items with
      | nil =>
        intro c rest e
        cases e
      | cons y items => exact absurd rfl h.separated.1

/-- the tokens of the pieces of a printed list -/
theorem tokensFrom_print {items : List (Lexeme × List Sep)} (h : ∀ x ∈ items, x.1.Wf)
    (hs : ∀ x ∈ items, ∀ sep ∈ x.2, sep.Wf) (line : Nat) :
    tokensFrom line (printSegs items) = numbered Lexeme.read line items := by
  induction items generalizing line with
  | nil => rfl
  | cons x items ih =>
    obtain ⟨h1, h2⟩ := tokensFrom_seg (h x List.mem_cons_self) line
      (x.2.flatMap Sep.segs ++ printSegs items)
    rw [printSegs, List.flatMap_cons, List.cons_append]
    rw [printSegs] at h1
    rw [h1, ← printSegs, tokensFrom_seps (hs x List.mem_cons_self), numbered, List.count_append, h2,
      Nat.zero_add, ih (fun y hy => h y (List.mem_cons_of_mem _ hy))
        (fun y hy => hs y (List.mem_cons_of_mem _ hy))]

/-- what the lexer returns for a printed list -/
theorem lex_print {lead : List Sep} {items : List (Lexeme × List Sep)} (h : Printable lead items) :
    getAllTokens ((sepText lead ++ print_ items).length + 1) (sepText lead ++ print_ items) =
      some (.ok (numbered Lexeme.read (1 + (sepText lead).count newline) items)) := by
  have hc := cut_seps h.lead (cut_print ⟨by simp, h.lexemes, h.seps, h.separated⟩)
  have hr := getAllTokens_ends hc
  rw [tokensFrom_seps h.lead, tokensFrom_print h.lexemes h.seps] at hr
  exact hr

/-- numbered tokens are the same if the tokens are -/
theorem numbered_eq_iff (f g : Lexeme → Token × Option Lval) (line : Nat)
    (items : List (Lexeme × List Sep)) :
    numbered f line items = numbered g line items ↔ ∀ x ∈ items, f x.1 = g x.1 := by
  induction items generalizing line with
  | nil => simp [numbered]
  | cons x items ih =>
    rw [numbered, numbered, List.cons.injEq, ih, List.forall_mem_cons, LexerMatch.mk.injEq]
    simp [Prod.ext_iff]

theorem Lexeme.read_iff (l : Lexeme) : l.read = l.token ↔ l ≠ .fixed xorOp := by
  refine ⟨?_, Lexeme.read_eq⟩
  rintro h rfl
  rw [Lexeme.read, if_pos rfl] at h
  cases h

/-- **Lexing undoes printing** unless one of the lexemes is the operator `xor`. -/
theorem lex_print_iff {lead : List Sep} {items : List (Lexeme × List Sep)}
    (h : Printable lead items) :
    (∃ fuel, getAllTokens fuel (sepText lead ++ print_ items) = some (.ok (expected lead items))) ↔
      ∀ x ∈ items, x.1 ≠ .fixed xorOp := by
  have hr := lex_print h
  have hi := numbered_eq_iff Lexeme.read Lexeme.token (1 + (sepText lead).count newline) items
  constructor
  · rintro ⟨fuel, hf⟩
    have e := getAllTokens_unique hr hf
    intro x hx
    exact (Lexeme.read_iff x.1).1 (hi.1 (Except.ok.inj e) x hx)
  · intro hx
    rw [hi.2 fun x hm => (Lexeme.read_iff x.1).2 (hx x hm)] at hr
    exact ⟨_, hr⟩

end

/-- `if x .eq. 012`, a comment and a string in the next line -/
def printedLine : List (Lexeme × List Sep) :=
  [(.fixed (word "if" .ifTok), [.blank 32]), (.ident (ascii "x"), [.blank 9]),
    (.fixed (word ".eq." .equ), [.blank 32, .blank 32]),
    (.int (ascii "012"), [.blank 32, .comment (ascii "c")]), (.str (ascii "a b"), [])]

theorem printedLine_printable : Printable [.newline] printedLine where
  lead := by simp [Sep.Wf]
  lexemes := by
    intro x hx
    simp only [printedLine, List.mem_cons, List.not_mem_nil, or_false] at hx
    rcases hx with rfl | rfl | rfl | rfl | rfl
    · show _ ∈ keywords ++ operators
      decide +kernel
    · show _ ∧ _
      decide +kernel
    · show _ ∈ keywords ++ operators
      decide +kernel
    · show _ ∧ _
      decide +kernel
    · show _ ∧ _ ∧ _
      decide +kernel
  seps := by
    intro x hx sep hs
    simp only [printedLine, List.mem_cons, List.not_mem_nil, or_false] at hx
    rcases hx with rfl | rfl | rfl | rfl | rfl <;>
      simp only [List.mem_cons, List.not_mem_nil, or_false] at hs
    · rw [hs]; rfl
    · rw [hs]; rfl
    · rcases hs with hs | hs <;> rw [hs] <;> rfl
    · rcases hs with hs | hs <;> rw [hs]
      · rfl
      · show newline ∉ ascii "c"
        decide
  separated := by simp [printedLine, Separated]

theorem lex_print_line : ∃ fuel, @getAllTokens (MathLib.absent ⟨0⟩) fuel
    (sepText [.newline] ++ print_ printedLine) =
      some (.ok (@expected (MathLib.absent ⟨0⟩) [.newline] printedLine)) :=
  (@lex_print_iff (MathLib.absent ⟨0⟩) _ _ printedLine_printable).2 (by decide +kernel)

/-- `xor` alone -/
theorem lex_print_xor : Printable [] [(.fixed xorOp, [])] ∧
    @getAllTokens (MathLib.absent ⟨0⟩) 4 (sepText [] ++ print_ [(.fixed xorOp, [])]) =
      some (.ok [⟨.ident, some (.str (ascii "xor")), 1⟩, ⟨.halt, none, 1⟩]) ∧
    @expected (MathLib.absent ⟨0⟩) [] [(.fixed xorOp, [])] =
      [⟨.xor, some (.str (ascii "xor")), 1⟩, ⟨.halt, none, 1⟩] ∧
    ¬ ∃ fuel, @getAllTokens (MathLib.absent ⟨0⟩) fuel (sepText [] ++ print_ [(.fixed xorOp, [])]) =
      some (.ok (@expected (MathLib.absent ⟨0⟩) [] [(.fixed xorOp, [])])) := by
  let _ : MathLib TReal := MathLib.absent ⟨0⟩
  have hp : Printable [] [(.fixed xorOp, [])] := by
    refine ⟨by simp, ?_, by simp, trivial⟩
    intro x hx
    rw [List.mem_singleton.1 hx]
    show xorOp ∈ keywords ++ operators
    decide +kernel
  have hr := lex_print hp
  refine ⟨hp, hr, rfl, ?_⟩
  rintro ⟨fuel, hf⟩
  have e := Except.ok.inj (getAllTokens_unique hr hf)
  exact absurd e (by decide +kernel)

end MuF
