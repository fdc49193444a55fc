import MuF.Lexer.Print
import Mathlib.Data.List.TakeWhile
import Mathlib.Data.Nat.Digits.Lemmas

/-!
# Integer literals

* `numeral`: the digits of a number;
* `Radix`: the three notations, and the texts of numbers in them;
* `Denotes`: the lexer returns the number, or an error if it is too large;
* **`denotes_iff`**: it does if the number is small enough and, in hexadecimal notation, has no
  letters among its digits.
-/

set_option linter.unusedVariables false
set_option linter.unusedSectionVars false

namespace MuF

/-! ## digits -/

/-- a digit; letters stand for the digits from ten on -/
def digitChar (upper : Bool) (d : Nat) : UInt8 :=
  UInt8.ofNat (if d < 10 then 48 + d else if upper then 55 + d else 87 + d)

/-- the digits of a number, the first one is the most significant one -/
def numeral (base : Nat) (upper : Bool) (n : Nat) : Str :=
  if n = 0 then [48] else (Nat.digits base n).reverse.map (digitChar upper)

/-- the number that digits stand for in a base, each one told by its distance from `0` -/
def digitFold (base : Nat) (s : Str) : Nat := s.foldl (fun val c => base * val + (c.toNat - 48)) 0

theorem digitChar_toNat {upper : Bool} {d : Nat} (hd : d < 10) :
    (digitChar upper d).toNat = 48 + d := by
  rw [digitChar, if_pos hd, UInt8.toNat_ofNat', Nat.mod_eq_of_lt (by omega)]

theorem isDigit_iff (c : UInt8) : isDigit c = true ↔ 48 ≤ c.toNat ∧ c.toNat ≤ 57 := by
  simp [isDigit, UInt8.le_iff_toNat_le]

theorem isDigit_digitChar {upper : Bool} {d : Nat} (hd : d < 10) :
    isDigit (digitChar upper d) = true := by
  rw [isDigit_iff, digitChar_toNat hd]
  omega

/-- the digits from ten on are letters -/
theorem digitChar_letter {upper : Bool} {d : Nat} (h : 10 ≤ d) (hd : d < 16) :
    isDigit (digitChar upper d) = false := by
  have hc : (digitChar upper d).toNat = if upper then 55 + d else 87 + d := by
    rw [digitChar, if_neg (not_lt.2 h), UInt8.toNat_ofNat', Nat.mod_eq_of_lt]
    cases upper
    · exact (by omega : 87 + d < 256)
    · exact (by omega : 55 + d < 256)
  rw [Bool.eq_false_iff, Ne, isDigit_iff, hc]
  cases upper
  · exact fun h => absurd h.2 (by show ¬ 87 + d ≤ 57; omega)
  · exact fun h => absurd h.2 (by show ¬ 55 + d ≤ 57; omega)

theorem digitFold_digits {base : Nat} {upper : Bool} (l : List Nat) (h : ∀ d ∈ l, d < 10) :
    digitFold base (l.reverse.map (digitChar upper)) = Nat.ofDigits base l := by
  rw [digitFold, List.foldl_map, List.foldl_reverse]
  induction l with
  | nil => rfl
  | cons d l ih =>
    have hd : d < 10 := h d List.mem_cons_self
    rw [List.foldr_cons, ih fun x hx => h x (List.mem_cons_of_mem d hx), digitChar_toNat hd,
      Nat.ofDigits_cons]
    show _ = (d : Nat) + base * _
    omega

/-- **Decimal digits** stand for the number. -/
theorem digitFold_numeral {base n : Nat} {upper : Bool} (h : ∀ d ∈ Nat.digits base n, d < 10) :
    digitFold base (numeral base upper n) = n := by
  unfold numeral
  split
  · next hn =>
    subst hn
    show base * 0 + 0 = 0
    omega
  · rw [digitFold_digits _ h, Nat.ofDigits_digits]

theorem numeral_ne_nil (base : Nat) (upper : Bool) (n : Nat) : numeral base upper n ≠ [] := by
  unfold numeral
  split
  · exact List.cons_ne_nil 48 []
  · next hn =>
    simp [Nat.digits_ne_nil_iff_ne_zero.2 hn]

theorem isDigits_numeral {base n : Nat} {upper : Bool} (h : ∀ d ∈ Nat.digits base n, d < 10) :
    isDigits (numeral base upper n) = true := by
  refine Bool.and_eq_true_iff.2 ⟨by simpa using numeral_ne_nil base upper n, ?_⟩
  unfold numeral
  split
  · rfl
  · rw [List.all_eq_true]
    intro c hc
    obtain ⟨d, hd, rfl⟩ := List.mem_map.1 hc
    exact isDigit_digitChar (h d (List.mem_reverse.1 hd))

/-- binary digits -/
theorem numeral_bits {upper : Bool} (n : Nat) :
    (numeral 2 upper n).all (fun c => c == 48 || c == 49) = true := by
  unfold numeral
  split
  · rfl
  · rw [List.all_eq_true]
    intro c hc
    obtain ⟨d, hd, rfl⟩ := List.mem_map.1 hc
    have hlt : d < 2 := Nat.digits_lt_base (by decide) (List.mem_reverse.1 hd)
    cases upper <;> interval_cases d <;> rfl

theorem numeral_length {upper : Bool} {n : Nat} (h : n < 2^63) :
    (numeral 2 upper n).length ≤ 64 := by
  unfold numeral
  split
  · exact (by decide : 1 ≤ 64)
  · rw [List.length_map, List.length_reverse]
    have := (Nat.digits_length_le_iff (b := 2) (k := 63) (by decide) n).2 h
    omega

/-! ## tokens that begin with a digit -/

section
variable [MathLib TReal] {s : Str} {c : UInt8}

theorem lookup_digit {l : List (Str × Token × Option Lval)} (hl : l ⊆ keywords ++ operators)
    (hc : isDigit c = true) : l.lookup (c :: s) = none := by
  refine lookup_none_of_ne fun p hp he => ?_
  have hw := (fixed_wordLike (hl hp)).2.1
  rw [← he] at hw
  simp [startsPlainWord, hc] at hw

/-- a text that begins with a digit is a number or nothing -/
theorem matchTokens_digit (hc : isDigit c = true) :
    matchTokens (c :: s) = (matchInt (c :: s)).map (· ++ matchReal (c :: s)) := by
  have hstart : isWordStart c = false := by
    cases h : isWordStart c with
    | false => rfl
    | true =>
      rw [isWordStart_not_digit h] at hc
      cases hc
  have hdot : c ≠ 46 := by
    rintro rfl
    cases hc
  have h1 : regexIdent (c :: s) = false := by
    rw [regexIdent, hstart, Bool.false_and]
  have h2 : regexLabel (c :: s) = false := by
    unfold regexLabel
    split
    · next h => exact absurd (List.cons.inj h).1 hdot
    · rfl
  have h3 : regexPartial (c :: s) = false := by
    unfold regexPartial
    split
    · next h => exact absurd (List.cons.inj h).1 hdot
    · rfl
  have hw : matchWord (c :: s) = [] := by
    rw [matchWord, lookup_digit (List.subset_append_left _ _) hc, h1, h2, h3]
    rfl
  have ho : matchOp (c :: s) = [] := by
    rw [matchOp, lookup_digit (List.subset_append_right _ _) hc]
    rfl
  rw [matchTokens, if_neg (List.cons_ne_nil c s), hw, ho]
  cases matchInt (c :: s) with
  | error e => rfl
  | ok ints =>
    show Except.ok (ints ++ matchReal (c :: s) ++ [] ++ []) = .ok (ints ++ matchReal (c :: s))
    rw [List.append_nil, List.append_nil]

/-- the value of digits behind `0x` or `0b` -/
theorem matchInt_base (hb : isBase c = true) (hs : isDigits s = true) :
    matchInt (48 :: c :: s) = (intVal [48, c] s).map fun val => [(.int, some (.int val))] := by
  have hr : regexInt (48 :: c :: s) = some ([48, c], s) := by
    rw [regexInt, hb, hs]
    rfl
  rw [matchInt, hr]
  dsimp only
  cases intVal [48, c] s <;> rfl

/-- `0x` and `0b` are tokens, and go on with digits that have a value -/
theorem grows_base (hb : isBase c = true) (hs : s.all isDigit = true)
    (hv : ∀ u, u <+: s → u ≠ [] → ∃ val, intVal [48, c] u = .ok val) : Grows (48 :: c :: s) := by
  refine ⟨List.cons_ne_nil _ _, fun u hu hn => ?_⟩
  have hbase : c = 120 ∨ c = 98 := by simpa [isBase] using hb
  cases u with
  | nil => exact absurd rfl hn
  | cons d u =>
    obtain ⟨hd, hu1⟩ := List.cons_prefix_cons.1 hu
    subst hd
    cases u with
    | nil => exact (grows_int (s := [48]) rfl).isToken
    | cons d u =>
      obtain ⟨hd, hu2⟩ := List.cons_prefix_cons.1 hu1
      subst hd
      rw [IsToken, matchTokens_digit (c := 48) rfl, matchReal, regexReal_base hb]
      by_cases hn : u = []
      · subst hn
        rcases hbase with rfl | rfl <;> exact ⟨_, _, rfl⟩
      · obtain ⟨val, he⟩ := hv u hu2 hn
        have hu : isDigits u = true := by
          rw [List.all_eq_true] at hs
          refine Bool.and_eq_true_iff.2 ⟨by simpa using hn, List.all_eq_true.2 fun x hx => ?_⟩
          exact hs x (hu2.subset hx)
        rw [matchInt_base hb hu, he]
        exact ⟨_, _, rfl⟩

/-- the first token of digits behind `0x` or `0b` -/
theorem firstToken_base (hb : isBase c = true) (hs : isDigits s = true) {val : Int64}
    (hv : intVal [48, c] s = .ok val) (line : Nat) :
    firstToken (48 :: c :: s) line = [⟨.int, some (.int val), line⟩] := by
  have e : matchTokens (48 :: c :: s) = .ok [(.int, some (.int val))] := by
    rw [matchTokens_digit (c := 48) rfl, matchReal, regexReal_base hb, matchInt_base hb hs, hv]
    rfl
  exact firstToken_eq e line

/-- a letter ends a hexadecimal number -/
theorem stops_letter {d : UInt8} {rest : Str} (hs : s.all isDigit = true)
    (hd : isDigit d = false) : Stops (48 :: 120 :: s) (d :: rest) := by
  intro c rest' h
  obtain ⟨rfl, -⟩ := List.cons.inj h
  have hdig : isDigits (s ++ [d]) = false := by
    simp [isDigits, hd]
  have hall : isDigits (48 :: 120 :: (s ++ [d])) = false := rfl
  have hr : regexInt (48 :: 120 :: (s ++ [d])) = none := by
    rw [regexInt, hdig, hall]
    rfl
  have hne : ¬ (48 :: 120 :: (s ++ [d]) = [48, 120] ∨ 48 :: 120 :: (s ++ [d]) = [48, 98]) := by
    simp
  show matchTokens (48 :: 120 :: (s ++ [d])) = .ok []
  rw [matchTokens_digit (c := 48) rfl, matchReal, regexReal_base (c := 120) rfl, matchInt, hr]
  dsimp only
  rw [if_neg hne]
  rfl

/-! ## literals -/

/-- decimal, binary and hexadecimal notation -/
inductive Radix
  | dec
  | bin
  | hex (upper : Bool)

/-- the text of a number -/
def Radix.text : Radix → Nat → Str
  | .dec, n => numeral 10 false n
  | .bin, n => 48 :: 98 :: numeral 2 false n
  | .hex upper, n => 48 :: 120 :: numeral 16 upper n

/-- the digits of the number are no letters -/
def Radix.plain : Radix → Nat → Bool
  | .hex _, n => (Nat.digits 16 n).all (· < 10)
  | _, _ => true

/-- a space, a newline or the end of the input -/
def Follows (rest : Str) : Prop := ∀ c rest', rest = c :: rest' → c = 32 ∨ c = newline

/-- the text is one token with the value `n`, or an error if `n` is too large -/
def Denotes (lit : Str) (n : Nat) (rest : Str) (line : Nat) : Prop :=
  if n < 2^63 then
    ∃ eof, (eof = true → rest = []) ∧ getNextToken ⟨lit ++ rest, false⟩ line =
      .ok (⟨.int, some (.int (Int64.ofNat n)), line⟩, ⟨rest, eof⟩, line)
  else ∃ err, getNextToken ⟨lit ++ rest, false⟩ line = .error err

theorem Follows.stops {w rest : Str} (h : Follows rest) : Stops w rest := by
  intro c rest' hc
  refine matchTokens_none ⟨c, List.mem_append_right w List.mem_cons_self, ?_⟩
  rcases h c rest' hc with rfl | rfl <;> rfl

theorem digits_ten {n : Nat} : ∀ d ∈ Nat.digits 10 n, d < 10 :=
  fun d hd => Nat.digits_lt_base (by decide) hd

theorem digits_two {n : Nat} : ∀ d ∈ Nat.digits 2 n, d < 10 := by
  intro d hd
  have : d < 2 := Nat.digits_lt_base (by decide) hd
  omega

theorem clampInt_lt {n : Nat} (h : n < 2^63) : clampInt n = Int64.ofNat n := if_pos h

/-- binary digits have a value -/
theorem intVal_bits {u : Str} (h : u.all (fun c => c == 48 || c == 49) = true) :
    intVal [48, 98] u = .ok (Int64.ofNat (digitFold 2 (u.take 64))) := by
  show bitsetVal u = _
  rw [bitsetVal, if_pos h]
  rfl

/-- **Numbers without letters** are one token, with the value of the number if it is small enough. -/
theorem plain_token {r : Radix} {n : Nat} (h : r.plain n = true) (line : Nat) :
    ∃ val, Grows (r.text n) ∧ firstToken (r.text n) line = [⟨.int, some (.int val), line⟩] ∧
      (n < 2^63 → val = Int64.ofNat n) := by
  cases r with
  | dec =>
    have hd : isDigits (numeral 10 false n) = true := isDigits_numeral digits_ten
    have hval : decVal (numeral 10 false n) = n := digitFold_numeral digits_ten
    refine ⟨clampInt n, grows_int hd, ?_, fun hn => clampInt_lt hn⟩
    obtain ⟨toks, e⟩ : ∃ toks, matchTokens (numeral 10 false n) =
        .ok ((.int, some (.int (clampInt n))) :: toks) := by
      rw [matchTokens, if_neg (numeral_ne_nil _ _ _), matchInt_digits hd, hval]
      exact ⟨_, rfl⟩
    exact firstToken_eq e line
  | bin =>
    have hd : isDigits (numeral 2 false n) = true := isDigits_numeral digits_two
    have hbits : (numeral 2 false n).all (fun c => c == 48 || c == 49) = true := numeral_bits n
    refine ⟨_, grows_base rfl (Bool.and_eq_true_iff.1 hd).2 ?_,
      firstToken_base rfl hd (intVal_bits hbits) line, fun hn => ?_⟩
    · intro u hu hne
      refine ⟨_, intVal_bits (List.all_eq_true.2 fun c hc => ?_)⟩
      exact List.all_eq_true.1 hbits c (hu.subset hc)
    · rw [List.take_of_length_le (numeral_length hn), digitFold_numeral digits_two]
  | hex upper =>
    have hlt : ∀ d ∈ Nat.digits 16 n, d < 10 := by
      intro d hd
      exact of_decide_eq_true (List.all_eq_true.1 h d hd)
    have hd : isDigits (numeral 16 upper n) = true := isDigits_numeral hlt
    have hval : hexVal (numeral 16 upper n) = n := digitFold_numeral hlt
    refine ⟨clampInt (hexVal (numeral 16 upper n)),
      grows_base rfl (Bool.and_eq_true_iff.1 hd).2 fun u _ _ => ⟨_, rfl⟩,
      firstToken_base rfl hd rfl line, fun hn => ?_⟩
    rw [hval, clampInt_lt hn]

/-- a letter among the digits -/
theorem numeral_letter {upper : Bool} {n : Nat} (h : (Radix.hex upper).plain n = false) :
    (numeral 16 upper n).all isDigit = false := by
  have h0 : n ≠ 0 := by
    rintro rfl
    cases h
  obtain ⟨d, hd, hlt⟩ := List.all_eq_false.1 h
  have hge : 10 ≤ d := by simpa using hlt
  have h16 : d < 16 := Nat.digits_lt_base (by decide) hd
  rw [numeral, if_neg h0]
  refine List.all_eq_false.2 ⟨digitChar upper d, ?_, ?_⟩
  · exact List.mem_map_of_mem (List.mem_reverse.2 hd)
  · rw [digitChar_letter hge h16]
    exact Bool.false_ne_true

/-- **A letter** is not part of the token. -/
theorem letter_token {upper : Bool} {n : Nat} (h : (Radix.hex upper).plain n = false) (rest : Str)
    (line : Nat) : ∃ tok c v eof, getNextToken ⟨(Radix.hex upper).text n ++ rest, false⟩ line =
      .ok (tok, ⟨c :: v ++ rest, eof⟩, line) := by
  have hall := numeral_letter h
  generalize hs : numeral 16 upper n = s at hall
  cases hdrop : s.dropWhile isDigit with
  | nil =>
    have hs' : s.all isDigit = true := List.all_eq_true.2 (List.dropWhile_eq_nil_iff.1 hdrop)
    rw [hs'] at hall
    cases hall
  | cons c v =>
    have hc : isDigit c = false := by
      have := List.head_dropWhile_not isDigit (l := s) (by rw [hdrop]; exact List.cons_ne_nil c v)
      simpa [hdrop] using this
    have hsplit : s = s.takeWhile isDigit ++ c :: v := by
      rw [← hdrop, List.takeWhile_append_dropWhile]
    have hpre : (s.takeWhile isDigit).all isDigit = true := List.all_takeWhile
    have hg : Grows (48 :: 120 :: s.takeWhile isDigit) :=
      grows_base rfl hpre fun u _ _ => ⟨_, rfl⟩
    have hst : Stops (48 :: 120 :: s.takeWhile isDigit) (c :: (v ++ rest)) := stops_letter hpre hc
    obtain ⟨tok, eof, -, -, e⟩ := nextToken_lexeme hg hst line
    refine ⟨tok, c, v, eof, ?_⟩
    have htext : (Radix.hex upper).text n ++ rest =
        (48 :: 120 :: s.takeWhile isDigit) ++ c :: (v ++ rest) := by
      show 48 :: 120 :: (numeral 16 upper n ++ rest) = 48 :: 120 :: (_ ++ c :: (v ++ rest))
      rw [hs]
      conv_lhs => rw [hsplit]
      rw [List.append_assoc, List.cons_append]
    rw [getNextToken, if_neg Bool.false_ne_true]
    show nextToken line [] [] false false ((Radix.hex upper).text n ++ rest) = _
    rw [htext, e]
    rfl

theorem getNextToken_text (s : Str) (line : Nat) :
    getNextToken ⟨s, false⟩ line = nextToken line [] [] false false s := by
  rw [getNextToken, if_neg Bool.false_ne_true]

/-- a number without letters denotes its value if it is small enough -/
theorem denotes_plain {r : Radix} {n : Nat} (hp : r.plain n = true) {rest : Str} (hr : Follows rest)
    (line : Nat) : Denotes (r.text n) n rest line ↔ n < 2^63 := by
  obtain ⟨val, hg, hf, hval⟩ := plain_token hp line
  obtain ⟨tok, eof, hf', heof, e⟩ := nextToken_lexeme hg (hr.stops (w := r.text n)) line
  rw [hf] at hf'
  cases hf'
  rw [Denotes, getNextToken_text, e]
  by_cases hn : n < 2^63
  · rw [if_pos hn]
    refine iff_of_true ⟨eof, heof, ?_⟩ hn
    rw [hval hn]
  · rw [if_neg hn]
    refine iff_of_false ?_ hn
    rintro ⟨err, h⟩
    cases h

/-- a number with a letter does not denote its value -/
theorem not_denotes_letter {upper : Bool} {n : Nat} (hp : (Radix.hex upper).plain n = false)
    (rest : Str) (line : Nat) : ¬ Denotes ((Radix.hex upper).text n) n rest line := by
  obtain ⟨tok, c, v, eof, e⟩ := letter_token hp rest line
  rw [Denotes, e]
  split
  · rintro ⟨eof', -, h⟩
    have hrest := congrArg (fun x => x.2.1.rest.length) (Except.ok.inj h)
    have hlen : (c :: v ++ rest).length = rest.length := hrest
    rw [List.length_append, List.length_cons] at hlen
    omega
  · rintro ⟨err, h⟩
    cases h

/-- **Integer literals** denote their value if and only if it is small enough and, in hexadecimal
notation, has no letters among its digits. -/
theorem denotes_iff (r : Radix) (n : Nat) {rest : Str} (hr : Follows rest) (line : Nat) :
    Denotes (r.text n) n rest line ↔ n < 2^63 ∧ r.plain n = true := by
  cases hp : r.plain n with
  | true => rw [denotes_plain hp hr, and_iff_left rfl]
  | false =>
    have hhex : ∃ upper, r = .hex upper := by
      cases r with
      | hex upper => exact ⟨upper, rfl⟩
      | dec => cases hp
      | bin => cases hp
    obtain ⟨upper, rfl⟩ := hhex
    exact iff_of_false (not_denotes_letter hp rest line) fun h => Bool.false_ne_true h.2

end

/-- `0xff`, and a decimal number that is too large -/
theorem literals_without_value :
    ¬ @Denotes (MathLib.absent ⟨0⟩) ((Radix.hex false).text 255) 255 [] 1 ∧
      ¬ @Denotes (MathLib.absent ⟨0⟩) (Radix.dec.text (2^63)) (2^63) [] 1 := by
  constructor
  · exact @not_denotes_letter (MathLib.absent ⟨0⟩) false 255 (by simp [Radix.plain]) [] 1
  · intro h
    have hf : Follows [] := fun c rest h => nomatch h
    exact absurd ((@denotes_plain (MathLib.absent ⟨0⟩) .dec _ rfl [] hf 1).1 h) (lt_irrefl _)

/-- `0x10` in front of a newline -/
theorem denotes_hex : @Denotes (MathLib.absent ⟨0⟩) ((Radix.hex false).text 16) 16 [newline] 1 := by
  have hf : Follows [newline] := by
    intro c rest h
    exact Or.inr (List.cons.inj h).1.symm
  exact (@denotes_iff (MathLib.absent ⟨0⟩) (.hex false) 16 [newline] hf 1).2
    ⟨by decide, by simp [Radix.plain]⟩

end MuF
