import MuF.Lexer.Scan
import Mathlib.Data.List.Induction

/-!
# Cutting a text into pieces

* `Seg`: white space, comments, strings and lexemes;
* `Cut input segs e`: the text is cut into `segs` from left to right, lexemes as long as possible,
  and `e` tells how that ends;
* `cut_total`, `Cut.unique`: every text is cut in one way;
* **`allTokens_cut`**: the lexer returns the tokens of the pieces.
-/

set_option linter.unusedVariables false
set_option linter.unusedSectionVars false

namespace MuF

/-- a piece of a text; `openStr` is a string without an end -/
inductive Seg
  | blank (c : UInt8)
  | newline
  | comment (body : Str)
  | str (body : Str)
  | openStr (body : Str)
  | lexeme (w : Str)
  deriving DecidableEq, Repr

def Seg.text : Seg → Str
  | .blank c => [c]
  | .newline => [MuF.newline]
  | .comment body => bang :: body
  | .str body => quote :: (body ++ [quote])
  | .openStr body => quote :: body
  | .lexeme w => w

/-- how the cutting of a text ends: at its end, within a string, or at a character that goes with
nothing -/
inductive Ending
  | complete | openString | stuck
  deriving DecidableEq, Repr

/-- a character that starts no white space, comment or string -/
def isPlain (c : UInt8) : Bool := !(isBlank c || c == newline || c == bang || c == quote)

section
variable [MathLib TReal]

/-- the text is a token -/
def IsToken (s : Str) : Prop := ∃ tok toks, matchTokens s = .ok (tok :: toks)

/-- all beginnings of the text are tokens, so that the search gets to its end -/
structure Grows (w : Str) : Prop where
  ne_nil : w ≠ []
  prefixes : ∀ u, u <+: w → u ≠ [] → IsToken u

/-- the text does not go on -/
def Stops (w rest : Str) : Prop := ∀ c rest', rest = c :: rest' → matchTokens (w ++ [c]) = .ok []

/-- the pieces of a text -/
inductive Cut : Str → List Seg → Ending → Prop
  | done : Cut [] [] .complete
  | blank {c : UInt8} {rest : Str} {segs : List Seg} {e : Ending} (hc : isBlank c = true)
      (h : Cut rest segs e) : Cut (c :: rest) (.blank c :: segs) e
  | newline {rest : Str} {segs : List Seg} {e : Ending} (h : Cut rest segs e) :
      Cut (MuF.newline :: rest) (.newline :: segs) e
  | lastComment {body : Str} (hb : MuF.newline ∉ body) :
      Cut (bang :: body) [.comment body] .complete
  | comment {body rest : Str} {segs : List Seg} {e : Ending} (hb : MuF.newline ∉ body)
      (h : Cut (MuF.newline :: rest) segs e) :
      Cut (bang :: (body ++ MuF.newline :: rest)) (.comment body :: segs) e
  | openStr {body : Str} (hb : quote ∉ body) : Cut (quote :: body) [.openStr body] .openString
  | str {body rest : Str} {segs : List Seg} {e : Ending} (hb : quote ∉ body)
      (h : Cut rest segs e) : Cut (quote :: (body ++ quote :: rest)) (.str body :: segs) e
  | lexeme {w rest : Str} {segs : List Seg} {e : Ending} (hw : Grows w) (hs : Stops w rest)
      (h : Cut rest segs e) : Cut (w ++ rest) (.lexeme w :: segs) e
  | bad {c : UInt8} {rest : Str} (hc : isPlain c = true) (h : matchTokens [c] = .ok []) :
      Cut (c :: rest) [] .stuck
  | throws {w : Str} {c : UInt8} {rest : Str} {err : Err} (hw : Grows w)
      (h : matchTokens (w ++ [c]) = .error err) : Cut (w ++ c :: rest) [] .stuck

/-- the token of a lexeme -/
def firstToken (w : Str) (line : Nat) : List LexerMatch :=
  match matchTokens w with
  | .ok (tok :: _) => [⟨tok.1, tok.2, line⟩]
  | _ => []

/-- the tokens of the pieces from a line on -/
def tokensFrom : Nat → List Seg → List LexerMatch
  | line, [] => [⟨.halt, none, line⟩]
  | line, .blank _ :: segs => tokensFrom line segs
  | line, .newline :: segs => tokensFrom (line + 1) segs
  | line, .comment _ :: segs => tokensFrom line segs
  | line, .openStr body :: segs => tokensFrom (line + body.count newline) segs
  | line, .str body :: segs =>
    ⟨.str, some (.str (replaceEscapes (body.filter fun c => c != newline))),
      line + body.count newline⟩ :: tokensFrom (line + body.count newline) segs
  | line, .lexeme w :: segs => firstToken w line ++ tokensFrom line segs

/-- the pieces make up the text -/
theorem Cut.text {input : Str} {segs : List Seg} {e : Ending} (h : Cut input segs e)
    (he : e ≠ .stuck) : segs.flatMap Seg.text = input := by
  induction h with
  | done => rfl
  | blank _ _ ih => rw [List.flatMap_cons, ih he]; rfl
  | newline _ ih => rw [List.flatMap_cons, ih he]; rfl
  | lastComment _ => rw [List.flatMap_cons, List.flatMap_nil, List.append_nil]; rfl
  | comment _ _ ih => rw [List.flatMap_cons, ih he]; rfl
  | openStr _ => rw [List.flatMap_cons, List.flatMap_nil, List.append_nil]; rfl
  | str _ _ ih =>
    rw [List.flatMap_cons, ih he]
    simp [Seg.text]
  | lexeme _ _ _ ih => rw [List.flatMap_cons, ih he]; rfl
  | bad _ _ => exact absurd rfl he
  | throws _ _ => exact absurd rfl he

/-! ## single characters -/

theorem matchTokens_special {c : UInt8} (h : isPlain c = false) : matchTokens [c] = .ok [] := by
  have hc : c = 32 ∨ c = 9 ∨ c = 10 ∨ c = 33 ∨ c = 34 := by
    simp [isPlain, isBlank, newline, bang, quote] at h
    tauto
  rcases hc with rfl | rfl | rfl | rfl | rfl <;> rfl

theorem Grows.plain {c : UInt8} {w : Str} (h : Grows (c :: w)) : isPlain c = true := by
  obtain ⟨tok, toks, e⟩ := h.prefixes [c] ⟨w, rfl⟩ (by simp)
  cases hp : isPlain c with
  | true => rfl
  | false =>
    rw [matchTokens_special hp] at e
    cases e

/-! ## one step of the search -/

theorem nextToken_blank {c : UInt8} (hc : isBlank c = true) (line : Nat) (rest : Str) :
    nextToken line [] [] false false (c :: rest) = nextToken line [] [] false false rest := by
  have h : c = 32 ∨ c = 9 := by simpa [isBlank] using hc
  rcases h with rfl | rfl <;> rfl

theorem nextToken_newline (line : Nat) (rest : Str) :
    nextToken line [] [] false false (newline :: rest) =
      nextToken (line + 1) [] [] false false rest := rfl

/-- a comment is skipped up to its newline -/
theorem nextToken_comment {body : Str} (hb : newline ∉ body) (line : Nat) (rest : Str) :
    nextToken line [] [] true false (body ++ newline :: rest) =
      nextToken (line + 1) [] [] false false rest := by
  induction body with
  | nil => rfl
  | cons c body ih =>
    rw [List.mem_cons, not_or] at hb
    have hc : true = true ∧ c ≠ newline := ⟨rfl, Ne.symm hb.1⟩
    exact (if_pos hc).trans (ih hb.2)

theorem nextToken_lastComment {body : Str} (hb : newline ∉ body) (line : Nat) :
    nextToken line [] [] true false body = .ok (⟨.halt, none, line⟩, ⟨[], true⟩, line) := by
  induction body with
  | nil => rfl
  | cons c body ih =>
    rw [List.mem_cons, not_or] at hb
    have hc : true = true ∧ c ≠ newline := ⟨rfl, Ne.symm hb.1⟩
    exact (if_pos hc).trans (ih hb.2)

theorem nextToken_bang (line : Nat) (rest : Str) :
    nextToken line [] [] false false (bang :: rest) = nextToken line [] [] true false rest := rfl

theorem nextToken_quote (line : Nat) (rest : Str) :
    nextToken line [] [] false false (quote :: rest) = nextToken line [] [] false true rest := rfl

/-- one character of a string; newlines are left out -/
theorem nextToken_inString {c : UInt8} (hc : c ≠ quote) (line : Nat) (input rest : Str) :
    nextToken line [] input false true (c :: rest) =
      nextToken (line + [c].count newline) [] (input ++ [c].filter fun c => c != newline) false true
        rest := by
  rw [nextToken, if_neg (by simp), if_neg (by simp), if_neg (fun h => hc h.1), if_neg (by simp),
    if_neg (by simp)]
  by_cases hn : c = newline
  · subst hn
    rw [if_pos rfl]
    simp
  · rw [if_neg hn, if_pos rfl]
    simp [hn]

/-- a string up to its end -/
theorem nextToken_str {body : Str} (hb : quote ∉ body) (line : Nat) (input rest : Str) :
    nextToken line [] input false true (body ++ quote :: rest) =
      .ok (⟨.str, some (.str (replaceEscapes (input ++ body.filter fun c => c != newline))),
        line + body.count newline⟩, ⟨rest, false⟩, line + body.count newline) := by
  induction body generalizing line input with
  | nil =>
    rw [List.nil_append, nextToken]
    simp [quote, newline]
  | cons c body ih =>
    rw [List.mem_cons, not_or] at hb
    rw [List.cons_append, nextToken_inString (Ne.symm hb.1), ih hb.2, List.append_assoc,
      ← List.filter_append, List.singleton_append, Nat.add_assoc, ← List.count_append,
      List.singleton_append]

theorem nextToken_openStr {body : Str} (hb : quote ∉ body) (line : Nat) (input : Str) :
    nextToken line [] input false true body =
      .ok (⟨.halt, none, line + body.count newline⟩, ⟨[], true⟩, line + body.count newline) := by
  induction body generalizing line input with
  | nil => rfl
  | cons c body ih =>
    rw [List.mem_cons, not_or] at hb
    rw [nextToken_inString (Ne.symm hb.1), ih hb.2, Nat.add_assoc, ← List.count_append,
      List.singleton_append]

/-! ## the longest token -/

/-- the next character of a token, or the first one behind it -/
theorem nextToken_extend {c : UInt8} {longest : List LexerMatch} (line : Nat) (input rest : Str)
    (h : longest ≠ [] ∨ isPlain c = true) :
    nextToken line longest input false false (c :: rest) =
      match getMatchingTokens (input ++ [c]) line with
      | .error e => .error e
      | .ok [] => endToken longest (input ++ [c]) line ⟨c :: rest, false⟩ false
      | .ok (tok :: toks) =>
        if rest = [] then endToken (tok :: toks) (input ++ [c]) line ⟨[], true⟩ true
        else nextToken line (tok :: toks) (input ++ [c]) false false rest := by
  rw [nextToken, if_neg (by simp)]
  by_cases hl : longest = []
  · have hp : isPlain c = true := h.resolve_left fun hne => hne hl
    simp only [isPlain, Bool.not_eq_true', Bool.or_eq_false_iff, beq_eq_false_iff_ne] at hp
    obtain ⟨⟨⟨h1, h2⟩, h3⟩, h4⟩ := hp
    rw [if_neg (fun hn => hn hl), if_neg (fun hn => h4 hn.1), if_neg (fun hn => h3 hn.1),
      if_neg (fun hn => by rw [h1] at hn; exact absurd hn.1 (by decide)), if_neg h2]
    rfl
  · rw [if_pos hl]
    rfl

/-- a character that is no token ends the search -/
theorem nextToken_bad {c : UInt8} (hc : isPlain c = true) (h : matchTokens [c] = .ok [])
    (line : Nat) (rest : Str) :
    ∃ err, nextToken line [] [] false false (c :: rest) = .error err := by
  rw [nextToken_extend line [] rest (Or.inr hc), getMatchingTokens, List.nil_append, h]
  exact ⟨_, rfl⟩

theorem firstToken_eq {w : Str} {tok : Token × Option Lval} {toks : List (Token × Option Lval)}
    (h : matchTokens w = .ok (tok :: toks)) (line : Nat) :
    firstToken w line = [⟨tok.1, tok.2, line⟩] := by
  rw [firstToken, h]

/-- the tokens of a text, none of which is missing, in a line -/
theorem IsToken.matching {s : Str} (h : IsToken s) (line : Nat) :
    ∃ tok toks, getMatchingTokens s line = .ok (tok :: toks) ∧ firstToken s line = [tok] := by
  obtain ⟨tok, toks, e⟩ := h
  exact ⟨_, _, by rw [getMatchingTokens, e]; rfl, firstToken_eq e line⟩

theorem Grows.left {u v : Str} (h : Grows (u ++ v)) (hu : u ≠ []) : Grows u :=
  ⟨hu, fun x hx => h.prefixes x (hx.trans (List.prefix_append u v))⟩

theorem Grows.isToken {w : Str} (h : Grows w) : IsToken w := h.prefixes w (List.prefix_refl w) h.ne_nil

/-- the search has reached the end of `u` -/
def atToken (line : Nat) (u rest : Str) (tok : LexerMatch) (toks : List LexerMatch) :
    Except Err (LexerMatch × LexStream × Nat) :=
  if rest = [] then endToken (tok :: toks) u line ⟨[], true⟩ true
  else nextToken line (tok :: toks) u false false rest

/-- the search gets to the end of a text if all its beginnings are tokens -/
theorem nextToken_grows {w : Str} (hw : Grows w) (line : Nat) (rest : Str) :
    ∃ tok toks, getMatchingTokens w line = .ok (tok :: toks) ∧
      nextToken line [] [] false false (w ++ rest) = atToken line w rest tok toks := by
  induction w using List.reverseRecOn generalizing rest with
  | nil => exact absurd rfl hw.ne_nil
  | append_singleton u c ih =>
    obtain ⟨tok, toks, e, -⟩ := hw.isToken.matching line
    refine ⟨tok, toks, e, ?_⟩
    rw [List.append_assoc, List.singleton_append]
    by_cases hu : u = []
    · subst hu
      rw [List.nil_append] at e hw ⊢
      rw [nextToken_extend line [] rest (Or.inr hw.plain), List.nil_append, e]
      rfl
    · obtain ⟨tok', toks', -, h⟩ := ih (hw.left hu) (c :: rest)
      rw [h, atToken, if_neg (by simp), nextToken_extend line u rest (Or.inl (by simp)), e]
      rfl

/-- **The longest token.** -/
theorem nextToken_lexeme {w rest : Str} (hw : Grows w) (hs : Stops w rest) (line : Nat) :
    ∃ tok eof, firstToken w line = [tok] ∧ (eof = true → rest = []) ∧
      nextToken line [] [] false false (w ++ rest) = .ok (tok, ⟨rest, eof⟩, line) := by
  obtain ⟨tok, toks, e, h⟩ := nextToken_grows hw line rest
  obtain ⟨tok', toks', e', h'⟩ := hw.isToken.matching line
  cases e.symm.trans e'
  refine ⟨tok, decide (rest = []), h', of_decide_eq_true, ?_⟩
  rw [h, atToken]
  cases rest with
  | nil => rfl
  | cons c rest =>
    rw [if_neg (by simp), nextToken_extend line w rest (Or.inl (by simp)), getMatchingTokens,
      hs c rest rfl]
    rfl

theorem nextToken_throws {w : Str} {c : UInt8} {err : Err} (hw : Grows w)
    (h : matchTokens (w ++ [c]) = .error err) (line : Nat) (rest : Str) :
    nextToken line [] [] false false (w ++ c :: rest) = .error err := by
  obtain ⟨tok, toks, -, e⟩ := nextToken_grows hw line (c :: rest)
  rw [e, atToken, if_neg (by simp), nextToken_extend line w rest (Or.inl (by simp)),
    getMatchingTokens, h]
  rfl

/-! ## all tokens -/

/-- the result of the lexer for a text cut into pieces -/
def Ending.Gives (e : Ending) (toks : List LexerMatch)
    (r : Option (Except Err (List LexerMatch))) : Prop :=
  match e with
  | .stuck => ∃ err, r = some (.error err)
  | _ => r = some (.ok toks)

theorem allTokens_congr {stream stream' : LexStream} {line line' : Nat} (fuel : Nat)
    (h : getNextToken stream line = getNextToken stream' line') :
    allTokens (fuel + 1) stream line = allTokens (fuel + 1) stream' line' := by
  rw [allTokens, allTokens, h]

theorem allTokens_halt {stream stream' : LexStream} {line line' : Nat} (fuel : Nat)
    (h : getNextToken stream line = .ok (⟨.halt, none, line'⟩, stream', line')) :
    allTokens (fuel + 1) stream line = some (.ok [⟨.halt, none, line'⟩]) := by
  rw [allTokens, h]
  rfl

theorem allTokens_token {stream stream' : LexStream} {line line' fuel : Nat} {tok : LexerMatch}
    {e : Ending} {toks : List LexerMatch} (ht : tok.id ≠ .halt)
    (h : getNextToken stream line = .ok (tok, stream', line'))
    (hg : e.Gives toks (allTokens fuel stream' line')) :
    e.Gives (tok :: toks) (allTokens (fuel + 1) stream line) := by
  rw [allTokens, h]
  dsimp only
  rw [if_neg ht]
  cases e with
  | stuck =>
    obtain ⟨err, hr⟩ := hg
    exact ⟨err, by rw [hr]; rfl⟩
  | complete =>
    have hr : allTokens fuel stream' line' = some (.ok toks) := hg
    rw [hr]
    rfl
  | openString =>
    have hr : allTokens fuel stream' line' = some (.ok toks) := hg
    rw [hr]
    rfl

/-! ## tokens that are none -/

theorem fixed_id : ∀ p ∈ keywords ++ operators, p.2.1 ≠ .halt ∧ p.2.1 ≠ .partialTok := by decide

theorem lookup_id {l : List (Str × Token × Option Lval)} (hl : l ⊆ keywords ++ operators) {s : Str}
    {tok : Token × Option Lval} (h : l.lookup s = some tok) :
    tok.1 ≠ .halt ∧ tok.1 ≠ .partialTok := by
  obtain ⟨l1, l2, e, -⟩ := List.lookup_eq_some_iff.1 h
  exact fixed_id (s, tok) (hl (by rw [e]; simp))

theorem matchInt_id {s : Str} {toks : List (Token × Option Lval)} (h : matchInt s = .ok toks) :
    ∀ tok ∈ toks, tok.1 = .int := by
  unfold matchInt at h
  split at h
  · next prefix_ digits _ =>
    cases hv : intVal prefix_ digits with
    | error e =>
      rw [hv] at h
      cases h
    | ok val =>
      rw [hv] at h
      cases h
      simp
  · split at h
    · cases h
      simp
    · cases h
      simp

theorem matchReal_id (s : Str) : ∀ tok ∈ matchReal s, tok.1 = .real := by
  unfold matchReal
  split <;> simp

/-- a dot without letters behind it is no token of the language -/
theorem regexPartial_only {s : Str} (h : regexPartial s = true) (hl : regexLabel s = false) :
    s = [46] := by
  unfold regexPartial at h
  split at h
  · next s =>
    cases s with
    | nil => rfl
    | cons c s =>
      have h' : isWordStart c = true ∧ s.all isWordStart = true := by simpa using h
      have hw : s.all isWordPart = true := by
        rw [List.all_eq_true] at h' ⊢
        intro x hx
        rw [isWordPart, h'.2 x hx, Bool.true_or]
      have e : regexLabel (46 :: c :: s) = true := by
        show (isWordStart c && s.all isWordPart) = true
        rw [h'.1, hw]
        rfl
      rw [e] at hl
      cases hl
  · cases h

theorem matchWord_id (s : Str) :
    ∀ tok ∈ matchWord s, tok.1 ≠ .halt ∧ (tok.1 = .partialTok → s = [46]) := by
  intro tok ht
  unfold matchWord at ht
  split at ht
  · next tok' e =>
    obtain ⟨h1, h2⟩ := lookup_id (List.subset_append_left _ _) e
    rw [List.mem_singleton.1 ht]
    exact ⟨h1, fun h => absurd h h2⟩
  · split at ht
    · rw [List.mem_singleton.1 ht]
      exact ⟨by simp, fun h => by cases h⟩
    · split at ht
      · rw [List.mem_singleton.1 ht]
        exact ⟨by simp, fun h => by cases h⟩
      · next hl =>
        split at ht
        · next hp =>
          rw [List.mem_singleton.1 ht]
          exact ⟨by simp, fun _ => regexPartial_only hp (by simpa using hl)⟩
        · cases ht

/-- the only token besides the ones of the language is the one of a dot alone -/
theorem matchTokens_id {s : Str} {toks : List (Token × Option Lval)} (h : matchTokens s = .ok toks)
    {tok : Token × Option Lval} (ht : tok ∈ toks) :
    tok.1 ≠ .halt ∧ (tok.1 = .partialTok → s = [46]) := by
  unfold matchTokens at h
  split at h
  · cases h
    cases ht
  · cases hi : matchInt s with
    | error e =>
      rw [hi] at h
      cases h
    | ok ints =>
      rw [hi] at h
      cases h
      simp only [List.mem_append] at ht
      rcases ht with ((ht | ht) | ht) | ht
      · rw [matchInt_id hi tok ht]
        simp
      · rw [matchReal_id s tok ht]
        simp
      · exact matchWord_id s tok ht
      · obtain ⟨h1, h2⟩ := lookup_id (List.subset_append_right _ _) (Option.mem_toList.1 ht)
        exact ⟨h1, fun h => absurd h h2⟩

theorem firstToken_id {w : Str} {line : Nat} {tok : LexerMatch} (h : firstToken w line = [tok]) :
    tok.id ≠ .halt ∧ (tok.id = .partialTok → w = [46]) := by
  unfold firstToken at h
  split at h
  · next t ts e =>
    cases h
    exact matchTokens_id e (List.mem_cons_self ..)
  · cases h

/-! ## the lexer -/

theorem eof_false {eof : Bool} {input : Str} (h : eof = true → input = []) (hi : input ≠ []) :
    eof = false := by
  cases eof with
  | false => rfl
  | true => exact absurd (h rfl) hi

/-- **The lexer returns the tokens of the pieces**, or an error where the cutting is stuck. -/
theorem allTokens_cut {input : Str} {segs : List Seg} {e : Ending} (h : Cut input segs e) :
    ∀ (fuel line : Nat) (eof : Bool), (eof = true → input = []) → input.length < fuel →
      e.Gives (tokensFrom line segs) (allTokens fuel ⟨input, eof⟩ line) := by
  induction h with
  | done =>
    intro fuel line eof _ hf
    obtain ⟨fuel, rfl⟩ : ∃ n, fuel = n + 1 := ⟨fuel - 1, by omega⟩
    have hn : ∀ eof, getNextToken ⟨[], eof⟩ line = .ok (⟨.halt, none, line⟩, ⟨[], true⟩, line) := by
      intro eof
      cases eof <;> rfl
    exact allTokens_halt fuel (hn eof)
  | @blank c rest segs e hc _ ih =>
    intro fuel line eof he hf
    rw [List.length_cons] at hf
    obtain ⟨fuel, rfl⟩ : ∃ n, fuel = n + 1 := ⟨fuel - 1, by omega⟩
    rw [eof_false he (by simp)]
    have hn : getNextToken ⟨c :: rest, false⟩ line = getNextToken ⟨rest, false⟩ line :=
      nextToken_blank hc line rest
    rw [allTokens_congr fuel hn]
    exact ih (fuel + 1) line false (by simp) (by omega)
  | @newline rest segs e _ ih =>
    intro fuel line eof he hf
    rw [List.length_cons] at hf
    obtain ⟨fuel, rfl⟩ : ∃ n, fuel = n + 1 := ⟨fuel - 1, by omega⟩
    rw [eof_false he (by simp)]
    have hn : getNextToken ⟨newline :: rest, false⟩ line = getNextToken ⟨rest, false⟩ (line + 1) :=
      nextToken_newline line rest
    rw [allTokens_congr fuel hn]
    exact ih (fuel + 1) (line + 1) false (by simp) (by omega)
  | @lastComment body hb =>
    intro fuel line eof he hf
    obtain ⟨fuel, rfl⟩ : ∃ n, fuel = n + 1 := ⟨fuel - 1, by omega⟩
    rw [eof_false he (by simp)]
    have hn := (nextToken_bang line body).trans (nextToken_lastComment hb line)
    exact allTokens_halt fuel hn
  | @comment body rest segs e hb _ ih =>
    intro fuel line eof he hf
    simp only [List.length_cons, List.length_append] at hf
    obtain ⟨fuel, rfl⟩ : ∃ n, fuel = n + 1 := ⟨fuel - 1, by omega⟩
    rw [eof_false he (by simp)]
    have hn : getNextToken ⟨bang :: (body ++ newline :: rest), false⟩ line =
        getNextToken ⟨newline :: rest, false⟩ line :=
      ((nextToken_bang line _).trans (nextToken_comment hb line rest)).trans
        (nextToken_newline line rest).symm
    rw [allTokens_congr fuel hn]
    exact ih (fuel + 1) line false (by simp) (by simp only [List.length_cons]; omega)
  | @openStr body hb =>
    intro fuel line eof he hf
    obtain ⟨fuel, rfl⟩ : ∃ n, fuel = n + 1 := ⟨fuel - 1, by omega⟩
    rw [eof_false he (by simp)]
    have hn := (nextToken_quote line body).trans (nextToken_openStr hb line [])
    exact allTokens_halt fuel hn
  | @str body rest segs e hb _ ih =>
    intro fuel line eof he hf
    simp only [List.length_cons, List.length_append] at hf
    obtain ⟨fuel, rfl⟩ : ∃ n, fuel = n + 1 := ⟨fuel - 1, by omega⟩
    rw [eof_false he (by simp)]
    have hn := (nextToken_quote line _).trans (nextToken_str hb line [] rest)
    exact allTokens_token (by simp) hn (ih fuel _ false (by simp) (by omega))
  | @lexeme w rest segs e hw hs _ ih =>
    intro fuel line eof he hf
    have hpos := List.length_pos_iff.2 hw.ne_nil
    rw [List.length_append] at hf
    obtain ⟨fuel, rfl⟩ : ∃ n, fuel = n + 1 := ⟨fuel - 1, by omega⟩
    rw [eof_false he (by simp [hw.ne_nil])]
    obtain ⟨tok, eof', ht, he', hn⟩ := nextToken_lexeme hw hs line
    rw [tokensFrom, ht]
    exact allTokens_token (firstToken_id ht).1 hn (ih fuel line eof' he' (by omega))
  | @bad c rest hc hm =>
    intro fuel line eof he hf
    obtain ⟨fuel, rfl⟩ : ∃ n, fuel = n + 1 := ⟨fuel - 1, by omega⟩
    rw [eof_false he (by simp)]
    obtain ⟨err, hn⟩ := nextToken_bad hc hm line rest
    have hn' : getNextToken ⟨c :: rest, false⟩ line = .error err := hn
    exact ⟨err, by rw [allTokens, hn']⟩
  | @throws w c rest err hw hm =>
    intro fuel line eof he hf
    obtain ⟨fuel, rfl⟩ : ∃ n, fuel = n + 1 := ⟨fuel - 1, by omega⟩
    rw [eof_false he (by simp)]
    have hn : getNextToken ⟨w ++ c :: rest, false⟩ line = .error err :=
      nextToken_throws hw hm line rest
    exact ⟨err, by rw [allTokens, hn]⟩

/-! ## every text is cut in one way -/

theorem matchTokens_single (c : UInt8) : ∃ toks, matchTokens [c] = .ok toks := by
  have h : ∃ ints, matchInt [c] = .ok ints := by
    unfold matchInt
    by_cases hd : isDigits [c] = true
    · have e : regexInt [c] = some ([], [c]) := by simp [regexInt, hd]
      rw [e]
      exact ⟨_, rfl⟩
    · have e : regexInt [c] = none := by simp [regexInt, hd]
      rw [e]
      exact ⟨[], by simp⟩
  obtain ⟨ints, h⟩ := h
  exact ⟨_, by rw [matchTokens, if_neg (by simp), h]; rfl⟩

theorem Grows.snoc {w : Str} {c : UInt8} (h : Grows w) (hc : IsToken (w ++ [c])) :
    Grows (w ++ [c]) := by
  refine ⟨by simp, ?_⟩
  intro u hu hn
  rcases List.prefix_concat_iff.1 hu with rfl | hu
  · exact hc
  · exact h.prefixes u hu hn

/-- a token is searched for until it stops or an error occurs -/
theorem Grows.extend {w : Str} (h : Grows w) (rest : Str) : ∃ w' rest', Grows w' ∧
    w ++ rest = w' ++ rest' ∧ rest'.length ≤ rest.length ∧
      (Stops w' rest' ∨ ∃ c rest'' err, rest' = c :: rest'' ∧
        matchTokens (w' ++ [c]) = .error err) := by
  induction rest generalizing w with
  | nil => exact ⟨w, [], h, rfl, le_refl _, Or.inl fun c rest' e => by cases e⟩
  | cons c rest ih =>
    cases hm : matchTokens (w ++ [c]) with
    | error err => exact ⟨w, c :: rest, h, rfl, le_refl _, Or.inr ⟨c, rest, err, rfl, hm⟩⟩
    | ok toks =>
      cases toks with
      | nil =>
        refine ⟨w, c :: rest, h, rfl, le_refl _, Or.inl ?_⟩
        intro c' rest' e
        cases e
        exact hm
      | cons tok toks =>
        obtain ⟨w', rest', h1, h2, h3, h4⟩ := ih (h.snoc ⟨tok, toks, hm⟩)
        refine ⟨w', rest', h1, ?_, Nat.le_succ_of_le h3, h4⟩
        rw [← h2, List.append_assoc, List.singleton_append]

theorem isPlain_false {c : UInt8} (h : isPlain c = false) :
    isBlank c = true ∨ c = newline ∨ c = bang ∨ c = quote := by
  simp only [isPlain, Bool.not_eq_false', Bool.or_eq_true, beq_iff_eq] at h
  simpa only [or_assoc] using h

/-- **Every text is cut.** -/
theorem cut_total (input : Str) : ∃ segs e, Cut input segs e := by
  induction hn : input.length using Nat.strong_induction_on generalizing input with
  | _ n ih =>
    subst hn
    cases input with
    | nil => exact ⟨_, _, .done⟩
    | cons c rest =>
      cases hp : isPlain c with
      | false =>
        rcases isPlain_false hp with hc | rfl | rfl | rfl
        · obtain ⟨segs, e, h⟩ := ih rest.length (by simp) rest rfl
          exact ⟨_, _, .blank hc h⟩
        · obtain ⟨segs, e, h⟩ := ih rest.length (by simp) rest rfl
          exact ⟨_, _, .newline h⟩
        · by_cases hm : newline ∈ rest
          · obtain ⟨body, rest', rfl, hb⟩ := List.eq_append_cons_of_mem hm
            obtain ⟨segs, e, h⟩ := ih (newline :: rest').length
              (by simp only [List.length_cons, List.length_append]; omega) _ rfl
            exact ⟨_, _, .comment hb h⟩
          · exact ⟨_, _, .lastComment hm⟩
        · by_cases hm : quote ∈ rest
          · obtain ⟨body, rest', rfl, hb⟩ := List.eq_append_cons_of_mem hm
            obtain ⟨segs, e, h⟩ := ih rest'.length (by simp; omega) _ rfl
            exact ⟨_, _, .str hb h⟩
          · exact ⟨_, _, .openStr hm⟩
      | true =>
        obtain ⟨toks, hm⟩ := matchTokens_single c
        cases toks with
        | nil => exact ⟨_, _, .bad hp hm⟩
        | cons tok toks =>
          have hg : Grows [c] := by
            refine ⟨by simp, ?_⟩
            intro u hu hne
            rcases List.prefix_concat_iff.1 (show u <+: [] ++ [c] from hu) with rfl | hu
            · exact ⟨tok, toks, hm⟩
            · exact absurd (List.prefix_nil.1 hu) hne
          obtain ⟨w, rest', h1, h2, h3, h4⟩ := hg.extend rest
          rw [← List.singleton_append, h2]
          rcases h4 with h4 | ⟨c', rest'', err, rfl, h4⟩
          · obtain ⟨segs, e, h⟩ := ih rest'.length (by simp; omega) rest' rfl
            exact ⟨_, _, .lexeme h1 h4 h⟩
          · exact ⟨_, _, .throws h1 h4⟩

/-- two texts that both stop at the first occurrence of a character -/
theorem append_unique {c : UInt8} {u v x y : Str} (hu : c ∉ u) (hv : c ∉ v)
    (h : u ++ c :: x = v ++ c :: y) : u = v ∧ x = y := by
  induction u generalizing v with
  | nil =>
    cases v with
    | nil => exact ⟨rfl, (List.cons.inj h).2⟩
    | cons d v => exact absurd (List.mem_cons.2 (Or.inl (List.cons.inj h).1)) hv
  | cons d u ih =>
    cases v with
    | nil => exact absurd (List.mem_cons.2 (Or.inl (List.cons.inj h).1.symm)) hu
    | cons d' v =>
      obtain ⟨e1, e2⟩ := List.cons.inj h
      rw [List.mem_cons, not_or] at hu hv
      obtain ⟨e3, e4⟩ := ih hu.2 hv.2 e2
      exact ⟨by rw [e1, e3], e4⟩

/-- a lexeme that stops is not the beginning of a longer one -/
theorem Stops.not_prefix {w rest v : Str} {c : UInt8} (hs : Stops w rest) (hw : Grows (w ++ c :: v))
    (h : ∃ rest', rest = c :: rest') : False := by
  obtain ⟨rest', rfl⟩ := h
  obtain ⟨tok, toks, e⟩ := hw.prefixes (w ++ [c]) ⟨v, by simp⟩ (by simp)
  rw [hs c rest' rfl] at e
  cases e

theorem lexeme_unique {u v x y : Str} (hu : Grows u) (hv : Grows v) (hx : Stops u x)
    (hy : Stops v y) (h : u ++ x = v ++ y) : u = v ∧ x = y := by
  rcases List.append_eq_append_iff.1 h with ⟨a, rfl, rfl⟩ | ⟨a, rfl, rfl⟩
  · cases a with
    | nil => exact ⟨(List.append_nil u).symm, rfl⟩
    | cons c a => exact (hx.not_prefix hv ⟨_, rfl⟩).elim
  · cases a with
    | nil => exact ⟨List.append_nil v, rfl⟩
    | cons c a => exact (hy.not_prefix hu ⟨_, rfl⟩).elim

/-- a lexeme that stops does not end in an error -/
theorem lexeme_not_throws {u v x y : Str} {c : UInt8} {err : Err} (hu : Grows u) (hv : Grows v)
    (hx : Stops u x) (he : matchTokens (v ++ [c]) = .error err) : u ++ x ≠ v ++ c :: y := by
  intro h
  rcases List.append_eq_append_iff.1 h with ⟨a, rfl, rfl⟩ | ⟨a, rfl, ha⟩
  · cases a with
    | nil =>
      rw [List.append_nil, hx c y rfl] at he
      cases he
    | cons d a => exact hx.not_prefix hv ⟨_, rfl⟩
  · cases a with
    | nil =>
      rw [List.append_nil] at hx
      rw [hx c y ha.symm] at he
      cases he
    | cons d a =>
      obtain ⟨rfl, -⟩ := List.cons.inj ha
      obtain ⟨tok, toks, e⟩ := hu.prefixes (v ++ [c]) ⟨a, by simp⟩ (by simp)
      rw [he] at e
      cases e

theorem Grows.head {w : Str} (h : Grows w) : ∃ c v, w = c :: v ∧ isPlain c = true ∧ IsToken [c] := by
  cases w with
  | nil => exact absurd rfl h.ne_nil
  | cons c v => exact ⟨c, v, rfl, h.plain, h.prefixes [c] ⟨v, rfl⟩ (by simp)⟩

/-! What a cut of a text is by the first character of the text. -/

section
variable {c : UInt8} {rest : Str} {segs : List Seg} {e : Ending}

/-- a cut that starts with a lexeme or gets stuck -/
def PlainCut (input : Str) (segs : List Seg) (e : Ending) : Prop :=
  (∃ w rest segs', Grows w ∧ Stops w rest ∧ input = w ++ rest ∧ segs = .lexeme w :: segs' ∧
    Cut rest segs' e) ∨
  (segs = [] ∧ e = .stuck ∧ ((∃ c rest, input = c :: rest ∧ matchTokens [c] = .ok []) ∨
    ∃ w c rest err, Grows w ∧ matchTokens (w ++ [c]) = .error err ∧ input = w ++ c :: rest))

theorem Cut.of_plain (hc : isPlain c = true) (h : Cut (c :: rest) segs e) :
    PlainCut (c :: rest) segs e := by
  generalize hi : c :: rest = input at h
  cases h with
  | done => cases hi
  | blank hb h =>
    cases hi
    simp [isPlain, hb] at hc
  | newline h =>
    cases hi
    cases hc
  | lastComment hb =>
    cases hi
    cases hc
  | comment hb h =>
    cases hi
    cases hc
  | openStr hb =>
    cases hi
    cases hc
  | str hb h =>
    cases hi
    cases hc
  | lexeme hw hs h => exact Or.inl ⟨_, _, _, hw, hs, rfl, rfl, h⟩
  | bad hc h => exact Or.inr ⟨rfl, rfl, Or.inl ⟨_, _, rfl, h⟩⟩
  | throws hw h => exact Or.inr ⟨rfl, rfl, Or.inr ⟨_, _, _, _, hw, h, rfl⟩⟩

/-- a text that starts with a lexeme does not start with white space, a comment or a string -/
theorem Grows.append_ne {w x : Str} (hw : Grows w) (hc : isPlain c = false) : w ++ x ≠ c :: rest := by
  obtain ⟨d, v, rfl, hd, -⟩ := hw.head
  intro h
  rw [(List.cons.inj h).1, hc] at hd
  cases hd

theorem Cut.of_blank (hc : isBlank c = true) (h : Cut (c :: rest) segs e) :
    ∃ segs', segs = .blank c :: segs' ∧ Cut rest segs' e := by
  have hp : isPlain c = false := by simp [isPlain, hc]
  generalize hi : c :: rest = input at h
  cases h with
  | done => cases hi
  | blank hb h =>
    cases hi
    exact ⟨_, rfl, h⟩
  | newline h =>
    cases hi
    cases hc
  | lastComment hb =>
    cases hi
    cases hc
  | comment hb h =>
    cases hi
    cases hc
  | openStr hb =>
    cases hi
    cases hc
  | str hb h =>
    cases hi
    cases hc
  | lexeme hw hs h => exact absurd hi.symm (hw.append_ne hp)
  | bad hd h =>
    cases hi
    rw [hp] at hd
    cases hd
  | throws hw h => exact absurd hi.symm (hw.append_ne hp)

theorem Cut.of_newline (h : Cut (MuF.newline :: rest) segs e) :
    ∃ segs', segs = .newline :: segs' ∧ Cut rest segs' e := by
  generalize hi : MuF.newline :: rest = input at h
  cases h with
  | done => cases hi
  | blank hb h =>
    cases hi
    cases hb
  | newline h =>
    cases hi
    exact ⟨_, rfl, h⟩
  | lastComment hb => cases hi
  | comment hb h => cases hi
  | openStr hb => cases hi
  | str hb h => cases hi
  | lexeme hw hs h => exact absurd hi.symm (hw.append_ne rfl)
  | bad hd h =>
    cases hi
    cases hd
  | throws hw h => exact absurd hi.symm (hw.append_ne rfl)

theorem Cut.of_bang (h : Cut (bang :: rest) segs e) :
    (MuF.newline ∉ rest ∧ segs = [.comment rest] ∧ e = .complete) ∨
    ∃ body rest' segs', MuF.newline ∉ body ∧ rest = body ++ MuF.newline :: rest' ∧
      segs = .comment body :: segs' ∧ Cut (MuF.newline :: rest') segs' e := by
  generalize hi : bang :: rest = input at h
  cases h with
  | done => cases hi
  | blank hb h =>
    cases hi
    cases hb
  | newline h => cases hi
  | lastComment hb =>
    cases hi
    exact Or.inl ⟨hb, rfl, rfl⟩
  | comment hb h =>
    cases hi
    exact Or.inr ⟨_, _, _, hb, rfl, rfl, h⟩
  | openStr hb => cases hi
  | str hb h => cases hi
  | lexeme hw hs h => exact absurd hi.symm (hw.append_ne rfl)
  | bad hd h =>
    cases hi
    cases hd
  | throws hw h => exact absurd hi.symm (hw.append_ne rfl)

theorem Cut.of_quote (h : Cut (quote :: rest) segs e) :
    (quote ∉ rest ∧ segs = [.openStr rest] ∧ e = .openString) ∨
    ∃ body rest' segs', quote ∉ body ∧ rest = body ++ quote :: rest' ∧
      segs = .str body :: segs' ∧ Cut rest' segs' e := by
  generalize hi : quote :: rest = input at h
  cases h with
  | done => cases hi
  | blank hb h =>
    cases hi
    cases hb
  | newline h => cases hi
  | lastComment hb => cases hi
  | comment hb h => cases hi
  | openStr hb =>
    cases hi
    exact Or.inl ⟨hb, rfl, rfl⟩
  | str hb h =>
    cases hi
    exact Or.inr ⟨_, _, _, hb, rfl, rfl, h⟩
  | lexeme hw hs h => exact absurd hi.symm (hw.append_ne rfl)
  | bad hd h =>
    cases hi
    cases hd
  | throws hw h => exact absurd hi.symm (hw.append_ne rfl)

end

/-- **A text is cut in one way only.** -/
theorem Cut.unique {input : Str} {segs segs' : List Seg} {e e' : Ending} (h : Cut input segs e)
    (h' : Cut input segs' e') : segs' = segs ∧ e' = e := by
  induction h generalizing segs' e' with
  | done =>
    generalize hi : ([] : Str) = input at h'
    cases h' <;> first | exact ⟨rfl, rfl⟩ | cases hi | skip
    · next hw hs h => exact absurd (List.append_eq_nil_iff.1 hi.symm).1 hw.ne_nil
    · next hw h => exact absurd (List.append_eq_nil_iff.1 hi.symm).1 hw.ne_nil
  | blank hc _ ih =>
    obtain ⟨segs'', rfl, h⟩ := h'.of_blank hc
    obtain ⟨rfl, rfl⟩ := ih h
    exact ⟨rfl, rfl⟩
  | newline _ ih =>
    obtain ⟨segs'', rfl, h⟩ := h'.of_newline
    obtain ⟨rfl, rfl⟩ := ih h
    exact ⟨rfl, rfl⟩
  | lastComment hb =>
    rcases h'.of_bang with ⟨-, rfl, rfl⟩ | ⟨body', rest', segs'', -, e, -, -⟩
    · exact ⟨rfl, rfl⟩
    · exact absurd (by rw [e]; simp) hb
  | comment hb _ ih =>
    rcases h'.of_bang with ⟨hb', -, -⟩ | ⟨body', rest', segs'', hb', e, rfl, h⟩
    · exact absurd (by simp) hb'
    · obtain ⟨rfl, rfl⟩ := append_unique hb hb' e
      obtain ⟨rfl, rfl⟩ := ih h
      exact ⟨rfl, rfl⟩
  | openStr hb =>
    rcases h'.of_quote with ⟨-, rfl, rfl⟩ | ⟨body', rest', segs'', -, e, -, -⟩
    · exact ⟨rfl, rfl⟩
    · exact absurd (by rw [e]; simp) hb
  | str hb _ ih =>
    rcases h'.of_quote with ⟨hb', -, -⟩ | ⟨body', rest', segs'', hb', e, rfl, h⟩
    · exact absurd (by simp) hb'
    · obtain ⟨rfl, rfl⟩ := append_unique hb hb' e
      obtain ⟨rfl, rfl⟩ := ih h
      exact ⟨rfl, rfl⟩
  | @lexeme w rest segs e hw hs _ ih =>
    obtain ⟨c, v, rfl, hc, hcm⟩ := hw.head
    rcases h'.of_plain hc with ⟨w', rest', segs'', hw', hs', e, rfl, h⟩ | ⟨-, -, h⟩
    · obtain ⟨rfl, rfl⟩ := lexeme_unique hw hw' hs hs' e
      obtain ⟨rfl, rfl⟩ := ih h
      exact ⟨rfl, rfl⟩
    · rcases h with ⟨d, rest', e, hm⟩ | ⟨w', d, rest', err, hw', hm, e⟩
      · obtain ⟨tok, toks, ht⟩ := hcm
        rw [(List.cons.inj e).1, hm] at ht
        cases ht
      · exact absurd e (lexeme_not_throws hw hw' hs hm)
  | @bad c rest hc hm =>
    rcases h'.of_plain hc with ⟨w', rest', segs'', hw', hs', e, -, -⟩ | ⟨rfl, rfl, -⟩
    · obtain ⟨d, v, rfl, -, tok, toks, ht⟩ := hw'.head
      rw [← (List.cons.inj e).1, hm] at ht
      cases ht
    · exact ⟨rfl, rfl⟩
  | @throws w c rest err hw hm =>
    obtain ⟨d, v, rfl, hd, -⟩ := hw.head
    rcases h'.of_plain hd with ⟨w', rest', segs'', hw', hs', e, -, -⟩ | ⟨rfl, rfl, -⟩
    · exact absurd e.symm (lexeme_not_throws hw' hw hs' hm)
    · exact ⟨rfl, rfl⟩

end

end MuF
