import MuF.Lexer.Cut

/-!
# What the lexer loses

* `Tokenized input`: the lexer ends with an error, or with the tokens of the pieces that make up
  the whole text, none of them an unfinished one;
* **`tokenized_iff`**: this fails for texts that end within a string, of which nothing is
  reported, and for texts with a dot alone.
-/

set_option linter.unusedVariables false

namespace MuF

section
variable [MathLib TReal]

/-- the lexer ends, with an error or with tokens, `HALT` the last one, such that every character
belongs to one of them, to white space or to a comment -/
def Tokenized (input : Str) : Prop :=
  ∃ fuel, (∃ err, getAllTokens fuel input = some (.error err)) ∨
    ∃ toks segs, getAllTokens fuel input = some (.ok toks) ∧ Cut input segs .complete ∧
      segs.flatMap Seg.text = input ∧ toks = tokensFrom 1 segs ∧
      (∃ line, toks.getLast? = some ⟨.halt, none, line⟩) ∧ ∀ tok ∈ toks, tok.id ≠ .partialTok

/-- the text has a character that is no token, or it does not end within a string and none of its
lexemes is a dot -/
def Lexable (input : Str) : Prop :=
  ∀ segs e, Cut input segs e → e = .stuck ∨ e = .complete ∧ .lexeme [46] ∉ segs

theorem tokensFrom_last (segs : List Seg) (line : Nat) :
    ∃ line', (tokensFrom line segs).getLast? = some ⟨.halt, none, line'⟩ := by
  induction segs generalizing line with
  | nil => exact ⟨line, rfl⟩
  | cons seg segs ih =>
    have happ (l : List LexerMatch) (n : Nat) : ∃ line',
        (l ++ tokensFrom n segs).getLast? = some ⟨.halt, none, line'⟩ := by
      obtain ⟨line', h⟩ := ih n
      exact ⟨line', by rw [List.getLast?_append, h]; rfl⟩
    cases seg with
    | blank c => exact ih line
    | newline => exact ih (line + 1)
    | comment body => exact ih line
    | openStr body => exact ih _
    | str body => exact happ [_] _
    | lexeme w => exact happ _ _

theorem firstToken_dot (line : Nat) :
    firstToken [46] line = [⟨.partialTok, some (.str [46]), line⟩] := rfl

/-- the unfinished tokens are those of a dot alone -/
theorem tokensFrom_prefixes (segs : List Seg) (line : Nat) :
    (∀ tok ∈ tokensFrom line segs, tok.id ≠ .partialTok) ↔ .lexeme [46] ∉ segs := by
  induction segs generalizing line with
  | nil => simp [tokensFrom]
  | cons seg segs ih =>
    cases seg with
    | blank c => simpa [tokensFrom] using ih line
    | newline => simpa [tokensFrom] using ih (line + 1)
    | comment body => simpa [tokensFrom] using ih line
    | openStr body => simpa [tokensFrom] using ih (line + body.count newline)
    | str body => simpa [tokensFrom] using ih (line + body.count newline)
    | lexeme w =>
      rw [tokensFrom, List.forall_mem_append, ih line, List.mem_cons, not_or]
      refine and_congr_left' ⟨fun h hw => ?_, fun h tok ht hp => ?_⟩
      · cases hw
        exact h _ (by rw [firstToken_dot]; exact List.mem_singleton_self _) rfl
      · have hs : firstToken w line = [tok] := by
          unfold firstToken at ht ⊢
          split at ht
          · rw [List.mem_singleton.1 ht]
          · cases ht
        exact h (by rw [(firstToken_id hs).2 hp])

/-- the lexer always ends -/
theorem getAllTokens_ends {input : Str} {segs : List Seg} {e : Ending} (h : Cut input segs e) :
    e.Gives (tokensFrom 1 segs) (getAllTokens (input.length + 1) input) :=
  allTokens_cut h _ 1 false (by simp) (Nat.lt_succ_self _)

/-- more turns do not change the result -/
theorem allTokens_mono {fuel fuel' : Nat} {stream : LexStream} {line : Nat}
    {r : Except Err (List LexerMatch)} (h : allTokens fuel stream line = some r)
    (hf : fuel ≤ fuel') : allTokens fuel' stream line = some r := by
  induction fuel generalizing fuel' stream line r with
  | zero => cases h
  | succ fuel ih =>
    obtain ⟨fuel', rfl⟩ : ∃ n, fuel' = n + 1 := ⟨fuel' - 1, by omega⟩
    rw [allTokens] at h ⊢
    split at h
    · exact h
    · split at h
      · next ht => rw [if_pos ht]; exact h
      · next ht =>
        rw [if_neg ht]
        obtain ⟨toks, e, rfl⟩ := Option.map_eq_some_iff.1 h
        rw [ih e (Nat.le_of_succ_le_succ hf)]
        rfl

/-- the result of the lexer does not depend on the number of turns that it is given -/
theorem getAllTokens_unique {fuel fuel' : Nat} {input : Str} {r r' : Except Err (List LexerMatch)}
    (h : getAllTokens fuel input = some r) (h' : getAllTokens fuel' input = some r') : r = r' := by
  have e := allTokens_mono h (Nat.le_max_left fuel fuel')
  have e' := allTokens_mono h' (Nat.le_max_right fuel fuel')
  exact Option.some.inj (e.symm.trans e')

/-- a text that ends within a string is not reported, and its end is in no token -/
theorem not_tokenized_of_open {input : Str} {segs : List Seg} (h : Cut input segs .openString) :
    ¬ Tokenized input := by
  rintro ⟨fuel, ⟨err, herr⟩ | ⟨toks, segs', -, hcut, -⟩⟩
  · cases getAllTokens_unique herr (getAllTokens_ends h)
  · cases (h.unique hcut).2

/-- a dot alone is returned as an unfinished token -/
theorem not_tokenized_of_dot {input : Str} {segs : List Seg} (h : Cut input segs .complete)
    (hd : .lexeme [46] ∈ segs) : ¬ Tokenized input := by
  rintro ⟨fuel, ⟨err, herr⟩ | ⟨toks, segs', -, hcut, -, rfl, -, hpart⟩⟩
  · cases getAllTokens_unique herr (getAllTokens_ends h)
  · obtain ⟨rfl, -⟩ := h.unique hcut
    exact (tokensFrom_prefixes _ _).1 hpart hd

/-- **What the lexer loses**: the rest of a text that ends within a string; and it returns an
unfinished token for a dot alone.  All other texts are turned into tokens, or an error is
reported. -/
theorem tokenized_iff (input : Str) : Tokenized input ↔ Lexable input := by
  obtain ⟨segs, e, hcut⟩ := cut_total input
  constructor
  · intro h segs1 e1 hcut1
    cases e1 with
    | stuck => exact Or.inl rfl
    | complete => exact Or.inr ⟨rfl, fun hd => not_tokenized_of_dot hcut1 hd h⟩
    | openString => exact absurd h (not_tokenized_of_open hcut1)
  · intro h
    have hends := getAllTokens_ends hcut
    refine ⟨input.length + 1, ?_⟩
    rcases h segs e hcut with rfl | ⟨rfl, hdot⟩
    · exact Or.inl hends
    · exact Or.inr ⟨_, segs, hends, hcut, hcut.text (by simp), rfl, tokensFrom_last _ _,
        (tokensFrom_prefixes _ _).2 hdot⟩

end

/-- a string without an end, and a dot alone -/
theorem open_string_and_dot_not_tokenized :
    ¬ @Tokenized (MathLib.absent ⟨0⟩) (ascii "\"b") ∧
      ¬ @Tokenized (MathLib.absent ⟨0⟩) (ascii ".") := by
  let _ : MathLib TReal := MathLib.absent ⟨0⟩
  constructor
  · exact not_tokenized_of_open (.openStr (show quote ∉ ascii "b" by decide))
  · have hg : Grows [46] := by
      refine ⟨by simp, ?_⟩
      intro u hu hn
      rcases List.prefix_concat_iff.1 (show u <+: [] ++ [46] from hu) with rfl | hu
      · exact ⟨_, _, rfl⟩
      · exact absurd (List.prefix_nil.1 hu) hn
    have hs : Stops [46] [] := by
      intro c rest h
      cases h
    exact not_tokenized_of_dot (.lexeme hg hs .done) (List.mem_singleton_self _)

end MuF
