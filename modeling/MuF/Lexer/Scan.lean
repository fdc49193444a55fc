import MuF.Lexer.Tokens

/-!
# The lexer

* `LexStream`: the input that is left and its end-of-file flag;
* `nextToken`: the search for the longest token, character by character;
* `getNextToken`, `getAllTokens`: one token and all tokens.
-/

set_option linter.unusedVariables false

namespace MuF

/-- an input stream -/
structure LexStream where
  rest : Str
  eof : Bool
  deriving DecidableEq, Repr

/-- replace a text of two characters -/
def replaceAll (c1 c2 by_ : UInt8) : Str → Str
  | x :: y :: s =>
    if x = c1 ∧ y = c2 then by_ :: replaceAll c1 c2 by_ s
    else x :: replaceAll c1 c2 by_ (y :: s)
  | s => s

/-- `replace_escapes` -/
def replaceEscapes (s : Str) : Str :=
  replaceAll 92 114 13 (replaceAll 92 116 9 (replaceAll 92 110 10 s))

/-- white space, a quotation mark, an exclamation mark and a newline -/
def isBlank (c : UInt8) : Bool := c == 32 || c == 9

def quote : UInt8 := 34
def bang : UInt8 := 33
def newline : UInt8 := 10

section
variable [MathLib TReal]

/-- what `GetNextToken` returns behind its loop -/
def endToken (longest : List LexerMatch) (input : Str) (line : Nat) (stream : LexStream)
    (eof : Bool) : Except Err (LexerMatch × LexStream × Nat) :=
  match longest with
  | tok :: _ => .ok (tok, stream, line)
  | [] =>
    if eof then .ok (⟨.halt, none, line⟩, stream, line)
    else .error (.throw (s!"Line {line}: Invalid input in lexer: \"" ++ input.text ++
      "\" (length: " ++ toString input.length ++ ")."))

/-- the loop of `GetNextToken` on the input that is left -/
def nextToken (line : Nat) (longest : List LexerMatch) (input : Str)
    (inLineComment inString : Bool) : Str → Except Err (LexerMatch × LexStream × Nat)
  | [] => endToken longest input line ⟨[], true⟩ true
  | c :: rest =>
    let extend : Except Err (LexerMatch × LexStream × Nat) :=
      if inString then
        nextToken line longest (input ++ [c]) inLineComment inString rest
      else
        match getMatchingTokens (input ++ [c]) line with
        | .error e => .error e
        | .ok [] => endToken longest (input ++ [c]) line ⟨c :: rest, false⟩ false
        | .ok (tok :: toks) =>
          if rest = [] then
            endToken (tok :: toks) (input ++ [c]) line ⟨[], true⟩ true
          else
            nextToken line (tok :: toks) (input ++ [c]) inLineComment inString rest
    if inLineComment ∧ c ≠ newline then
      nextToken line longest input inLineComment inString rest
    else if longest ≠ [] then
      extend
    else if c = quote ∧ !inLineComment then
      if !inString then
        nextToken line longest input inLineComment true rest
      else
        .ok (⟨.str, some (.str (replaceEscapes input)), line⟩, ⟨rest, false⟩, line)
    else if c = bang ∧ !inString then
      nextToken line longest input true inString rest
    else if isBlank c ∧ !inString then
      nextToken line longest input inLineComment inString rest
    else if c = newline then
      nextToken (line + 1) longest input false inString rest
    else
      extend

/-- `GetNextToken` -/
def getNextToken (stream : LexStream) (line : Nat) : Except Err (LexerMatch × LexStream × Nat) :=
  if stream.eof then endToken [] [] line stream true
  else nextToken line [] [] false false stream.rest

/-- the loop of `GetAllTokens`; `none` if it does not end within `fuel` turns -/
def allTokens : Nat → LexStream → Nat → Option (Except Err (List LexerMatch))
  | 0, _, _ => none
  | fuel+1, stream, line =>
    match getNextToken stream line with
    | .error e => some (.error e)
    | .ok (tok, stream, line) =>
      if tok.id = .halt then some (.ok [tok])
      else (allTokens fuel stream line).map fun toks => toks.map (tok :: ·)

/-- `GetAllTokens` within a number of turns -/
def getAllTokens (fuel : Nat) (input : Str) : Option (Except Err (List LexerMatch)) :=
  allTokens fuel ⟨input, false⟩ 1

end

end MuF
