import MuF.VM.Ops

/-!
# Tokens

* `Token`, `Lval`, `LexerMatch`: tokens with their values and lines;
* `regexInt`, `regexReal`, `regexIdent`, `regexLabel`, `regexPartial`: the regular expressions;
* `keywords`, `operators`: the fixed texts;
* `matchTokens`, `getMatchingTokens`: all tokens that a text is, the one that counts first.
-/

set_option linter.unusedVariables false
set_option linter.unusedSectionVars false

namespace MuF

/-- terminal symbols; `char` stands for a character that represents itself -/
inductive Token
  | real | int | bool | str | ident | dim
  | typesep | realdecl | cplxdecl | intdecl | booldecl | stringdecl | quatdecl
  | equ | neq | geq | leq | and | or | xor | not | pow | assign | range
  | ifTok | thenTok | elseTok | select | case | default
  | while | doTok | break | next | endTok
  | func | proc | ret | results | recursive | intent | inTok | out | program
  | label | goto | comefrom | read | print
  | partialTok | halt
  | char (c : UInt8)
  deriving DecidableEq, Repr

/-- values of tokens -/
inductive Lval
  | real (val : TReal)
  | int (val : Int64)
  | bool (val : Bool)
  | str (val : Str)
  deriving DecidableEq, Repr

/-- a token, its value and its line -/
structure LexerMatch where
  id : Token
  lval : Option Lval
  line : Nat
  deriving DecidableEq, Repr

/-! ## regular expressions -/

/-- `[0-9]` -/
def isDigit (c : UInt8) : Bool := 48 ≤ c && c ≤ 57

/-- `[_A-Za-z]` -/
def isWordStart (c : UInt8) : Bool := c == 95 || (65 ≤ c && c ≤ 90) || (97 ≤ c && c ≤ 122)

/-- `[_A-Za-z0-9]` -/
def isWordPart (c : UInt8) : Bool := isWordStart c || isDigit c

/-- `[0-9]+` -/
def isDigits (s : Str) : Bool := !s.isEmpty && s.all isDigit

/-- the prefixes `0x` and `0b` -/
def isBase (c : UInt8) : Bool := c == 120 || c == 98

/-- `(0[xb])?([0-9]+)`: the two groups -/
def regexInt : Str → Option (Str × Str)
  | 48 :: c :: s =>
    if isBase c && isDigits s then some ([48, c], s)
    else if isDigits (48 :: c :: s) then some ([], 48 :: c :: s)
    else none
  | s => if isDigits s then some ([], s) else none

/-- `([Ee][+-]?[0-9]*)?` -/
def regexExponent : Str → Bool
  | [] => true
  | [c] => c == 69 || c == 101
  | c :: sign :: s =>
    (c == 69 || c == 101) && (sign == 43 || sign == 45 || isDigit sign) && s.all isDigit

/-- `(\.[0-9]*)?([Ee][+-]?[0-9]*)?` -/
def regexFraction : Str → Bool
  | 46 :: s => regexExponent (s.dropWhile isDigit)
  | s => regexExponent s

/-- `[0-9]+(\.[0-9]*)?([Ee][+-]?[0-9]*)?` -/
def regexReal : Str → Bool
  | c :: s => isDigit c && regexFraction (s.dropWhile isDigit)
  | [] => false

/-- `[_A-Za-z]+[_A-Za-z0-9]*` -/
def regexIdent : Str → Bool
  | c :: s => isWordStart c && s.all isWordPart
  | [] => false

/-- `\.[_A-Za-z]+[_A-Za-z0-9]*` -/
def regexLabel : Str → Bool
  | 46 :: s => regexIdent s
  | _ => false

/-- `\.[_A-Za-z]*` -/
def regexPartial : Str → Bool
  | 46 :: s => s.all isWordStart
  | _ => false

/-! ## values -/

/-- the value of hexadecimal digits -/
def hexVal (s : Str) : Nat := s.foldl (fun val c => 16 * val + (c.toNat - 48)) 0

/-- the value of decimal digits -/
def decVal (s : Str) : Nat := s.foldl (fun val c => 10 * val + (c.toNat - 48)) 0

/-- extraction of an integer from digits; one that is too large gives the largest one -/
def clampInt (val : Nat) : Int64 := if val < 2^63 then Int64.ofNat val else Int64.maxValue

/-- `std::bitset` of a text and its conversion to an integer; of a long text only the first 64
characters count -/
def bitsetVal (s : Str) : Except Err Int64 :=
  if s.all fun c => c == 48 || c == 49 then
    .ok (Int64.ofNat ((s.take 64).foldl (fun val c => 2 * val + (c.toNat - 48)) 0))
  else
    .error (.throw "bitset::_M_copy_from_ptr")

/-- value of an integer by the groups of `regexInt` -/
def intVal (prefix_ digits : Str) : Except Err Int64 :=
  if prefix_ = [48, 120] then .ok (clampInt (hexVal digits))
  else if prefix_ = [48, 98] then bitsetVal digits
  else .ok (clampInt (decVal digits))

/-! ## fixed texts -/

/-- a text that is its token's value -/
def word (text : String) (id : Token) : Str × Token × Option Lval :=
  (ascii text, id, some (.str (ascii text)))

/-- keywords, which are no identifiers -/
def keywords : List (Str × Token × Option Lval) :=
  [word "if" .ifTok, word "then" .thenTok, word "else" .elseTok, word "while" .while,
    word "break" .break, word "exit" .break, word "next" .next, word "cycle" .next,
    word "do" .doTok, word "select" .select, word "case" .case, word "default" .default,
    word "end" .endTok, word "recursive" .recursive, word "function" .func,
    word "procedure" .proc, word "subroutine" .proc, word "intent" .intent, word "in" .inTok,
    word "out" .out, word "return" .ret, word "result" .results, word "results" .results,
    word "assign" .assign, word "integer" .intdecl, word "real" .realdecl,
    word "logical" .booldecl, word "complex" .cplxdecl, word "quaternion" .quatdecl,
    word "string" .stringdecl, word "dimension" .dim, word "program" .program,
    word "goto" .goto, word "comefrom" .comefrom,
    (ascii ".true.", .bool, some (.bool true)), (ascii ".false.", .bool, some (.bool false)),
    word "read" .read, word "print" .print]

/-- a character that represents itself -/
def charToken (c : UInt8) : Str × Token × Option Lval := ([c], .char c, none)

/-- operators -/
def operators : List (Str × Token × Option Lval) :=
  [word "==" .equ, word ".eq." .equ, word "/=" .neq, word ".ne." .neq, word "||" .or,
    word ".or." .or, word "&&" .and, word ".and." .and, word "<=" .leq, word ".le." .leq,
    word ">=" .geq, word ".ge." .geq, (ascii ".lt.", .char 60, none),
    (ascii ".gt.", .char 62, none), word ".not." .not, word "xor" .xor, word "::" .typesep,
    word "**" .pow, word "~" .range] ++
  (ascii "+-*/%:,=()[]><|&").map charToken

/-! ## all tokens of a text -/

section
variable [MathLib TReal]

/-- integers; `0x` and `0b` count as such for the search of the longest one -/
def matchInt (s : Str) : Except Err (List (Token × Option Lval)) :=
  match regexInt s with
  | some (prefix_, digits) => do
    let val ← intVal prefix_ digits
    return [(.int, some (.int val))]
  | none =>
    if s = [48, 120] ∨ s = [48, 98] then .ok [(.int, some (.int 0))]
    else .ok []

/-- reals -/
def matchReal (s : Str) : List (Token × Option Lval) :=
  if regexReal s then [(.real, some (.real (MathLib.scan s).2.1))] else []

/-- keywords, and other texts only if they are none -/
def matchWord (s : Str) : List (Token × Option Lval) :=
  match keywords.lookup s with
  | some tok => [tok]
  | none =>
    if regexIdent s then [(.ident, some (.str s))]
    else if regexLabel s then [(.label, some (.str s))]
    else if regexPartial s then [(.partialTok, some (.str s))]
    else []

/-- operators -/
def matchOp (s : Str) : List (Token × Option Lval) := (operators.lookup s).toList

/-- all tokens that a text is -/
def matchTokens (s : Str) : Except Err (List (Token × Option Lval)) :=
  if s = [] then .ok []
  else do
    let ints ← matchInt s
    return ints ++ matchReal s ++ matchWord s ++ matchOp s

/-- `GetMatchingTokens` -/
def getMatchingTokens (s : Str) (line : Nat) : Except Err (List LexerMatch) :=
  (matchTokens s).map fun toks => toks.map fun tok => ⟨tok.1, tok.2, line⟩

end

end MuF
