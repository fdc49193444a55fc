import MuF.Dump.Printer

/-!
# Well-formedness of the output

* `Ends ok t`: a text is well-formed if `ok` holds, and otherwise the scanner fails at the tag that
  comes behind it;
* `Puts ok x`: `x` writes such a text;
* `dumpable`: functions have arguments and results with one dimension, and constants are strings
  without anything to escape;
* `print_puts`: a node writes a well-formed text if all nodes below it are so;
* **`wellDumped_iff`**: the file is well-formed for these only.
-/

set_option linter.unusedVariables false

namespace MuF

open Exec Xml

/-! ## texts -/

theorem ascii_lt : ascii "<" = [60] := rfl
theorem ascii_close : ascii "</" = [60, 47] := rfl
theorem ascii_gt : ascii ">" = [62] := rfl
theorem ascii_end : ascii " />" = [32, 47, 62] := rfl
theorem ascii_blank : ascii " " = [32] := rfl
theorem ascii_equals : ascii "=" = [61] := rfl

/-- a text ends in well-formed content, or fails with the next tag -/
def Ends (ok : Bool) (t : Str) : Prop :=
  if ok then Content t else scan .content (t ++ [60]) = .fail

/-- newlines, and nothing or a tag behind them -/
inductive Tagged : Str → Prop
  | nil : Tagged []
  | newline {t : Str} (h : Tagged t) : Tagged (10 :: t)
  | tag (r : Str) : Tagged (60 :: r)

theorem Tagged.append {t u : Str} (ht : Tagged t) (hu : Tagged u) : Tagged (t ++ u) := by
  induction ht with
  | nil => exact hu
  | newline h ih => exact .newline ih
  | tag r => exact .tag (r ++ u)

/-- the next tag fails also behind newlines -/
theorem Tagged.fails {u : Str} (h : Tagged u) :
    ∀ {q : State}, next q 60 = .fail → scan q (u ++ [60]) = .fail := by
  induction h with
  | nil => exact fun hq => hq
  | newline h ih =>
    intro q hq
    apply ih
    cases q with
    | content => cases hq
    | _ => rfl
  | tag r =>
    intro q hq
    rw [List.cons_append, scan_cons, hq, scan_fail]

theorem Ends.append {ok ok' : Bool} {t u : Str} (ht : Ends ok t) (hu : Ends ok' u)
    (hg : Tagged u) : Ends (ok && ok') (t ++ u) := by
  cases ok with
  | false =>
    have h : scan .content (t ++ [60]) = .fail := ht
    rw [scan_append] at h
    show scan .content (t ++ u ++ [60]) = .fail
    rw [List.append_assoc, scan_append]
    exact hg.fails h
  | true =>
    have hc : Content t := ht
    cases ok' with
    | false =>
      show scan .content (t ++ u ++ [60]) = .fail
      rw [List.append_assoc, scan_append, scan_content hc]
      exact hu
    | true => exact hc.append hu

/-- the text of a node between its tags -/
def elemText (tag attrs t : Str) : Str :=
  60 :: (tag ++ (attrs ++ 62 :: 10 :: (t ++ 60 :: 47 :: (tag ++ [62, 10]))))

/-- the text of a node without content -/
def singleText (tag attrs : Str) : Str := 60 :: (tag ++ (attrs ++ [32, 47, 62, 10]))

theorem textChar_newline : textChar 10 = true := by decide

theorem elemText_ends {ok : Bool} {tag attrs t : Str} (ht : isName tag = true) (ha : Attrs attrs)
    (h : Ends ok t) : Ends ok (elemText tag attrs t) := by
  cases ok with
  | true =>
    have hb : Content (10 :: t) := .char textChar_newline h
    have hr : Content [10] := .char textChar_newline .nil
    exact @Content.elem tag attrs [] _ [] _ ht ha rfl hb rfl hr
  | false =>
    have hs : scan .content (t ++ [60]) = .fail := h
    have e : elemText tag attrs t ++ [60] = 60 :: (tag ++ (attrs ++ ([] ++ 62 ::
        (10 :: ((t ++ [60]) ++ 47 :: (tag ++ [62, 10, 60])))))) := by
      simp [elemText]
    show scan .content (elemText tag attrs t ++ [60]) = .fail
    rw [e, scan_open ht ha rfl]
    show scan .content ((t ++ [60]) ++ _) = .fail
    rw [scan_append, hs, scan_fail]

theorem singleText_ends {tag attrs : Str} (ht : isName tag = true) (ha : Attrs attrs) :
    Ends true (singleText tag attrs) :=
  @Content.empty tag attrs [32] _ ht ha rfl (.char textChar_newline .nil)

/-! ## output -/

/-- what is written has a property -/
def Puts (P : Str → Prop) (x : PrintM Unit) : Prop :=
  ∀ s, ∃ t b, x.run s = .ok () ⟨s.out ++ t, b⟩ ∧ P t

theorem puts_write {P : Str → Prop} {t : Str} (h : P t) : Puts P (ostrWrite t) :=
  fun s => ⟨t, s.boolalpha, rfl, h⟩

theorem puts_pure {P : Str → Prop} (h : P []) : Puts P (pure ()) := by
  intro s
  refine ⟨[], s.boolalpha, ?_, h⟩
  rw [run_pure, List.append_nil]

theorem Puts.bind {P Q R : Str → Prop} {x : PrintM Unit} {f : Unit → PrintM Unit} (hx : Puts P x)
    (hf : Puts Q (f ())) (h : ∀ t u, P t → Q u → R (t ++ u)) : Puts R (x >>= f) := by
  intro s
  obtain ⟨t, b, h1, ht⟩ := hx s
  obtain ⟨u, b', h2, hu⟩ := hf ⟨s.out ++ t, b⟩
  refine ⟨t ++ u, b', ?_, h t u ht hu⟩
  rw [bind_ok h1, h2, List.append_assoc]

theorem Puts.mono {P Q : Str → Prop} {x : PrintM Unit} (hx : Puts P x) (h : ∀ t, P t → Q t) :
    Puts Q x := by
  intro s
  obtain ⟨t, b, h1, ht⟩ := hx s
  exact ⟨t, b, h1, h t ht⟩

/-- nodes or parts of nodes -/
def Whole (ok : Bool) (t : Str) : Prop := Ends ok t ∧ Tagged t

theorem Whole.nil : Whole true [] := ⟨Content.nil, .nil⟩

theorem Whole.append {ok ok' : Bool} {t u : Str} (ht : Whole ok t) (hu : Whole ok' u) :
    Whole (ok && ok') (t ++ u) := ⟨ht.1.append hu.1 hu.2, ht.2.append hu.2⟩

/-- one node behind the other -/
theorem puts_seq {ok ok' : Bool} {x y : PrintM Unit} (hx : Puts (Whole ok) x)
    (hy : Puts (Whole ok') y) : Puts (Whole (ok && ok')) (do
      x
      y) :=
  hx.bind hy fun t u => Whole.append

theorem puts_single (tag : Str) {attrs : Str} (ht : isName tag = true) (ha : Attrs attrs) :
    Puts (Whole true) (single tag attrs) := by
  apply puts_write
  have e : ascii "<" ++ tag ++ attrs ++ ascii " />" ++ [10] = singleText tag attrs := by
    simp [singleText, ascii_lt, ascii_end]
  rw [e]
  exact ⟨singleText_ends ht ha, Tagged.tag _⟩

theorem puts_elem {ok : Bool} (tag : Str) {attrs : Str} {body : PrintM Unit} (ht : isName tag = true)
    (ha : Attrs attrs) (hb : Puts (Whole ok) body) : Puts (Whole ok) (elem tag attrs body) := by
  intro s
  obtain ⟨t, b, h, he, -⟩ :=
    hb ⟨s.out ++ (ascii "<" ++ tag ++ attrs ++ ascii ">" ++ [10]), s.boolalpha⟩
  refine ⟨elemText tag attrs t, b, ?_, elemText_ends ht ha he, Tagged.tag _⟩
  have h0 : (ostrWrite (ascii "<" ++ tag ++ attrs ++ ascii ">" ++ [10])).run s =
      .ok () ⟨s.out ++ (ascii "<" ++ tag ++ attrs ++ ascii ">" ++ [10]), s.boolalpha⟩ := rfl
  rw [elem, bind_ok h0, bind_ok h]
  show EStateM.Result.ok () (Ostr.mk (_ ++ _) b) = _
  simp [elemText, ascii_lt, ascii_close, ascii_gt]

/-! ## attributes -/

theorem digit_name {c : UInt8} (h : Xml.isDigit c = true) : nameChar c = true := by
  rw [nameChar, h, Bool.or_true]

theorem digit_plain {c : UInt8} (h : Xml.isDigit c = true) : plainChar c = true := by
  have hne : c ≠ 60 ∧ c ≠ 34 ∧ c ≠ 38 := by
    refine ⟨?_, ?_, ?_⟩
    all_goals
      rintro rfl
      exact absurd h (by decide)
  simp [plainChar, hne]

theorem isDigit_byte {c : Char} (h : c.isDigit = true) :
    Xml.isDigit c.toNat.toUInt8 = true := by
  have h1 : 48 ≤ c.toNat ∧ c.toNat ≤ 57 := by
    simp [Char.isDigit, UInt32.le_iff_toNat_le] at h
    exact h
  have e : c.toNat.toUInt8.toNat = c.toNat := by
    rw [Nat.toUInt8_eq, UInt8.toNat_ofNat']
    omega
  simp only [Xml.isDigit, UInt8.le_iff_toNat_le, e, Bool.and_eq_true, decide_eq_true_eq]
  exact h1

theorem nat_digits (n : Nat) : ∀ c ∈ (toString n).toList, c.isDigit = true := by
  intro c hc
  rw [Nat.toString_eq_repr, Nat.toList_repr] at hc
  exact Nat.isDigit_of_mem_toDigits (by decide) (by decide) hc

theorem nat_name (n : Nat) : (ascii (toString n)).all nameChar = true := by
  rw [ascii, List.all_map, List.all_eq_true]
  exact fun c hc => digit_name (isDigit_byte (nat_digits n c hc))

theorem nat_plain (n : Nat) : (ascii (toString n)).all plainChar = true := by
  rw [ascii, List.all_map, List.all_eq_true]
  exact fun c hc => digit_plain (isDigit_byte (nat_digits n c hc))

theorem ascii_append (s t : String) : ascii (s ++ t) = ascii s ++ ascii t := by
  simp [ascii]

theorem int_plain (x : Int64) : (printInt x).all plainChar = true := by
  unfold printInt
  cases x.toInt with
  | ofNat n => exact nat_plain n
  | negSucc n =>
    have e : toString (Int.negSucc n) = "-" ++ toString (n + 1) := rfl
    rw [e, ascii_append, List.all_append, nat_plain]
    rfl

theorem numTag_name (name : String) (h : isName (ascii name) = true) (i : Nat) :
    isName (numTag name i) = true := isName_append h (nat_name i)

/-- the text of an attribute -/
def attrText (name val : Str) : Str := [32] ++ (name ++ 61 :: 34 :: (val ++ [34]))

theorem attr_eq (name : String) (val : Str) : attr name val = attrText (ascii name) val := by
  simp [attr, attrText, ascii_blank, ascii_equals]

theorem attrText_attrs {name val : Str} (hn : isName name = true) (hv : escaped val = true) :
    Attrs (attrText name val) := .cons (by decide) rfl hn hv .nil

theorem scan_attrText {q : State} (hq : behind q) {name val : Str} (hn : isName name = true)
    (hv : escaped val = true) : scan q (attrText name val) = .after := by
  rw [attrText, scan_append, scan_blanks_ne hq (by decide) rfl, scan_append, scan_name hn]
  exact scan_value hv

theorem attr_attrs (name : String) {val : Str} (hn : isName (ascii name) = true)
    (hv : escaped val = true) : Attrs (attr name val) := by
  rw [attr_eq]
  exact attrText_attrs hn hv

theorem attr_plain (name : String) {val : Str} (hn : isName (ascii name) = true)
    (hv : val.all plainChar = true) : Attrs (attr name val) :=
  attr_attrs name hn (escaped_of_plain hv)

/-! ## arguments and results -/

theorem typeName_plain (ty : SymbolType) : (ascii ty.typeName).all plainChar = true := by
  cases ty <;> decide

/-- the text of the dimensions -/
def dimsText : Nat → List Nat → Str
  | _, [] => []
  | i, dim :: dims =>
    34 :: (attrText (numTag "dim" i) (ascii (toString dim)) ++ dimsText (i + 1) dims)

theorem printDims_puts : ∀ (i : Nat) (dims : List Nat),
    Puts (fun t => t = dimsText i dims) (printDims i dims)
  | i, [] => puts_pure rfl
  | i, dim :: dims => by
    apply (puts_write rfl).bind (printDims_puts (i + 1) dims)
    rintro t u rfl rfl
    simp [dimsText, attrText, ascii_blank, ascii_equals]

/-- the text of an argument or a result -/
def argText (kind : String) (i : Nat) (arg : ArgName) : Str :=
  60 :: (numTag kind i ++ attr "name" arg.1) ++ 32 :: (ascii "type=" ++ 34 ::
    (ascii arg.2.1.typeName ++ (dimsText 0 arg.2.2 ++ [32, 47, 62, 10])))

theorem printArgName_puts (kind : String) (i : Nat) (arg : ArgName) :
    Puts (fun t => t = argText kind i arg) (printArgName kind i arg) := by
  have e : ascii " type=" = 32 :: ascii "type=" := rfl
  refine (puts_write rfl).bind (Q := fun t => t = ascii " type=" ++ [34] ++
    ascii arg.2.1.typeName ++ (dimsText 0 arg.2.2 ++ (ascii " />" ++ [10]))) ?_ ?_
  · refine (puts_write rfl).bind
      (Q := fun t => t = dimsText 0 arg.2.2 ++ (ascii " />" ++ [10])) ?_ ?_
    · refine (printDims_puts 0 arg.2.2).bind (puts_write rfl) ?_
      rintro t u rfl rfl
      rfl
    · rintro t u rfl rfl
      rfl
  · rintro t u rfl rfl
    simp [argText, ascii_lt, ascii_end, e]

/-- the scanner is between the quotes of the type -/
theorem scan_arg {kind : String} (hk : isName (ascii kind) = true) (i : Nat) {arg : ArgName}
    (hn : arg.1.all plainChar = true) :
    scan .content (argText kind i arg ++ [60]) =
      scan .value (dimsText 0 arg.2.2 ++ [32, 47, 62, 10, 60]) := by
  have h1 : behind (scan .content (60 :: (numTag kind i ++ (attr "name" arg.1 ++ [])))) :=
    scan_tag (numTag_name kind hk i) (attr_plain "name" rfl hn) rfl
  rw [List.append_nil] at h1
  have h2 : scan .tag (ascii "type=" ++ [34]) = .value := by decide
  have e : argText kind i arg ++ [60] = (60 :: (numTag kind i ++ attr "name" arg.1)) ++ 32 ::
      ((ascii "type=" ++ [34]) ++ (ascii arg.2.1.typeName ++ (dimsText 0 arg.2.2 ++
        [32, 47, 62, 10, 60]))) := by
    simp [argText]
  rw [e, scan_append, scan_cons, behind_blank h1 rfl, scan_append, h2, scan_append,
    scan_plain (typeName_plain _)]

/-- **An argument or a result** is well-formed with one dimension only. -/
theorem argText_ends {kind : String} (hk : isName (ascii kind) = true) (i : Nat) {arg : ArgName}
    (hn : arg.1.all plainChar = true) :
    Whole (arg.2.2.length == 1) (argText kind i arg) := by
  obtain ⟨name, ty, dims⟩ := arg
  refine ⟨?_, Tagged.tag _⟩
  match dims with
  | [] =>
    exact (scan_arg hk i hn).trans rfl
  | [dim] =>
    have ha := ((attr_plain "name" rfl hn).append
      (attr_plain "type" rfl (typeName_plain ty))).append
      (attrText_attrs (numTag_name "dim" rfl 0) (escaped_of_plain (nat_plain dim)))
    have h := singleText_ends (numTag_name kind hk i) ha
    have e : argText kind i (name, ty, [dim]) = singleText (numTag kind i) (attr "name" name ++
        attr "type" (ascii ty.typeName) ++ attrText (numTag "dim" 0) (ascii (toString dim))) := by
      have ht : ascii "type=" = ascii "type" ++ [61] := rfl
      simp [argText, singleText, dimsText, attr_eq, attrText, ht]
    rw [e]
    exact h
  | dim :: dim' :: dims =>
    refine (scan_arg hk i hn).trans ?_
    have h0 : next .value 34 = .after := rfl
    have h1 := scan_attrText (Or.inr rfl) (numTag_name "dim" rfl 0)
      (escaped_of_plain (nat_plain dim))
    -- the quote in front of the second dimension is one too many
    have h2 : next .after 34 = .fail := rfl
    rw [dimsText, dimsText]
    simp only [List.cons_append, scan_append, scan_cons, scan_nil, h0, h1, h2, scan_fail, next_fail]

theorem printArgNames_puts (kind : String) (hk : isName (ascii kind) = true) :
    ∀ (i : Nat) (args : List ArgName), (args.all fun arg => arg.1.all plainChar) = true →
      Puts (Whole (args.all fun arg => arg.2.2.length == 1)) (printArgNames kind i args)
  | i, [], h => puts_pure Whole.nil
  | i, arg :: args, h => by
    rw [List.all_cons, Bool.and_eq_true_iff] at h
    rw [List.all_cons]
    apply puts_seq
    · apply (printArgName_puts kind i arg).mono
      rintro t rfl
      exact argText_ends hk i h.1
    · exact printArgNames_puts kind hk (i + 1) args h.2

/-! ## variables -/

theorem printVars_puts : ∀ (i : Nat) (vars : List Str), (vars.all (·.all plainChar)) = true →
    Puts (Whole true) (printVars i vars)
  | i, [], h => puts_pure Whole.nil
  | i, var :: vars, h => by
    rw [List.all_cons, Bool.and_eq_true_iff] at h
    exact puts_seq (puts_single _ (numTag_name "var_" rfl i)
      (attr_plain "ident" rfl h.1)) (printVars_puts (i + 1) vars h.2)

theorem plain_text {s : Str} (h : s.all plainChar = true) : s.all textChar = true := by
  rw [List.all_eq_true] at h ⊢
  intro c hc
  have hp := h c hc
  simp only [plainChar, Bool.and_eq_true] at hp
  rw [textChar, hp.1.1, hp.2]
  rfl

theorem printIdents_puts : ∀ (i : Nat) (idents : List Str), (idents.all (·.all plainChar)) = true →
    Puts (Whole true) (printIdents i idents)
  | i, [], h => puts_pure Whole.nil
  | i, ident :: idents, h => by
    rw [List.all_cons, Bool.and_eq_true_iff] at h
    have ht := numTag_name "ident_" rfl i
    have hc : Content (60 :: (numTag "ident_" i ++ ([] ++ ([] ++ 62 :: (ident ++ 60 :: 47 ::
        (numTag "ident_" i ++ ([] ++ 62 :: [10]))))))) :=
      .elem ht .nil rfl (.of_text (plain_text h.1)) rfl (.char textChar_newline .nil)
    refine (puts_write rfl).bind ((puts_write rfl).bind ((puts_write rfl).bind
      (printIdents_puts (i + 1) idents h.2) (R := fun t => ∃ u, Whole true u ∧
        t = ascii "</" ++ numTag "ident_" i ++ ascii ">" ++ [10] ++ u) ?_) (R := fun t => ∃ u,
        Whole true u ∧ t = ident ++ (ascii "</" ++ numTag "ident_" i ++ ascii ">" ++ [10] ++ u)) ?_) ?_
    · rintro t u rfl hu
      exact ⟨u, hu, rfl⟩
    · rintro t u rfl ⟨v, hv, rfl⟩
      exact ⟨v, hv, rfl⟩
    · rintro t u rfl ⟨v, hv, rfl⟩
      have h1 : Whole true _ := ⟨hc, Tagged.tag _⟩
      have h2 := h1.append hv
      simpa [ascii_lt, ascii_close, ascii_gt] using h2

/-! ## conditions on the nodes -/

/-- a name without `<`, `&` and quotes -/
def plainName (s : Str) : Bool := s.all plainChar

/-- what every tree of the parser has: plain names, strings without quotes, which end a string in
the lexer, and no missing nodes -/
def grammatical (a : Around) : AST → Bool
  | .strConst val => !val.contains 34
  | .varDecl vars _ _ _ => vars.all plainName
  | .var ident => plainName ident
  | .assign idents expr => idents.all plainName && idents.isEmpty == expr.isNone
  | .arrayAccess _ num1 _ _ => num1.isSome
  | .arrayAssign ident _ num1 _ _ => plainName ident && num1.isSome
  | .func ident args rets _ =>
    plainName ident && (args.all fun arg => plainName arg.1) && rets.all fun ret => plainName ret.1
  | .call ident _ => plainName ident
  | .ret rets onlyJumpToFuncEnd => onlyJumpToFuncEnd == rets.isNone
  | .rangedLoop ident _ _ _ _ => plainName ident
  | .label ident => plainName ident
  | .jump label _ => plainName label
  | _ => true

/-- arguments and results have one dimension each -/
def oneDim (a : Around) : AST → Bool
  | .func _ args rets _ =>
    (args.all fun arg => arg.2.2.length == 1) && rets.all fun ret => ret.2.2.length == 1
  | _ => true

/-- string constants may stand between quotes -/
def escapedConst (a : Around) : AST → Bool
  | .strConst val => escaped val
  | _ => true

/-- what the printer writes correctly -/
def dumpable (a : Around) (ast : AST) : Bool := oneDim a ast && escapedConst a ast

/-! ## nodes -/

section
variable (num : NumText)

theorem Puts.ok {ok ok' : Bool} {x : PrintM Unit} (hx : Puts (Whole ok) x) (h : ok = ok') :
    Puts (Whole ok') x := by
  rwa [← h]

/-- two operands -/
theorem puts_two {tag attrs : Str} {ok ok' : Bool} {x y : PrintM Unit} (ht : isName tag = true)
    (ha : Attrs attrs) (hx : Puts (Whole ok) x) (hy : Puts (Whole ok') y) :
    Puts (Whole (true && ok && ok')) (elem tag attrs do
      x
      y) := by
  rw [Bool.true_and]
  exact puts_elem _ ht ha (puts_seq hx hy)

theorem puts_const (ty : String) {val : Str} (ht : (ascii ty).all plainChar = true)
    (hv : escaped val = true) : Puts (Whole true) (printConst ty val) :=
  puts_single _ rfl ((attr_plain "type" rfl ht).append (attr_attrs "val" rfl hv))

/-- a string is between its quotes as it is -/
theorem puts_string {val : Str} (hq : (34 : UInt8) ∉ val) :
    Puts (Whole (escaped val)) (printConst "str" val) := by
  cases hv : escaped val with
  | true => exact puts_const "str" rfl hv
  | false =>
    apply puts_write
    have e : ascii "<" ++ ascii "Const" ++ (attr "type" (ascii "str") ++ attr "val" val) ++
        ascii " />" ++ [10] = 60 :: (ascii "Const" ++ (attr "type" (ascii "str") ++
          (ascii " val=" ++ [34]))) ++ ((val ++ [34]) ++ [32, 47, 62, 10]) := by
      have ht : ascii " val=" = 32 :: (ascii "val" ++ [61]) := rfl
      simp [attr_eq, attrText, ascii_lt, ascii_end, ht]
    have h1 : scan .content (60 :: (ascii "Const" ++ (attr "type" (ascii "str") ++
        (ascii " val=" ++ [34])))) = .value := by decide +kernel
    rw [e]
    refine ⟨?_, Tagged.tag _⟩
    show scan .content (_ ++ [60]) = .fail
    rw [List.append_assoc, scan_append, h1, List.append_assoc, scan_append, scan_unescaped hq hv,
      scan_fail]

/-- behind a bool that is asked for -/
theorem puts_bool {ok : Bool} {f : Str → PrintM Unit} {v : Bool}
    (hf : ∀ text : Str, text.all plainChar = true → Puts (Whole ok) (f text)) :
    Puts (Whole ok) (boolText v >>= f) := by
  intro s
  have hp : (ascii (if s.boolalpha then (if v then "true" else "false")
      else if v then "1" else "0")).all plainChar = true := by
    cases s.boolalpha <;> cases v <;> decide
  obtain ⟨t, b, h, hn⟩ := hf _ hp s
  refine ⟨t, b, ?_, hn⟩
  rw [← h]
  exact bind_ok rfl

/-- the index, the end of the range and the expression of an element -/
theorem puts_access (last : Str) {tag attrs : Str} {ok ok1 ok2 : Bool} {x x1 x2 : PrintM Unit}
    (ht : isName tag = true) (ha : Attrs attrs) (hl : isName last = true)
    (hx : Puts (Whole ok) x) (h1 : Puts (Whole ok1) x1) (h2 : Puts (Whole ok2) x2) :
    Puts (Whole (true && ok && ok1 && ok2)) (elem tag attrs do
      elem (ascii "idx1") [] x1
      x2
      elem last [] x) := by
  have h := puts_elem _ ht ha (puts_seq (puts_elem (ascii "idx1") rfl .nil h1)
    (puts_seq h2 (puts_elem _ hl .nil hx)))
  apply h.ok
  rw [Bool.true_and]
  ac_rfl

theorem func_puts {ok : Bool} {ident : Str} {args rets : List ArgName} {stmts : AST} (a : Around)
    (hi : plainName ident = true) (ha : (args.all fun arg => plainName arg.1) = true)
    (hr : (rets.all fun ret => plainName ret.1) = true)
    (hs : Puts (Whole ok) (printNode num stmts)) :
    Puts (Whole (dumpable a (.func ident args rets stmts) && ok))
      (printNode num (.func ident args rets stmts)) := by
  have h := puts_elem (ascii "Func") rfl (attr_plain "ident" rfl hi)
    (puts_seq (printArgNames_puts "arg_" rfl 0 args ha)
      (puts_seq (printArgNames_puts "ret_" rfl 0 rets hr) hs))
  apply h.ok
  have hd : dumpable a (.func ident args rets stmts) =
      ((args.all fun arg => arg.2.2.length == 1) && rets.all fun ret => ret.2.2.length == 1) :=
    Bool.and_true _
  rw [hd]
  exact (Bool.and_assoc _ _ _).symm

theorem rangedLoop_puts {ok1 ok2 ok3 ok : Bool} {ident : Str} {begin stop stmt : AST}
    {inc : Option AST} (hi : plainName ident = true)
    (h1 : Puts (Whole ok1) (printNode num begin)) (h2 : Puts (Whole ok2) (printNode num stop))
    (h3 : Puts (Whole ok3) (printIn num "inc" inc)) (hs : Puts (Whole ok) (printNode num stmt)) :
    Puts (Whole (ok1 && ok2 && ok3 && ok))
      (printNode num (.rangedLoop ident begin stop inc stmt)) := by
  have hr := puts_elem (ascii "VarRange") rfl (attr_plain "ident" rfl hi)
    (puts_seq (puts_elem (ascii "begin") rfl .nil h1)
      (puts_seq (puts_elem (ascii "end") rfl .nil h2) h3))
  have h := puts_elem (ascii "RangedLoop") rfl .nil
    (puts_seq (puts_elem (ascii "range") rfl .nil hr) (puts_elem (ascii "stmt") rfl .nil hs))
  apply h.ok
  simp only [Bool.and_assoc]

theorem arrayAccess_puts {ok ok1 ok2 : Bool} {term : AST} {num1 num2 : Option AST}
    {ranged12 : Bool} (h : Puts (Whole ok) (printNode num term))
    (h1 : Puts (Whole ok1) (printSome num num1)) (h2 : Puts (Whole ok2) (printIn num "idx2" num2)) :
    Puts (Whole (true && ok && ok1 && ok2))
      (printNode num (.arrayAccess term num1 num2 ranged12)) :=
  puts_bool fun text ht =>
    puts_access (ascii "term") rfl (attr_plain "is_range_12" rfl ht) rfl h h1 h2

theorem arrayAssign_puts {ok ok1 ok2 : Bool} {ident : Str} {expr : AST} {num1 num2 : Option AST}
    {ranged12 : Bool} (hi : plainName ident = true) (h : Puts (Whole ok) (printNode num expr))
    (h1 : Puts (Whole ok1) (printSome num num1)) (h2 : Puts (Whole ok2) (printIn num "idx2" num2)) :
    Puts (Whole (true && ok && ok1 && ok2))
      (printNode num (.arrayAssign ident expr num1 num2 ranged12)) :=
  puts_bool fun text ht => puts_access (ascii "expr") rfl
    ((attr_plain "ident" rfl hi).append (attr_plain "is_range_12" rfl ht)) rfl h h1 h2

theorem cond_puts {ok ok1 ok2 : Bool} {cond ifStmt : AST} {elseStmt : Option AST}
    (h : Puts (Whole ok) (printNode num cond)) (h1 : Puts (Whole ok1) (printNode num ifStmt))
    (h2 : Puts (Whole ok2) (printIn num "else" elseStmt)) :
    Puts (Whole (ok && ok1 && ok2)) (printNode num (.cond cond ifStmt elseStmt)) := by
  have hb := puts_elem (ascii "Cond") rfl .nil (puts_seq (puts_elem (ascii "cond") rfl .nil h)
    (puts_seq (puts_elem (ascii "if") rfl .nil h1) h2))
  apply hb.ok
  rw [Bool.and_assoc]

theorem cases_puts {ok ok1 ok2 : Bool} {expr : AST} {cases_ : List (AST × AST)}
    {defaultStmts : Option AST} (h : Puts (Whole ok) (printNode num expr))
    (h1 : Puts (Whole ok1) (printCases num cases_))
    (h2 : Puts (Whole ok2) (printIn num "default" defaultStmts)) :
    Puts (Whole (ok && ok1 && ok2)) (printNode num (.cases expr cases_ defaultStmts)) := by
  have hb := puts_elem (ascii "Cases") rfl .nil
    (puts_seq (puts_elem (ascii "expr") rfl .nil h) (puts_seq h1 h2))
  apply hb.ok
  rw [Bool.and_assoc]

theorem loop_puts {ok ok1 : Bool} {cond stmt : AST} (h : Puts (Whole ok) (printNode num cond))
    (h1 : Puts (Whole ok1) (printNode num stmt)) :
    Puts (Whole (ok && ok1)) (printNode num (.loop cond stmt)) :=
  puts_elem (ascii "Loop") rfl .nil
    (puts_seq (puts_elem (ascii "cond") rfl .nil h) (puts_elem (ascii "stmt") rfl .nil h1))

theorem boolConst_puts (val : Bool) : Puts (Whole true) (printNode num (.boolConst val)) := by
  intro s
  obtain ⟨t, b, hr, hn⟩ := puts_bool (v := val) (f := fun text => printConst "bool" text)
    (fun text ht => puts_const "bool" rfl (escaped_of_plain ht))
    { s with boolalpha := true }
  exact ⟨t, b, hr, hn⟩

mutual

/-- **A node** is well-formed if all nodes below it are what the printer writes correctly. -/
theorem print_puts : ∀ (ast : AST) (a : Around), ast.all grammatical a = true →
    Puts (Whole (ast.all dumpable a)) (printNode num ast)
  | .uminus term, a, h => by
    simp only [AST.all, grammatical, Bool.true_and] at h
    exact puts_elem _ rfl .nil (print_puts term a h)
  | .norm term, a, h => by
    simp only [AST.all, grammatical, Bool.true_and] at h
    exact puts_elem _ rfl .nil (print_puts term a h)
  | .plus term1 term2 _, a, h | .mult term1 term2 _, a, h | .mod term1 term2, a, h
  | .pow term1 term2, a, h => by
    simp only [AST.all, grammatical, Bool.true_and, Bool.and_eq_true] at h
    exact puts_two rfl .nil (print_puts term1 a h.1) (print_puts term2 a h.2)
  | .comp term1 term2 op, a, h => by
    simp only [AST.all, grammatical, Bool.true_and, Bool.and_eq_true] at h
    have ho : (ascii op.opName).all plainChar = true := by cases op <;> decide
    exact puts_two rfl (attr_plain "op" rfl ho) (print_puts term1 a h.1)
      (print_puts term2 a h.2)
  | .bool term1 term2 op, a, h => by
    simp only [AST.all, grammatical, Bool.true_and, Bool.and_eq_true] at h
    have ho : (ascii op.opName).all plainChar = true := by cases op <;> decide
    exact puts_two rfl (attr_plain "op" rfl ho) (print_puts term1 a h.1)
      (printOpt_puts term2 a h.2)
  | .var ident, a, h | .label ident, a, h =>
    puts_single _ rfl (attr_plain "ident" rfl h)
  | .jump label true, a, h | .jump label false, a, h =>
    puts_single _ rfl (attr_plain "label" rfl h)
  | .loopBreak numLoops, a, h | .loopNext numLoops, a, h =>
    puts_single _ rfl (attr_plain "num" rfl (int_plain numLoops))
  | .realConst val, a, h =>
    puts_const "scalar" rfl (escaped_of_plain (num.real_plain val))
  | .intConst val, a, h => puts_const "integer" rfl (escaped_of_plain (int_plain val))
  | .cplxConst val, a, h =>
    puts_const "complex" rfl (escaped_of_plain (num.cplx_plain val))
  | .quatConst val, a, h =>
    puts_const "quaternion" rfl (escaped_of_plain (num.quat_plain val))
  | .strConst val, a, h => by
    have hq : (34 : UInt8) ∉ val := by simpa [AST.all, grammatical] using h
    exact puts_string hq
  | .boolConst val, a, h => boolConst_puts num val
  | .call ident args, a, h => by
    simp only [AST.all, grammatical, Bool.and_eq_true] at h
    exact puts_elem _ rfl (attr_plain "ident" rfl h.1)
      (printList_puts "arg_" rfl 0 args a h.2)
  | .stmts stmts, a, h => by
    simp only [AST.all, grammatical, Bool.true_and] at h
    exact puts_elem _ rfl .nil (printList_puts "stmt_" rfl 0 stmts a h)
  | .exprList exprs _, a, h => by
    simp only [AST.all, grammatical, Bool.true_and] at h
    exact puts_elem _ rfl .nil (printList_puts "expr_" rfl 0 exprs a h)
  | .varDecl vars optAssign _ _, a, h => by
    simp only [AST.all, grammatical, Bool.and_eq_true] at h
    exact puts_elem _ rfl .nil
      (puts_seq (printVars_puts 0 vars h.1) (printOpt_puts optAssign a h.2))
  | .func ident args rets stmts, a, h => by
    simp only [AST.all, grammatical, Bool.and_eq_true] at h
    exact func_puts num a h.1.1.1 h.1.1.2 h.1.2 (print_puts stmts (a.func ident) h.2)
  | .ret none true, a, h => puts_single (ascii "Return") rfl .nil
  | .ret (some rets) false, a, h => by
    simp only [AST.all, grammatical, Bool.and_eq_true] at h
    exact printRets_puts (some rets) a rfl h.2
  | .ret none false, a, h | .ret (some rets) true, a, h => by
    simp [AST.all, grammatical] at h
  | .assign [] none, a, h => puts_pure Whole.nil
  | .assign [ident] (some expr), a, h => by
    simp only [AST.all, grammatical, Bool.and_eq_true, List.all_cons,
      allOpt] at h
    exact puts_elem _ rfl (attr_plain "ident" rfl h.1.1.1) (print_puts expr a h.2)
  | .assign (ident :: ident' :: idents) (some expr), a, h => by
    simp only [AST.all, grammatical, Bool.and_eq_true, allOpt] at h
    exact puts_elem _ rfl .nil (puts_seq (printIdents_puts 0 _ h.1.1)
      (puts_elem (ascii "rhs") rfl .nil (print_puts expr a h.2)))
  | .assign [] (some expr), a, h | .assign (ident :: idents) none, a, h => by
    simp [AST.all, grammatical] at h
  | .rangedLoop ident begin stop inc stmt, a, h => by
    simp only [AST.all, grammatical, Bool.and_eq_true] at h
    have hb := rangedLoop_puts num h.1.1.1.1 (print_puts begin a h.1.1.1.2)
      (print_puts stop a.loop h.1.1.2) (printIn_puts "inc" rfl inc a.loop h.1.2)
      (print_puts stmt a.loop h.2)
    exact hb
  | .arrayAccess term num1 num2 ranged12, a, h => by
    simp only [AST.all, grammatical, Bool.and_eq_true] at h
    exact arrayAccess_puts num (print_puts term a h.1.1.2)
      (printSome_puts num1 a h.1.1.1 h.1.2) (printIn_puts "idx2" rfl num2 a h.2)
  | .arrayAssign ident expr num1 num2 ranged12, a, h => by
    simp only [AST.all, grammatical, Bool.and_eq_true] at h
    exact arrayAssign_puts num h.1.1.1.1 (print_puts expr a h.1.1.2)
      (printSome_puts num1 a h.1.1.1.2 h.1.2) (printIn_puts "idx2" rfl num2 a h.2)
  | .cond cond ifStmt elseStmt, a, h => by
    simp only [AST.all, grammatical, Bool.true_and, Bool.and_eq_true] at h
    have hb := cond_puts num (print_puts cond a h.1.1) (print_puts ifStmt a h.1.2)
      (printIn_puts "else" rfl elseStmt a h.2)
    exact hb
  | .cases expr cases_ defaultStmts, a, h => by
    simp only [AST.all, grammatical, Bool.true_and, Bool.and_eq_true] at h
    have hb := cases_puts num (print_puts expr a h.1.1) (printCases_puts cases_ a h.1.2)
      (printIn_puts "default" rfl defaultStmts a h.2)
    exact hb
  | .loop cond stmt, a, h => by
    simp only [AST.all, grammatical, Bool.true_and, Bool.and_eq_true] at h
    have hb := loop_puts num (print_puts cond a.loop h.1) (print_puts stmt a.loop h.2)
    exact hb

theorem printOpt_puts : ∀ (x : Option AST) (a : Around), allOpt grammatical a x = true →
    Puts (Whole (allOpt dumpable a x)) (printOpt num x)
  | none, a, h => puts_pure Whole.nil
  | some ast, a, h => print_puts ast a h

theorem printSome_puts : ∀ (x : Option AST) (a : Around), x.isSome = true →
    allOpt grammatical a x = true →
      Puts (Whole (allOpt dumpable a x)) (printSome num x)
  | none, a, hx, h => nomatch hx
  | some ast, a, hx, h => print_puts ast a h

theorem printIn_puts (tag : String) (ht : isName (ascii tag) = true) :
    ∀ (x : Option AST) (a : Around), allOpt grammatical a x = true →
      Puts (Whole (allOpt dumpable a x)) (printIn num tag x)
  | none, a, h => puts_pure Whole.nil
  | some ast, a, h => puts_elem _ ht .nil (print_puts ast a h)

theorem printList_puts (tag : String) (ht : isName (ascii tag) = true) :
    ∀ (i : Nat) (asts : List AST) (a : Around), allList grammatical a asts = true →
      Puts (Whole (allList dumpable a asts)) (printList num tag i asts)
  | i, [], a, h => puts_pure Whole.nil
  | i, ast :: asts, a, h => by
    rw [allList, Bool.and_eq_true_iff] at h
    exact puts_seq (puts_elem _ (numTag_name tag ht i) .nil (print_puts ast a h.1))
      (printList_puts tag ht (i + 1) asts a h.2)

theorem printRets_puts : ∀ (rets : Option (List AST)) (a : Around), rets.isSome = true →
    allOptList grammatical a rets = true →
      Puts (Whole (allOptList dumpable a rets)) (printRets num rets)
  | none, a, hr, h => nomatch hr
  | some [], a, hr, h => puts_single (ascii "Return") rfl .nil
  | some [ast], a, hr, h => by
    simp only [allOptList, allList, Bool.and_true] at h ⊢
    exact puts_elem _ rfl .nil (print_puts ast a h)
  | some (ast :: ast' :: asts), a, hr, h =>
    puts_elem _ rfl .nil (printList_puts "val_" rfl 0 (ast :: ast' :: asts) a h)

theorem printCases_puts : ∀ (cases : List (AST × AST)) (a : Around),
    allPairs grammatical a cases = true →
      Puts (Whole (allPairs dumpable a cases)) (printCases num cases)
  | [], a, h => puts_pure Whole.nil
  | (cond, stmts) :: cases, a, h => by
    simp only [allPairs, Bool.and_eq_true] at h
    exact puts_seq (puts_elem _ rfl .nil (puts_seq
      (puts_elem (ascii "cond") rfl .nil (print_puts cond a h.1.1))
      (puts_elem (ascii "stmts") rfl .nil (print_puts stmts a h.1.2))))
      (printCases_puts cases a h.2)

end

/-! ## the file -/

/-- the file is well-formed -/
def WellDumped (stmts : List AST) : Prop :=
  ∃ o, (dump num stmts).run ⟨[], false⟩ = .ok () o ∧ Content o.out

theorem dumpStmts_puts : ∀ (stmts : List AST) (a : Around), allList grammatical a stmts = true →
    Puts (Whole (allList dumpable a stmts)) (dumpStmts num stmts)
  | [], a, h => puts_pure Whole.nil
  | stmt :: stmts, a, h => by
    rw [allList, Bool.and_eq_true_iff] at h
    have hn : Whole true [10] := ⟨.char textChar_newline .nil, .newline .nil⟩
    exact puts_seq (print_puts num stmt a h.1) (puts_seq (puts_write hn) (dumpStmts_puts stmts a h.2))

theorem dump_puts {stmts : List AST} {a : Around} (h : allList grammatical a stmts = true) :
    Puts (Whole (allList dumpable a stmts)) (dump num stmts) := by
  have h1 := puts_elem (ascii "ast") rfl .nil (dumpStmts_puts num stmts a h)
  exact h1

/-- **The file** is well-formed if and only if all arguments and results of functions have one
dimension and no string constant has anything to escape. -/
theorem wellDumped_iff {stmts : List AST} (h : allList grammatical ⟨[], false⟩ stmts = true) :
    WellDumped num stmts ↔ allList dumpable ⟨[], false⟩ stmts = true := by
  obtain ⟨t, b, hr, hn, -⟩ := dump_puts num h ⟨[], false⟩
  cases ho : allList dumpable ⟨[], false⟩ stmts with
  | true =>
    rw [ho] at hn
    exact iff_of_true ⟨_, hr, hn⟩ rfl
  | false =>
    rw [ho] at hn
    refine iff_of_false ?_ Bool.false_ne_true
    rintro ⟨o, hr', hc⟩
    rw [hr] at hr'
    cases hr'
    have hf : scan .content (t ++ [60]) = .fail := hn
    have ht : Content t := hc
    rw [scan_append, scan_content ht] at hf
    cases hf

end

/-- every number is written as zero -/
def zeroText : NumText where
  real _ := ascii "0"
  cplx _ := ascii "0"
  quat _ := ascii "0"
  real_plain _ := rfl
  cplx_plain _ := rfl
  quat_plain _ := rfl

/-- a function with one argument of the given dimensions, and a string constant below it -/
def funcDump (dims : List Nat) (val : Str) : AST :=
  .func (ascii "f") [(ascii "m", .realArray, dims)] [] (.stmts [.strConst val])

theorem wellDumped_vector : WellDumped zeroText [funcDump [3] (ascii "a &amp; b")] :=
  (wellDumped_iff zeroText (by decide +kernel)).2 (by decide +kernel)

/-- what a printer has written -/
def outText (x : PrintM Unit) : Str :=
  match x.run ⟨[], false⟩ with
  | .ok _ o => o.out
  | .error _ o => o.out

theorem not_content {x : PrintM Unit} (h : scan .content (outText x) = .fail) :
    ¬ ∃ o, x.run ⟨[], false⟩ = .ok () o ∧ Content o.out := by
  rintro ⟨o, hr, hc⟩
  rw [outText, hr] at h
  have h1 := scan_content hc
  rw [h] at h1
  cases h1

/-- a matrix as an argument, and a string with `<` -/
theorem dump_not_wellFormed :
    (allList grammatical ⟨[], false⟩ [funcDump [2, 3] (ascii "a b"), funcDump [3] (ascii "a<b")] =
      true) ∧
    (¬ ∃ o, (dump zeroText [funcDump [2, 3] (ascii "a b")]).run ⟨[], false⟩ = .ok () o ∧
      Content o.out) ∧
    ¬ ∃ o, (dump zeroText [funcDump [3] (ascii "a<b")]).run ⟨[], false⟩ = .ok () o ∧
      Content o.out :=
  ⟨by decide +kernel, not_content (by decide +kernel), not_content (by decide +kernel)⟩

end MuF
