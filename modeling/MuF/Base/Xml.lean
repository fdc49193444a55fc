import Mathlib.Data.List.Basic
import Mathlib.Tactic.Common

/-!
# Well-formed content of XML elements

* `escaped`: texts that may stand between the quotes of an attribute;
* `Attrs`, `Content`: attributes, and elements that are nested and closed with texts between them;
* `scan`: a scanner that follows the tags, the quotes and the references between quotes; it gets
  through well-formed content (`scan_content`), so that a text where it fails is not well-formed;
* `scan_unescaped`: it fails in every value without quotes that has something to escape.
-/

set_option linter.unusedVariables false

namespace Xml

abbrev Text := List UInt8

/-! ## names and values -/

def nameStart (c : UInt8) : Bool := (65 ≤ c && c ≤ 90) || (97 ≤ c && c ≤ 122) || c == 95

def isDigit (c : UInt8) : Bool := 48 ≤ c && c ≤ 57

def nameChar (c : UInt8) : Bool := nameStart c || isDigit c

/-- names of elements and attributes -/
def isName : Text → Bool
  | [] => false
  | c :: cs => nameStart c && cs.all nameChar

def isHexDigit (c : UInt8) : Bool := isDigit c || (65 ≤ c && c ≤ 70) || (97 ≤ c && c ≤ 102)

/-- a character by its number, between `&` and `;` -/
def isCharRef : Text → Bool
  | 35 :: 120 :: ds => !ds.isEmpty && ds.all isHexDigit
  | 35 :: ds => !ds.isEmpty && ds.all isDigit
  | _ => false

/-- the predefined entities `lt`, `gt`, `amp`, `quot` and `apos` -/
def entities : List Text :=
  [[108, 116], [103, 116], [97, 109, 112], [113, 117, 111, 116], [97, 112, 111, 115]]

/-- a reference without its `&` and its `;` -/
def isEntity (ref : Text) : Bool := entities.contains ref || isCharRef ref

/-- a reference, behind its `&` -/
def isRef (s : Text) : Bool :=
  let ref := s.takeWhile (· != 59)
  ref.length < s.length && isEntity ref

/-- no `<`, no double quote, and no `&` but those of references -/
def escaped : Text → Bool
  | [] => true
  | c :: cs => c != 60 && c != 34 && (c != 38 || isRef cs) && escaped cs

/-- a character that needs no escape -/
def plainChar (c : UInt8) : Bool := c != 60 && c != 34 && c != 38

theorem escaped_of_plain : ∀ {s : Text}, s.all plainChar = true → escaped s = true
  | [], h => rfl
  | c :: cs, h => by
    simp only [List.all_cons, plainChar, Bool.and_eq_true] at h
    rw [escaped, h.1.1.1, h.1.1.2, h.1.2, escaped_of_plain h.2]
    rfl

/-! ## content -/

/-- characters between the attributes of a tag -/
def isBlank (c : UInt8) : Bool := c == 32 || c == 9 || c == 10 || c == 13

/-- attributes: blanks, a name, and a value between quotes, for each one -/
inductive Attrs : Text → Prop
  | nil : Attrs []
  | cons {sp name val rest : Text} (h0 : sp ≠ []) (hs : sp.all isBlank = true)
      (hn : isName name = true) (hv : escaped val = true) (hr : Attrs rest) :
      Attrs (sp ++ (name ++ 61 :: 34 :: (val ++ 34 :: rest)))

/-- a character between tags; references are not considered -/
def textChar (c : UInt8) : Bool := c != 60 && c != 38

/-- elements with texts between them -/
inductive Content : Text → Prop
  | nil : Content []
  | char {c : UInt8} {rest : Text} (hc : textChar c = true) (hr : Content rest) :
      Content (c :: rest)
  /-- `<tag …>`, content, `</tag>` -/
  | elem {tag attrs sp body sp' rest : Text} (ht : isName tag = true) (ha : Attrs attrs)
      (hs : sp.all isBlank = true) (hb : Content body) (hs' : sp'.all isBlank = true)
      (hr : Content rest) : Content (60 :: (tag ++ (attrs ++ (sp ++ 62 ::
        (body ++ 60 :: 47 :: (tag ++ (sp' ++ 62 :: rest)))))))
  /-- `<tag … />` -/
  | empty {tag attrs sp rest : Text} (ht : isName tag = true) (ha : Attrs attrs)
      (hs : sp.all isBlank = true) (hr : Content rest) :
      Content (60 :: (tag ++ (attrs ++ (sp ++ 47 :: 62 :: rest))))

theorem Attrs.append {s t : Text} (hs : Attrs s) (ht : Attrs t) : Attrs (s ++ t) := by
  induction hs with
  | nil => exact ht
  | cons h0 hb hn hv hr ih =>
    have h := Attrs.cons h0 hb hn hv ih
    simpa only [List.cons_append, List.append_assoc] using h

theorem Content.append {s t : Text} (hs : Content s) (ht : Content t) : Content (s ++ t) := by
  induction hs with
  | nil => exact ht
  | char hc hr ih => exact .char hc ih
  | elem htag ha hs hb hs' hr ihb ihr =>
    have h := Content.elem htag ha hs hb hs' ihr
    simpa only [List.cons_append, List.append_assoc] using h
  | empty htag ha hs hr ih =>
    have h := Content.empty htag ha hs ih
    simpa only [List.cons_append, List.append_assoc] using h

theorem Content.of_text : ∀ {s : Text}, s.all textChar = true → Content s
  | [], h => .nil
  | c :: cs, h => by
    rw [List.all_cons, Bool.and_eq_true_iff] at h
    exact .char h.1 (Content.of_text h.2)

/-! ## a scanner -/

/-- where the scanner is -/
inductive State
  /-- between tags -/
  | content
  /-- in a tag -/
  | tag
  /-- between the quotes of an attribute -/
  | value
  /-- between the quotes and behind an `&`, with the characters since -/
  | ref (seen : Text)
  /-- right behind the quotes -/
  | after
  | fail
  deriving DecidableEq, Repr

/-- one character -/
def next : State → UInt8 → State
  | .content, c => if c = 60 then .tag else .content
  | .tag, c =>
    if c = 34 then .value else if c = 62 then .content else if c = 60 then .fail else .tag
  | .value, c =>
    if c = 34 then .after else if c = 60 then .fail else if c = 38 then .ref [] else .value
  | .ref seen, c =>
    if c = 59 then (if isEntity seen then .value else .fail)
    else if c = 34 ∨ c = 60 then .fail else .ref (seen ++ [c])
  | .after, c => if isBlank c || c = 47 then .tag else if c = 62 then .content else .fail
  | .fail, _ => .fail

def scan (q : State) (s : Text) : State := s.foldl next q

@[simp] theorem scan_nil (q : State) : scan q [] = q := rfl

@[simp] theorem scan_cons (q : State) (c : UInt8) (s : Text) :
    scan q (c :: s) = scan (next q c) s := rfl

@[simp] theorem scan_append (q : State) (s t : Text) : scan q (s ++ t) = scan (scan q s) t :=
  List.foldl_append

@[simp] theorem next_fail (c : UInt8) : next .fail c = .fail := rfl

@[simp] theorem scan_fail (s : Text) : scan .fail s = .fail := by
  induction s with
  | nil => rfl
  | cons c s ih => exact ih

/-- characters that keep the scanner where it is -/
theorem scan_stays {q : State} {s : Text} (h : ∀ c ∈ s, next q c = q) : scan q s = q := by
  induction s with
  | nil => rfl
  | cons c s ih =>
    rw [scan_cons, h c List.mem_cons_self]
    exact ih fun d hd => h d (List.mem_cons_of_mem c hd)

theorem nameChar_ne {c : UInt8} (h : nameChar c = true) : c ≠ 34 ∧ c ≠ 62 ∧ c ≠ 60 := by
  refine ⟨?_, ?_, ?_⟩
  all_goals
    rintro rfl
    exact absurd h (by decide)

theorem nameStart_nameChar {c : UInt8} (h : nameStart c = true) : nameChar c = true := by
  rw [nameChar, h]
  rfl

theorem isName_all {s : Text} (h : isName s = true) : s.all nameChar = true := by
  cases s with
  | nil => rfl
  | cons c cs =>
    rw [isName, Bool.and_eq_true_iff] at h
    rw [List.all_cons, nameStart_nameChar h.1, h.2]
    rfl

theorem isName_append {s t : Text} (hs : isName s = true) (ht : t.all nameChar = true) :
    isName (s ++ t) = true := by
  cases s with
  | nil => cases hs
  | cons c cs =>
    rw [isName, Bool.and_eq_true_iff] at hs
    rw [List.cons_append, isName, hs.1, List.all_append, hs.2, ht]
    rfl

/-- a name in a tag -/
theorem scan_name {s : Text} (h : isName s = true) : scan .tag s = .tag := by
  apply scan_stays
  intro c hc
  obtain ⟨h1, h2, h3⟩ := nameChar_ne (List.all_eq_true.1 (isName_all h) c hc)
  rw [next, if_neg h1, if_neg h2, if_neg h3]

/-! ### values -/

/-- a digit or a letter, or `#` -/
def entityChar (c : UInt8) : Bool := c == 35 || nameChar c

theorem hexDigit_name {c : UInt8} (h : isHexDigit c = true) : nameChar c = true := by
  simp only [isHexDigit, Bool.or_eq_true] at h
  simp only [nameChar, nameStart, Bool.or_eq_true]
  rcases h with (h | h) | h
  · exact Or.inr h
  · simp only [Bool.and_eq_true, decide_eq_true_eq] at h
    have h2 : c ≤ 90 := UInt8.le_trans h.2 (by decide)
    simp [h.1, h2]
  · simp only [Bool.and_eq_true, decide_eq_true_eq] at h
    have h2 : c ≤ 122 := UInt8.le_trans h.2 (by decide)
    simp [h.1, h2]

/-- the characters of a reference -/
theorem isEntity_chars {ref : Text} (h : isEntity ref = true) : ref.all entityChar = true := by
  have hname (c : UInt8) (hc : nameChar c = true) : entityChar c = true := by
    rw [entityChar, hc, Bool.or_true]
  rw [isEntity, Bool.or_eq_true] at h
  rcases h with h | h
  · rw [List.contains_iff_mem] at h
    revert ref
    decide
  · unfold isCharRef at h
    split at h
    · simp only [Bool.and_eq_true, List.all_eq_true] at h
      simp only [List.all_cons, Bool.and_eq_true, List.all_eq_true]
      exact ⟨rfl, rfl, fun c hc => hname c (hexDigit_name (h.2 c hc))⟩
    · simp only [Bool.and_eq_true, List.all_eq_true] at h
      simp only [List.all_cons, Bool.and_eq_true, List.all_eq_true]
      refine ⟨rfl, fun c hc => hname c ?_⟩
      rw [nameChar, h.2 c hc, Bool.or_true]
    · cases h

theorem entityChar_ne {c : UInt8} (h : entityChar c = true) :
    c ≠ 34 ∧ c ≠ 38 ∧ c ≠ 59 ∧ c ≠ 60 := by
  refine ⟨?_, ?_, ?_, ?_⟩
  all_goals
    rintro rfl
    exact absurd h (by decide)

/-- a text with a reference at its head -/
theorem isRef_iff {s : Text} :
    isRef s = true ↔ ∃ ref rest, s = ref ++ 59 :: rest ∧ isEntity ref = true := by
  constructor
  · intro h
    simp only [isRef, Bool.and_eq_true, decide_eq_true_eq] at h
    obtain ⟨hl, he⟩ := h
    have hs := List.takeWhile_append_dropWhile (p := (· != 59)) (l := s)
    cases hd : s.dropWhile (· != 59) with
    | nil =>
      rw [hd, List.append_nil] at hs
      rw [hs] at hl
      exact absurd hl (Nat.lt_irrefl _)
    | cons c rest =>
      have hc := List.head_dropWhile_not (· != 59) (l := s) (by rw [hd]; exact List.cons_ne_nil _ _)
      simp only [hd, List.head_cons, bne_eq_false_iff_eq] at hc
      rw [hd, hc] at hs
      exact ⟨_, rest, hs.symm, he⟩
  · rintro ⟨ref, rest, rfl, he⟩
    have ht : (ref ++ 59 :: rest).takeWhile (· != 59) = ref := by
      rw [List.takeWhile_append_of_pos, List.takeWhile_cons_of_neg (by decide), List.append_nil]
      intro c hc
      exact bne_iff_ne.2 (entityChar_ne (List.all_eq_true.1 (isEntity_chars he) c hc)).2.2.1
    simp only [isRef, ht, he, List.length_append, List.length_cons, Bool.and_true,
      decide_eq_true_eq]
    omega

/-- the characters of a reference are kept -/
theorem scan_entity {ref : Text} (h : ref.all entityChar = true) (seen : Text) :
    scan (.ref seen) ref = .ref (seen ++ ref) := by
  induction ref generalizing seen with
  | nil => rw [List.append_nil, scan_nil]
  | cons c ref ih =>
    rw [List.all_cons, Bool.and_eq_true_iff] at h
    obtain ⟨h1, -, h3, h4⟩ := entityChar_ne h.1
    have hc : next (.ref seen) c = .ref (seen ++ [c]) := by
      rw [next, if_neg h3, if_neg (not_or.2 ⟨h1, h4⟩)]
    rw [scan_cons, hc, ih h.2, List.append_assoc, List.singleton_append]

theorem scan_ref {ref : Text} (h : isEntity ref = true) (rest : Text) :
    scan .value (38 :: (ref ++ 59 :: rest)) = scan .value rest := by
  have hend : next (.ref ref) 59 = .value := by
    rw [next, if_pos rfl, if_pos h]
  have h0 : next .value 38 = .ref [] := rfl
  rw [scan_cons, h0, scan_append, scan_entity (isEntity_chars h), List.nil_append, scan_cons, hend]

/-- behind a reference at its head a text is as escaped as the whole text -/
theorem escaped_ref {ref : Text} (h : isEntity ref = true) (rest : Text) :
    escaped (38 :: (ref ++ 59 :: rest)) = escaped rest := by
  have hplain : ∀ (cs : Text), cs.all entityChar = true →
      escaped (cs ++ 59 :: rest) = escaped rest := by
    intro cs hcs
    induction cs with
    | nil => rfl
    | cons c cs ih =>
      rw [List.all_cons, Bool.and_eq_true_iff] at hcs
      obtain ⟨h1, h2, -, h4⟩ := entityChar_ne hcs.1
      rw [List.cons_append, escaped, ih hcs.2, bne_iff_ne.2 h1, bne_iff_ne.2 h2, bne_iff_ne.2 h4]
      rfl
  have hr : isRef (ref ++ 59 :: rest) = true := isRef_iff.2 ⟨ref, rest, rfl, h⟩
  rw [escaped, hr, hplain ref (isEntity_chars h)]
  rfl

/-- what is no reference up to the quote makes the scanner fail -/
theorem scan_noRef {s : Text} (hq : (34 : UInt8) ∉ s) (seen : Text)
    (h : ∀ ref rest, s = ref ++ 59 :: rest → isEntity (seen ++ ref) = false) :
    scan (.ref seen) (s ++ [34]) = .fail := by
  induction s generalizing seen with
  | nil => rfl
  | cons c s ih =>
    rw [List.cons_append, scan_cons]
    by_cases hc : c = 59
    · have he := h [] s (by rw [hc, List.nil_append])
      rw [List.append_nil] at he
      rw [next, if_pos hc, he, if_neg Bool.false_ne_true, scan_fail]
    · by_cases hf : c = 34 ∨ c = 60
      · rw [next, if_neg hc, if_pos hf, scan_fail]
      · rw [next, if_neg hc, if_neg hf]
        apply ih (fun hm => hq (List.mem_cons_of_mem _ hm))
        intro ref rest e
        have := h (c :: ref) rest (by rw [e, List.cons_append])
        rwa [List.append_assoc, List.singleton_append]

/-- **Values between quotes**: the scanner stays between them if the value is escaped, and otherwise
it fails before the quote or at it. -/
theorem scan_quoted : ∀ {s : Text}, (34 : UInt8) ∉ s →
    scan .value (s ++ [34]) = if escaped s then .after else .fail
  | [], _ => rfl
  | c :: cs, hq => by
    have hq' : (34 : UInt8) ∉ cs := fun hm => hq (List.mem_cons_of_mem _ hm)
    have hc : c ≠ 34 := fun e => hq (e ▸ List.mem_cons_self)
    by_cases hlt : c = 60
    · rw [hlt]
      exact scan_fail _
    by_cases hamp : c = 38
    · subst hamp
      cases hr : isRef cs with
      | true =>
        obtain ⟨ref, rest, e, he⟩ := isRef_iff.1 hr
        have hrest : (34 : UInt8) ∉ rest := fun hm =>
          hq' (e ▸ List.mem_append_right _ (List.mem_cons_of_mem _ hm))
        have hlen : rest.length < cs.length := by
          rw [e, List.length_append, List.length_cons]
          omega
        rw [e, escaped_ref he, List.cons_append, List.append_assoc, List.cons_append, scan_ref he]
        exact scan_quoted hrest
      | false =>
        have hno : ∀ ref rest, cs = ref ++ 59 :: rest → isEntity ([] ++ ref) = false := by
          intro ref rest e
          by_contra he
          rw [Bool.not_eq_false, List.nil_append] at he
          rw [isRef_iff.2 ⟨ref, rest, e, he⟩] at hr
          cases hr
        have hesc : escaped (38 :: cs) = false := by
          rw [escaped, hr]
          rfl
        rw [hesc, if_neg Bool.false_ne_true]
        exact scan_noRef hq' [] hno
    · have hn : next .value c = .value := by rw [next, if_neg hc, if_neg hlt, if_neg hamp]
      have hesc : escaped (c :: cs) = escaped cs := by
        rw [escaped, bne_iff_ne.2 hlt, bne_iff_ne.2 hc, bne_iff_ne.2 hamp]
        rfl
      rw [List.cons_append, scan_cons, hn, hesc]
      exact scan_quoted hq'
termination_by s => s.length
decreasing_by
  all_goals
    rw [List.length_cons]
    omega

theorem escaped_noQuote : ∀ {s : Text}, escaped s = true → (34 : UInt8) ∉ s
  | [], _ => List.not_mem_nil
  | c :: cs, h => by
    simp only [escaped, Bool.and_eq_true, bne_iff_ne] at h
    rw [List.mem_cons, not_or]
    exact ⟨fun e => h.1.1.2 e.symm, escaped_noQuote h.2⟩

/-- a value with nothing to escape -/
theorem scan_plain {s : Text} (h : s.all plainChar = true) : scan .value s = .value := by
  apply scan_stays
  intro c hc
  have hp := List.all_eq_true.1 h c hc
  simp only [plainChar, Bool.and_eq_true, bne_iff_ne] at hp
  rw [next, if_neg hp.1.2, if_neg hp.1.1, if_neg hp.2]

/-- an escaped value and its quote -/
theorem scan_value {s : Text} (h : escaped s = true) : scan .value (s ++ [34]) = .after := by
  rw [scan_quoted (escaped_noQuote h), if_pos h]

/-- **A value without quotes** that has something to escape makes the scanner fail. -/
theorem scan_unescaped {s : Text} (hq : (34 : UInt8) ∉ s) (h : escaped s = false) :
    scan .value (s ++ [34]) = .fail := by
  rw [scan_quoted hq, h, if_neg Bool.false_ne_true]

/-- the scanner is behind the attributes of a tag -/
def behind (q : State) : Prop := q = .tag ∨ q = .after

theorem behind_blank {q : State} (h : behind q) {c : UInt8} (hc : isBlank c = true) :
    next q c = .tag := by
  have hne : c ≠ 34 ∧ c ≠ 62 ∧ c ≠ 60 := by
    refine ⟨?_, ?_, ?_⟩
    all_goals
      rintro rfl
      exact absurd hc (by decide)
  rcases h with rfl | rfl
  · rw [next, if_neg hne.1, if_neg hne.2.1, if_neg hne.2.2]
  · rw [next, hc]
    rfl

theorem scan_blanks {q : State} (h : behind q) {s : Text} (hs : s.all isBlank = true) :
    behind (scan q s) := by
  induction s generalizing q with
  | nil => exact h
  | cons c s ih =>
    rw [List.all_cons, Bool.and_eq_true_iff] at hs
    rw [scan_cons, behind_blank h hs.1]
    exact ih (Or.inl rfl) hs.2

theorem scan_blanks_ne {q : State} (h : behind q) {s : Text} (h0 : s ≠ [])
    (hs : s.all isBlank = true) : scan q s = .tag := by
  induction s generalizing q with
  | nil => exact absurd rfl h0
  | cons c s ih =>
    rw [List.all_cons, Bool.and_eq_true_iff] at hs
    rw [scan_cons, behind_blank h hs.1]
    cases s with
    | nil => rfl
    | cons d s => exact ih (Or.inl rfl) (List.cons_ne_nil d s) hs.2

theorem behind_close {q : State} (h : behind q) : next q 62 = .content := by
  rcases h with rfl | rfl <;> rfl

theorem scan_attrs {s : Text} (h : Attrs s) {q : State} (hq : behind q) : behind (scan q s) := by
  induction h generalizing q with
  | nil => exact hq
  | @cons sp name val rest h0 hs hn hv hr ih =>
    have e : scan q (sp ++ (name ++ 61 :: 34 :: (val ++ 34 :: rest))) = scan .after rest := by
      rw [scan_append, scan_blanks_ne hq h0 hs, scan_append, scan_name hn]
      show scan .value (val ++ 34 :: rest) = _
      rw [List.append_cons, scan_append, scan_value hv]
    rw [e]
    exact ih (Or.inr rfl)

/-- a tag up to its end -/
theorem scan_tag {tag attrs sp : Text} (ht : isName tag = true) (ha : Attrs attrs)
    (hs : sp.all isBlank = true) : behind (scan .content (60 :: (tag ++ (attrs ++ sp)))) := by
  have e : scan .content (60 :: (tag ++ (attrs ++ sp))) = scan (scan .tag attrs) sp := by
    show scan .tag (tag ++ (attrs ++ sp)) = _
    rw [scan_append, scan_name ht, scan_append]
  rw [e]
  exact scan_blanks (scan_attrs ha (Or.inl rfl)) hs

theorem scan_open {tag attrs sp rest : Text} (ht : isName tag = true) (ha : Attrs attrs)
    (hs : sp.all isBlank = true) :
    scan .content (60 :: (tag ++ (attrs ++ (sp ++ 62 :: rest)))) = scan .content rest := by
  have e : 60 :: (tag ++ (attrs ++ (sp ++ 62 :: rest))) =
      (60 :: (tag ++ (attrs ++ sp))) ++ 62 :: rest := by
    simp only [List.cons_append, List.append_assoc]
  rw [e, scan_append, scan_cons, behind_close (scan_tag ht ha hs)]

theorem scan_close {tag sp rest : Text} (ht : isName tag = true) (hs : sp.all isBlank = true) :
    scan .content (60 :: 47 :: (tag ++ (sp ++ 62 :: rest))) = scan .content rest := by
  show scan .tag (tag ++ (sp ++ 62 :: rest)) = _
  rw [scan_append, scan_name ht, scan_append, scan_cons,
    behind_close (scan_blanks (Or.inl rfl) hs)]

theorem scan_empty {tag attrs sp rest : Text} (ht : isName tag = true) (ha : Attrs attrs)
    (hs : sp.all isBlank = true) :
    scan .content (60 :: (tag ++ (attrs ++ (sp ++ 47 :: 62 :: rest)))) = scan .content rest := by
  have e : 60 :: (tag ++ (attrs ++ (sp ++ 47 :: 62 :: rest))) =
      (60 :: (tag ++ (attrs ++ sp))) ++ 47 :: 62 :: rest := by
    simp only [List.cons_append, List.append_assoc]
  rw [e, scan_append]
  rcases scan_tag ht ha hs with h | h
  all_goals
    rw [h]
    rfl

/-- **The scanner** gets through well-formed content. -/
theorem scan_content {s : Text} (h : Content s) : scan .content s = .content := by
  induction h with
  | nil => rfl
  | char hc hr ih =>
    simp only [textChar, Bool.and_eq_true, bne_iff_ne] at hc
    rw [scan_cons, next, if_neg hc.1]
    exact ih
  | elem ht ha hs hb hs' hr ihb ihr =>
    rw [scan_open ht ha hs, scan_append, ihb, scan_close ht hs', ihr]
  | empty ht ha hs hr ih => rw [scan_empty ht ha hs, ih]

end Xml
