import MuF.Parser.History
import MuF.Codegen.Invariant

/-!
# The symbol tables that the parser makes

* `Entry`: what is true of every name in the table and its symbol;
* `ParserContext.Tabled`: a table of such entries, each name once;
* `Outermost`: sequences in which functions begin at the outermost level only;
* **`parse_parsed`**: whatever is declared, the table is one that code can be generated with.
-/

set_option linter.unusedVariables false

namespace MuF

open Exec

/-! ## entries -/

/-- a name in the table with its symbol -/
structure Entry (key : Str) (sym : Symbol) : Prop where
  keyed : sym.scopedName = key
  joined : key = sym.scopeName ++ sym.name
  fresh : sym.addr = none
  real : sym.isTmp = false
  outermost : sym.ty = .func → ¬ scopeSep <:+: key

/-- a change of a symbol that its entry allows -/
structure Symbol.Keeps (f : Symbol → Symbol) : Prop where
  name : ∀ sym, (f sym).name = sym.name
  scopedName : ∀ sym, (f sym).scopedName = sym.scopedName
  scopeName : ∀ sym, (f sym).scopeName = sym.scopeName
  addr : ∀ sym, (f sym).addr = sym.addr
  isTmp : ∀ sym, (f sym).isTmp = sym.isTmp
  ty : ∀ sym, (f sym).ty = .func → sym.ty = .func

section
variable {f : Symbol → Symbol} {key name scope : Str} {sym : Symbol} {T : SymTab}

theorem Entry.changed (hf : Symbol.Keeps f) (h : Entry key sym) : Entry key (f sym) := by
  refine ⟨?_, ?_, ?_, ?_, fun ht => h.outermost (hf.ty sym ht)⟩
  · rw [hf.scopedName, h.keyed]
  · rw [hf.scopeName, hf.name]
    exact h.joined
  · rw [hf.addr, h.fresh]
  · rw [hf.isTmp, h.real]

/-- a table of entries, each name once -/
structure SymTab.Tabled (T : SymTab) : Prop where
  keys : (T.map Prod.fst).Nodup
  entries : ∀ p ∈ T, Entry p.1 p.2

theorem SymTab.Tabled.modify (hf : Symbol.Keeps f) (h : T.Tabled) : (T.modify name f).Tabled := by
  unfold SymTab.modify
  refine ⟨?_, fun p hp => ?_⟩
  · have e : (T.map fun p => if p.1 = name then (p.1, f p.2) else p).map Prod.fst =
        T.map Prod.fst := by
      rw [List.map_map]
      refine List.map_congr_left fun p _ => ?_
      simp only [Function.comp_apply]
      split <;> rfl
    rw [e]
    exact h.keys
  · obtain ⟨q, hq, rfl⟩ := List.mem_map.1 hp
    split
    · exact (h.entries q hq).changed hf
    · exact h.entries q hq

theorem SymTab.Tabled.append (h : T.Tabled) (hn : T.findSymbol key = none) (he : Entry key sym) :
    SymTab.Tabled (T ++ [(key, sym)]) := by
  refine ⟨?_, fun p hp => ?_⟩
  · rw [List.map_append, List.map_singleton, List.nodup_append]
    refine ⟨h.keys, List.nodup_cons.2 ⟨List.not_mem_nil, List.nodup_nil⟩, fun a ha b hb => ?_⟩
    rw [List.mem_singleton] at hb
    rintro rfl
    obtain ⟨p, hp, rfl⟩ := List.mem_map.1 ha
    have := List.lookup_eq_none_iff.1 hn p hp
    rw [hb] at this
    simp at this
  · rcases List.mem_append.1 hp with hp | hp
    · exact h.entries p hp
    · rw [List.mem_singleton.1 hp]
      exact he

theorem SymTab.Tabled.addSymbol {ty : SymbolType} {dims : List Nat} (h : T.Tabled) (hty : ty ≠ .func) :
    (T.addSymbol scope name ty dims).2.Tabled := by
  unfold SymTab.addSymbol
  dsimp only
  split
  · exact h
  · split
    · exact h
    · next hn =>
      rw [Bool.not_eq_true, Option.isSome_eq_false_iff, Option.isNone_iff_eq_none] at hn
      exact h.append hn ⟨rfl, rfl, rfl, rfl, fun ht => absurd ht hty⟩

theorem SymTab.Tabled.addFunc {retty : SymbolType} {argty : List SymbolType}
    {retdims : Option (List Nat)} {rettypes : Option (List SymbolType)} {e r : Bool} (h : T.Tabled)
    (hn : ¬ scopeSep <:+: scope ++ name) :
    (T.addFunc scope name retty argty retdims rettypes e r).2.Tabled := by
  unfold SymTab.addFunc
  dsimp only
  split
  · exact h
  · next hf =>
    rw [Bool.not_eq_true, Option.isSome_eq_false_iff, Option.isNone_iff_eq_none] at hf
    exact h.append hf ⟨rfl, rfl, rfl, rfl, fun _ => hn⟩

/-- such a table is one that code can be generated with -/
theorem SymTab.Tabled.parsed (h : T.Tabled) : T.Parsed := by
  have hmem (name : Str) (sym : Symbol) (hs : T.findSymbol name = some sym) : Entry name sym :=
    h.entries (name, sym) (lookup_mem hs)
  exact ⟨fun name sym hs => (hmem name sym hs).keyed, fun name sym hs => (hmem name sym hs).fresh,
    fun name sym hs ht => (hmem name sym hs).outermost ht⟩

end

/-! ## declarations -/

/-- no function is declared as a variable, and the table is one of entries -/
structure ParserContext.Tabled (c : ParserContext) : Prop where
  ty : c.symtype ≠ .func
  table : c.symbols.Tabled

/-- the scope stays, and so does what is true of the table -/
def KeepsTable (c c' : ParserContext) : Prop := c'.curscope = c.curscope ∧ (c.Tabled → c'.Tabled)

instance : Std.Refl KeepsTable := ⟨fun c => ⟨rfl, id⟩⟩

instance : IsTrans ParserContext KeepsTable :=
  ⟨fun a b c h1 h2 => ⟨h2.1.trans h1.1, fun h => h2.2 (h1.2 h)⟩⟩

section
variable {f : Symbol → Symbol}

theorem modifySym_table (hf : Symbol.Keeps f) (c : ParserContext) (key : Str) :
    KeepsTable c (c.modifySym key f) := ⟨rfl, fun h => ⟨h.ty, h.table.modify hf⟩⟩

theorem writeErr_table (msg : String) : Keeps KeepsTable (PM.writeErr msg) := by
  intro c u c' h
  cases h
  exact ⟨rfl, fun h => ⟨h.ty, h.table⟩⟩

theorem deref_table {α : Type} (x : Option α) : Keeps KeepsTable (PM.deref x) := by
  cases x with
  | none => exact Keeps.throw _
  | some a => exact Keeps.pure a

theorem setArgType_table (sym : Symbol) : Keeps KeepsTable (setArgType sym) := by
  refine Keeps.bind Keeps.get fun c => ?_
  dsimp only
  cases c.symbols.findSymbol (c.getScopeName 0 false) with
  | none => exact Keeps.bind (writeErr_table _) fun _ => Keeps.pure _
  | some func =>
    refine Keeps.ite (Keeps.bind (writeErr_table _) fun _ => Keeps.pure _) ?_
    refine Keeps.bind ?_ fun _ => Keeps.pure _
    intro s u s' h
    cases h
    refine modifySym_table ?_ _ _
    exact ⟨fun _ => rfl, fun _ => rfl, fun _ => rfl, fun _ => rfl, fun _ => rfl, fun _ => id⟩

theorem addNewSymbol_table (scope name : Str) : Keeps KeepsTable (addNewSymbol scope name) := by
  intro c r c' h
  cases h
  exact ⟨rfl, fun h => ⟨h.ty, h.table.addSymbol h.ty⟩⟩

theorem addScopedSymbol_table (name : Str) : Keeps KeepsTable (addScopedSymbol name) := by
  intro c r c' h
  obtain ⟨c1, s1, h1, h⟩ := bind_eq_ok.1 h
  cases h1
  dsimp only at h
  split at h
  · next sym hf =>
    split at h
    · cases h
      exact ⟨rfl, id⟩
    · obtain ⟨_, c2, h2, h⟩ := bind_eq_ok.1 h
      cases h2
      have h12 : KeepsTable c (c.modifySym (c.getScopeName ++ name) fun sym =>
          { sym with ty := c.symtype, dims := c.symdims }) := by
        refine ⟨rfl, fun ht => (modifySym_table ?_ _ _).2 ht⟩
        exact ⟨fun _ => rfl, fun _ => rfl, fun _ => rfl, fun _ => rfl, fun _ => rfl,
          fun _ he => (ht.ty he).elim⟩
      split at h
      · obtain ⟨ok, c3, h3, h⟩ := bind_eq_ok.1 h
        cases h
        exact IsTrans.trans _ _ _ h12 (setArgType_table _ _ _ _ h3)
      · cases h
        exact h12
  · exact addNewSymbol_table _ _ _ _ _ h

theorem addVariable_table (name : Str) (lst : Node) : Keeps KeepsTable (addVariable name lst) := by
  refine Keeps.bind (addScopedSymbol_table name) fun r => ?_
  cases r with
  | none => exact Keeps.pure _
  | some sym =>
    refine Keeps.bind (check_keeps sym).of_eq fun conflict => Keeps.ite (Keeps.pure _) ?_
    exact Keeps.bind (deref_table _) fun _ => Keeps.pure _

/-- the calls of a rule's action -/
theorem runRule_table {act : Action} (ha : ∀ b args, Keeps KeepsTable (act b args)) :
    ∀ (syms : List (PM Node)) (done : List Node), (∀ sym ∈ syms, Keeps KeepsTable sym) →
      Keeps KeepsTable (runRule act done syms)
  | [], done, _ => ha true done
  | [sym], done, h => Keeps.bind (h sym List.mem_cons_self) fun _ => ha _ _
  | sym :: sym' :: syms, done, h =>
    Keeps.bind (h sym List.mem_cons_self) fun _ => Keeps.bind (ha _ _) fun _ =>
      runRule_table ha (sym' :: syms) _ fun s hs => h s (List.mem_cons_of_mem _ hs)

theorem declIntent_table (vars options : Node) : Keeps KeepsTable (declIntent vars options) :=
  (declIntent_keeps vars options).of_eq

theorem setSymType_table {ty : SymbolType} (hty : ty ≠ .func) : Keeps KeepsTable (setSymType ty) := by
  intro c u c' h
  cases h
  exact ⟨rfl, fun h => ⟨hty, h.table⟩⟩

theorem setSymDims_table (dims : List Nat) : Keeps KeepsTable (setSymDims dims) := by
  intro c u c' h
  cases h
  exact ⟨rfl, fun h => ⟨h.ty, h.table⟩⟩

/-- the actions of the declaration rules -/
theorem Form.action_table (form : Form) (b : Bool) (args : List Node) :
    Keeps KeepsTable (form.action b args) := by
  have scalar (ty : SymbolType) (hty : ty ≠ .func) : Keeps KeepsTable (scalarDecl ty b args) :=
    Keeps.bind (Keeps.onlyIf (setSymType_table hty)) fun _ =>
      Keeps.ite (Keeps.pure _) (declIntent_table _ _)
  have array (ty : SymbolType) (hty : ty ≠ .func) : Keeps KeepsTable (arrayDecl ty b args) := by
    refine Keeps.bind (Keeps.onlyIf ?_) fun _ => Keeps.ite (Keeps.pure _) (declIntent_table _ _)
    exact Keeps.bind (deref_table _) fun _ => Keeps.bind (setSymType_table hty) fun _ =>
      setSymDims_table _
  have string (x : PM PUnit) (hx : Keeps KeepsTable x) (n m k : Nat) : Keeps KeepsTable (do
      onlyIf (args.length = n) x
      if !b then pure .null else declIntent (argNode args m) (argNode args k) : PM Node) :=
    Keeps.bind (Keeps.onlyIf hx) fun _ => Keeps.ite (Keeps.pure _) (declIntent_table _ _)
  have dims (dim : Nat) : Keeps KeepsTable (setSymType .string >>= fun _ => setSymDim dim) :=
    Keeps.bind (setSymType_table (by decide)) fun _ => setSymDims_table [dim]
  cases form with
  | int | real | cplx | quat | bool => exact scalar _ (by decide)
  | intArray _ _ | realArray _ _ | cplxArray _ | quatArray _ => exact array _ (by decide)
  | str => exact string _ (dims _) 3 3 1
  | strDim _ => exact string _ (Keeps.bind (deref_table _) fun _ => dims _) 6 8 6

theorem parseVariables_table : ∀ vs : VarList, Keeps KeepsTable (parseVariables vs)
  | .one name => by
    refine runRule_table (fun b args => ?_) _ _ fun sym hs => ?_
    · exact Keeps.ite (Keeps.pure _) (Keeps.bind (deref_table _) fun _ => addVariable_table _ _)
    · rw [List.mem_singleton.1 hs]
      exact Keeps.pure _
  | .assign name term => by
    refine runRule_table (fun b args => ?_) _ _ fun sym hs => ?_
    · exact Keeps.ite (Keeps.pure _) (Keeps.bind (deref_table _) fun _ =>
        Keeps.bind (deref_table _) fun _ => addVariable_table _ _)
    · simp only [List.mem_cons, List.not_mem_nil, or_false] at hs
      rcases hs with rfl | rfl | rfl <;> exact Keeps.pure _
  | .more name vs => by
    have ih := parseVariables_table vs
    refine runRule_table (fun b args => ?_) _ _ fun sym hs => ?_
    · exact Keeps.ite (Keeps.pure _) (Keeps.bind (deref_table _) fun _ => addVariable_table _ _)
    · simp only [List.mem_cons, List.not_mem_nil, or_false] at hs
      rcases hs with rfl | rfl | rfl
      · exact Keeps.pure _
      · exact Keeps.pure _
      · exact ih

theorem intConstants_table (dim : Int64) (dims : List Int64) :
    Keeps KeepsTable (intConstants dim dims) := by
  intro c node c' h
  rw [intConstants_run] at h
  cases h
  exact Std.Refl.refl c

theorem optIntent_table (i : Option Intent) : Keeps KeepsTable (optIntent i) := by
  intro c node c' h
  rcases i with - | - | - <;> cases h <;> exact Std.Refl.refl c

theorem Form.sibling_table {form : Form} {act : Action} (h : form.sibling = some act) :
    ∀ b args, Keeps KeepsTable (act b args) := by
  cases form <;> cases h
  · exact (Form.intArray 0 []).action_table
  · exact (Form.realArray 0 []).action_table
  · exact (Form.cplxArray 0).action_table
  · exact (Form.quatArray 0).action_table
  · exact Form.int.action_table
  · exact Form.real.action_table
  · exact Form.cplx.action_table
  · exact Form.quat.action_table
  · exact (Form.strDim 0).action_table
  · exact Form.str.action_table

theorem Form.bracket_table {form : Form} {dims : PM Node} (h : form.bracket = some dims) :
    Keeps KeepsTable dims := by
  cases form <;> cases h <;> first | exact intConstants_table _ _ | exact Keeps.pure _

/-- **A declaration.** -/
theorem declare_table (shared : Bool) (d : Decl) : Keeps KeepsTable (declare shared d) := by
  have hfirst : Keeps KeepsTable (firstSymbol shared d.form.sibling) := by
    unfold firstSymbol
    cases h : d.form.sibling with
    | none => exact Keeps.bind (Keeps.pure _) fun _ => Keeps.pure _
    | some act =>
      refine Keeps.bind (Keeps.onlyIf ?_) fun _ => Keeps.pure _
      exact Keeps.bind (Form.sibling_table h _ _) fun _ => Keeps.pure _
  refine runRule_table d.form.action_table _ _ fun sym hs => ?_
  unfold Decl.syms at hs
  split at hs
  · simp only [List.mem_cons, List.not_mem_nil, or_false] at hs
    rcases hs with rfl | rfl | rfl | rfl
    · exact hfirst
    · exact optIntent_table _
    · exact Keeps.pure _
    · exact parseVariables_table _
  · next dims hd =>
    simp only [List.mem_cons, List.not_mem_nil, or_false] at hs
    rcases hs with rfl | rfl | rfl | rfl | rfl | rfl | rfl | rfl | rfl
    · exact hfirst
    · exact Keeps.pure _
    · exact Keeps.pure _
    · exact Keeps.pure _
    · exact Form.bracket_table hd
    · exact Keeps.pure _
    · exact optIntent_table _
    · exact Keeps.pure _
    · exact parseVariables_table _

/-! ## functions -/

theorem registerSyms_table (mark : Nat → Symbol → Symbol) (hm : ∀ idx, Symbol.Keeps (mark idx)) :
    ∀ (names : List Str) (idx : Nat), Keeps KeepsTable (registerSyms mark idx names)
  | [], _ => Keeps.pure _
  | name :: names, idx => by
    refine Keeps.bind (addScopedSymbol_table name) fun r => Keeps.bind (deref_table r) fun sym => ?_
    refine Keeps.bind (Keeps.onlyIf ?_) fun _ => registerSyms_table mark hm names (idx + 1)
    intro c u c' h
    cases h
    exact modifySym_table (hm idx) _ _

theorem updateTypes_table (what : String) (isOf : Symbol → Bool) (idxOf : Symbol → Nat)
    (tysOf : Symbol → List SymbolType) {setTys : List SymbolType → Symbol → Symbol}
    (hset : ∀ tys, Symbol.Keeps (setTys tys)) (funcName : Str) :
    ∀ idents : List Str, Keeps KeepsTable (updateTypes what isOf idxOf tysOf setTys funcName idents)
  | [] => Keeps.pure _
  | ident :: idents => by
    unfold updateTypes
    refine Keeps.bind Keeps.get fun c => ?_
    cases (c.findScopedSymbol ident).filter isOf with
    | none => exact writeErr_table _
    | some sym =>
      refine Keeps.bind (deref_table _) fun func => Keeps.ite (Keeps.throw _) (Keeps.bind ?_ fun _ =>
        updateTypes_table what isOf idxOf tysOf hset funcName idents)
      intro s u s' h
      cases h
      exact modifySym_table (hset _) _ _

theorem updateFuncArgTypes_table (args : List Str) (funcName : Str) :
    Keeps KeepsTable (updateFuncArgTypes args funcName) := by
  refine Keeps.bind Keeps.get fun c => ?_
  cases c.findGlobalSymbol funcName with
  | none => exact Keeps.throw _
  | some func =>
    refine Keeps.ite (Keeps.throw _) (updateTypes_table _ _ _ _ (fun _ => ?_) _ _)
    exact ⟨fun _ => rfl, fun _ => rfl, fun _ => rfl, fun _ => rfl, fun _ => rfl, fun _ => id⟩

theorem updateFuncRetTypes_table (rets : List Str) (funcName : Str) :
    Keeps KeepsTable (updateFuncRetTypes rets funcName) := by
  refine Keeps.bind Keeps.get fun c => ?_
  cases c.findGlobalSymbol funcName with
  | none => exact Keeps.throw _
  | some func =>
    refine Keeps.ite (Keeps.throw _) (updateTypes_table _ _ _ _ (fun _ => ?_) _ _)
    exact ⟨fun _ => rfl, fun _ => rfl, fun _ => rfl, fun _ => rfl, fun _ => rfl, fun _ => id⟩

/-- functions begin at the outermost level, with names in which no scope ends -/
def Outermost (scope : List Str) : List DeclItem → Prop
  | [] => True
  | .beginFunc h :: items => (scope = [] ∧ ¬ scopeSep <:+: h.name) ∧ Outermost (scope ++ [h.name]) items
  | item :: items => Outermost (item.scope scope) items

theorem beginFunc_table {c c' : ParserContext} {h : Header} (hs : c.curscope = [])
    (hn : ¬ scopeSep <:+: h.name) (hr : (beginFunc h).run c = .ok ⟨⟩ c') :
    c'.curscope = [h.name] ∧ (c.Tabled → c'.Tabled) := by
  unfold beginFunc at hr
  obtain ⟨_, c1, h1, hr⟩ := bind_eq_ok.1 hr
  cases h1
  obtain ⟨_, c2, h2, hr⟩ := bind_eq_ok.1 hr
  obtain ⟨_, c3, h3, hr⟩ := bind_eq_ok.1 hr
  have k2 := registerSyms_table markArg (fun _ => ⟨fun _ => rfl, fun _ => rfl, fun _ => rfl,
    fun _ => rfl, fun _ => rfl, fun _ => id⟩) h.args 0 _ _ _ h2
  have k3 := registerSyms_table markRet (fun _ => ⟨fun _ => rfl, fun _ => rfl, fun _ => rfl,
    fun _ => rfl, fun _ => rfl, fun _ => id⟩) (h.rets.getD []) 0 _ _ _ h3
  have k := IsTrans.trans _ _ _ k2 k3
  have hcur : c3.curscope = [h.name] := by
    rw [k.1]
    show c.curscope ++ [h.name] = _
    rw [hs]
    rfl
  rw [run_get_bind] at hr
  obtain ⟨_, c4, h4, hr⟩ := bind_eq_ok.1 hr
  have k4 := Keeps.onlyIf (R := KeepsTable) (writeErr_table _) _ _ _ h4
  cases hr
  refine ⟨k4.1.trans hcur, fun ht => ?_⟩
  have ht3 : c3.Tabled := k.2 ⟨ht.ty, ht.table⟩
  refine ⟨(k4.2 ht3).ty, ht3.table.addFunc ?_⟩
  -- the function is registered in the scope around its own one
  have hscope : c3.getScopeName 1 = [] := by
    unfold ParserContext.getScopeName
    rw [hcur]
    rfl
  rw [hscope]
  exact hn

theorem endFunc_table {c c' : ParserContext} {h : Header} (hr : (endFunc h).run c = .ok ⟨⟩ c') :
    c'.curscope = c.curscope.dropLast ∧ (c.Tabled → c'.Tabled) := by
  unfold endFunc at hr
  rw [run_get_bind] at hr
  obtain ⟨_, c1, h1, hr⟩ := bind_eq_ok.1 hr
  have k1 := updateFuncArgTypes_table _ _ _ _ _ h1
  obtain ⟨c2, k2, hr⟩ : ∃ c2, KeepsTable c1 c2 ∧ (leaveScope h.name).run c2 = .ok ⟨⟩ c' := by
    revert hr
    cases h.rets with
    | none => exact fun hr => ⟨c1, Std.Refl.refl _, hr⟩
    | some rets =>
      intro hr
      obtain ⟨_, c2, h2, hr⟩ := bind_eq_ok.1 hr
      exact ⟨c2, updateFuncRetTypes_table _ _ _ _ _ h2, hr⟩
  have k := IsTrans.trans _ _ _ k1 k2
  obtain ⟨cerr, rfl⟩ := leaveScope_spec hr
  exact ⟨congrArg List.dropLast k.1, fun ht => ⟨(k.2 ht).ty, (k.2 ht).table⟩⟩

/-- **Sequences** of declarations and functions. -/
theorem parse_tabled {shared : Bool} : ∀ {items : List DeclItem} {c c' : ParserContext}, c.Tabled →
    Outermost c.curscope items → (parse shared items).run c = .ok ⟨⟩ c' → c'.Tabled
  | [], c, c', ht, _, h => by
    cases h
    exact ht
  | .decl d :: items, c, c', ht, ho, h => by
    obtain ⟨_, c1, h1, h⟩ := bind_eq_ok.1 h
    obtain ⟨node, c2, h1, h2⟩ := bind_eq_ok.1 h1
    cases h2
    have k := declare_table shared d _ _ _ h1
    have ho : Outermost c1.curscope items := by
      rw [k.1]
      exact ho
    exact parse_tabled (k.2 ht) ho h
  | .beginFunc hd :: items, c, c', ht, ho, h => by
    obtain ⟨_, c1, h1, h⟩ := bind_eq_ok.1 h
    obtain ⟨⟨hs, hn⟩, ho⟩ := ho
    have k := beginFunc_table hs hn h1
    have ho : Outermost c1.curscope items := by
      rw [k.1]
      rwa [hs] at ho
    exact parse_tabled (k.2 ht) ho h
  | .endFunc hd :: items, c, c', ht, ho, h => by
    obtain ⟨_, c1, h1, h⟩ := bind_eq_ok.1 h
    have k := endFunc_table h1
    have ho : Outermost c1.curscope items := by
      rw [k.1]
      exact ho
    exact parse_tabled (k.2 ht) ho h

end

/-- **The symbol table of a program.**  Whatever is declared, in functions and outside of them, each
name is in the table once, under the name that its symbol has, without an address, and functions are
at the outermost level. -/
theorem parse_parsed {shared : Bool} {items : List DeclItem} {c0 c : ParserContext} (h0 : c0.Tabled)
    (hs : c0.curscope = []) (ho : Outermost [] items) (h : (parse shared items).run c0 = .ok ⟨⟩ c) :
    c.symbols.Parsed ∧ (c.symbols.map Prod.fst).Nodup ∧
      ∀ p ∈ c.symbols, p.1 = p.2.scopeName ++ p.2.name ∧ p.2.isTmp = false := by
  have ht := parse_tabled h0 (by rw [hs]; exact ho) h
  exact ⟨ht.table.parsed, ht.table.keys, fun p hp =>
    ⟨(ht.table.entries p hp).joined, (ht.table.entries p hp).real⟩⟩

/-- the constructed state -/
theorem tabled_empty : ({} : ParserContext).Tabled :=
  ⟨by decide, List.nodup_nil, fun p hp => absurd hp List.not_mem_nil⟩

/-- a function with an argument, a result and a variable, behind a variable of the same name as the
argument -/
def funcItems : List DeclItem :=
  let h : Header := ⟨false, ascii "f", [ascii "u"], some [ascii "r"]⟩
  [.decl ⟨.int, none, .one (ascii "u")⟩, .beginFunc h,
    .decl ⟨.real, none, .more (ascii "u") (.one (ascii "r"))⟩,
    .decl ⟨.intArray 2 [], none, .one (ascii "v")⟩, .endFunc h]

/-- the actions finish -/
def finishes (shared : Bool) (items : List DeclItem) : Bool :=
  match (parse shared items).run {} with
  | .ok _ _ => true
  | .error _ _ => false

theorem run_stateAfter {shared : Bool} {items : List DeclItem} (h : finishes shared items = true) :
    (parse shared items).run {} = .ok ⟨⟩ (stateAfter shared items) := by
  unfold finishes at h
  unfold stateAfter
  split at h
  · next e => rw [e]
  · cases h

theorem parse_parsed_func : (stateAfter true funcItems).symbols.map Prod.fst =
      [ascii "u", ascii "f::u", ascii "f::r", ascii "f", ascii "f::v"] ∧
    (stateAfter true funcItems).symbols.Parsed := by
  have hrun := run_stateAfter (show finishes true funcItems = true by decide +kernel)
  have ho : Outermost [] funcItems := ⟨⟨rfl, by decide +kernel⟩, trivial⟩
  exact ⟨by decide +kernel, (parse_parsed tabled_empty rfl ho hrun).1⟩

end MuF
