import MuF.Parser.Declared

/-!
# Sequences of declarations

* `DeclItem.keys`, `DeclItem.dims`: the names that an item declares, and the dimensions that it
  leaves behind; `Touched` is what the actions of an item do;
* `parse_touched`: what the actions of a sequence keep;
* `DeclaresOwn`, `declaresOwn_iff`: a declaration gives its names its own type and dimensions,
  whatever comes after it, exactly if no dimensions are left over from the statements before it.
-/

set_option linter.unusedVariables false

namespace MuF

open Exec

/-- the scope after an item -/
def DeclItem.scope (scope : List Str) : DeclItem → List Str
  | .decl _ => scope
  | .beginFunc h => scope ++ [h.name]
  | .endFunc _ => scope.dropLast

/-- the scoped names that an item declares -/
def DeclItem.keys (scope : List Str) : DeclItem → List Str
  | .decl d => d.vars.names.map (scope.flatMap (· ++ scopeSep) ++ ·)
  | .beginFunc h =>
    (h.args ++ h.rets.getD []).map ((scope ++ [h.name]).flatMap (· ++ scopeSep) ++ ·)
  | .endFunc _ => []

/-- the scoped names that a sequence declares -/
def declaredKeys (scope : List Str) : List DeclItem → List Str
  | [] => []
  | item :: items => item.keys scope ++ declaredKeys (item.scope scope) items

/-- the dimensions that an item leaves in the parser state: a scalar's declaration leaves the
earlier ones -/
def DeclItem.dims (dims : List Nat) : DeclItem → List Nat
  | .decl d => if d.form.isScalar then dims else d.form.dims
  | _ => dims

/-- the stated dimensions of an item are positive -/
def DeclItem.Positive : DeclItem → Prop
  | .decl d => d.form.Positive
  | _ => True

/-- what the actions of an item do -/
structure Touched (item : DeclItem) (c c' : ParserContext) : Prop where
  scope : c'.curscope = item.scope c.curscope
  dims : c'.symdims = item.dims c.symdims
  ty : c.symtype ≠ .func → c'.symtype ≠ .func
  plain : c.Plain → c'.Plain
  entry : ∀ key ∉ item.keys c.curscope, (c.entry key).isSome → c'.entry key = c.entry key

section
variable {c c' : ParserContext}

theorem key_eq (c : ParserContext) (name : Str) :
    c.key name = c.curscope.flatMap (· ++ scopeSep) ++ name := by
  unfold ParserContext.key ParserContext.getScopeName
  rw [if_pos rfl, Nat.sub_zero, List.take_length]

theorem form_ty_ne (f : Form) : f.ty ≠ .func := by
  intro h
  cases f <;> cases h

theorem declIntent_keeps (vars options : Node) : Keeps Eq (declIntent vars options) := by
  unfold declIntent PM.deref
  refine Keeps.ite (Keeps.pure _) (Keeps.bind ?_ fun _ => Keeps.bind ?_ fun _ => Keeps.pure _)
  · cases options.asMisc with
    | none => exact Keeps.throw _
    | some m => exact Keeps.pure _
  · cases vars.asVarDecl with
    | none => exact Keeps.throw _
    | some v => exact Keeps.pure _

/-- a finished declaration: its names are declared in the state that it sets -/
theorem declare_declared {shared : Bool} {d : Decl} {node : Node} (hpos : d.form.Positive)
    (h : (declare shared d).run c = .ok node c') :
    d.form.isCplxArray = false ∧
      Declared (d.vars.names.map c.key) (d.form.enter c) c' := by
  have hb : d.form.isCplxArray = false := by
    rw [← Bool.not_eq_true]
    intro hb
    obtain ⟨c1, h1⟩ := declare_cplxArray shared d hb c
    rw [h1] at h
    cases h
  rw [declare_run shared d hb hpos] at h
  obtain ⟨node', c1, h1, h2⟩ := bind_eq_ok.1 h
  cases declIntent_keeps _ _ _ _ _ h2
  exact ⟨hb, ((variables_registers d.vars (d.form.enter c) (form_ty_ne d.form)).declared
    node' _ h1).1⟩

theorem decl_touched {shared : Bool} {d : Decl} {node : Node} (hpos : d.form.Positive)
    (h : (declare shared d).run c = .ok node c') : Touched (.decl d) c c' := by
  obtain ⟨hb, hd⟩ := declare_declared hpos h
  refine ⟨hd.scope, hd.dims, fun _ => ?_, hd.plain, fun key hk _ => ?_⟩
  · rw [hd.ty]
    exact form_ty_ne d.form
  · refine hd.old key (.inl fun hm => hk ?_)
    obtain ⟨name, hn, rfl⟩ := List.mem_map.1 hm
    rw [key_eq]
    exact List.mem_map_of_mem hn

/-! ### the begin of a function -/

theorem registerSyms_declared (mark : Nat → Symbol → Symbol) (names : List Str)
    (hmark : ∀ idx sym, (mark idx sym).ty = sym.ty ∧ (mark idx sym).dims = sym.dims)
    (htmp : ∀ idx sym, (mark idx sym).isTmp = sym.isTmp) :
    ∀ (idx : Nat) (c : ParserContext), c.symtype ≠ .func →
      (registerSyms mark idx names).run c = .ok ⟨⟩ c' → Declared (names.map c.key) c c' := by
  induction names with
  | nil =>
    intro idx c hty h
    cases h
    exact Declared.refl _
  | cons name names ih =>
    intro idx c hty h
    obtain ⟨r, c1, hr, hd, -⟩ := addScopedSymbol_spec name c hty
    have e : (registerSyms mark idx (name :: names)) =
        addScopedSymbol name >>= fun r => PM.deref r >>= fun sym =>
          onlyIf (!sym.isTmp) (modify fun c => c.modifySym sym.scopedName (mark idx)) >>= fun _ =>
            registerSyms mark (idx + 1) names := (rfl)
    rw [e, bind_ok hr] at h
    cases r with
    | none => cases h
    | some sym =>
      obtain ⟨u, c2, h2, h3⟩ := bind_eq_ok.1 ((bind_ok (run_pure sym c1)).symm.trans h)
      have hd2 : Declared [] c1 c2 := by
        revert h2
        cases !sym.isTmp
        · intro h2
          cases h2
          exact Declared.refl _
        · intro h2
          cases h2
          exact Declared.of_entry rfl rfl rfl (plain_modifySym _ (htmp idx))
            fun key => entry_modifySym_same _ _ (hmark idx)
      have hd12 := hd.trans hd2 hty
      have hd3 := ih (idx + 1) c2 (by rw [hd12.ty]; exact hty) h3
      have hk : names.map c2.key = names.map c.key :=
        List.map_congr_left fun n _ => hd12.key_eq n
      rw [hk] at hd3
      exact hd12.trans hd3 hty

/-- a function is entered under a new name only -/
theorem addFunc_find (tab : SymTab) (scope name : Str) (retty : SymbolType)
    (argty : List SymbolType) (retdims : Option (List Nat)) (rettypes : Option (List SymbolType))
    (e r : Bool) (key : Str) :
    ((tab.addFunc scope name retty argty retdims rettypes e r).2.findSymbol key =
        tab.findSymbol key) ∨
      (tab.findSymbol key = none ∧ ∃ sym : Symbol, sym.isTmp = false ∧
        (tab.addFunc scope name retty argty retdims rettypes e r).2.findSymbol key = some sym) := by
  unfold SymTab.addFunc
  dsimp only
  split
  · exact .inl rfl
  · rename_i hn
    rw [findSymbol_append]
    by_cases hk : key = scope ++ name
    · rw [if_pos hk, hk]
      rw [Bool.not_eq_true, Option.isSome_eq_false_iff, Option.isNone_iff_eq_none] at hn
      rw [hn]
      exact .inr ⟨rfl, _, rfl, rfl⟩
    · rw [if_neg hk, Option.or_none]
      exact .inl rfl

theorem beginFunc_touched {h : Header} (hty : c.symtype ≠ .func)
    (hr : (beginFunc h).run c = .ok ⟨⟩ c') : Touched (.beginFunc h) c c' := by
  unfold beginFunc at hr
  obtain ⟨_, c2, h2, hr⟩ := bind_eq_ok.1 ((bind_ok (run_modify _ c)).symm.trans hr)
  obtain ⟨_, c3, h3, hr⟩ := bind_eq_ok.1 hr
  have hd2 := registerSyms_declared markArg h.args (fun _ _ => ⟨rfl, rfl⟩)
    (fun _ _ => rfl) 0 { c with curscope := c.curscope ++ [h.name] } hty h2
  have hty2 : c2.symtype ≠ .func := by rw [hd2.ty]; exact hty
  have hd3 := registerSyms_declared markRet (h.rets.getD []) (fun _ _ => ⟨rfl, rfl⟩)
    (fun _ _ => rfl) 0 c2 hty2 h3
  have hk : (h.rets.getD []).map c2.key =
      (h.rets.getD []).map ({ c with curscope := c.curscope ++ [h.name] } : ParserContext).key :=
    List.map_congr_left fun n _ => hd2.key_eq n
  rw [hk] at hd3
  have hd := hd2.trans hd3 hty
  rw [run_get_bind] at hr
  obtain ⟨_, c4, h4, h5⟩ := bind_eq_ok.1 hr
  have hd4 : Declared [] c3 c4 ∧ c4.symbols = c3.symbols := by
    revert h4
    generalize (!(SymTab.addFunc _ _ _ _ _ _ _ _ _).1.isSome) = cond
    cases cond
    · intro h4
      cases h4
      exact ⟨Declared.refl _, rfl⟩
    · intro h4
      cases h4
      exact ⟨Declared.of_entry rfl rfl rfl id fun _ => rfl, rfl⟩
  cases h5
  have find := addFunc_find c3.symbols (c3.getScopeName 1) h.name
    (if h.rets.isSome then SymbolType.comp else .void) (h.args.map fun _ => .unknown) none
    (h.rets.map fun rets => rets.map fun _ => .unknown) false h.recursive
  refine ⟨hd4.1.scope.trans hd.scope, hd4.1.dims.trans hd.dims, fun _ => ?_, fun hp => ?_,
    fun key hk hs => ?_⟩
  · show c4.symtype ≠ _
    rw [hd4.1.ty, hd.ty]
    exact hty
  · intro key sym hs
    rcases find key with hf | ⟨-, sym', ht, hf⟩
    · exact hd.plain hp key sym (hf.symm.trans hs)
    · cases hf.symm.trans hs
      exact ht
  · have hk3 : c3.entry key = c.entry key := by
      refine hd.old key (.inl fun hm => hk ?_)
      rw [← List.map_append] at hm
      obtain ⟨name, hn, rfl⟩ := List.mem_map.1 hm
      rw [key_eq]
      exact List.mem_map_of_mem hn
    rcases find key with hf | ⟨hn, -⟩
    · show Option.map _ _ = _
      rw [hf]
      exact hk3
    · rw [← hk3] at hs
      unfold ParserContext.entry at hs
      rw [hn] at hs
      cases hs

/-! ### the end of a function -/

theorem writeErr_keeps (msg : String) : Keeps (Declared []) (PM.writeErr msg) := by
  intro c u c' h
  cases h
  exact Declared.of_entry rfl rfl rfl id fun _ => rfl

theorem Declared.entry_eq (h : Declared [] c c') (key : Str) : c'.entry key = c.entry key :=
  h.old key (.inl List.not_mem_nil)

instance : Std.Refl (Declared []) := ⟨Declared.refl⟩

instance : IsTrans ParserContext (Declared []) :=
  ⟨fun a b c h1 h2 => Declared.of_entry (h2.scope.trans h1.scope) (h2.ty.trans h1.ty)
    (h2.dims.trans h1.dims) (fun h => h2.plain (h1.plain h))
    fun key => (h2.entry_eq key).trans (h1.entry_eq key)⟩

theorem deref_keeps {α : Type} (x : Option α) : Keeps (Declared []) (PM.deref x) := by
  cases x with
  | none => exact Keeps.throw _
  | some a => exact Keeps.pure a

theorem updateTypes_keeps (what : String) (isOf : Symbol → Bool) (idxOf : Symbol → Nat)
    (tysOf : Symbol → List SymbolType) {setTys : List SymbolType → Symbol → Symbol}
    (hset : ∀ tys sym, (setTys tys sym).ty = sym.ty ∧ (setTys tys sym).dims = sym.dims)
    (htmp : ∀ tys sym, (setTys tys sym).isTmp = sym.isTmp) (funcName : Str) (idents : List Str) :
    Keeps (Declared []) (updateTypes what isOf idxOf tysOf setTys funcName idents) := by
  induction idents with
  | nil => exact Keeps.pure _
  | cons ident idents ih =>
    unfold updateTypes
    refine Keeps.bind Keeps.get fun c => ?_
    cases (c.findScopedSymbol ident).filter isOf with
    | none => exact writeErr_keeps _
    | some sym =>
      refine Keeps.bind (deref_keeps _) fun func => Keeps.ite (Keeps.throw _) ?_
      refine Keeps.bind ?_ fun _ => ih
      intro s u s' h
      cases h
      exact Declared.of_entry rfl rfl rfl (plain_modifySym _ (htmp _))
        fun key => entry_modifySym_same _ _ (hset _)

theorem updateFuncArgTypes_keeps (args : List Str) (funcName : Str) :
    Keeps (Declared []) (updateFuncArgTypes args funcName) := by
  unfold updateFuncArgTypes
  refine Keeps.bind Keeps.get fun c => ?_
  cases c.findGlobalSymbol funcName with
  | none => exact Keeps.throw _
  | some func =>
    refine Keeps.ite (Keeps.throw _) (updateTypes_keeps _ _ _ _ ?_ ?_ _ _)
    · exact fun _ _ => ⟨rfl, rfl⟩
    · exact fun _ _ => rfl

theorem updateFuncRetTypes_keeps (rets : List Str) (funcName : Str) :
    Keeps (Declared []) (updateFuncRetTypes rets funcName) := by
  unfold updateFuncRetTypes
  refine Keeps.bind Keeps.get fun c => ?_
  cases c.findGlobalSymbol funcName with
  | none => exact Keeps.throw _
  | some func =>
    refine Keeps.ite (Keeps.throw _) (updateTypes_keeps _ _ _ _ ?_ ?_ _ _)
    · exact fun _ _ => ⟨rfl, rfl⟩
    · exact fun _ _ => rfl

/-- leaving a scope changes the scope only -/
theorem leaveScope_spec {name : Str} (h : (leaveScope name).run c = .ok ⟨⟩ c') :
    ∃ cerr, c' = { c with curscope := c.curscope.dropLast, cerr := cerr } := by
  unfold leaveScope at h
  rw [run_get_bind] at h
  cases hl : c.curscope.getLast? with
  | none =>
    rw [hl] at h
    cases h
  | some curscope =>
    rw [hl] at h
    revert h
    dsimp only
    cases decide (curscope ≠ name)
    · intro h
      cases h
      exact ⟨_, rfl⟩
    · intro h
      cases h
      exact ⟨_, rfl⟩

theorem endFunc_touched {h : Header} (hr : (endFunc h).run c = .ok ⟨⟩ c') :
    Touched (.endFunc h) c c' := by
  unfold endFunc at hr
  rw [run_get_bind] at hr
  obtain ⟨_, c1, h1, hr⟩ := bind_eq_ok.1 hr
  have hd1 := updateFuncArgTypes_keeps _ _ _ _ _ h1
  obtain ⟨c2, hd2, h3⟩ : ∃ c2, Declared [] c1 c2 ∧ (leaveScope h.name).run c2 = .ok ⟨⟩ c' := by
    revert hr
    cases h.rets with
    | none => exact fun hr => ⟨c1, Declared.refl _, hr⟩
    | some rets =>
      intro hr
      obtain ⟨_, c2, h2, hr⟩ := bind_eq_ok.1 hr
      exact ⟨c2, updateFuncRetTypes_keeps _ _ _ _ _ h2, hr⟩
  have hd := IsTrans.trans _ _ _ hd1 hd2
  obtain ⟨cerr, rfl⟩ := leaveScope_spec h3
  refine ⟨?_, hd.dims, fun hty => ?_, hd.plain, fun key _ _ => hd.entry_eq key⟩
  · show c2.curscope.dropLast = c.curscope.dropLast
    rw [hd.scope]
  · show c2.symtype ≠ _
    rw [hd.ty]
    exact hty

/-! ### runs -/

theorem parseItem_touched {shared : Bool} {item : DeclItem} (hpos : item.Positive)
    (hty : c.symtype ≠ .func) (h : (parseItem shared item).run c = .ok ⟨⟩ c') :
    Touched item c c' := by
  cases item with
  | decl d =>
    obtain ⟨node, c1, h1, h2⟩ := bind_eq_ok.1 h
    cases h2
    exact decl_touched hpos h1
  | beginFunc hd => exact beginFunc_touched hty h
  | endFunc hd => exact endFunc_touched h

/-- what the actions of a sequence keep: the dimensions in the parser state are those of the last
declaration that is not a scalar's, and the entries of names that are not declared again stay -/
theorem parse_touched {shared : Bool} {items : List DeclItem}
    (hpos : ∀ item ∈ items, item.Positive) :
    ∀ {c : ParserContext}, c.symtype ≠ .func → (parse shared items).run c = .ok ⟨⟩ c' →
      c'.symdims = items.foldl DeclItem.dims c.symdims ∧ c'.symtype ≠ .func ∧
        (c.Plain → c'.Plain) ∧
        ∀ key ∉ declaredKeys c.curscope items, (c.entry key).isSome →
          c'.entry key = c.entry key := by
  induction items with
  | nil =>
    intro c hty h
    cases h
    exact ⟨rfl, hty, id, fun _ _ _ => rfl⟩
  | cons item items ih =>
    intro c hty h
    obtain ⟨_, c1, h1, h2⟩ := bind_eq_ok.1 h
    have ht := parseItem_touched (hpos item List.mem_cons_self) hty h1
    obtain ⟨i1, i2, i3, i4⟩ :=
      ih (fun item hm => hpos item (List.mem_cons_of_mem _ hm)) (ht.ty hty) h2
    refine ⟨?_, i2, fun hp => i3 (ht.plain hp), fun key hk hs => ?_⟩
    · rw [i1, ht.dims]
      rfl
    · rw [declaredKeys, List.mem_append, not_or] at hk
      have e1 := ht.entry key hk.1 hs
      rw [i4 key (by rw [ht.scope]; exact hk.2) (by rw [e1]; exact hs), e1]

end

/-! ## what a declaration is for -/

/-- a state in which parsing begins: as it is constructed, with no symbols but functions -/
structure Initial (c : ParserContext) : Prop where
  scope : c.curscope = []
  ty : c.symtype = .real
  dims : c.symdims = [1]
  funcs : ∀ key sym, c.symbols.findSymbol key = some sym → sym.ty = .func ∧ sym.isTmp = false

/-- the actions of the declaration finish, and after every continuation each of its names that is
not declared again has the type and the dimensions that the declaration states -/
def DeclaresOwn (shared : Bool) (d : Decl) (c : ParserContext) : Prop :=
  (∃ node c1, (declare shared d).run c = .ok node c1) ∧
    ∀ (post : List DeclItem) (c' : ParserContext), (∀ item ∈ post, item.Positive) →
      (parse shared (.decl d :: post)).run c = .ok ⟨⟩ c' → ∀ name ∈ d.vars.names,
        c.key name ∉ declaredKeys c.curscope post →
          c'.entry (c.key name) = some (d.form.ty, d.form.dims)

/-- no complex or quaternion array, no dimensions but `[1]` left over for a scalar, and no name
of a function -/
def OwnWhen (pre : List DeclItem) (d : Decl) (c : ParserContext) : Prop :=
  d.form.isCplxArray = false ∧ (d.form.isScalar = true → pre.foldl DeclItem.dims [1] = [1]) ∧
    ∀ name ∈ d.vars.names, ¬ c.IsFunc (c.key name)

theorem VarList.names_ne_nil (vs : VarList) : ∃ name, name ∈ vs.names := by
  cases vs with
  | one name => exact ⟨name, List.mem_singleton_self _⟩
  | assign name term => exact ⟨name, List.mem_singleton_self _⟩
  | more name vs => exact ⟨name, List.mem_cons_self⟩

theorem Form.dims_of_scalar {f : Form} (h : f.isScalar = true) : f.dims = [1] := by
  cases f <;> first | rfl | cases h

/-- the dimensions that the names of a declaration get -/
theorem Form.enter_dims_iff (f : Form) (c : ParserContext) :
    (f.enter c).symdims = f.dims ↔ (f.isScalar = true → c.symdims = [1]) := by
  unfold Form.enter
  by_cases h : f.isScalar = true
  · rw [if_pos h, Form.dims_of_scalar h]
    exact ⟨fun h' _ => h', fun h' => h' h⟩
  · rw [if_neg h]
    exact ⟨fun _ h' => absurd h' h, fun _ => rfl⟩

section
variable {c : ParserContext} {shared : Bool} {d : Decl}

theorem parse_single {node : Node} {c1 : ParserContext}
    (h : (declare shared d).run c = .ok node c1) : (parse shared [.decl d]).run c = .ok ⟨⟩ c1 := by
  have e : parse shared [.decl d] =
      (declare shared d >>= fun _ => pure PUnit.unit) >>= fun _ => pure PUnit.unit := (rfl)
  have h1 : (declare shared d >>= fun _ => pure PUnit.unit).run c = .ok ⟨⟩ c1 := bind_ok h
  rw [e, bind_ok h1, run_pure]

/-- the names of a declaration that leaves them as it states are not functions', and it has set
the dimensions that it states -/
theorem state_of_declaresOwn (hpos : d.form.Positive) (h : DeclaresOwn shared d c) :
    d.form.isCplxArray = false ∧ (d.form.enter c).symdims = d.form.dims ∧
      ∀ name ∈ d.vars.names, ¬ c.IsFunc (c.key name) := by
  obtain ⟨⟨node, c1, hr⟩, h⟩ := h
  obtain ⟨hb, hd⟩ := declare_declared hpos hr
  have he : ∀ name ∈ d.vars.names, c1.entry (c.key name) = some (d.form.ty, d.form.dims) :=
    fun name hn => h [] c1 (fun item hi => absurd hi List.not_mem_nil) (parse_single hr) name hn
      List.not_mem_nil
  have hf : ∀ name ∈ d.vars.names, ¬ c.IsFunc (c.key name) := by
    intro name hn hf
    have hold := hd.old (c.key name) (.inr hf)
    obtain ⟨dims, hf⟩ := hf
    have hty := congrArg (Option.map Prod.fst) ((he name hn).symm.trans (hold.trans hf))
    exact form_ty_ne d.form (Option.some.inj hty)
  refine ⟨hb, ?_, hf⟩
  obtain ⟨name, hn⟩ := d.vars.names_ne_nil
  have hnew := hd.new (c.key name) (List.mem_map_of_mem hn) (hf name hn)
  exact congrArg Prod.snd (Option.some.inj (hnew.symm.trans (he name hn)))

theorem declaresOwn_of_state (hpos : d.form.Positive) (hp : c.Plain)
    (hb : d.form.isCplxArray = false) (hs : (d.form.enter c).symdims = d.form.dims)
    (hf : ∀ name ∈ d.vars.names, ¬ c.IsFunc (c.key name)) : DeclaresOwn shared d c := by
  have hreg := variables_registers d.vars (d.form.enter c) (form_ty_ne d.form)
  have hfin : ∃ node c1, (declare shared d).run c = .ok node c1 := by
    obtain ⟨node, c1, h1⟩ := hreg.finishes hp hf
    obtain ⟨⟨vars, a, i, o⟩, hv⟩ := Option.isSome_iff_exists.1 (hreg.declared node c1 h1).2
    rw [declare_run shared d hb hpos, bind_ok h1]
    unfold declIntent
    rw [hv]
    rcases d.intent with - | - | - <;> exact ⟨_, c1, rfl⟩
  refine ⟨hfin, fun post c' hpost hr name hn hk => ?_⟩
  obtain ⟨_, c1, h1, h2⟩ := bind_eq_ok.1 hr
  obtain ⟨node, c2, h3, h4⟩ := bind_eq_ok.1 h1
  cases h4
  obtain ⟨-, hd⟩ := declare_declared hpos h3
  have hnew : c1.entry (c.key name) = some (d.form.ty, d.form.dims) := by
    rw [← hs]
    exact hd.new (c.key name) (List.mem_map_of_mem hn) (hf name hn)
  have hty : c1.symtype ≠ .func := by rw [hd.ty]; exact form_ty_ne d.form
  have hkey : c.key name ∉ declaredKeys c1.curscope post := by rw [hd.scope]; exact hk
  rw [(parse_touched hpost hty h2).2.2.2 (c.key name) hkey (by rw [hnew]; rfl), hnew]

end

/-- in every run, whatever was declared before: a declaration leaves each of its names in the table
with the type and the dimensions that it states exactly under the condition `OwnWhen` -/
theorem declaresOwn_iff (shared : Bool) {c0 c : ParserContext} {pre : List DeclItem} {d : Decl}
    (h0 : Initial c0) (hpre : ∀ item ∈ pre, item.Positive) (hpos : d.form.Positive)
    (hrun : (parse shared pre).run c0 = .ok ⟨⟩ c) :
    DeclaresOwn shared d c ↔ OwnWhen pre d c := by
  have hty0 : c0.symtype ≠ .func := by rw [h0.ty]; decide
  obtain ⟨hdims, hty, hplain, -⟩ := parse_touched hpre hty0 hrun
  rw [h0.dims] at hdims
  have hp : c.Plain := hplain fun key sym hs => (h0.funcs key sym hs).2
  have hiff := Form.enter_dims_iff d.form c
  rw [hdims] at hiff
  constructor
  · intro h
    obtain ⟨hb, hs, hf⟩ := state_of_declaresOwn hpos h
    exact ⟨hb, hiff.1 hs, hf⟩
  · rintro ⟨hb, hs, hf⟩
    exact declaresOwn_of_state hpos hp hb (hiff.2 hs) hf

theorem initial_empty : Initial {} :=
  ⟨rfl, rfl, rfl, fun key sym h => by cases h⟩

/-- the state after a sequence that begins at the constructed state -/
def stateAfter (shared : Bool) (pre : List DeclItem) : ParserContext :=
  match (parse shared pre).run {} with
  | .ok _ c => c
  | .error _ c => c

/-- `real, dimension(3, 4) :: a`, then `function f(u) results(r)` -/
def afterArray : List DeclItem :=
  [.decl ⟨.realArray 3 [4], none, .one (ascii "a")⟩,
    .beginFunc ⟨true, ascii "f", [ascii "u"], some [ascii "r"]⟩]

theorem afterArray_positive : ∀ item ∈ afterArray, item.Positive := by
  intro item hi
  rcases List.mem_cons.1 hi with rfl | hi
  · intro d hd
    rcases List.mem_cons.1 hd with rfl | hd
    · decide
    · cases List.mem_singleton.1 hd
      decide
  · cases List.mem_singleton.1 hi
    exact trivial

/-- `integer, dimension(2) :: r, v` -/
def arrayInFunc : Decl := ⟨.intArray 2 [], none, .more (ascii "r") (.one (ascii "v"))⟩

theorem arrayInFunc_positive : arrayInFunc.form.Positive := by
  intro d hd
  cases List.mem_singleton.1 hd
  decide

/-- none of the names is a function's -/
theorem arrayInFunc_plain : arrayInFunc.vars.names.all (fun name =>
    ((stateAfter true afterArray).entry ((stateAfter true afterArray).key name)).all
      fun e => e.1 != .func) = true := by
  decide

theorem declaresOwn_arrayInFunc : DeclaresOwn true arrayInFunc (stateAfter true afterArray) := by
  refine (declaresOwn_iff (c := stateAfter true afterArray) true initial_empty afterArray_positive
    arrayInFunc_positive rfl).2 ⟨rfl, ?_, ?_⟩
  · intro h
    cases h
  intro name hn hf
  obtain ⟨dims, h⟩ := hf
  have hall := List.all_eq_true.1 arrayInFunc_plain name hn
  rw [h] at hall
  exact Bool.false_ne_true hall

/-- `integer :: k` -/
def scalarInFunc : Decl := ⟨.int, none, .one (ascii "k")⟩

/-- a scalar gets the dimensions of the array before it, with and without shared prefixes -/
theorem scalar_after_array :
    ¬ ∃ shared, ∀ (pre : List DeclItem) (d : Decl) (c : ParserContext),
      (∀ item ∈ pre, item.Positive) → d.form.Positive → (parse shared pre).run {} = .ok ⟨⟩ c →
      DeclaresOwn shared d c := by
  rintro ⟨shared, h⟩
  have h1 : DeclaresOwn shared scalarInFunc (stateAfter shared afterArray) := by
    refine h afterArray _ _ afterArray_positive trivial ?_
    cases shared <;> rfl
  have h2 := (state_of_declaresOwn (d := scalarInFunc) trivial h1).2.1
  cases shared <;> exact absurd h2 (by decide)

end MuF
