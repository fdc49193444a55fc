import MuF.Parser.Decl

/-!
# What a declaration does to the symbol table

* `entry`: the type and the dimensions of a name in the table;
* `Declared`: the names that are not functions' get the type and the dimensions in the parser
  state, and no other entry changes; `addScopedSymbol_spec` and its lift `variables_spec` to lists
  of variables;
* `Form.ty`, `Form.dims`: what a declaration states; `Form.enter`: what its actions set;
* `declare_run`, `declare_cplxArray`: a declaration registers its variables in the state that it
  sets, or fails.
-/

set_option linter.unusedVariables false

namespace MuF

open Exec

namespace ParserContext

/-- type and dimensions of a name in the table -/
def entry (c : ParserContext) (key : Str) : Option (SymbolType × List Nat) :=
  (c.symbols.findSymbol key).map fun sym => (sym.ty, sym.dims)

/-- the scoped name of a name in the current scope -/
def key (c : ParserContext) (name : Str) : Str := c.getScopeName ++ name

/-- a name is a function's -/
def IsFunc (c : ParserContext) (key : Str) : Prop := ∃ dims, c.entry key = some (.func, dims)

/-- temporary symbols are not in the table -/
def Plain (c : ParserContext) : Prop :=
  ∀ key sym, c.symbols.findSymbol key = some sym → sym.isTmp = false

end ParserContext

section
variable {c c' c'' : ParserContext} {keys keys' : List Str}

/-! ## the table -/

theorem findSymbol_append (tab : SymTab) (key : Str) (sym : Symbol) (name : Str) :
    SymTab.findSymbol (tab ++ [(key, sym)]) name =
      (tab.findSymbol name).or (if name = key then some sym else none) := by
  induction tab with
  | nil => rw [List.nil_append, SymTab.findSymbol_cons]; rfl
  | cons p tab ih =>
    obtain ⟨k, s⟩ := p
    rw [List.cons_append, SymTab.findSymbol_cons, SymTab.findSymbol_cons, ih]
    split <;> rfl

theorem entry_modifySym (c : ParserContext) (name key : Str) (f : Symbol → Symbol) :
    (c.modifySym name f).entry key =
      if key = name then (c.symbols.findSymbol key).map fun sym => ((f sym).ty, (f sym).dims)
      else c.entry key := by
  unfold ParserContext.entry ParserContext.modifySym
  rw [SymTab.findSymbol_modify]
  split
  · rw [Option.map_map]
    rfl
  · rfl

/-- a change of a symbol that is not one of its type or dimensions -/
theorem entry_modifySym_same (name key : Str) {f : Symbol → Symbol}
    (hf : ∀ sym, (f sym).ty = sym.ty ∧ (f sym).dims = sym.dims) :
    (c.modifySym name f).entry key = c.entry key := by
  rw [entry_modifySym]
  split
  · unfold ParserContext.entry
    congr 1
    funext sym
    rw [(hf sym).1, (hf sym).2]
  · rfl

theorem plain_modifySym (name : Str) {f : Symbol → Symbol} (hf : ∀ sym, (f sym).isTmp = sym.isTmp)
    (h : c.Plain) : (c.modifySym name f).Plain := by
  intro key sym hs
  have hs' : (c.symbols.modify name f).findSymbol key = some sym := hs
  rw [SymTab.findSymbol_modify] at hs'
  split at hs'
  · obtain ⟨sym', h1, h2⟩ := Option.map_eq_some_iff.1 hs'
    rw [← h2, hf]
    exact h key sym' h1
  · exact h key sym hs'

/-! ## declared names -/

/-- names are declared: those that are not functions' get the type and the dimensions in the
parser state, and no other entry changes -/
structure Declared (keys : List Str) (c c' : ParserContext) : Prop where
  scope : c'.curscope = c.curscope
  ty : c'.symtype = c.symtype
  dims : c'.symdims = c.symdims
  plain : c.Plain → c'.Plain
  new : ∀ key ∈ keys, ¬ c.IsFunc key → c'.entry key = some (c.symtype, c.symdims)
  old : ∀ key, key ∉ keys ∨ c.IsFunc key → c'.entry key = c.entry key

theorem Declared.refl (c : ParserContext) : Declared [] c c :=
  ⟨rfl, rfl, rfl, id, fun _ h => absurd h List.not_mem_nil, fun _ _ => rfl⟩

/-- a change that shows in no entry declares nothing -/
theorem Declared.of_entry (hs : c'.curscope = c.curscope) (ht : c'.symtype = c.symtype)
    (hd : c'.symdims = c.symdims) (hp : c.Plain → c'.Plain)
    (he : ∀ key, c'.entry key = c.entry key) : Declared [] c c' :=
  ⟨hs, ht, hd, hp, fun _ h => absurd h List.not_mem_nil, fun key _ => he key⟩

theorem Declared.key_eq (h : Declared keys c c') (name : Str) : c'.key name = c.key name := by
  unfold ParserContext.key ParserContext.getScopeName
  rw [h.scope]

/-- what a declaration registers is not a function -/
theorem Declared.isFunc_iff (h : Declared keys c c') (hty : c.symtype ≠ .func) (key : Str) :
    c'.IsFunc key ↔ c.IsFunc key := by
  by_cases hf : c.IsFunc key
  · unfold ParserContext.IsFunc
    rw [h.old key (.inr hf)]
  · by_cases hk : key ∈ keys
    · refine ⟨fun ⟨dims, h'⟩ => ?_, fun h' => absurd h' hf⟩
      rw [h.new key hk hf] at h'
      exact absurd (congrArg Prod.fst (Option.some.inj h')) hty
    · unfold ParserContext.IsFunc
      rw [h.old key (.inl hk)]

theorem Declared.trans (h1 : Declared keys c c') (h2 : Declared keys' c' c'')
    (hty : c.symtype ≠ .func) : Declared (keys ++ keys') c c'' where
  scope := h2.scope.trans h1.scope
  ty := h2.ty.trans h1.ty
  dims := h2.dims.trans h1.dims
  plain := fun h => h2.plain (h1.plain h)
  new := by
    intro key hk hf
    have hf' : ¬ c'.IsFunc key := fun h => hf ((h1.isFunc_iff hty key).1 h)
    by_cases hk' : key ∈ keys'
    · rw [h2.new key hk' hf', h1.ty, h1.dims]
    · rw [h2.old key (.inl hk')]
      exact h1.new key ((List.mem_append.1 hk).resolve_right hk') hf
  old := by
    intro key hk
    rcases hk with hk | hk
    · rw [List.mem_append, not_or] at hk
      rw [h2.old key (.inl hk.2), h1.old key (.inl hk.1)]
    · rw [h2.old key (.inr ((h1.isFunc_iff hty key).2 hk)), h1.old key (.inr hk)]

theorem Declared.congr (h : Declared keys c c') (hk : ∀ key, key ∈ keys ↔ key ∈ keys') :
    Declared keys' c c' :=
  { h with
    new := fun key h' => h.new key ((hk key).2 h')
    old := fun key h' => h.old key (h'.imp_left fun hn hm => hn ((hk key).1 hm)) }

/-! ## registering a name -/

theorem setArgType_spec (sym : Symbol) (c : ParserContext) :
    ∃ ok c', (setArgType sym).run c = .ok ok c' ∧ Declared [] c c' := by
  unfold setArgType
  rw [run_get_bind]
  dsimp only
  cases hf : c.symbols.findSymbol (c.getScopeName 0 false) with
  | none =>
    refine ⟨_, _, bind_ok (run_modify _ _), Declared.of_entry rfl rfl rfl id fun key => rfl⟩
  | some func =>
    by_cases hl : func.argty.length ≤ sym.argidx
    · dsimp only
      rw [run_if_pos hl]
      refine ⟨_, _, bind_ok (run_modify _ _), Declared.of_entry rfl rfl rfl id fun key => rfl⟩
    · dsimp only
      rw [run_if_neg hl]
      refine ⟨_, _, bind_ok (run_modify _ _), Declared.of_entry rfl rfl rfl ?_ fun key => ?_⟩
      · exact plain_modifySym _ fun _ => rfl
      · exact entry_modifySym_same _ _ fun _ => ⟨rfl, rfl⟩

/-- a name that is not in the table -/
theorem addNewSymbol_spec {name : Str} (hf : c.symbols.findSymbol (c.key name) = none) :
    ∃ sym c', (addNewSymbol c.getScopeName name).run c = .ok (some sym) c' ∧
      Declared [c.key name] c c' ∧ sym.isTmp = false := by
  let sym : Symbol :=
    { name, scopedName := c.key name, scopeName := c.getScopeName, ty := c.symtype
      dims := c.symdims, isTmp := false }
  have e : c.symbols.addSymbol c.getScopeName name c.symtype c.symdims =
      (some sym, c.symbols ++ [(c.key name, sym)]) := by
    unfold SymTab.addSymbol
    have hf' : c.symbols.findSymbol (c.getScopeName ++ name) = none := hf
    simp only [hf']
    rfl
  have find (key : Str) : SymTab.findSymbol (c.symbols ++ [(c.key name, sym)]) key =
      (c.symbols.findSymbol key).or (if key = c.key name then some sym else none) :=
    findSymbol_append _ _ _ _
  refine ⟨sym, { c with symbols := c.symbols ++ [(c.key name, sym)] }, ?_, ?_, rfl⟩
  · unfold addNewSymbol
    rw [run_get_bind, e, run_modify_bind, run_pure]
  · refine ⟨rfl, rfl, rfl, fun hp key sym' hs => ?_, fun key hk hn => ?_, fun key hk => ?_⟩
    · have hs' := (find key).symm.trans hs
      rcases Option.or_eq_some_iff.1 hs' with h | ⟨_, h⟩
      · exact hp key sym' h
      · split at h
        · cases h
          rfl
        · cases h
    · rw [List.mem_singleton] at hk
      subst hk
      show (SymTab.findSymbol _ _).map _ = _
      rw [find, hf, if_pos rfl]
      rfl
    · show (SymTab.findSymbol _ _).map _ = (SymTab.findSymbol _ _).map _
      have hne : key ≠ c.key name := by
        rintro rfl
        rcases hk with hk | ⟨dims, hk⟩
        · exact hk (List.mem_singleton_self _)
        · unfold ParserContext.entry at hk
          rw [hf] at hk
          cases hk
      rw [find, if_neg hne, Option.or_none]

theorem isFunc_of_find {key : Str} {sym : Symbol} (hf : c.symbols.findSymbol key = some sym) :
    c.IsFunc key ↔ sym.ty = .func := by
  unfold ParserContext.IsFunc ParserContext.entry
  rw [hf]
  refine ⟨fun ⟨dims, h⟩ => ?_, fun h => ⟨sym.dims, ?_⟩⟩
  · exact congrArg Prod.fst (Option.some.inj h)
  · rw [← h]
    rfl

/-- the symbol of a name that is in the table and not a function's gets the type and the
dimensions in the parser state -/
theorem declared_modifySym (name : Str) {sym : Symbol}
    (hf : c.symbols.findSymbol (c.key name) = some sym) (hty : sym.ty ≠ .func) :
    Declared [c.key name] c (c.modifySym (c.key name) fun sym =>
      { sym with ty := c.symtype, dims := c.symdims }) := by
  refine ⟨rfl, rfl, rfl, plain_modifySym _ fun _ => rfl, fun key hk hn => ?_, fun key hk => ?_⟩
  · rw [List.mem_singleton] at hk
    rw [entry_modifySym, if_pos hk, hk, hf]
    rfl
  · have hne : key ≠ c.key name := by
      rintro rfl
      rcases hk with hk | hk
      · exact hk (List.mem_singleton_self _)
      · exact hty ((isFunc_of_find hf).1 hk)
    rw [entry_modifySym, if_neg hne]

theorem addScopedSymbol_spec (name : Str) (c : ParserContext) (hty : c.symtype ≠ .func) :
    ∃ r c', (addScopedSymbol name).run c = .ok r c' ∧ Declared [c.key name] c c' ∧
      (c.Plain → ¬ c.IsFunc (c.key name) → ∀ sym, r = some sym → sym.isTmp = false) := by
  unfold addScopedSymbol
  rw [run_get_bind]
  dsimp only
  cases hf : c.symbols.findSymbol (c.getScopeName ++ name) with
  | none =>
    obtain ⟨sym, c', hr, hd, ht⟩ := addNewSymbol_spec hf
    refine ⟨some sym, c', hr, hd, fun _ _ sym' h => ?_⟩
    cases h
    exact ht
  | some sym =>
    by_cases hfun : sym.ty = .func
    · dsimp only
      rw [run_if_pos hfun]
      have hisf : c.IsFunc (c.key name) := (isFunc_of_find hf).2 hfun
      refine ⟨_, c, run_pure _ _, ⟨rfl, rfl, rfl, id, fun key hk hn => ?_, fun _ _ => rfl⟩,
        fun _ hn => absurd hisf hn⟩
      rw [List.mem_singleton] at hk
      exact absurd (hk ▸ hisf) hn
    · dsimp only
      rw [run_if_neg hfun, run_modify_bind]
      have hd := declared_modifySym name hf hfun
      have htmp (hp : c.Plain) : sym.isTmp = false := hp _ sym hf
      by_cases harg : sym.isArg
      · rw [run_if_pos harg]
        obtain ⟨ok, c', hr, hd'⟩ := setArgType_spec
          { sym with ty := c.symtype, dims := c.symdims }
          (c.modifySym (c.key name) fun sym => { sym with ty := c.symtype, dims := c.symdims })
        refine ⟨_, c', bind_ok hr, hd.trans hd' hty, fun hp _ sym' h => ?_⟩
        cases ok
        · cases h
        · cases h
          exact htmp hp
      · rw [run_if_neg harg]
        refine ⟨_, _, run_pure _ _, hd, fun hp _ sym' h => ?_⟩
        cases h
        exact htmp hp

/-! ## lists of variables -/

/-- the check of a name changes nothing -/
theorem check_keeps (sym : Symbol) : Keeps Eq (checkSymbolForConflicts sym) := by
  unfold checkSymbolForConflicts
  refine Keeps.ite (Keeps.pure _) (Keeps.bind Keeps.get fun c => ?_)
  cases c.symbols.findSymbol sym.name with
  | none => exact Keeps.pure _
  | some globsym => exact Keeps.ite (Keeps.ite (Keeps.throw _) (Keeps.pure _)) (Keeps.pure _)

theorem check_plain {sym : Symbol} (h : sym.isTmp = false) (c : ParserContext) :
    (checkSymbolForConflicts sym).run c = .ok false c := by
  unfold checkSymbolForConflicts
  rw [h]
  exact run_pure _ _

/-- what the registration of names does to the state: it declares them if it finishes, which it
does if none of them is a function's -/
structure Registers (x : PM Node) (names : List Str) (c : ParserContext) : Prop where
  declared : ∀ node c', x.run c = .ok node c' →
    Declared (names.map c.key) c c' ∧ node.asVarDecl.isSome
  finishes : c.Plain → (∀ name ∈ names, ¬ c.IsFunc (c.key name)) → ∃ node c', x.run c = .ok node c'

theorem addVariable_registers (lst : Node) (hlst : lst.asVarDecl.isSome) (name : Str)
    (hty : c.symtype ≠ .func) : Registers (addVariable name lst) [name] c := by
  obtain ⟨r, c1, hr, hd, ht⟩ := addScopedSymbol_spec name c hty
  obtain ⟨⟨vars, a, i, o⟩, hv⟩ := Option.isSome_iff_exists.1 hlst
  unfold addVariable
  refine ⟨fun node c' h => ?_, fun hp hn => ?_⟩
  · rw [bind_ok hr] at h
    cases r with
    | none =>
      cases h
      exact ⟨hd, hlst⟩
    | some sym =>
      obtain ⟨conflict, c2, h1, h2⟩ := bind_eq_ok.1 h
      cases check_keeps sym c1 conflict c2 h1
      cases conflict
      · rw [run_if_neg Bool.false_ne_true, hv] at h2
        cases h2
        exact ⟨hd, rfl⟩
      · rw [run_if_pos rfl] at h2
        cases h2
        exact ⟨hd, hlst⟩
  · rw [bind_ok hr]
    cases r with
    | none => exact ⟨lst, c1, rfl⟩
    | some sym =>
      have h := ht hp (hn name (List.mem_singleton_self _)) sym rfl
      refine ⟨.varDecl (sym.scopedName :: vars) a i o, c1, ?_⟩
      dsimp only
      rw [bind_ok (check_plain h c1), run_if_neg Bool.false_ne_true, hv]
      rfl

/-- the names of a list are registered from the last one to the first one -/
theorem variables_registers (vs : VarList) (c : ParserContext) (hty : c.symtype ≠ .func) :
    Registers (parseVariables vs) vs.names c := by
  induction vs with
  | one name =>
    exact addVariable_registers (.varDecl [] none false false) rfl name hty
  | assign name term =>
    exact addVariable_registers (.varDecl [] (some (name, term)) false false) rfl name hty
  | more name vs ih =>
    have e (c : ParserContext) : (parseVariables (.more name vs)).run c =
        (parseVariables vs >>= fun node => addVariable name node).run c := (rfl)
    refine ⟨fun node c' h => ?_, fun hp hn => ?_⟩
    · rw [e] at h
      obtain ⟨lst, c1, h1, h2⟩ := bind_eq_ok.1 h
      obtain ⟨hd1, hl⟩ := ih.declared lst c1 h1
      have hty1 : c1.symtype ≠ .func := by rw [hd1.ty]; exact hty
      obtain ⟨hd2, hl2⟩ := (addVariable_registers lst hl name hty1).declared node c' h2
      rw [List.map_singleton, hd1.key_eq] at hd2
      refine ⟨(hd1.trans hd2 hty).congr fun key => ?_, hl2⟩
      rw [VarList.names, List.map_cons, List.mem_append, List.mem_singleton, List.mem_cons,
        or_comm]
    · have hn0 : ∀ n ∈ vs.names, ¬ c.IsFunc (c.key n) := fun n hm =>
        hn n (List.mem_cons_of_mem _ hm)
      obtain ⟨lst, c1, h1⟩ := ih.finishes hp hn0
      obtain ⟨hd1, hl⟩ := ih.declared lst c1 h1
      have hty1 : c1.symtype ≠ .func := by rw [hd1.ty]; exact hty
      have hn1 : ∀ n ∈ [name], ¬ c1.IsFunc (c1.key n) := by
        intro n hm
        rw [List.mem_singleton] at hm
        rw [hm, hd1.key_eq, hd1.isFunc_iff hty]
        exact hn name List.mem_cons_self
      obtain ⟨node, c', h2⟩ := (addVariable_registers lst hl name hty1).finishes (hd1.plain hp) hn1
      refine ⟨node, c', ?_⟩
      rw [e]
      exact (bind_ok h1).trans h2

end

/-! ## a declaration statement -/

/-- the type of the variables -/
def Form.ty : Form → SymbolType
  | .int => .int
  | .real => .real
  | .cplx => .cplx
  | .quat => .quat
  | .bool => .bool
  | .intArray _ _ => .intArray
  | .realArray _ _ => .realArray
  | .cplxArray _ => .cplxArray
  | .quatArray _ => .quatArray
  | .str => .string
  | .strDim _ => .string

/-- the dimensions that the declaration states -/
def Form.dims : Form → List Nat
  | .intArray dim dims => (dim :: dims).map fun d => d.toInt.toNat
  | .realArray dim dims => (dim :: dims).map fun d => d.toInt.toNat
  | .cplxArray dim => [dim.toInt.toNat]
  | .quatArray dim => [dim.toInt.toNat]
  | .str => [defaultStringSize]
  | .strDim dim => [dim.toInt.toNat]
  | _ => [1]

/-- the stated dimensions are positive -/
def Form.Positive : Form → Prop
  | .intArray dim dims => ∀ d ∈ dim :: dims, 0 < d
  | .realArray dim dims => ∀ d ∈ dim :: dims, 0 < d
  | .cplxArray dim => 0 < dim
  | .quatArray dim => 0 < dim
  | .strDim dim => 0 < dim
  | _ => True

/-- declarations that state no dimensions and have the rule for scalars -/
def Form.isScalar : Form → Bool
  | .int | .real | .cplx | .quat | .bool => true
  | _ => false

/-- the rules whose action takes the node between the brackets for a list of constants, where the
rule has a single constant -/
def Form.isCplxArray : Form → Bool
  | .cplxArray _ | .quatArray _ => true
  | _ => false

/-- the state in which the variables of a declaration are registered -/
def Form.enter (f : Form) (c : ParserContext) : ParserContext :=
  { c with symtype := f.ty, symdims := if f.isScalar then c.symdims else f.dims }

theorem dimSize_of_pos {d : Int64} (h : 0 < d) : dimSize d = d.toInt.toNat :=
  Int64.toNat_toUInt64_of_le (Int64.le_of_lt h)

theorem dimSizes_of_pos {ds : List Int64} (h : ∀ d ∈ ds, 0 < d) :
    ds.map dimSize = ds.map fun d => d.toInt.toNat :=
  List.map_congr_left fun d hd => dimSize_of_pos (h d hd)

/-- the node of `opt_intent` -/
def intentNode : Option Intent → Node
  | none => .null
  | some .intentIn => .misc true true false
  | some .intentOut => .misc true false true

theorem intConstants_run (dim : Int64) (dims : List Int64) (c : ParserContext) :
    (intConstants dim dims).run c = .ok (.numConstList (dim :: dims)) c := by
  induction dims generalizing dim with
  | nil => rfl
  | cons dim' dims ih =>
    have e : (intConstants dim (dim' :: dims)).run c =
        (intConstants dim' dims >>= fun node => intConstantsAction true
          [.numConst dim, .token, node]).run c := (rfl)
    rw [e, bind_ok (ih dim')]
    rfl

section
variable {c c' : ParserContext} {first : PM Node} {vs : PM Node}

theorem scalarDecl_run (ty : SymbolType) (i : Option Intent) (h : first.run c = .ok .token c) :
    (runRule (scalarDecl ty) [] [first, optIntent i, pure .token, vs]).run c =
      (vs >>= fun node => declIntent node (intentNode i)).run { c with symtype := ty } := by
  have e : runRule (scalarDecl ty) [] [first, optIntent i, pure .token, vs] =
      first >>= fun node => scalarDecl ty false [node] >>= fun _ =>
        runRule (scalarDecl ty) [node] [optIntent i, pure .token, vs] := (rfl)
  rw [e, bind_ok h]
  rcases i with - | - | - <;> rfl

theorem strDecl_run (i : Option Intent) (h : first.run c = .ok .token c) :
    (runRule strDecl [] [first, optIntent i, pure .token, vs]).run c =
      (vs >>= fun node => declIntent node (intentNode i)).run (Form.str.enter c) := by
  have e : runRule strDecl [] [first, optIntent i, pure .token, vs] =
      first >>= fun node => strDecl false [node] >>= fun _ =>
        runRule strDecl [node] [optIntent i, pure .token, vs] := (rfl)
  rw [e, bind_ok h]
  rcases i with - | - | - <;> rfl

/-- the calls of a rule with dimensions up to the symbol in the brackets -/
theorem bracket_run (act : Action) {dims : PM Node} {node : Node} (syms : List (PM Node))
    {c0 : ParserContext} (hf : first.run c0 = .ok .token c) (hd : dims.run c = .ok node c)
    (hact : ∀ args, args.length < 6 → (act false args).run c = .ok .null c) (hs : syms ≠ []) :
    (runRule act [] ([first, pure .token, pure .token, pure .token, dims, pure .token] ++ syms)).run
        c0 =
      (act false [.token, .token, .token, .token, node, .token] >>= fun _ =>
        runRule act [.token, .token, .token, .token, node, .token] syms).run c := by
  obtain ⟨sym, syms, rfl⟩ := List.exists_cons_of_ne_nil hs
  have a1 := hact [.token] (by decide)
  have a2 := hact [.token, .token] (by decide)
  have a3 := hact [.token, .token, .token] (by decide)
  have a4 := hact [.token, .token, .token, .token] (by decide)
  have a5 := hact [.token, .token, .token, .token, node] (Nat.lt_succ_self 5)
  simp only [List.cons_append, List.nil_append, runRule]
  rw [bind_ok hf, bind_ok a1, run_pure_bind, bind_ok a2, run_pure_bind, bind_ok a3, run_pure_bind,
    bind_ok a4, bind_ok hd, bind_ok a5, run_pure_bind]

/-- a rule with dimensions whose action takes the node between the brackets -/
theorem arrayDecl_run {dims : PM Node} {ds : List Int64} {c0 : ParserContext} (ty : SymbolType)
    (i : Option Intent) (hf : first.run c0 = .ok .token c)
    (hd : dims.run c = .ok (.numConstList ds) c) :
    (runRule (arrayDecl ty) [] [first, pure .token, pure .token, pure .token, dims, pure .token,
        optIntent i, pure .token, vs]).run c0 =
      (vs >>= fun node => declIntent node (intentNode i)).run
        { c with symtype := ty, symdims := ds.map dimSize } := by
  refine (bracket_run (arrayDecl ty) [optIntent i, pure .token, vs] hf hd ?_
    (List.cons_ne_nil _ _)).trans ?_
  · intro args hl
    unfold arrayDecl
    rw [decide_eq_false (Nat.ne_of_lt hl)]
    rfl
  · rcases i with - | - | - <;> rfl

theorem strDimDecl_run {dim : Int64} {c0 : ParserContext} (i : Option Intent)
    (hf : first.run c0 = .ok .token c) :
    (runRule strDimDecl [] [first, pure .token, pure .token, pure .token, pure (.numConst dim),
        pure .token, optIntent i, pure .token, vs]).run c0 =
      (vs >>= fun node => declIntent node (intentNode i)).run
        { c with symtype := .string, symdims := [dimSize dim] } := by
  refine (bracket_run strDimDecl [optIntent i, pure .token, vs] hf
    (run_pure _ _) ?_ (List.cons_ne_nil _ _)).trans ?_
  · intro args hl
    unfold strDimDecl
    rw [decide_eq_false (Nat.ne_of_lt hl)]
    rfl
  · rcases i with - | - | - <;> rfl

/-- the action of an array rule on a single constant -/
theorem arrayDecl_numConst {dim : Int64} {c0 : ParserContext} (ty : SymbolType)
    (i : Option Intent) (hf : first.run c0 = .ok .token c) :
    (runRule (arrayDecl ty) [] [first, pure .token, pure .token, pure .token, pure (.numConst dim),
        pure .token, optIntent i, pure .token, vs]).run c0 = .error (.ub "null pointer") c := by
  refine (bracket_run (arrayDecl ty) [optIntent i, pure .token, vs] hf
    (run_pure _ _) ?_ (List.cons_ne_nil _ _)).trans ?_
  · intro args hl
    unfold arrayDecl
    rw [decide_eq_false (Nat.ne_of_lt hl)]
    rfl
  · rfl

/-! the first symbol; of the other rule only the one for scalars does anything there -/

theorem firstSymbol_array (shared : Bool) (ty : SymbolType) (c : ParserContext) :
    (firstSymbol shared (some (arrayDecl ty))).run c = .ok .token c := by
  cases shared <;> rfl

theorem firstSymbol_scalar (shared : Bool) (ty : SymbolType) (c : ParserContext) :
    ∃ ty', (firstSymbol shared (some (scalarDecl ty))).run c =
      .ok .token { c with symtype := ty' } := by
  cases shared
  · exact ⟨c.symtype, rfl⟩
  · exact ⟨ty, rfl⟩

theorem firstSymbol_str (shared : Bool) (c : ParserContext) :
    (firstSymbol shared (some strDecl)).run c = .ok .token c := by
  cases shared <;> rfl

theorem firstSymbol_strDim (shared : Bool) (c : ParserContext) :
    (firstSymbol shared (some strDimDecl)).run c = .ok .token c := by
  cases shared <;> rfl

/-- a declaration registers its variables with its own type, and with its own dimensions unless
it is a scalar's -/
theorem declare_run (shared : Bool) (d : Decl) (hb : d.form.isCplxArray = false)
    (hpos : d.form.Positive) (c : ParserContext) :
    (declare shared d).run c =
      (parseVariables d.vars >>= fun node => declIntent node (intentNode d.intent)).run
        (d.form.enter c) := by
  obtain ⟨form, i, vs⟩ := d
  cases form with
  | int => exact scalarDecl_run .int i (firstSymbol_array shared .intArray c)
  | real => exact scalarDecl_run .real i (firstSymbol_array shared .realArray c)
  | cplx => exact scalarDecl_run .cplx i (firstSymbol_array shared .cplxArray c)
  | quat => exact scalarDecl_run .quat i (firstSymbol_array shared .quatArray c)
  | bool => exact scalarDecl_run .bool i (run_pure _ _)
  | intArray dim dims =>
    obtain ⟨ty', h⟩ := firstSymbol_scalar shared .int c
    refine (arrayDecl_run .intArray i h (intConstants_run dim dims _)).trans ?_
    rw [dimSizes_of_pos hpos]
    rfl
  | realArray dim dims =>
    obtain ⟨ty', h⟩ := firstSymbol_scalar shared .real c
    refine (arrayDecl_run .realArray i h (intConstants_run dim dims _)).trans ?_
    rw [dimSizes_of_pos hpos]
    rfl
  | cplxArray dim => cases hb
  | quatArray dim => cases hb
  | str => exact strDecl_run i (firstSymbol_strDim shared c)
  | strDim dim =>
    refine (strDimDecl_run i (firstSymbol_str shared c)).trans ?_
    rw [dimSize_of_pos hpos]
    rfl

/-- a complex or quaternion array -/
theorem declare_cplxArray (shared : Bool) (d : Decl) (hb : d.form.isCplxArray = true)
    (c : ParserContext) : ∃ c', (declare shared d).run c = .error (.ub "null pointer") c' := by
  obtain ⟨form, i, vs⟩ := d
  cases form with
  | cplxArray dim =>
    obtain ⟨ty', h⟩ := firstSymbol_scalar shared .cplx c
    exact ⟨_, arrayDecl_numConst .cplxArray i h⟩
  | quatArray dim =>
    obtain ⟨ty', h⟩ := firstSymbol_scalar shared .quat c
    exact ⟨_, arrayDecl_numConst .quatArray i h⟩
  | _ => cases hb

end

end MuF
