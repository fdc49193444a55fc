import MuF.Lang.Optimised
import MuF.Parser.Tables

/-!
# From declarations to the machine

* `GlobalVars`: a parser state in which integers and truth values are declared, besides functions;
* `declTys`: the types that declarations state;
* `decls_global`: the nodes and the symbol table that the actions of declarations make;
* **`source_runs`**: parsed, optimised or not, and compiled, a program does what it means.
-/

set_option linter.unusedVariables false

namespace MuF

open Bytes Exec

/-! ## global variables -/

/-- outside of functions, with no symbols but functions and global integers and truth values -/
structure GlobalVars (c : ParserContext) : Prop where
  scope : c.curscope = []
  tabled : c.Tabled
  vars : ∀ p ∈ c.symbols, p.2.ty = .func ∨
    p.2.scopeName = [] ∧ p.2.isArg = false ∧ p.2.ty.val.isSome = true

/-- names get the type in the parser state, and the types of the other ones stay -/
structure Registered (names : List Str) (c c' : ParserContext) : Prop where
  vars : GlobalVars c'
  ty : c'.symtype = c.symtype
  types : ∀ x, c'.symbols.globalTy x = if x ∈ names then c.symtype.val else c.symbols.globalTy x
  funcs : ∀ x, c'.IsFunc x → c.IsFunc x

section
variable {c c' c'' : ParserContext} {name : Str} {names names' : List Str}

theorem GlobalVars.scopeName (hc : GlobalVars c) : c.getScopeName = [] := by
  unfold ParserContext.getScopeName
  rw [hc.scope]
  rfl

theorem Registered.trans (h1 : Registered names c c') (h2 : Registered names' c' c'') :
    Registered (names' ++ names) c c'' := by
  refine ⟨h2.vars, h2.ty.trans h1.ty, fun x => ?_, fun x hx => h1.funcs x (h2.funcs x hx)⟩
  rw [h2.types, h1.types, h1.ty]
  by_cases h : x ∈ names' <;> by_cases h' : x ∈ names <;> simp [h, h']

theorem val_ne_func {ty : SymbolType} (h : ty.val.isSome = true) : ty ≠ .func := by
  rintro rfl
  cases h

theorem globalTy_append {T : SymTab} {sym : Symbol} (hf : T.findSymbol name = none)
    (hs : sym.scopeName = []) (ha : sym.isArg = false) (x : Str) :
    SymTab.globalTy (T ++ [(name, sym)]) x = if x = name then sym.ty.val else T.globalTy x := by
  unfold SymTab.globalTy
  rw [findSymbol_append]
  by_cases hx : x = name
  · rw [hx, hf, if_pos rfl, if_pos rfl]
    exact if_pos ⟨hs, ha⟩
  · rw [if_neg hx, if_neg hx, Option.or_none]

theorem globalTy_modify {T : SymTab} {sym : Symbol} {f : Symbol → Symbol}
    (hf : T.findSymbol name = some sym) (hs : (f sym).scopeName = []) (ha : (f sym).isArg = false)
    (x : Str) : (T.modify name f).globalTy x = if x = name then (f sym).ty.val else T.globalTy x := by
  unfold SymTab.globalTy
  rw [SymTab.findSymbol_modify]
  by_cases hx : x = name
  · rw [if_pos hx, if_pos hx, hx, hf]
    exact if_pos ⟨hs, ha⟩
  · rw [if_neg hx, if_neg hx]

/-- **A name** that is not a function's is registered. -/
theorem addScopedSymbol_global (hc : GlobalVars c) (ht : c.symtype.val.isSome = true)
    (hn : ¬ c.IsFunc name) : ∃ sym c', (addScopedSymbol name).run c = .ok (some sym) c' ∧
      sym.scopedName = name ∧ sym.isTmp = false ∧ Registered [name] c c' := by
  have hfun := val_ne_func ht
  obtain ⟨r, c', hr, hd, -⟩ := addScopedSymbol_spec name c hfun
  have hk := addScopedSymbol_table name _ _ _ hr
  have hscope : c'.curscope = [] := hk.1.trans hc.scope
  have hfuncs : ∀ x, c'.IsFunc x → c.IsFunc x := fun x hx => (hd.isFunc_iff hfun x).1 hx
  have hrun := hr
  unfold addScopedSymbol at hr
  rw [run_get_bind] at hr
  dsimp only at hr
  rw [hc.scopeName, List.nil_append] at hr
  cases hf : c.symbols.findSymbol name with
  | none =>
    rw [hf] at hr
    let sym : Symbol :=
      { name, scopedName := name, scopeName := [], ty := c.symtype, dims := c.symdims, isTmp := false }
    have e : c.symbols.addSymbol [] name c.symtype c.symdims =
        (some sym, c.symbols ++ [(name, sym)]) := by
      unfold SymTab.addSymbol
      rw [List.nil_append]
      simp only [hf]
      rfl
    dsimp only at hr
    unfold addNewSymbol at hr
    rw [run_get_bind, e] at hr
    cases hr
    refine ⟨sym, _, hrun, rfl, rfl, ⟨⟨hscope, hk.2 hc.tabled, fun p hp => ?_⟩, rfl, fun x => ?_, hfuncs⟩⟩
    · rcases List.mem_append.1 hp with hp | hp
      · exact hc.vars p hp
      · rw [List.mem_singleton.1 hp]
        exact Or.inr ⟨rfl, rfl, ht⟩
    · simp only [List.mem_singleton]
      exact globalTy_append hf rfl rfl x
  | some sym =>
    rw [hf] at hr
    have hmem : (name, sym) ∈ c.symbols := lookup_mem hf
    have hentry := hc.tabled.table.entries _ hmem
    have hty : sym.ty ≠ .func := fun h => hn ((isFunc_of_find hf).2 h)
    obtain ⟨hs, ha, -⟩ := (hc.vars _ hmem).resolve_left hty
    have ha : sym.isArg = false := ha
    dsimp only at hr
    rw [run_if_neg hty, run_modify_bind, ha, run_if_neg Bool.false_ne_true] at hr
    cases hr
    refine ⟨_, _, hrun, hentry.keyed, hentry.real,
      ⟨⟨hscope, hk.2 hc.tabled, fun p hp => ?_⟩, rfl, fun x => ?_, hfuncs⟩⟩
    · obtain ⟨q, hq, rfl⟩ := List.mem_map.1 hp
      split
      · rcases hc.vars q hq with h | ⟨h1, h2, -⟩
        · next hqn =>
          refine absurd ?_ hn
          have hq' : q = (name, sym) := by
            have hnd := hc.tabled.table.keys
            exact List.inj_on_of_nodup_map hnd hq hmem hqn
          rw [hq'] at h
          exact (isFunc_of_find hf).2 h
        · exact Or.inr ⟨h1, h2, ht⟩
      · exact hc.vars q hq
    · simp only [List.mem_singleton]
      let f (sym : Symbol) : Symbol := { sym with ty := c.symtype, dims := c.symdims }
      have hfs : (f sym).scopeName = [] := hs
      have hfa : (f sym).isArg = false := ha
      exact globalTy_modify hf hfs hfa x

end

/-! ## declarations -/

/-- no initial value -/
def VarList.plain : VarList → Bool
  | .one _ => true
  | .assign _ _ => false
  | .more _ vars => vars.plain

/-- a declaration of integers or truth values, without an intent and without an initial value -/
structure Decl.Scalar (d : Decl) : Prop where
  form : d.form.ty.val.isSome = true
  intent : d.intent = none
  plain : d.vars.plain = true

/-- the node of a declaration -/
def Decl.node (d : Decl) : Node := .varDecl d.vars.names none false false

/-- the types behind a declaration -/
def Decl.tys (d : Decl) (Γ : Str → Option ValTy) (x : Str) : Option ValTy :=
  if d.vars.names.contains x then d.form.ty.val else Γ x

/-- the types that declarations state, the last one of a name -/
def declTys (Γ : Str → Option ValTy) : List Decl → Str → Option ValTy
  | [] => Γ
  | d :: decls => declTys (d.tys Γ) decls

section
variable {c c' : ParserContext}

theorem addVariable_global (name : Str) (names : List Str) (hc : GlobalVars c)
    (ht : c.symtype.val.isSome = true) (hn : ¬ c.IsFunc name) :
    ∃ c', (addVariable name (.varDecl names none false false)).run c =
      .ok (.varDecl (name :: names) none false false) c' ∧ Registered [name] c c' := by
  obtain ⟨sym, c', hr, hs, htmp, hreg⟩ := addScopedSymbol_global hc ht hn
  refine ⟨c', ?_, hreg⟩
  unfold addVariable
  rw [bind_ok hr]
  dsimp only
  rw [bind_ok (check_plain htmp c'), run_if_neg Bool.false_ne_true, ← hs]
  rfl

theorem variables_global : ∀ (vs : VarList) {c : ParserContext}, vs.plain = true → GlobalVars c →
    c.symtype.val.isSome = true → (∀ name ∈ vs.names, ¬ c.IsFunc name) →
    ∃ c', (parseVariables vs).run c = .ok (.varDecl vs.names none false false) c' ∧
      Registered vs.names c c'
  | .one name, c, _, hc, ht, hn =>
    addVariable_global name [] hc ht (hn name (List.mem_singleton_self _))
  | .more name vs, c, hp, hc, ht, hn => by
    obtain ⟨c1, h1, r1⟩ := variables_global vs hp hc ht fun x hx => hn x (List.mem_cons_of_mem _ hx)
    obtain ⟨c2, h2, r2⟩ := addVariable_global name vs.names r1.vars
      (by rw [r1.ty]; exact ht) fun h => hn name List.mem_cons_self (r1.funcs name h)
    have e : (parseVariables (.more name vs)).run c =
        (parseVariables vs >>= fun node => addVariable name node).run c := (rfl)
    exact ⟨c2, by rw [e, bind_ok h1]; exact h2, r1.trans r2⟩

/-- **A declaration.** -/
theorem declare_global (shared : Bool) {d : Decl} (hd : d.Scalar) (hc : GlobalVars c)
    (hn : ∀ name ∈ d.vars.names, ¬ c.IsFunc name) : ∃ c', (declare shared d).run c = .ok d.node c' ∧
      GlobalVars c' ∧ (∀ x, c'.symbols.globalTy x =
        if x ∈ d.vars.names then d.form.ty.val else c.symbols.globalTy x) ∧
      ∀ x, c'.IsFunc x → c.IsFunc x := by
  have hscalar : d.form.isCplxArray = false ∧ d.form.Positive := by
    have := hd.form
    cases hf : d.form <;> rw [hf] at this <;> first | exact ⟨rfl, trivial⟩ | cases this
  have hc' : GlobalVars (d.form.enter c) :=
    ⟨hc.scope, ⟨form_ty_ne d.form, hc.tabled.table⟩, hc.vars⟩
  obtain ⟨c', hr, hreg⟩ := variables_global d.vars hd.plain hc' hd.form hn
  refine ⟨c', ?_, hreg.vars, hreg.types, hreg.funcs⟩
  rw [declare_run shared d hscalar.1 hscalar.2, bind_ok hr, hd.intent]
  rfl

/-- **The declarations of a program.** -/
theorem decls_global (shared : Bool) : ∀ {decls : List Decl} {c : ParserContext}, (∀ d ∈ decls, d.Scalar) →
    GlobalVars c → (∀ d ∈ decls, ∀ name ∈ d.vars.names, ¬ c.IsFunc name) →
    ∃ c', (decls.mapM (declare shared)).run c = .ok (decls.map Decl.node) c' ∧ GlobalVars c' ∧
      c'.symbols.globalTy = declTys c.symbols.globalTy decls
  | [], c, _, hc, _ => ⟨c, rfl, hc, rfl⟩
  | d :: decls, c, hd, hc, hn => by
    obtain ⟨c1, h1, g1, t1, f1⟩ := declare_global shared (hd d List.mem_cons_self) hc
      (hn d List.mem_cons_self)
    obtain ⟨c2, h2, g2, t2⟩ := decls_global shared
      (fun d' hd' => hd d' (List.mem_cons_of_mem _ hd')) g1
      fun d' hd' x hx h => hn d' (List.mem_cons_of_mem _ hd') x hx (f1 x h)
    refine ⟨c2, ?_, g2, ?_⟩
    · rw [List.mapM_cons, bind_ok h1, bind_ok h2]
      rfl
    · rw [t2, declTys]
      congr 1
      funext x
      rw [t1, Decl.tys]
      simp only [List.contains_iff_mem]

end

/-- at first the declared variables are zero -/
def declStore (decls : List Decl) : Store :=
  zeroStore (declTys (fun _ => none) decls) (decls.flatMap fun d => d.vars.names)

/-! ## programs -/

/-- the nodes of declarations as trees -/
def Node.toAST : Node → Option AST
  | .varDecl vars none intentIn intentOut => some (.varDecl vars none intentIn intentOut)
  | .varDecl vars (some (name, term)) intentIn intentOut =>
    some (.varDecl vars (some (.assign [name] (some term))) intentIn intentOut)
  | _ => none

theorem toAST_nodes (decls : List Decl) :
    (decls.map Decl.node).filterMap Node.toAST = declarations (decls.map fun d => d.vars.names) := by
  induction decls with
  | nil => rfl
  | cons d decls ih =>
    rw [List.map_cons, List.map_cons, declarations, List.map_cons, ← declarations, ← ih]
    rfl

/-- the declared types are those of the declared names -/
theorem declTys_undeclared {Γ : Str → Option ValTy} {x : Str} : ∀ {decls : List Decl},
    x ∉ decls.flatMap (fun d => d.vars.names) → declTys Γ decls x = Γ x
  | [], _ => rfl
  | d :: decls, h => by
    rw [List.flatMap_cons, List.mem_append, not_or] at h
    rw [declTys, declTys_undeclared h.2]
    exact if_neg fun hx => h.1 (List.contains_iff_mem.1 hx)

theorem declTys_declared {x : Str} : ∀ {decls : List Decl} {Γ : Str → Option ValTy},
    (∀ d ∈ decls, d.Scalar) → x ∈ decls.flatMap (fun d => d.vars.names) →
    (declTys Γ decls x).isSome = true
  | d :: decls, Γ, hd, h => by
    rw [declTys]
    by_cases hx : x ∈ decls.flatMap fun d => d.vars.names
    · exact declTys_declared (fun d' h' => hd d' (List.mem_cons_of_mem _ h')) hx
    · rw [declTys_undeclared hx]
      rw [List.flatMap_cons, List.mem_append] at h
      rw [Decl.tys, if_pos (List.contains_iff_mem.2 (h.resolve_right hx))]
      exact (hd d List.mem_cons_self).form

section
variable [MathLib TReal]

/-- what is done with the statements before code is generated -/
def passes (optimise : Bool) (prog : List AST) : OptM (List AST) :=
  if optimise then optList prog else pure prog

theorem passes_means {optimise : Bool} {decls : List (List Str)} {stmts prog : List AST}
    {c c' : OptCounts} (h : (passes optimise (declarations decls ++ stmts)).run c = .ok prog c') :
    ∃ stmts', prog = declarations decls ++ stmts' ∧ List.Forall₂ KeepsMeaning stmts stmts' := by
  cases optimise with
  | true =>
    obtain ⟨stmts', hprog, hstmts⟩ := optList_declarations h
    exact ⟨stmts', hprog, optList_means stmts hstmts⟩
  | false =>
    cases h
    exact ⟨stmts, rfl, List.forall₂_same.2 fun _ _ => KeepsMeaning.refl _⟩

/-- **From the source to the machine.**  The declarations are parsed, the program is optimised or
not, and code is generated with the symbol table of the parser: the machine does what the program
means, with the types that the declarations state. -/
theorem source_runs {shared optimise : Bool} {decls : List Decl} {stmts prog : List AST}
    {c0 c : ParserContext} {nodes : List Node} {counts counts' : OptCounts} {n : Nat} {f : Codegen} {v : VM}
    (h0 : c0.Tabled) (hs : c0.curscope = []) (hfun : ∀ p ∈ c0.symbols, p.2.ty = .func)
    (hd : ∀ d ∈ decls, d.Scalar) (hn : ∀ d ∈ decls, ∀ name ∈ d.vars.names, ¬ c0.IsFunc name)
    (hp : (decls.mapM (declare shared)).run c0 = .ok nodes c)
    (ht : typedList (declTys (fun _ => none) decls) stmts [] = true)
    (ho : (passes optimise (nodes.filterMap Node.toAST ++ stmts)).run counts = .ok prog counts')
    (hc : (compile prog).run (Codegen.init c.symbols) = .ok n f)
    (hv : v.Here f.ostr.buf v.sp.toInt 0 []) (hg : v.sp.toInt ≤ v.gbp.toInt)
    (hroom : (f.ostr.buf.length : Int) + c.symbols.frame [] + needList stmts + 23 ≤ v.sp.toInt) :
    (∀ σ, Flow.Ends (execList stmts 0) (declStore decls) σ → ∃ w u u', Relation.ReflTransGen VM.Turn v w ∧
      w.InSlots f.slotOf (v.sp.toInt - c.symbols.frame []) σ ∧
      Relation.ReflTransGen VM.Turn w u ∧ u.sp = v.sp ∧ step.run u = .ok .halted u') ∧
    (Flow.Diverges (execList stmts 0) (declStore decls) → ∀ k, Flow.Far VM.Turn k v) := by
  have hg0 : GlobalVars c0 := ⟨hs, h0, fun p hp => Or.inl (hfun p hp)⟩
  obtain ⟨c', hp', hc', htys⟩ := decls_global shared hd hg0 hn
  rw [hp'] at hp
  cases hp
  -- the functions in the table have no type of variables
  have hnone : c0.symbols.globalTy = fun _ => none := by
    funext x
    unfold SymTab.globalTy
    cases hx : c0.symbols.findSymbol x with
    | none => rfl
    | some sym =>
      have hty : sym.ty = .func := hfun _ (lookup_mem hx)
      rw [Option.bind_some, hty]
      exact ite_self _
  rw [hnone] at htys
  rw [toAST_nodes] at ho
  obtain ⟨stmts', rfl, hmeans⟩ := passes_means ho
  obtain ⟨hexec, htyped, hneed⟩ := KeepsMeaning.stmts hmeans
  have hnames : (decls.map fun d => d.vars.names).flatten = decls.flatMap fun d => d.vars.names := rfl
  have hdecl : declaredTy c.symbols.globalTy (decls.map fun d => d.vars.names).flatten =
      declTys (fun _ => none) decls := by
    funext x
    unfold declaredTy
    rw [htys, hnames]
    by_cases hx : x ∈ decls.flatMap fun d => d.vars.names
    · exact if_pos hx
    · rw [if_neg hx, declTys_undeclared hx]
  have hintegral : c.symbols.Integral := by
    intro sym hsym
    obtain ⟨p, hp, rfl⟩ := List.mem_map.1 (List.mem_filter.1 hsym).1
    exact (hc'.vars p hp).imp_right fun h => h.2.2
  have hruns := compiled_runs hc'.tabled.table.parsed hintegral
    (fun x hx => by
      rw [htys]
      exact declTys_declared hd hx)
    (by rw [hdecl]; exact htyped _ _ ht) hc hv hg (by omega) (hexec 0)
  rw [htys] at hruns
  exact hruns

end

/-! ### a source -/

/-- `int i, s` -/
def sumDecls : List Decl := [⟨.int, none, .more (ascii "i") (.one (ascii "s"))⟩]

def declaredSyms : SymTab :=
  [(ascii "s", { name := ascii "s", scopedName := ascii "s", ty := .int }),
    (ascii "i", { name := ascii "i", scopedName := ascii "i", ty := .int })]

/-- parsed with its declarations and optimised, the program leaves the sum 27 in the slot of `s` -/
theorem source_runs_sum : ∃ (c : ParserContext) (f : Codegen) (slot : VarSlot) (w u u' : VM),
    (sumDecls.mapM (declare true)).run {} = .ok (sumDecls.map Decl.node) c ∧
    (∃ n, (compile (declarations [[ascii "i", ascii "s"]] ++ foldedStmts)).run
      (Codegen.init c.symbols) = .ok n f) ∧
    Relation.ReflTransGen (@VM.Turn (MathLib.absent ⟨0⟩)) (vmOn f.ostr.buf) w ∧
      f.slotOf (ascii "s") = some slot ∧
      At w.mem (w.slotAddr slot).toInt ((Data.int 27 : TData).bytes .unknown) ∧
      Relation.ReflTransGen (@VM.Turn (MathLib.absent ⟨0⟩)) w u ∧
      (@step (MathLib.absent ⟨0⟩)).run u = .ok .halted u' := by
  have hp : (sumDecls.mapM (declare true)).run {} =
      .ok (sumDecls.map Decl.node) { symbols := declaredSyms, symtype := .int } := rfl
  have hd : ∀ d ∈ sumDecls, d.Scalar := by
    intro d hd
    rw [List.mem_singleton.1 hd]
    exact ⟨rfl, rfl, rfl⟩
  have ho : (@passes (MathLib.absent ⟨0⟩) true
      ((sumDecls.map Decl.node).filterMap Node.toAST ++ constStmts)).run
      ⟨0, 0⟩ = .ok (declarations [[ascii "i", ascii "s"]] ++ foldedStmts) ⟨4, 1⟩ := rfl
  obtain ⟨n, f, hc, hf⟩ := endsIn_ok (show endsIn
    (compile (declarations [[ascii "i", ascii "s"]] ++ foldedStmts)) (Codegen.init declaredSyms)
    (fun f => decide (f.ostr.buf.length < 3000)) = true by decide +kernel)
  have hlen : f.ostr.buf.length < 3000 := of_decide_eq_true hf
  obtain ⟨σ, hσ, hs⟩ := doneIn_ok (show doneIn (execList constStmts 0 5 (declStore sumDecls))
    (fun σ => decide (σ (ascii "s") = some (.int 27))) = true by decide +kernel)
  have hsp : (vmOn f.ostr.buf).sp.toInt = 4055 := rfl
  have hgbp : (vmOn f.ostr.buf).gbp.toInt = 4096 := rfl
  have hframe : declaredSyms.frame [] = 18 := by decide +kernel
  have hneed : needList constStmts ≤ 500 := by decide +kernel
  obtain ⟨w, u, u', h1, h2, h3, -, h4⟩ := (@source_runs (MathLib.absent ⟨0⟩) true true sumDecls
    constStmts _ {} _ _ _ _ n f (vmOn f.ostr.buf) tabled_empty rfl
    (fun p hp => absurd hp List.not_mem_nil) hd
    (fun d hd x hx h => absurd h.choose_spec (by intro h; cases h)) hp (by decide +kernel) ho hc
    (here_vmOn (by omega)) (by omega) (by
      show (f.ostr.buf.length : Int) + declaredSyms.frame [] + needList constStmts + 23 ≤ _
      rw [hsp, hframe]
      omega)).1 σ ⟨5, hσ⟩
  obtain ⟨slot, hslot, -⟩ := h2.slot (of_decide_eq_true hs)
  exact ⟨_, f, slot, w, u, u', hp, ⟨n, hc⟩, h1, hslot,
    h2.value _ slot _ hslot (of_decide_eq_true hs), h3, h4⟩

end MuF
