import Mathlib.Data.List.Forall2
import Moo.Proofs.Names.Isolation
import Moo.Proofs.Tree.Context

/-!
# A fault hides nothing that was found

A well-formed program is analysed to its end. With an object of a foreign
kind in the place of one statement or expression of a function body, analysis
gives up there. The two runs are the same up to this place; what follows of
the first one adds errors and names and takes none back.

* `Spared`: the occurrences that the two analysed trees have in common, each
  without a symbol or with the same one in both.
* `Walk.Stops`: two actions, one of which gives up where the other goes on.
  There is one rule for each way to put actions together, by where the place
  is: in an action before the others, or behind some that both runs share.
* `Expr.Context.stops`, `Stmt.Context.stops`, `Program.Context.function_stops`:
  the two ways to fill a context, by the way down to its place.
* `analysis_aborted`: whole programs.
-/
namespace Moo

/-! ## Occurrences with fewer symbols -/

/-- The same occurrences, but for symbols. -/
def Alike (os ws : List Occurrence) : Prop :=
  os.map (·.relabel .forget) = ws.map (·.relabel .forget)

theorem Alike.refl (os : List Occurrence) : Alike os os := rfl

theorem Alike.append {os ws os' ws' : List Occurrence} (h : Alike os ws) (h' : Alike os' ws') :
    Alike (os ++ os') (ws ++ ws') := by
  rw [Alike, List.map_append, List.map_append, h, h']

/-- The same occurrence, with the same symbol if it has one at all. -/
structure Occurrence.Kept (o w : Occurrence) : Prop where
  same : o.relabel .forget = w.relabel .forget
  symbol : ∀ symbol, o.symbol = some symbol → w.symbol = some symbol

theorem kept_refl (os : List Occurrence) : List.Forall₂ Occurrence.Kept os os :=
  List.forall₂_same.2 fun _ _ => ⟨rfl, fun _ h => h⟩

/-- Occurrences without symbols. -/
theorem Alike.kept {os ws : List Occurrence} (h : Alike os ws) (hu : Unresolved os) :
    List.Forall₂ Occurrence.Kept os ws := by
  induction os generalizing ws with
  | nil =>
    obtain rfl : ws = [] := List.map_eq_nil_iff.1 h.symm
    exact .nil
  | cons o os ih =>
    obtain ⟨w, ws, rfl, hw, hws⟩ := List.map_eq_cons_iff.1 h.symm
    obtain ⟨ho, hos⟩ := (unresolved_cons o os).1 hu
    refine .cons ⟨hw.symm, fun symbol hsymbol => ?_⟩ (ih hws.symm hos)
    rw [ho] at hsymbol
    cases hsymbol

/-- The occurrences `ws` are alike `front`, `part` and `back`, one behind the other, and the
occurrences `os` are those in front of the part and behind it, with no other symbols. -/
def Spared (front part back os ws : List Occurrence) : Prop :=
  ∃ front' part' back', ws = front' ++ part' ++ back' ∧ Alike front front' ∧ Alike part part' ∧
    Alike back back' ∧ List.Forall₂ Occurrence.Kept os (front' ++ back')

namespace Spared

variable {front part back os ws : List Occurrence}

/-- All of them are the part that is left out. -/
theorem all (h : Alike part ws) : Spared [] part [] [] ws :=
  ⟨[], ws, [], by simp, .refl [], h, .refl [], .nil⟩

/-- More occurrences behind the part, which the first run leaves without symbols. -/
theorem append (h : Spared front part back os ws) {more ws' : List Occurrence}
    (ha : Alike more ws') (hu : Unresolved more) :
    Spared front part (back ++ more) (os ++ more) (ws ++ ws') := by
  obtain ⟨front', part', back', rfl, hf, hp, hb, hkept⟩ := h
  refine ⟨front', part', back' ++ ws', by simp, hf, hp, hb.append ha, ?_⟩
  rw [← List.append_assoc]
  exact List.rel_append hkept (ha.kept hu)

/-- More occurrences in front of the part. -/
theorem prepend (h : Spared front part back os ws) {more os' ws' : List Occurrence}
    (ha : Alike more ws') (hk : List.Forall₂ Occurrence.Kept os' ws') :
    Spared (more ++ front) part back (os' ++ os) (ws' ++ ws) := by
  obtain ⟨front', part', back', rfl, hf, hp, hb, hkept⟩ := h
  refine ⟨ws' ++ front', part', back', by simp, ha.append hf, hp, hb, ?_⟩
  rw [List.append_assoc]
  exact List.rel_append hk hkept

/-- More occurrences in front of the part, as both runs leave them. -/
theorem behind (h : Spared front part back os ws) {more ws' : List Occurrence}
    (ha : Alike more ws') : Spared (more ++ front) part back (ws' ++ os) (ws' ++ ws) :=
  h.prepend ha (kept_refl ws')

end Spared

/-! ## Analysis leaves occurrences alike -/

open Walk

theorem Expr.resolve_alike (expr : Expr) :
    Yields expr.resolve fun result => Alike expr.occurrences result.1.occurrences :=
  expr.resolve_forget.mono fun _ h => by
    simpa only [Alike, Expr.occurrences_relabel] using congrArg Expr.occurrences h.symm

theorem Expr.resolveAll_alike (exprs : List Expr) : Yields (Expr.resolveAll exprs) fun result =>
    Alike (Expr.occurrencesAll exprs) (Expr.occurrencesAll result) :=
  (Expr.resolveAll_forget exprs).mono fun _ h => by
    simpa only [Alike, Expr.occurrencesAll_relabel] using congrArg Expr.occurrencesAll h.symm

theorem Decl.analyzeVariables_alike (path : Origin) (part : Part) (decls : List Decl)
    (index : Nat) : Yields (Decl.analyzeVariables path part index decls) fun result =>
      Alike (Decl.occurrencesAll decls) (Decl.occurrencesAll result) :=
  (Decl.analyzeVariables_forget path part decls index).mono fun _ h => by
    simpa only [Alike, Decl.occurrencesAll_relabel] using congrArg Decl.occurrencesAll h.symm

theorem Stmt.analyze_alike (path : Origin) (stmt : Stmt) :
    Yields (stmt.analyze path) fun result => Alike stmt.occurrences result.occurrences :=
  (stmt.analyze_forget path).mono fun _ h => by
    simpa only [Alike, Stmt.occurrences_relabel] using congrArg Stmt.occurrences h.symm

theorem Stmt.analyzeAll_alike (path : Origin) (part : Part) (stmts : List Stmt) (index : Nat) :
    Yields (Stmt.analyzeAll path part index stmts) fun result =>
      Alike (Stmt.occurrencesAll stmts) (Stmt.occurrencesAll result) :=
  (Stmt.analyzeAll_forget path part stmts index).mono fun _ h => by
    simpa only [Alike, Stmt.occurrencesAll_relabel] using congrArg Stmt.occurrencesAll h.symm

/-! ## Actions that go on -/

namespace Walk

variable {α β γ : Type}

/-- From every state with an open scope, the action adds to what happened and changes nothing else,
and its result is as `post` says. -/
def Steady (action : Walk α) (post : α → Prop) : Prop :=
  ∀ scope scopes events, ∃ result new, action ⟨⟨scope :: scopes⟩, events, none⟩ =
    (result, ⟨⟨scope :: scopes⟩, new ++ events, none⟩) ∧ post result

theorem Steps.steady {whole : Prop} {action : Walk α} {kept : α} {post : α → Prop}
    (h : Steps whole 0 action kept) (hw : whole) (hy : Yields action post) :
    Steady action post := by
  intro scope scopes events
  obtain ⟨result, inner, new, hrun⟩ := h.settles hw scope scopes
  have htable := h.table_eq ⟨⟨scope :: scopes⟩, events, none⟩
  have hpost := hy.result ⟨⟨scope :: scopes⟩, events, none⟩
  rw [hrun] at htable hpost
  obtain rfl : inner = scope := (List.cons.inj (congrArg Table.scopes htable)).1
  exact ⟨result, new, hrun events, hpost⟩

namespace Steady

variable {action : Walk α} {mid : α → Prop} {post : β → Prop}

theorem pure {b : β} (h : post b) : Steady (Pure.pure b : Walk β) post :=
  fun _ _ _ => ⟨b, [], rfl, h⟩

theorem bind {next : α → Walk β} (h : Steady action mid)
    (hn : ∀ a, mid a → Steady (next a) post) : Steady (action >>= next) post := by
  intro scope scopes events
  obtain ⟨a, new, hrun, hmid⟩ := h scope scopes events
  obtain ⟨b, more, hrun', hpost⟩ := hn a hmid scope scopes (new ++ events)
  refine ⟨b, more ++ new, (bind_run hrun).trans ?_, hpost⟩
  rw [hrun', List.append_assoc]

/-- The last action before a result. -/
theorem last {f : α → β} (h : Steady action mid) (hp : ∀ a, mid a → post (f a)) :
    Steady (do let a ← action; Pure.pure (f a)) post :=
  h.bind fun a ha => .pure (hp a ha)

theorem mono {wide : α → Prop} (h : Steady action mid) (hp : ∀ a, mid a → wide a) :
    Steady action wide := by
  intro scope scopes events
  obtain ⟨result, new, hrun, hmid⟩ := h scope scopes events
  exact ⟨result, new, hrun, hp result hmid⟩

end Steady

/-! ## Actions that give up -/

/-- From every state with an open scope, the first action gives up for a reason where the second one
goes on. What the first one reports by then is in front of what the second one reports, the tables
are the same, and the results are as `post` says. -/
def Stops (broken whole : Walk α) (fault : Fault) (post : α → α → Prop) : Prop :=
  ∀ scope scopes events, ∃ b w inner new more,
    broken ⟨⟨scope :: scopes⟩, events, none⟩ = (b, ⟨⟨inner :: scopes⟩, new, some fault⟩) ∧
    whole ⟨⟨scope :: scopes⟩, events, none⟩ = (w, ⟨⟨inner :: scopes⟩, more, none⟩) ∧
    reported new <+: reported more ∧ post b w

namespace Stops

variable {broken whole : Walk α} {fault : Fault} {mid : α → α → Prop} {post : β → β → Prop}

/-- The place is reached. -/
theorem fail {b : β} {whole : Walk β} (h : Steady whole (post b)) :
    Stops (do Walk.fail fault; Pure.pure b) whole fault post := by
  intro scope scopes events
  obtain ⟨w, new, hrun, hpost⟩ := h scope scopes events
  refine ⟨b, w, scope, events, new ++ events, rfl, hrun, ?_, hpost⟩
  rw [reported_append]
  exact List.prefix_append _ _

/-- The place is in the first of two actions. -/
theorem first {next next' : α → Walk β} {rest : α → β} (h : Stops broken whole fault mid)
    (hidle : ∀ b, Idle (next b) (rest b))
    (hsteady : ∀ b w, mid b w → Steady (next' w) (post (rest b))) :
    Stops (broken >>= next) (whole >>= next') fault post := by
  intro scope scopes events
  obtain ⟨b, w, inner, new, more, hb, hw, hprefix, hmid⟩ := h scope scopes events
  obtain ⟨r, later, hrun, hpost⟩ := hsteady b w hmid inner scopes more
  refine ⟨rest b, r, inner, new, later ++ more, ?_, (bind_run hw).trans hrun, ?_, hpost⟩
  · exact (bind_run hb).trans (hidle b _ rfl)
  · rw [reported_append]
    exact hprefix.trans (List.prefix_append _ _)

/-- What is known of all results of the second action. -/
theorem yields {known : α → Prop} (h : Stops broken whole fault mid) (hk : Yields whole known) :
    Stops broken whole fault fun b w => known w ∧ mid b w := by
  intro scope scopes events
  obtain ⟨b, w, inner, new, more, hb, hw, hprefix, hmid⟩ := h scope scopes events
  have hknown := hk.result ⟨⟨scope :: scopes⟩, events, none⟩
  rw [hw] at hknown
  exact ⟨b, w, inner, new, more, hb, hw, hprefix, hknown, hmid⟩

/-- The last action before a result. -/
theorem last {f : α → β} (h : Stops broken whole fault mid)
    (hp : ∀ b w, mid b w → post (f b) (f w)) :
    Stops (do let b ← broken; Pure.pure (f b)) (do let w ← whole; Pure.pure (f w)) fault post :=
  h.first (fun _ _ _ => rfl) fun b w hmid => .pure (hp b w hmid)

/-- The place is behind an action that both runs share. -/
theorem after {action : Walk γ} {kept : γ} {next next' : γ → Walk β} {shared : γ → Prop}
    {whole : Prop} {count : Nat} (h : Steps whole count action kept) (hw : whole)
    (hy : Yields action shared)
    (hn : ∀ c, shared c → Stops (next c) (next' c) fault post) :
    Stops (action >>= next) (action >>= next') fault post := by
  intro scope scopes events
  obtain ⟨c, inner, new, hrun⟩ := h.settles hw scope scopes
  have hc := hy.result ⟨⟨scope :: scopes⟩, events, none⟩
  rw [hrun] at hc
  obtain ⟨b, w, last, new', more, hb, hw, hrest⟩ := hn c hc inner scopes (new ++ events)
  exact ⟨b, w, last, new', more, (bind_run (hrun events)).trans hb,
    (bind_run (hrun events)).trans hw, hrest⟩

/-- The place is in a scope of its own, which is closed in both runs. -/
theorem inScope (h : Stops broken whole fault mid) :
    Stops (inScope broken) (inScope whole) fault mid := by
  intro scope scopes events
  obtain ⟨b, w, inner, new, more, hb, hw, hprefix, hmid⟩ :=
    h [] (scope :: scopes) (.opened (scopes.length + 2) :: events)
  refine ⟨b, w, scope, .closed (scopes.length + 1) :: new, .closed (scopes.length + 1) :: more,
    inScope_run hb, inScope_run hw, ?_, hmid⟩
  have hclosed (events : List Event) (depth : Nat) :
      reported (.closed depth :: events) = reported events := by
    rw [reported_cons]
    exact List.append_nil _
  rwa [hclosed, hclosed]

end Stops

end Walk

/-! ## Expressions -/

theorem Expr.WellFormed.steady {expr : Expr} (h : expr.WellFormed) :
    Steady expr.resolve fun result => Alike expr.occurrences result.1.occurrences :=
  expr.resolve_steps.steady h expr.resolve_alike

theorem Expr.WellFormedAll.steady {exprs : List Expr} (h : Expr.WellFormedAll exprs) :
    Steady (Expr.resolveAll exprs) fun result =>
      Alike (Expr.occurrencesAll exprs) (Expr.occurrencesAll result) :=
  (Expr.resolveAll_steps exprs).steady h (Expr.resolveAll_alike exprs)

theorem narrow_steady {object : Expr} (h : object.WellFormed) (base : Option Symbol)
    (field : Ident) (old : Option Symbol) :
    Steady (narrow object base field old) fun result =>
      result.1.relabel .forget = field.relabel .forget :=
  (narrow_steps object base field old).steady h (narrow_forget object base field old)

theorem Walk.resolve_alike (id : Ident) :
    Yields (Walk.resolve id) fun result => Alike [.ident id] [.ident result.1] :=
  (Walk.resolve_forget id).mono fun _ h => by simp [Alike, Occurrence.relabel, h]

theorem Stmt.WellFormedAll.steady {stmts : List Stmt} (h : Stmt.WellFormedAll stmts)
    (path : Origin) (part : Part) (index : Nat) :
    Steady (Stmt.analyzeAll path part index stmts) fun result =>
      Alike (Stmt.occurrencesAll stmts) (Stmt.occurrencesAll result) :=
  (Stmt.analyzeAll_steps path part stmts index).steady h (Stmt.analyzeAll_alike path part stmts index)

theorem Decl.analyzeAll_alike (decls : List Decl) (clock : Nat) :
    Yields (Decl.analyzeAll clock decls) fun result =>
      Alike (Decl.occurrencesAll decls) (Decl.occurrencesAll result) :=
  (Decl.analyzeAll_forget decls clock).mono fun _ h => by
    simpa only [Alike, Decl.occurrencesAll_relabel] using congrArg Decl.occurrencesAll h.symm

theorem TypeExpr.resolveReturn_alike (returns : TypeExpr) :
    Yields returns.resolveReturn fun result => Alike returns.occurrences result.occurrences :=
  (resolveReturn_forget returns).mono fun _ h => by
    simpa only [Alike, TypeExpr.occurrences_relabel] using congrArg TypeExpr.occurrences h.symm

theorem bindFunction_alike (origin : Origin) (id : Ident) (returns : TypeExpr)
    (formals : List Decl) : Yields (bindFunction origin id returns formals) fun result =>
      Alike [.ident id] [.ident result] :=
  (bindFunction_forget origin id returns formals).mono fun _ h => by
    simp [Alike, Occurrence.relabel, h]

section Contexts

variable {thing : Stray} {kind : String}

mutual

theorem Expr.Context.stops : ∀ {context : Expr.Context}, (context.fill thing).WellFormed →
    Unresolved (context.fill thing).occurrences →
    Stops (context.fill (.object kind)).resolve (context.fill thing).resolve
      (.unknown .expression kind) fun b w =>
        Spared context.before thing.occurrences context.after b.1.occurrences w.1.occurrences
  | .here, h, _ => by
    have hthing : thing.asExpr.WellFormed := h
    have hsteady : Steady thing.asExpr.resolve fun result =>
        Spared [] thing.occurrences [] [] result.1.occurrences := by
      refine hthing.steady.mono fun _ ha => ?_
      rw [thing.occurrences_asExpr] at ha
      exact .all ha
    exact .fail hsteady
  | .dot object field symbol, h, hu => by
    obtain ⟨hu, huf⟩ := (unresolved_append _ _).1 hu
    obtain ⟨hud, huo⟩ := (unresolved_cons _ _).1 hu
    have hw : (object.fill thing).WellFormed := h
    have hobject := (Expr.Context.stops hw huo).yields (Expr.resolve_wellFormed _)
    refine hobject.first (fun b => (narrow_steps b.1 b.2 field symbol).last.idle)
      fun b w ⟨hresolved, hmid⟩ =>
        (narrow_steady (hresolved.2 hw) w.2 field symbol).last fun step hstep => ?_
    -- the whole access comes before its parts among the occurrences, but after them in the run
    have hdot : Alike [.dot field symbol] [.dot step.1 step.2.1] := by
      simp [Alike, Occurrence.relabel, hstep]
    have hfield : Alike [.ident field] [.ident step.1] := by
      simp [Alike, Occurrence.relabel, hstep]
    exact (hmid.prepend hdot (hdot.kept (by simp [hud]))).append hfield huf
  | .assignTo target value, ⟨ht, hv⟩, hu => by
    obtain ⟨hut, huv⟩ := (unresolved_append _ _).1 hu
    refine (Expr.Context.stops ht hut).first (fun b => value.resolve_steps.last.idle) fun b w hmid => ?_
    exact hv.steady.last fun v ha => hmid.append ha huv
  | .assignOf target value, ⟨ht, hv⟩, hu => by
    obtain ⟨-, huv⟩ := (unresolved_append _ _).1 hu
    refine .after target.resolve_steps ht target.resolve_alike fun t ha => ?_
    exact (Expr.Context.stops hv huv).last fun b w hmid => hmid.behind ha
  | .call callee args, h, hu => by
    obtain ⟨-, hua⟩ := (unresolved_cons _ _).1 hu
    refine .after (Walk.resolve_steps callee) trivial (Walk.resolve_alike callee) fun id ha => ?_
    exact (Expr.ContextAll.stops h hua).last fun b w hmid => hmid.behind ha
  | .unary _ operand, h, hu => by
    have hstops := @Expr.Context.stops operand h hu
    exact hstops.last fun _ _ hmid => hmid
  | .binaryLeft _ left right, ⟨hl, hr⟩, hu => by
    obtain ⟨hul, hur⟩ := (unresolved_append _ _).1 hu
    refine (Expr.Context.stops hl hul).first (fun b => right.resolve_steps.last.idle) fun b w hmid => ?_
    exact hr.steady.last fun r ha => hmid.append ha hur
  | .binaryRight _ left right, ⟨hl, hr⟩, hu => by
    obtain ⟨-, hur⟩ := (unresolved_append _ _).1 hu
    refine .after left.resolve_steps hl left.resolve_alike fun l ha => ?_
    exact (Expr.Context.stops hr hur).last fun b w hmid => hmid.behind ha

theorem Expr.ContextAll.stops : ∀ {context : Expr.ContextAll},
    Expr.WellFormedAll (context.fill thing) →
    Unresolved (Expr.occurrencesAll (context.fill thing)) →
    Stops (Expr.resolveAll (context.fill (.object kind))) (Expr.resolveAll (context.fill thing))
      (.unknown .expression kind) fun b w =>
        Spared context.before thing.occurrences context.after
          (Expr.occurrencesAll b) (Expr.occurrencesAll w)
  | .first expr exprs, ⟨he, hes⟩, hu => by
    obtain ⟨hue, hues⟩ := (unresolved_append _ _).1 hu
    refine (Expr.Context.stops he hue).first (fun b => (Expr.resolveAll_steps exprs).last.idle)
      fun b w hmid => ?_
    exact (Expr.WellFormedAll.steady hes).last fun v ha => hmid.append ha hues
  | .later expr exprs, ⟨he, hes⟩, hu => by
    obtain ⟨-, hues⟩ := (unresolved_append _ _).1 hu
    refine .after expr.resolve_steps he expr.resolve_alike fun e ha => ?_
    exact (Expr.ContextAll.stops hes hues).last fun b w hmid => hmid.behind ha

end

/-! ## Statements -/

/-- The declarations and statements of a block, whatever is made of them. -/
theorem block_alike {γ : Type} (path : Origin) (inDecls inStmts : Part) (decls : List Decl)
    (stmts : List Stmt) (make : List Decl → List Stmt → γ) :
    Yields (inScope do
      let decls ← Decl.analyzeVariables path inDecls 0 decls
      let stmts ← Stmt.analyzeAll path inStmts 0 stmts
      pure (make decls stmts)) fun result =>
        ∃ decls' stmts', result = make decls' stmts' ∧
          Alike (Decl.occurrencesAll decls) (Decl.occurrencesAll decls') ∧
          Alike (Stmt.occurrencesAll stmts) (Stmt.occurrencesAll stmts') :=
  .inScope trivial <| (Decl.analyzeVariables_alike path inDecls decls 0).bind fun _ had =>
    (Stmt.analyzeAll_alike path inStmts stmts 0).last fun _ has => ⟨_, _, rfl, had, has⟩

theorem block_steady {γ : Type} (path : Origin) (inDecls inStmts : Part) {decls : List Decl}
    {stmts : List Stmt} (make : List Decl → List Stmt → γ) (hd : ∀ decl ∈ decls, decl.IsVariable)
    (hs : Stmt.WellFormedAll stmts) :
    Steady (inScope do
      let decls ← Decl.analyzeVariables path inDecls 0 decls
      let stmts ← Stmt.analyzeAll path inStmts 0 stmts
      pure (make decls stmts)) fun result =>
        ∃ decls' stmts', result = make decls' stmts' ∧
          Alike (Decl.occurrencesAll decls) (Decl.occurrencesAll decls') ∧
          Alike (Stmt.occurrencesAll stmts) (Stmt.occurrencesAll stmts') :=
  have hsteps := block_steps path inDecls inStmts make (fun _ : True => hd)
    ((Stmt.analyzeAll_steps path inStmts stmts 0).mono fun _ => hs)
  hsteps.inScope.steady trivial (block_alike path inDecls inStmts decls stmts make)

/-- A block behind the place. -/
theorem block_skips {γ : Type} (path : Origin) (inDecls inStmts : Part) (decls : List Decl)
    (stmts : List Stmt) (make : List Decl → List Stmt → γ) :
    Steps False 0 (inScope do
      let decls ← Decl.analyzeVariables path inDecls 0 decls
      let stmts ← Stmt.analyzeAll path inStmts 0 stmts
      pure (make decls stmts)) (make decls stmts) :=
  .inScope <| block_steps path inDecls inStmts make False.elim
    ((Stmt.analyzeAll_steps path inStmts stmts 0).mono False.elim)

/-- A block with the place among its statements, whatever is made of it. -/
theorem block_stops {γ : Type} {path : Origin} {inDecls inStmts : Part} {decls : List Decl}
    {broken whole : List Stmt} {fault : Fault} {front part back : List Occurrence}
    {make : List Decl → List Stmt → γ} {post : γ → γ → Prop}
    (hd : ∀ decl ∈ decls, decl.IsVariable)
    (hs : Stops (Stmt.analyzeAll path inStmts 0 broken) (Stmt.analyzeAll path inStmts 0 whole)
      fault fun b w => Spared front part back (Stmt.occurrencesAll b) (Stmt.occurrencesAll w))
    (hp : ∀ ds b w, Alike (Decl.occurrencesAll decls) (Decl.occurrencesAll ds) →
      Spared front part back (Stmt.occurrencesAll b) (Stmt.occurrencesAll w) →
      post (make ds b) (make ds w)) :
    Stops
      (inScope do
        let decls ← Decl.analyzeVariables path inDecls 0 decls
        let stmts ← Stmt.analyzeAll path inStmts 0 broken
        pure (make decls stmts))
      (inScope do
        let decls ← Decl.analyzeVariables path inDecls 0 decls
        let stmts ← Stmt.analyzeAll path inStmts 0 whole
        pure (make decls stmts)) fault post := by
  refine .inScope (.after (Decl.analyzeVariables_steps path inDecls decls 0)
    (fun d hm => .inl (hd d hm)) (Decl.analyzeVariables_alike path inDecls decls 0) fun ds ha => ?_)
  exact hs.last fun b w hmid => hp ds b w ha hmid

mutual

theorem Stmt.Context.stops (path : Origin) : ∀ {context : Stmt.Context},
    (context.fill thing).WellFormed → Unresolved (context.fill thing).occurrences →
    Stops ((context.fill (.object kind)).analyze path) ((context.fill thing).analyze path)
      (.unknown context.position kind) fun b w =>
        Spared context.before thing.occurrences context.after b.occurrences w.occurrences
  | .here, h, _ => by
    have hsteady : Steady (thing.asStmt.analyze path) fun result =>
        Spared [] thing.occurrences [] [] result.occurrences := by
      refine (Stmt.analyze_steps path _).steady h ((Stmt.analyze_alike path _).mono fun _ ha => ?_)
      rw [thing.occurrences_asStmt] at ha
      exact .all ha
    exact .fail hsteady
  | .assign expr, h, hu | .increment expr, h, hu | .decrement expr, h, hu | .read expr, h, hu
  | .write expr, h, hu | .call expr, h, hu | .returnValue expr, h, hu => by
    have hstops := @Expr.Context.stops thing kind expr h hu
    exact hstops.last fun _ _ hmid => hmid
  | .ifCondition condition decls stmts, ⟨hc, hd, hs⟩, hu
  | .loopCondition condition decls stmts, ⟨hc, hd, hs⟩, hu => by
    obtain ⟨hu, hus⟩ := (unresolved_append _ _).1 hu
    obtain ⟨huc, hud⟩ := (unresolved_append _ _).1 hu
    refine (Expr.Context.stops hc huc).first
      (fun b => (block_skips path .decls .stmts decls stmts _).idle)
      fun b w hmid => (block_steady path .decls .stmts _ hd hs).mono ?_
    rintro _ ⟨ds, ss, rfl, had, has⟩
    exact (hmid.append had hud).append has hus
  | .ifThen condition decls stmts, ⟨hc, hd, hs⟩, hu
  | .loop condition decls stmts, ⟨hc, hd, hs⟩, hu => by
    obtain ⟨-, hus⟩ := (unresolved_append _ _).1 hu
    refine .after condition.resolve_steps hc condition.resolve_alike fun c hac => ?_
    refine block_stops hd (Stmt.ContextAll.stops path .stmts hs hus 0) fun ds b w had hmid => ?_
    exact hmid.behind (hac.append had)
  | .elseCondition condition thenDecls thenStmts elseDecls elseStmts,
      ⟨hc, ⟨htd, hts⟩, hed, hes⟩, hu => by
    obtain ⟨hu, hues⟩ := (unresolved_append _ _).1 hu
    obtain ⟨hu, hued⟩ := (unresolved_append _ _).1 hu
    obtain ⟨hu, huts⟩ := (unresolved_append _ _).1 hu
    obtain ⟨huc, hutd⟩ := (unresolved_append _ _).1 hu
    refine (Expr.Context.stops hc huc).first
      (fun b => ((block_skips path .decls .stmts thenDecls thenStmts Prod.mk).after fun _ =>
        block_skips path .elseDecls .elseStmts elseDecls elseStmts _).idle)
      fun b w hmid => (block_steady path .decls .stmts Prod.mk htd hts).bind ?_
    rintro _ ⟨tds, tss, rfl, hatd, hats⟩
    refine (block_steady path .elseDecls .elseStmts _ hed hes).mono ?_
    rintro _ ⟨eds, ess, rfl, haed, haes⟩
    exact (((hmid.append hatd hutd).append hats huts).append haed hued).append haes hues
  | .elseThen condition thenDecls thenStmts elseDecls elseStmts,
      ⟨hc, ⟨htd, hts⟩, hed, hes⟩, hu => by
    obtain ⟨hu, hues⟩ := (unresolved_append _ _).1 hu
    obtain ⟨hu, hued⟩ := (unresolved_append _ _).1 hu
    obtain ⟨-, huts⟩ := (unresolved_append _ _).1 hu
    refine .after condition.resolve_steps hc condition.resolve_alike fun c hac => ?_
    have hthen : Stops
        (inScope do
          let decls ← Decl.analyzeVariables path .decls 0 thenDecls
          let stmts ← Stmt.analyzeAll path .stmts 0 (thenStmts.fill (.object kind))
          pure (decls, stmts))
        (inScope do
          let decls ← Decl.analyzeVariables path .decls 0 thenDecls
          let stmts ← Stmt.analyzeAll path .stmts 0 (thenStmts.fill thing)
          pure (decls, stmts)) (.unknown thenStmts.position kind) fun b w =>
            Spared (condition.occurrences ++ Decl.occurrencesAll thenDecls ++ thenStmts.before)
              thing.occurrences thenStmts.after
              (c.1.occurrences ++ Decl.occurrencesAll b.1 ++ Stmt.occurrencesAll b.2)
              (c.1.occurrences ++ Decl.occurrencesAll w.1 ++ Stmt.occurrencesAll w.2) :=
      block_stops htd (Stmt.ContextAll.stops path .stmts hts huts 0) fun _ _ _ hatd hmid =>
        hmid.behind (hac.append hatd)
    refine hthen.first (fun b => (block_skips path .elseDecls .elseStmts elseDecls elseStmts _).idle)
      fun b w hmid => (block_steady path .elseDecls .elseStmts _ hed hes).mono ?_
    rintro _ ⟨eds, ess, rfl, haed, haes⟩
    exact (hmid.append haed hued).append haes hues
  | .elseElse condition thenDecls thenStmts elseDecls elseStmts,
      ⟨hc, ⟨htd, hts⟩, hed, hes⟩, hu => by
    obtain ⟨-, hues⟩ := (unresolved_append _ _).1 hu
    have hthen := block_steps path .decls .stmts Prod.mk (fun _ : True => htd)
      ((Stmt.analyzeAll_steps path .stmts thenStmts 0).mono fun _ => hts)
    refine .after condition.resolve_steps hc condition.resolve_alike fun c hac =>
      .after hthen.inScope trivial (block_alike path .decls .stmts thenDecls thenStmts Prod.mk) ?_
    rintro _ ⟨tds, tss, rfl, hatd, hats⟩
    refine block_stops hed (Stmt.ContextAll.stops path .elseStmts hes hues 0)
      fun eds b w haed hmid => ?_
    exact hmid.behind (((hac.append hatd).append hats).append haed)

theorem Stmt.ContextAll.stops (path : Origin) (part : Part) : ∀ {context : Stmt.ContextAll},
    Stmt.WellFormedAll (context.fill thing) →
    Unresolved (Stmt.occurrencesAll (context.fill thing)) → (index : Nat) →
    Stops (Stmt.analyzeAll path part index (context.fill (.object kind)))
      (Stmt.analyzeAll path part index (context.fill thing)) (.unknown context.position kind)
      fun b w =>
        Spared context.before thing.occurrences context.after
          (Stmt.occurrencesAll b) (Stmt.occurrencesAll w)
  | .first stmt stmts, ⟨hs, hss⟩, hu, index => by
    obtain ⟨hus, huss⟩ := (unresolved_append _ _).1 hu
    refine (Stmt.Context.stops _ hs hus).first
      (fun b => (Stmt.analyzeAll_steps path part stmts (index + 1)).last.idle) fun b w hmid => ?_
    exact (hss.steady path part (index + 1)).last fun _ ha => hmid.append ha huss
  | .later stmt stmts, ⟨hs, hss⟩, hu, index => by
    obtain ⟨-, huss⟩ := (unresolved_append _ _).1 hu
    refine .after (stmt.analyze_steps _) hs (stmt.analyze_alike _) fun s ha => ?_
    exact (Stmt.ContextAll.stops path part hss huss (index + 1)).last fun b w hmid => hmid.behind ha

end

/-! ## Declarations at top level -/

/-- The function with the place in its body. -/
theorem Program.Context.function_stops (context : Program.Context) (kind : String)
    (origin : Origin) (h : (context.function thing).WellFormed)
    (hu : Unresolved (context.function thing).occurrences) :
    Stops ((context.function (.object kind)).analyze origin)
      ((context.function thing).analyze origin) (.unknown context.position kind) fun b w =>
        Spared context.functionBefore thing.occurrences context.stmts.after
          b.occurrences w.occurrences := by
  obtain ⟨front, returns, id, formals, decls, stmts, back⟩ := context
  obtain ⟨hr, hf, hd, hs⟩ := h
  obtain ⟨-, hus⟩ := (unresolved_append _ _).1 hu
  have hreturns : Yields returns.resolveReturn fun result =>
      (result.WellFormed ↔ returns.WellFormed) ∧ Alike returns.occurrences result.occurrences :=
    .of fun state =>
      ⟨returns.resolveReturn_wellFormed.result state, returns.resolveReturn_alike.result state⟩
  refine .after returns.resolveReturn_steps trivial hreturns fun returns' ⟨hr', har⟩ => ?_
  refine .after (bindFunction_steps origin id returns' formals) ⟨hr'.2 hr, hf⟩
    (bindFunction_alike origin id _ formals) fun id' hai => .inScope ?_
  refine .after (Decl.analyzeVariables_steps origin .formals formals 0)
    (fun f hm => .inr (hf f hm)) (Decl.analyzeVariables_alike origin .formals formals 0)
    fun fs haf => ?_
  refine .after (Decl.analyzeVariables_steps origin .decls decls 0)
    (fun d hm => .inl (hd d hm)) (Decl.analyzeVariables_alike origin .decls decls 0)
    fun ds had => ?_
  exact (Stmt.ContextAll.stops origin .stmts hs hus 0).last fun b w hmid =>
    hmid.behind ((har.append (hai.append haf)).append had)

end Contexts

/-- A well-formed program without symbols, and the same program with an object of a foreign kind in
the place of one thing in a function body. Analysis of the second one gives up at the object, and
says of what kind it is and what is expected there. What it has reported by then are the first of
the errors of the whole program. One scope is left, and in it is what the run of the whole program
has declared by the end of the function with the place; what that run declares later comes on top.
And every symbol that is set in the tree by then is the one that the same node has in the whole
program. -/
theorem analysis_aborted (context : Program.Context) (thing : Stray) (kind : String)
    (h : (context.fill thing).WellFormed) (hu : Unresolved (context.fill thing).occurrences) :
    let whole := (context.fill thing).analyze
    let broken := (context.fill (.object kind)).analyze
    let upTo := (context.fill thing).decls.take (context.front.length + 1)
    broken.fault = some (.unknown context.position kind) ∧
      broken.diagnostics <+: whole.diagnostics ∧
      broken.table.depth = 1 ∧
      broken.table = (Decl.analyzeAll 0 upTo ⟨.new, [], none⟩).2.table ∧
      (∃ later, whole.table = broken.table.extend later) ∧
      Spared context.before thing.occurrences context.after broken.program.occurrences
        whole.program.occurrences := by
  obtain ⟨hfront, hfunction, hback⟩ : (∀ decl ∈ context.front, decl.WellFormed) ∧
      (context.function thing).WellFormed ∧ ∀ decl ∈ context.back, decl.WellFormed := by
    simpa [Program.Context.fill, Program.WellFormed, or_imp, forall_and] using h
  obtain ⟨-, hufunction, huback⟩ : Unresolved (Decl.occurrencesAll context.front) ∧
      Unresolved (context.function thing).occurrences ∧
      Unresolved (Decl.occurrencesAll context.back) := by
    simpa [Program.Context.fill, Program.occurrences, Decl.occurrencesAll_append,
      Decl.occurrencesAll] using hu
  have hfrontAlike := (Decl.analyzeAll_alike context.front 0).result ⟨.new, [], none⟩
  obtain ⟨front, g₁, e₁, h₁⟩ := (Decl.analyzeAll_steps context.front 0).settles hfront [] []
  obtain ⟨b, w, g₂, new, more, hb, hw, hprefix, hspared⟩ :=
    context.function_stops kind (.top context.front.length) hfunction hufunction g₁ [] (e₁ ++ [])
  -- behind the function the first run is idle, and the second one only adds
  have hbackAlike := (Decl.analyzeAll_alike context.back (context.front.length + 1)).result
    ⟨⟨[g₂]⟩, more, none⟩
  have hbackSteps := Decl.analyzeAll_steps context.back (context.front.length + 1)
  obtain ⟨later, -, -, hlater⟩ := hbackSteps.table ⟨⟨[g₂]⟩, more, none⟩
  obtain ⟨back, g₃, e₃, h₃⟩ := hbackSteps.settles hback g₂ []
  rw [show Decl.analyzeAll 0 context.front ⟨.new, [], none⟩ = _ from h₁ []] at hfrontAlike
  rw [h₃] at hbackAlike hlater
  have hbroken : (context.fill (.object kind)).analyze =
      ⟨⟨front ++ b :: context.back⟩, ⟨[g₂]⟩, new.reverse, some (.unknown context.position kind)⟩ :=
    Program.analyze_of_run (Decl.analyzeAll_around (h₁ _) hb (hbackSteps.idle _ rfl))
  have hwhole : (context.fill thing).analyze =
      ⟨⟨front ++ w :: back⟩, ⟨[g₃]⟩, (e₃ ++ more).reverse, none⟩ :=
    Program.analyze_of_run (Decl.analyzeAll_around (h₁ _) hw (h₃ _))
  have hupTo : Decl.analyzeAll 0 ((context.fill thing).decls.take (context.front.length + 1))
      ⟨.new, [], none⟩ = (front ++ [w], ⟨⟨[g₂]⟩, more, none⟩) := by
    rw [Program.Context.fill, List.take_length_add_append]
    exact Decl.analyzeAll_around (h₁ _) hw rfl
  intro whole broken upTo
  rw [show broken = _ from hbroken, show whole = _ from hwhole, hupTo]
  refine ⟨rfl, ?_, rfl, rfl, ⟨later, hlater⟩, ?_⟩
  · have herrors : reported new <+: reported (e₃ ++ more) := by
      rw [reported_append]
      exact hprefix.trans (List.prefix_append _ _)
    exact herrors
  · simp only [Program.occurrences, Decl.occurrencesAll_append, Decl.occurrencesAll]
    exact (hspared.append hbackAlike huback).behind hfrontAlike

/-- `struct S { int a; }; void f(struct S s) { p++; if (s.a) { int x; x = f(x, _ + q, s.a); } }
int r;`, with the place of an operand left open. -/
def halfCall : Program.Context where
  front := [.struct ⟨"S", some ⟨1, 8⟩, none⟩ [.var (.primitive "int") ⟨"a", some ⟨1, 16⟩, none⟩]]
  returns := .primitive "void"
  id := ⟨"f", some ⟨2, 6⟩, none⟩
  formals := [.formal (.struct ⟨"S", some ⟨2, 15⟩, none⟩) ⟨"s", some ⟨2, 17⟩, none⟩]
  decls := []
  stmts :=
    .later (.increment (.name ⟨"p", some ⟨3, 1⟩, none⟩)) <|
    .first (.ifThen (.dot (.name ⟨"s", some ⟨4, 5⟩, none⟩) ⟨"a", some ⟨4, 7⟩, none⟩ none)
      [.var (.primitive "int") ⟨"x", some ⟨4, 16⟩, none⟩]
      (.first (.assign (.assignOf (.name ⟨"x", some ⟨5, 1⟩, none⟩)
        (.call ⟨"f", some ⟨5, 5⟩, none⟩
          (.later (.name ⟨"x", some ⟨5, 7⟩, none⟩)
            (.first (.binaryLeft "+" .here (.name ⟨"q", some ⟨5, 14⟩, none⟩))
              [.dot (.name ⟨"s", some ⟨5, 17⟩, none⟩) ⟨"a", some ⟨5, 19⟩, none⟩ none]))))) []))
      []
  back := [.var (.primitive "int") ⟨"r", some ⟨7, 5⟩, none⟩]

/-- The operand is `u`, which nothing declares, as nothing does `p` and `q`. With a `Widget` in its
place only `p` is reported, and `r` is not declared. -/
theorem analysis_aborted_call :
    let thing : Stray := .expr (.name ⟨"u", some ⟨5, 10⟩, none⟩)
    let whole := (halfCall.fill thing).analyze
    let broken := (halfCall.fill (.object "Widget")).analyze
    (halfCall.fill thing).WellFormed ∧ Unresolved (halfCall.fill thing).occurrences ∧
      broken.fault = some (.unknown .expression "Widget") ∧
      broken.diagnostics = [⟨⟨3, 1⟩, .undeclared⟩] ∧
      whole.diagnostics =
        [⟨⟨3, 1⟩, .undeclared⟩, ⟨⟨5, 10⟩, .undeclared⟩, ⟨⟨5, 14⟩, .undeclared⟩] ∧
      broken.table.scopes.map (·.map Prod.fst) = [["S", "f"]] ∧
      whole.table.scopes.map (·.map Prod.fst) = [["S", "f", "r"]] ∧
      broken.table = (Decl.analyzeAll 0
        ((halfCall.fill thing).decls.take (halfCall.front.length + 1)) ⟨.new, [], none⟩).2.table ∧
      Spared halfCall.before thing.occurrences halfCall.after broken.program.occurrences
        whole.program.occurrences := by
  intro thing whole broken
  have h : (halfCall.fill thing).WellFormed := by
    simp [halfCall, thing, Program.Context.fill, Program.Context.function, Program.WellFormed,
      Decl.WellFormed, Decl.IsVariable, Decl.IsFormal, TypeExpr.WellFormed, Stmt.WellFormed,
      Stmt.WellFormedAll, Expr.WellFormed, Expr.WellFormedAll, Stray.asExpr]
  have hu : Unresolved (halfCall.fill thing).occurrences := by
    rw [Program.Context.occurrences_fill]
    simp [halfCall, thing, Program.Context.before, Program.Context.functionBefore,
      Program.Context.after, Decl.occurrencesAll, Decl.occurrences, TypeExpr.occurrences,
      Stmt.occurrencesAll, Stmt.occurrences, Expr.occurrencesAll, Expr.occurrences,
      Stray.occurrences, Occurrence.symbol]
  obtain ⟨hfault, -, -, htable, -, hspared⟩ := analysis_aborted halfCall thing "Widget" h hu
  exact ⟨h, hu, hfault, by decide +kernel, by decide +kernel, by decide +kernel,
    by decide +kernel, htable, hspared⟩

end Moo
