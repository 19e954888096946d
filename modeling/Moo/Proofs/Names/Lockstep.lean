import Moo.Proofs.Names.Likeness
import Moo.Proofs.Names.Sites
import Moo.Proofs.Names.Steps

/-!
# Two analyses in lockstep

Name analysis of a tree, and name analysis of the same tree with other
symbols on it, on tables that hold like symbols under the same names: at all
parts of the tree the two do alike. The tree may hold anything anywhere, unless
the members of struct types are left open: then it has to be well-formed.

* `Site.outline`: what there is to see at a site of an analysed tree, unless
  that stands behind a dot.
* `Program.outerSites`: all sites but those in the field lists of structs.
* `Expr.resolve_lockstep`, `Stmt.analyze_lockstep`, `Decl.analyze_lockstep`:
  one part of a program. Where the likeness is exact, the trees that come out
  have the same outlines.
-/
namespace Moo

variable {like : Likeness}

/-! ## What there is to see of a tree -/

namespace Site

/-- The identifier at a site, unless that is behind a dot. -/
def plain? : Site → Option Ident
  | use id | tag id | declaration _ _ id => some id
  | access .. => none

/-- The use at the site and what is reported there, unless that is behind a dot. -/
def outline (site : Site) : Option (Use × List Diagnostic) :=
  site.plain?.map fun id => ((Occurrence.ident id).use, site.errors)

end Site

/-- Sites that look the same from outside. -/
def SameSites (as bs : List Site) : Prop :=
  as.map Site.outline = bs.map Site.outline

namespace SameSites

theorem refl (sites : List Site) : SameSites sites sites := rfl

theorem single {a b : Site} (h : a.outline = b.outline) : SameSites [a] [b] :=
  congrArg (fun outline => [outline]) h

theorem append {as bs cs ds : List Site} (h : SameSites as bs) (h' : SameSites cs ds) :
    SameSites (as ++ cs) (bs ++ ds) := by
  rw [SameSites, List.map_append, List.map_append, h, h']

end SameSites

/-- The sites of a declaration that is not inside a struct. -/
def Decl.outerSites (before : List Decl) : Decl → List Site
  | .struct tag _ => [.declaration before none tag]
  | decl => decl.sites before

def Decl.outerSitesAll (before : List Decl) : List Decl → List Site
  | [] => []
  | decl :: decls => decl.outerSites before ++ Decl.outerSitesAll (before ++ [decl]) decls

/-- The sites of a program apart from those in the field lists of structs. -/
def Program.outerSites (program : Program) : List Site :=
  Decl.outerSitesAll [] program.decls

theorem Decl.outerSitesAll_append (before decls more : List Decl) :
    Decl.outerSitesAll before (decls ++ more) =
      Decl.outerSitesAll before decls ++ Decl.outerSitesAll (before ++ decls) more := by
  induction decls generalizing before with
  | nil => simp [Decl.outerSitesAll]
  | cons decl decls ih => simp [Decl.outerSitesAll, ih]

section Outline

variable (exact : like.Exact)
include exact

theorem Ident.Like.use {a b : Ident} (h : a.Like like b) :
    (Occurrence.ident a).use = (Occurrence.ident b).use := by
  simp only [Occurrence.use, Occurrence.id, Occurrence.symbol, h.name, h.loc, h.decl exact]

theorem Ident.Like.isSome {a b : Ident} (h : a.Like like b) :
    a.symbol.isSome = b.symbol.isSome := by
  simpa using congrArg Option.isSome (h.decl exact)

omit exact in
theorem Ident.Like.about {a b : Ident} (h : a.Like like b) (misuse : Misuse) :
    Diagnostic.about a misuse = .about b misuse := by
  rw [Diagnostic.about, Diagnostic.about, h.loc]

/-- The site of a name that is looked up. -/
theorem Ident.Like.outline {a b : Ident} (h : a.Like like b) {site : Ident → Site}
    (hsite : site = .use ∨ site = .tag) : (site a).outline = (site b).outline := by
  have hnone : a.symbol.isNone = b.symbol.isNone := by
    rw [← Option.not_isSome, ← Option.not_isSome, h.isSome exact]
  rcases hsite with rfl | rfl <;>
    simp only [Site.outline, Site.plain?, Option.map_some, h.use exact, Site.errors,
      Site.misuses, hnone] <;>
    split <;> simp [h.about]

end Outline

/-- Declared types that look the same from outside. -/
structure TypeExpr.SameOutline (a b : TypeExpr) : Prop where
  known : a.isKnown = b.isKnown
  void : a.isVoid = b.isVoid
  sites : SameSites a.sites b.sites

theorem Ident.Like.outline_declaration (exact : like.Exact) {a b : Ident} (h : a.Like like b)
    {before before' : List Decl} (hb : ∀ name, bound before name = bound before' name)
    (type type' : Option TypeExpr) (hv : type.any TypeExpr.isVoid = type'.any TypeExpr.isVoid)
    (hk : type.all TypeExpr.isKnown = type'.all TypeExpr.isKnown) :
    (Site.declaration before type a).outline = (Site.declaration before' type' b).outline := by
  simp only [Site.outline, Site.plain?, Option.map_some, h.use exact, Site.errors, Site.misuses,
    hv, hk, hb, h.name, List.map_append]
  congr 3 <;> split <;> simp [h.about]

/-- Declarations of one scope that enter the same names, and look the same from outside wherever the
same names are in the scope already. -/
structure Decl.SameOutline (sites : List Decl → List Decl → List Site) (as bs : List Decl) :
    Prop where
  bound : ∀ name, bound as name = bound bs name
  sites : ∀ before before', (∀ name, Moo.bound before name = Moo.bound before' name) →
    SameSites (sites before as) (sites before' bs)

theorem bound_append (as bs : List Decl) (name : String) :
    bound (as ++ bs) name = (bound as name || bound bs name) := by
  simp [bound]

theorem Decl.SameOutline.append {sites : List Decl → List Decl → List Site}
    (happend : ∀ before as bs, sites before (as ++ bs) = sites before as ++ sites (before ++ as) bs)
    {as bs cs ds : List Decl} (h : Decl.SameOutline sites as bs)
    (h' : Decl.SameOutline sites cs ds) : Decl.SameOutline sites (as ++ cs) (bs ++ ds) where
  bound name := by rw [bound_append, bound_append, h.bound, h'.bound]
  sites before before' hb := by
    have hmid (name : String) : Moo.bound (before ++ as) name = Moo.bound (before' ++ bs) name := by
      rw [bound_append, bound_append, hb, h.bound]
    rw [happend, happend]
    exact (h.sites _ _ hb).append (h'.sites _ _ hmid)

open Walk

/-! ## Expressions -/

/-- Resolved expressions that are alike. -/
structure Expr.Lockstep (like : Likeness) (r s : Expr × Option Symbol) : Prop where
  denotes : like.inside → Option.Rel (Symbol.Like like) r.2 s.2
  blame : Option.Rel (Remark.Like like) r.1.blame? s.1.blame?
  sites : like.Exact → SameSites r.1.sites s.1.sites

/-- What is said of a wrong dot. -/
theorem blame_like {object object' : Option Remark} {field field' : Remark}
    (h : Option.Rel (Remark.Like like) object object') (hf : field.Like like field') :
    Remark.Like like (object.getD field) (object'.getD field') := by
  cases h with
  | none => exact hf
  | some h => exact h

/-- A step behind a dot. If the members of struct types are left open, it may be a wrong one in one
of the two places, and then nothing but the report must come of that. -/
theorem narrow_lockstep {object object' : Expr} {base base' : Option Symbol} {field field' : Ident}
    (old old' : Option Symbol) (hb : like.inside → Option.Rel (Symbol.Like like) base base')
    (ho : Option.Rel (Remark.Like like) object.blame? object'.blame?)
    (hw : like.inside ∨ object.WellFormed ∧ object'.WellFormed) (hf : field.Like like field') :
    Lockstep like (narrow object base field old) (narrow object' base' field' old') fun r s =>
      r.1.loc = s.1.loc ∧ (like.inside → Option.Rel (Symbol.Like like) r.2.2 s.2.2) := by
  by_cases hin : like.inside
  · refine look_lockstep ⟨hf.loc, fun _ => .none⟩ fun _ _ _ => ?_
    have hno := blame_like ho (Remark.like_misuse .notAStruct fun _ => hf.loc)
    cases hb hin with
    | none => exact ⟨hno, hf.loc, fun _ => .none⟩
    | some hst =>
      cases hst with
      | @structValue _ _ d e _ _ hdef =>
        cases hdef with
        | structType _ _ hnames hmembers =>
          have hfind := Scope.Like.find? ⟨hnames hin, hmembers hin⟩ field.name
          dsimp only
          generalize Scope.find? d.members field.name = s at hfind
          rw [hf.name] at hfind
          generalize Scope.find? e.members field'.name = t at hfind
          cases hfind with
          | none =>
            exact ⟨Remark.like_misuse .unknownField fun _ => hf.loc, hf.loc, fun _ => .none⟩
          | some hst => exact ⟨Remark.like_refl _, hf.loc, fun _ => .some hst⟩
      | _ => exact ⟨hno, hf.loc, fun _ => .none⟩
  · obtain ⟨hw, hw'⟩ := hw.resolve_left hin
    have hsteps := narrow_steps object base field old
    have hsteps' := narrow_steps object' base' field' old'
    have hlocs (object : Expr) (base : Option Symbol) (field : Ident) (old : Option Symbol)
        (state : WalkState) : (narrow object base field old state).1.1.loc = field.loc :=
      (congrArg Ident.loc ((narrow_forget object base field old).result state) :)
    intro a b hab
    refine ⟨⟨?_, ?_, (absurd · hin)⟩, ?_, (absurd · hin)⟩
    · rw [hsteps.table_eq, hsteps'.table_eq]
      exact hab.scopes
    · rw [hsteps.fault_eq hw, hsteps'.fault_eq hw', hab.fault]
    · rw [hlocs, hlocs, hf.loc]

/-- A step to something that is no identifier. -/
theorem narrowStray_lockstep (hin : like.inside) {object object' : Expr}
    {base base' : Option Symbol} (field : Stray) {given given' : Option Symbol}
    (old old' : Option Symbol) (hb : Option.Rel (Symbol.Like like) base base')
    (ho : Option.Rel (Remark.Like like) object.blame? object'.blame?) :
    Lockstep like (narrowStray object base field given old)
      (narrowStray object' base' (field.relabel like.relabel) given' old') fun r s =>
        Option.Rel (Symbol.Like like) r.2.2 s.2.2 := by
  refine look_lockstep .none fun _ _ _ => ?_
  have hno := blame_like ho (field.remark_like .notAStruct)
  rw [Stray.name_relabel]
  cases hb with
  | none => exact ⟨hno, .none⟩
  | some hst =>
    cases hst with
    | @structValue _ _ d e _ _ hdef =>
      cases hdef with
      | structType _ _ hnames hmembers =>
        cases field.name with
        | error fault => exact ⟨Remark.like_refl _, .none⟩
        | ok name =>
          have hfind := Scope.Like.find? ⟨hnames hin, hmembers hin⟩ name
          dsimp only
          generalize Scope.find? d.members name = s at hfind
          generalize Scope.find? e.members name = t at hfind
          cases hfind with
          | none => exact ⟨field.remark_like .unknownField, .none⟩
          | some hst => exact ⟨Remark.like_refl _, .some hst⟩
    | _ => exact ⟨hno, .none⟩

mutual

theorem Expr.resolve_lockstep : ∀ expr : Expr, like.inside ∨ expr.WellFormed →
    Walk.Lockstep like expr.resolve (expr.relabel like.relabel).resolve (Expr.Lockstep like)
  | .int .., _ | .str .., _ | .bool .., _ => .pure ⟨fun _ => .none, .none, fun _ => rfl⟩
  | .name id, _ => (Walk.resolve_lockstep id.like_relabel).last fun _ _ hrs =>
    ⟨fun _ => hrs.2, .some (Remark.like_misuse .notAStruct fun _ => hrs.1.loc),
      fun exact => .single (hrs.1.outline exact (.inl rfl))⟩
  | .dot object field symbol, h => by
    have hobject := object.resolve_lockstep h
    refine (hobject.yields object.resolve_wellFormed (Expr.resolve_wellFormed _)).bind ?_
    rintro r s ⟨⟨hr, hs⟩, ho⟩
    have hwhole : like.inside ∨ r.1.WellFormed ∧ s.1.WellFormed :=
      h.imp_right fun hw => ⟨hr.2 hw, hs.2 ((Expr.wellFormed_relabel _ object).2 hw)⟩
    exact (narrow_lockstep _ _ ho.denotes ho.blame hwhole field.like_relabel).last fun _ _ hrs =>
      ⟨hrs.2, .some (Remark.like_misuse .notAStruct fun _ => hrs.1),
        fun exact => (ho.sites exact).append (.single rfl)⟩
  | .assign target value, h =>
    (target.resolve_lockstep (h.imp_right And.left)).bind fun _ _ ht =>
      (value.resolve_lockstep (h.imp_right And.right)).last fun _ _ hv =>
        ⟨fun _ => .none, .none, fun exact => (ht.sites exact).append (hv.sites exact)⟩
  | .call callee args, h =>
    (Walk.resolve_lockstep callee.like_relabel).bind fun _ _ hc =>
      (Expr.resolveAll_lockstep args h).last fun _ _ ha => ⟨fun _ => .none, .none, fun exact =>
        SameSites.append (.single (hc.1.outline exact (.inl rfl))) (ha exact)⟩
  | .unary _ operand, h => (operand.resolve_lockstep h).last fun _ _ h =>
    ⟨fun _ => .none, .none, h.sites⟩
  | .binary _ left right, h =>
    (left.resolve_lockstep (h.imp_right And.left)).bind fun _ _ hl =>
      (right.resolve_lockstep (h.imp_right And.right)).last fun _ _ hr =>
        ⟨fun _ => .none, .none, fun exact => (hl.sites exact).append (hr.sites exact)⟩
  | .strayDot object field _ _, h =>
    have hin : like.inside := h.resolve_right id
    (object.resolve_lockstep (.inl hin)).bind fun _ _ ho =>
      (narrowStray_lockstep hin field _ _ (ho.denotes hin) ho.blame).last fun _ _ hrs =>
        ⟨fun _ => hrs, .some (field.remark_like .notAStruct), fun _ => rfl⟩
  | .strayCall callee _ args, h =>
    (resolveStray_lockstep callee).bind fun _ _ _ =>
      (Expr.resolveAll_lockstep args (h.imp_right False.elim)).last fun _ _ _ =>
        ⟨fun _ => .none, .none, fun _ => rfl⟩
  | .stray thing, _ => (fail_lockstep (by rw [Stray.kind_relabel])).before
    ⟨fun _ => .none, .none, fun _ => rfl⟩

theorem Expr.resolveAll_lockstep : ∀ exprs : List Expr, like.inside ∨ Expr.WellFormedAll exprs →
    Walk.Lockstep like (Expr.resolveAll exprs)
      (Expr.resolveAll (Expr.relabelAll like.relabel exprs)) fun r s =>
        like.Exact → SameSites (Expr.sitesAll r) (Expr.sitesAll s)
  | [], _ => .pure fun _ => rfl
  | expr :: exprs, h => (expr.resolve_lockstep (h.imp_right And.left)).bind fun _ _ he =>
    (Expr.resolveAll_lockstep exprs (h.imp_right And.right)).last fun _ _ hes exact =>
      (he.sites exact).append (hes exact)

end

/-! ## Variables -/

theorem TypeExpr.resolve_lockstep {a b : Origin} (ho : like.origins a b) (id : Ident)
    (type : TypeExpr) :
    Walk.Lockstep like (type.resolve a id)
      ((type.relabel like.relabel).resolve b (id.relabel like.relabel)) fun r s =>
        (like.Exact → r.1.SameOutline s.1) ∧ Option.Rel (Symbol.Like like) r.2 s.2 := by
  cases type with
  | primitive name =>
    simp only [TypeExpr.relabel, TypeExpr.resolve]
    split
    · exact (report_lockstep .voidVariable fun _ => rfl).before
        ⟨fun _ => ⟨rfl, rfl, rfl⟩, .some (.value ho _)⟩
    · exact .pure ⟨fun _ => ⟨rfl, rfl, rfl⟩, .some (.value ho _)⟩
  | struct tag =>
    refine (resolveTag_lockstep tag.like_relabel).last ?_
    rintro ⟨tag', definition⟩ ⟨tag'', definition'⟩ ⟨htag, hdef⟩
    refine ⟨fun exact =>
      ⟨htag.isSome exact, rfl, .single (htag.outline exact (.inr rfl))⟩, ?_⟩
    cases hdef with
    | none => exact .none
    | @some d e hde =>
      refine .some ?_
      dsimp only
      rw [← hde.name]
      exact .structValue ho d.name hde
  | stray thing =>
    exact (fail_lockstep (by rw [Stray.kind_relabel])).before ⟨fun _ => ⟨rfl, rfl, rfl⟩, .none⟩

/-- A variable or formal that enters its scope. -/
theorem Decl.SameOutline.variable (exact : like.Exact) {type type' : TypeExpr} {id id' : Ident}
    (ht : type.SameOutline type') (hid : id.Like like id') {make : TypeExpr → Ident → Decl}
    (hmake : make = .var ∨ make = .formal) :
    Decl.SameOutline Decl.variableSitesAll [make type id] [make type' id'] := by
  refine ⟨fun name => ?_, fun before before' hb => ?_⟩
  · rcases hmake with rfl | rfl <;> simp [Moo.bound, Decl.binds, ht.known, hid.name]
  · have hdecl := hid.outline_declaration exact hb (some type) (some type')
      (by simpa using ht.void) (by simpa using ht.known)
    rcases hmake with rfl | rfl <;>
      exact (ht.sites.append (.single hdecl)).append (.refl [])

theorem Decl.analyzeVariable_lockstep {a b : Origin} (ho : like.origins a b) (decl : Decl) :
    Walk.Lockstep like (decl.analyzeVariable a) ((decl.relabel like.relabel).analyzeVariable b)
      fun r s => like.Exact → Decl.SameOutline Decl.variableSitesAll [r] [s] := by
  have hno (h : decl.kind = (decl.relabel like.relabel).kind)
      (hsame : Decl.SameOutline Decl.variableSitesAll [decl] [decl.relabel like.relabel]) :
      Walk.Lockstep like (do fail (.lacks decl.kind "type"); pure decl)
        (do fail (.lacks (decl.relabel like.relabel).kind "type"); pure (decl.relabel like.relabel))
        fun r s => like.Exact → Decl.SameOutline Decl.variableSitesAll [r] [s] :=
    (fail_lockstep (by rw [h])).before fun _ => hsame
  cases decl with
  | var type id =>
    exact (type.resolve_lockstep ho id).bind fun _ _ ht =>
      (bind_lockstep id.like_relabel ht.2).last fun _ _ hid exact =>
        .variable exact (ht.1 exact) hid (.inl rfl)
  | formal type id =>
    exact (type.resolve_lockstep ho id).bind fun _ _ ht =>
      (bind_lockstep id.like_relabel ht.2).last fun _ _ hid exact =>
        .variable exact (ht.1 exact) hid (.inr rfl)
  | function | struct | stray =>
    exact hno (Decl.kind_relabel _ _).symm ⟨fun _ => rfl, fun _ _ _ => rfl⟩

theorem Decl.analyzeVariables_lockstep {a b : Origin} (ho : like.origins a b) (part : Part)
    (decls : List Decl) (index : Nat) :
    Walk.Lockstep like (Decl.analyzeVariables a part index decls)
      (Decl.analyzeVariables b part index (Decl.relabelAll like.relabel decls)) fun r s =>
        like.Exact → Decl.SameOutline Decl.variableSitesAll r s := by
  induction decls generalizing index with
  | nil => exact .pure fun _ => ⟨fun _ => rfl, fun _ _ _ => rfl⟩
  | cons decl decls ih =>
    exact (decl.analyzeVariable_lockstep (like.child ho part index)).bind fun _ _ hd =>
      (ih (index + 1)).last fun _ _ hds exact =>
        (hd exact).append Decl.variableSitesAll_append (hds exact)

theorem Decl.analyzeField_lockstep {a b : Origin} (ho : like.origins a b) {members members' : Scope}
    (hm : members.Like like members') (decl : Decl) :
    Walk.Lockstep like (decl.analyzeField a members)
      ((decl.relabel like.relabel).analyzeField b members') fun r s => r.2.Like like s.2 := by
  have hno (h : decl.kind = (decl.relabel like.relabel).kind) :
      Walk.Lockstep like (do fail (.lacks decl.kind "type"); pure (decl, members))
        (do fail (.lacks (decl.relabel like.relabel).kind "type")
            pure (decl.relabel like.relabel, members'))
        fun r s => r.2.Like like s.2 :=
    (fail_lockstep (by rw [h])).before hm
  cases decl with
  | var type id | formal type id =>
    exact (type.resolve_lockstep ho id).bind fun _ _ ht =>
      (bindMember_lockstep hm id.like_relabel ht.2).last fun _ _ hid => hid.2
  | function | struct | stray => exact hno (Decl.kind_relabel _ _).symm

theorem Decl.analyzeFields_lockstep {a b : Origin} (ho : like.origins a b) (decls : List Decl)
    (index : Nat) {members members' : Scope} (hm : members.Like like members') :
    Walk.Lockstep like (Decl.analyzeFields a index members decls)
      (Decl.analyzeFields b index members' (Decl.relabelAll like.relabel decls)) fun r s =>
        r.2.Like like s.2 := by
  induction decls generalizing index members members' with
  | nil => exact .pure hm
  | cons decl decls ih =>
    exact (decl.analyzeField_lockstep (like.child ho .fields index) hm).bind fun _ _ hd =>
      (ih (index + 1) hd).last fun _ _ hds => hds

/-! ## Statements -/

/-- Blocks that look the same from outside. -/
def SameBlock (a b : List Decl × List Stmt) : Prop :=
  SameSites (Decl.variableSitesAll [] a.1 ++ Stmt.sitesAll a.2)
    (Decl.variableSitesAll [] b.1 ++ Stmt.sitesAll b.2)

/-- The declarations and statements of a block, whatever is made of them. -/
theorem block_lockstep {γ δ : Type} (post : γ → δ → Prop) {a b : Origin} (ho : like.origins a b)
    (inDecls inStmts : Part) (decls : List Decl) {stmts stmts' : List Stmt}
    (make : List Decl → List Stmt → γ) (make' : List Decl → List Stmt → δ)
    (hs : Walk.Lockstep like (Stmt.analyzeAll a inStmts 0 stmts)
      (Stmt.analyzeAll b inStmts 0 stmts') fun r s =>
        like.Exact → SameSites (Stmt.sitesAll r) (Stmt.sitesAll s))
    (hp : ∀ ds ds' ss ss', (like.Exact → SameBlock (ds, ss) (ds', ss')) →
      post (make ds ss) (make' ds' ss')) :
    Walk.Lockstep like
      (inScope do
        let decls ← Decl.analyzeVariables a inDecls 0 decls
        let stmts ← Stmt.analyzeAll a inStmts 0 stmts
        pure (make decls stmts))
      (inScope do
        let decls ← Decl.analyzeVariables b inDecls 0 (Decl.relabelAll like.relabel decls)
        let stmts ← Stmt.analyzeAll b inStmts 0 stmts'
        pure (make' decls stmts)) post :=
  .inScope <| (Decl.analyzeVariables_lockstep ho inDecls decls 0).bind fun _ _ hd =>
    hs.last fun _ _ hss => hp _ _ _ _ fun exact =>
      ((hd exact).sites [] [] fun _ => rfl).append (hss exact)

mutual

theorem Stmt.analyze_lockstep : ∀ (stmt : Stmt), like.inside ∨ stmt.WellFormed →
    ∀ {a b : Origin}, like.origins a b →
    Walk.Lockstep like (stmt.analyze a) ((stmt.relabel like.relabel).analyze b) fun r s =>
      like.Exact → SameSites r.sites s.sites
  | .assign expr, h, _, _, _ | .increment expr, h, _, _, _ | .decrement expr, h, _, _, _
  | .read expr, h, _, _, _ | .write expr, h, _, _, _ | .call expr, h, _, _, _
  | .returnValue expr, h, _, _, _ =>
    (expr.resolve_lockstep h).last fun _ _ h => h.sites
  | .ifThen condition decls stmts, h, _, _, ho | .loop condition decls stmts, h, _, _, ho =>
    (condition.resolve_lockstep (h.imp_right And.left)).bind fun _ _ hc =>
      block_lockstep _ ho .decls .stmts decls _ _
        (Stmt.analyzeAll_lockstep stmts (h.imp_right (·.2.2)) ho .stmts 0)
        fun _ _ _ _ hb exact => (hc.sites exact).append (hb exact)
  | .ifElse condition thenDecls thenStmts elseDecls elseStmts, h, _, _, ho =>
    (condition.resolve_lockstep (h.imp_right And.left)).bind fun _ _ hc =>
      (block_lockstep (fun r s => like.Exact → SameBlock r s) ho .decls .stmts thenDecls Prod.mk
        Prod.mk (Stmt.analyzeAll_lockstep thenStmts (h.imp_right (·.2.1.2)) ho .stmts 0)
        fun _ _ _ _ hb => hb).bind fun _ _ ht =>
      block_lockstep _ ho .elseDecls .elseStmts elseDecls _ _
        (Stmt.analyzeAll_lockstep elseStmts (h.imp_right (·.2.2.2)) ho .elseStmts 0)
        fun _ _ _ _ he exact => ((hc.sites exact).append (ht exact)).append (he exact)
  | .returnNothing, _, _, _, _ => .pure fun _ => rfl
  | .stray thing, _, _, _, _ => (fail_lockstep (by rw [Stray.kind_relabel])).before fun _ => rfl

theorem Stmt.analyzeAll_lockstep : ∀ (stmts : List Stmt), like.inside ∨ Stmt.WellFormedAll stmts →
    ∀ {a b : Origin}, like.origins a b →
    ∀ part index, Walk.Lockstep like (Stmt.analyzeAll a part index stmts)
      (Stmt.analyzeAll b part index (Stmt.relabelAll like.relabel stmts)) fun r s =>
        like.Exact → SameSites (Stmt.sitesAll r) (Stmt.sitesAll s)
  | [], _, _, _, _, _, _ => .pure fun _ => rfl
  | stmt :: stmts, h, _, _, ho, part, index =>
    (stmt.analyze_lockstep (h.imp_right And.left) (like.child ho part index)).bind fun _ _ hs =>
      (Stmt.analyzeAll_lockstep stmts (h.imp_right And.right) ho part (index + 1)).last
        fun _ _ hss exact => (hs exact).append (hss exact)

end

/-! ## Declarations at top level -/

theorem TypeExpr.name?_relabel (r : Relabel) (type : TypeExpr) :
    (type.relabel r).name? = type.name? := by
  cases type with
  | primitive name => rfl
  | struct tag => rfl
  | stray thing =>
    cases thing with
    | expr expr => cases expr <;> rfl
    | _ => rfl

theorem Decl.formalType_relabel (r : Relabel) (decl : Decl) :
    (decl.relabel r).formalType = decl.formalType := by
  cases decl with
  | var type id | formal type id =>
    simp only [Decl.relabel, Decl.formalType, TypeExpr.name?_relabel, TypeExpr.kind_relabel]
  | function => rfl
  | struct => rfl
  | stray thing => simp only [Decl.relabel, Decl.formalType, Decl.kind, Stray.kind_relabel]

theorem mapM_formalType_relabel (r : Relabel) (decls : List Decl) :
    (Decl.relabelAll r decls).mapM Decl.formalType = decls.mapM Decl.formalType := by
  induction decls with
  | nil => rfl
  | cons decl decls ih =>
    rw [Decl.relabelAll, List.mapM_cons, List.mapM_cons, Decl.formalType_relabel, ih]

/-- Returned types of the same name. -/
structure TypeExpr.Returns (like : Likeness) (a b : TypeExpr) : Prop where
  name : a.name? = b.name?
  kind : a.kind = b.kind
  sites : like.Exact → SameSites a.sites b.sites

theorem TypeExpr.resolveReturn_lockstep (type : TypeExpr) :
    Walk.Lockstep like type.resolveReturn (type.relabel like.relabel).resolveReturn
      (TypeExpr.Returns like) := by
  cases type with
  | primitive name => exact .pure ⟨rfl, rfl, fun _ => rfl⟩
  | struct tag =>
    exact (resolveTag_lockstep tag.like_relabel).last fun _ _ h =>
      ⟨congrArg some h.1.name, rfl, fun exact => .single (h.1.outline exact (.inr rfl))⟩
  | stray thing =>
    exact .pure ⟨(TypeExpr.name?_relabel _ _).symm, (TypeExpr.kind_relabel _ _).symm, fun _ => rfl⟩

theorem bindFunction_lockstep {a b : Origin} (ho : like.origins a b) (id : Ident)
    {returns returns' : TypeExpr} (hr : returns.Returns like returns') (formals : List Decl) :
    Walk.Lockstep like (bindFunction a id returns formals)
      (bindFunction b (id.relabel like.relabel) returns' (Decl.relabelAll like.relabel formals))
      (Ident.Like like) := by
  have hfail (fault : Fault) : Walk.Lockstep like (do fail fault; pure id)
      (do fail fault; pure (id.relabel like.relabel)) (Ident.Like like) :=
    (fail_lockstep rfl).before id.like_relabel
  unfold bindFunction functionSymbol
  rw [mapM_formalType_relabel, ← hr.name, ← hr.kind]
  cases formals.mapM Decl.formalType with
  | error fault => exact hfail fault
  | ok params =>
    cases returns.name? with
    | none => exact hfail _
    | some name =>
      exact (bind_lockstep id.like_relabel (.some (.function ho name params))).bind fun _ _ h =>
        (note_lockstep fun _ => by rfl).before h

theorem bind_struct_lockstep {a b : Origin} (ho : like.origins a b) (tag : Ident)
    {members members' : Scope} (hm : like.inside → members.Like like members') :
    Walk.Lockstep like (Walk.bind tag (some (.structType (.mk a tag.name members))))
      (Walk.bind (tag.relabel like.relabel) (some (.structType (.mk b tag.name members'))))
      (Ident.Like like) :=
  bind_lockstep tag.like_relabel <| .some <|
    .structType ho rfl (fun hin => (hm hin).names) fun hin => (hm hin).symbols

/-- A declared name without a declared type. -/
theorem Ident.Like.outline_untyped (exact : like.Exact) {id id' : Ident} (hid : id.Like like id')
    {before before' : List Decl} (hb : ∀ name, bound before name = bound before' name) :
    (Site.declaration before none id).outline = (Site.declaration before' none id').outline :=
  hid.outline_declaration exact hb none none rfl rfl

theorem Decl.SameOutline.struct (exact : like.Exact) {tag tag' : Ident} (h : tag.Like like tag')
    (fields fields' : List Decl) :
    Decl.SameOutline Decl.outerSitesAll [.struct tag fields] [.struct tag' fields'] where
  bound name := by simp [Moo.bound, Decl.binds, h.name]
  sites _ _ hb := .single (h.outline_untyped exact hb)

theorem Decl.analyze_lockstep {a b : Origin} (ho : like.origins a b) (decl : Decl)
    (h : like.inside ∨ decl.WellFormed) :
    Walk.Lockstep like (decl.analyze a) ((decl.relabel like.relabel).analyze b) fun r s =>
      like.Exact → Decl.SameOutline Decl.outerSitesAll [r] [s] := by
  cases decl with
  | var type id =>
    exact (type.resolve_lockstep ho id).bind fun _ _ ht =>
      (bind_lockstep id.like_relabel ht.2).last fun _ _ hid exact =>
        have hsame := Decl.SameOutline.variable exact (ht.1 exact) hid (.inl rfl)
        ⟨hsame.bound, hsame.sites⟩
  | function returns id formals decls stmts =>
    refine returns.resolveReturn_lockstep.bind fun _ _ hr =>
      (bindFunction_lockstep ho id hr formals).bind fun _ _ hid => .inScope ?_
    refine (Decl.analyzeVariables_lockstep ho .formals formals 0).bind fun _ _ hf =>
      (Decl.analyzeVariables_lockstep ho .decls decls 0).bind fun _ _ hd =>
        (Stmt.analyzeAll_lockstep stmts (h.imp_right (·.2.2.2)) ho .stmts 0).last
          fun _ _ hs exact => ?_
    refine ⟨fun name => by simp [bound, Decl.binds, hid.name], fun before before' hb => ?_⟩
    have hlocals := ((hf exact).append Decl.variableSitesAll_append (hd exact)).sites [] []
      fun _ => rfl
    exact ((hr.sites exact).append <| SameSites.append (.single (hid.outline_untyped exact hb)) <|
      hlocals.append (hs exact)).append (.refl [])
  | struct tag fields =>
    exact (Decl.analyzeFields_lockstep ho fields 0 Scope.like_nil).bind fun _ _ hm =>
      (bind_struct_lockstep ho tag fun _ => hm).last fun _ _ htag exact => .struct exact htag _ _
  | formal type id =>
    refine (fail_lockstep rfl).before fun exact => ⟨fun name => ?_, fun _ _ _ => rfl⟩
    have hknown : (type.relabel like.relabel).isKnown = type.isKnown := by
      cases type with
      | struct tag => exact congrArg Option.isSome (exact.labels tag.symbol)
      | _ => rfl
    simp [bound, Decl.binds, Ident.relabel, hknown]
  | stray thing =>
    exact (fail_lockstep (by rw [Stray.kind_relabel])).before fun _ =>
      ⟨fun _ => rfl, fun _ _ _ => rfl⟩

theorem Decl.analyzeAll_lockstep (decls : List Decl)
    (h : like.inside ∨ ∀ decl ∈ decls, decl.WellFormed) {clock clock' : Nat}
    (ho : ∀ index, like.origins (.top (clock + index)) (.top (clock' + index))) :
    Walk.Lockstep like (Decl.analyzeAll clock decls)
      (Decl.analyzeAll clock' (Decl.relabelAll like.relabel decls)) fun r s =>
        like.Exact → Decl.SameOutline Decl.outerSitesAll r s := by
  induction decls generalizing clock clock' with
  | nil => exact .pure fun _ => ⟨fun _ => rfl, fun _ _ _ => rfl⟩
  | cons decl decls ih =>
    have hrest (index : Nat) :
        like.origins (.top (clock + 1 + index)) (.top (clock' + 1 + index)) := by
      simpa [Nat.add_assoc, Nat.add_comm 1] using ho (index + 1)
    rw [List.forall_mem_cons] at h
    exact (decl.analyze_lockstep (ho 0) (h.imp_right And.left)).bind fun _ _ hd =>
      (ih (h.imp_right And.right) hrest).last fun _ _ hds exact =>
        (hd exact).append Decl.outerSitesAll_append (hds exact)

end Moo
