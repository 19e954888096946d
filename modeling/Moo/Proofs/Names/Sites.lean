import Moo.Names.Analysis
import Moo.Proofs.Names.Resolver
import Moo.Proofs.Reading.Locations
import Moo.Proofs.Tree.Shape

/-!
# Where names are looked up and declared

A site is one thing that name analysis does with a name: it looks up a used
name or the tag of a struct type, goes on behind a dot, or declares a name in
its scope. `sites` lists those of an analysed tree in the order in which
they are visited, each with what decides there: the symbols that were found,
and the declarations that came before in the same scope.

* `Site.misuses`: what there is to complain about at a site.
* `Site.Sound`: where the symbols at a site come from.
* `Covers`: each occurrence of a tree is at one site. `Program.covers` says
  so of every tree of the shape of one that was read.
* `Covers.accounted`: where no two identifiers share a location, the
  diagnostics tell exactly which names have no symbol.
-/
namespace Moo

/-! ## The names of a scope -/

/-- Whether a variable of the type is declared; one of an unknown struct type is not. -/
def TypeExpr.isKnown : TypeExpr → Bool
  | .primitive _ => true
  | .struct tag => tag.symbol.isSome
  | .stray _ => false

def TypeExpr.isVoid : TypeExpr → Bool
  | .primitive name => name = "void"
  | _ => false

/-- Whether the declaration enters the name in its scope. -/
def Decl.binds (name : String) : Decl → Bool
  | .var type id | .formal type id => type.isKnown && id.name = name
  | .function _ id _ _ _ => id.name = name
  | .struct tag _ => tag.name = name
  | .stray _ => false

/-- Whether one of the declarations of a scope enters the name. -/
def bound (decls : List Decl) (name : String) : Bool :=
  decls.any (·.binds name)

@[simp]
theorem bound_nil (name : String) : bound [] name = false := rfl

@[simp]
theorem bound_snoc (decls : List Decl) (decl : Decl) (name : String) :
    bound (decls ++ [decl]) name = (bound decls name || decl.binds name) := by
  simp [bound]

/-! ## Sites -/

inductive Site
  /-- A name in an expression, unless it is behind a dot. -/
  | use (id : Ident)
  /-- The tag in a struct type. -/
  | tag (id : Ident)
  /-- A field access, with what is in front of its dot and the symbol of the whole. -/
  | access (object : Expr) (field : Ident) (symbol : Option Symbol)
  /-- A declared name, with the declarations before it in its scope. A variable, field or formal has
  a declared type. -/
  | declaration (before : List Decl) (type : Option TypeExpr) (id : Ident)

def TypeExpr.sites : TypeExpr → List Site
  | .primitive _ | .stray _ => []
  | .struct tag => [.tag tag]

mutual

def Expr.sites : Expr → List Site
  | .int .. | .str .. | .bool .. | .strayDot .. | .strayCall .. | .stray _ => []
  | .name id => [.use id]
  | .dot object field symbol => object.sites ++ [.access object field symbol]
  | .assign target value => target.sites ++ value.sites
  | .call callee args => .use callee :: Expr.sitesAll args
  | .unary _ operand => operand.sites
  | .binary _ left right => left.sites ++ right.sites

def Expr.sitesAll : List Expr → List Site
  | [] => []
  | expr :: exprs => expr.sites ++ Expr.sitesAll exprs

end

/-- The sites of a variable, field or formal behind other declarations of its scope. -/
def Decl.variableSites (before : List Decl) : Decl → List Site
  | .var type id | .formal type id => type.sites ++ [.declaration before (some type) id]
  | _ => []

def Decl.variableSitesAll (before : List Decl) : List Decl → List Site
  | [] => []
  | decl :: decls => decl.variableSites before ++ Decl.variableSitesAll (before ++ [decl]) decls

mutual

def Stmt.sites : Stmt → List Site
  | .assign expr | .increment expr | .decrement expr | .read expr | .write expr | .call expr
  | .returnValue expr => expr.sites
  | .ifThen condition decls stmts | .loop condition decls stmts =>
    condition.sites ++ (Decl.variableSitesAll [] decls ++ Stmt.sitesAll stmts)
  | .ifElse condition thenDecls thenStmts elseDecls elseStmts =>
    condition.sites ++ (Decl.variableSitesAll [] thenDecls ++ Stmt.sitesAll thenStmts)
      ++ (Decl.variableSitesAll [] elseDecls ++ Stmt.sitesAll elseStmts)
  | .returnNothing | .stray _ => []

def Stmt.sitesAll : List Stmt → List Site
  | [] => []
  | stmt :: stmts => stmt.sites ++ Stmt.sitesAll stmts

end

/-- The sites of a declaration at top level. The formals and the body of a function are one scope. -/
def Decl.sites (before : List Decl) : Decl → List Site
  | .var type id => type.sites ++ [.declaration before (some type) id]
  | .function returns id formals decls stmts =>
    returns.sites ++ .declaration before none id ::
      (Decl.variableSitesAll [] (formals ++ decls) ++ Stmt.sitesAll stmts)
  | .struct tag fields => Decl.variableSitesAll [] fields ++ [.declaration before none tag]
  | .formal .. | .stray _ => []

def Decl.sitesAll (before : List Decl) : List Decl → List Site
  | [] => []
  | decl :: decls => decl.sites before ++ Decl.sitesAll (before ++ [decl]) decls

def Program.sites (program : Program) : List Site :=
  Decl.sitesAll [] program.decls

theorem Decl.variableSitesAll_append (before decls more : List Decl) :
    Decl.variableSitesAll before (decls ++ more) =
      Decl.variableSitesAll before decls ++ Decl.variableSitesAll (before ++ decls) more := by
  induction decls generalizing before with
  | nil => simp [Decl.variableSitesAll]
  | cons decl decls ih => simp [Decl.variableSitesAll, ih]

namespace Site

/-- What stands at the site and may get a symbol there. -/
def occurrences : Site → List Occurrence
  | use id | tag id | declaration _ _ id => [.ident id]
  | access _ field symbol => [.dot field symbol, .ident field]

/-- What there is to complain about, and at which identifier. -/
def misuses : Site → List (Ident × Misuse)
  | use id => if id.symbol.isNone then [(id, .undeclared)] else []
  | tag id => if id.symbol.isNone then [(id, .unknownStruct)] else []
  | access object field _ =>
    match object.lastIdent?.bind Ident.symbol with
    | some (.structValue _ _ definition) =>
      if (Scope.find? definition.members field.name).isNone then [(field, .unknownField)] else []
    | _ => [(dotAnchor object field, .notAStruct)]
  | declaration before type id =>
    (if type.any TypeExpr.isVoid then [(id, .voidVariable)] else []) ++
      if type.all TypeExpr.isKnown && bound before id.name then [(id, .redeclared)] else []

def errors (site : Site) : List Diagnostic :=
  site.misuses.map fun misuse => .about misuse.1 misuse.2

/-- An access and its field have the member of the struct in front of the dot, and a declared name
has a symbol if something before it or it itself entered the name. -/
def Sound : Site → Prop
  | use _ | tag _ => True
  | access object field symbol => field.symbol = symbol ∧
      symbol = (object.lastIdent?.bind Ident.symbol).bind (·.member? field.name)
  | declaration before type id => id.symbol.isSome = (type.all TypeExpr.isKnown || bound before id.name)

/-- What is missing at the site is what was reported there. -/
def Accounted (reports : List Diagnostic) : Site → Prop
  | use id => id.symbol = none ↔ .about id .undeclared ∈ reports
  | tag id => id.symbol = none ↔ .about id .unknownStruct ∈ reports
  | access object field symbol => ∃ last, object.lastIdent? = some last ∧ field.symbol = symbol ∧
      (symbol = none ↔ .about field .unknownField ∈ reports ∨ .about last .notAStruct ∈ reports) ∧
      ∀ found, symbol = some found →
        ∃ base, last.symbol = some base ∧ base.member? field.name = some found
  | declaration before type id => id.symbol = none ↔
      (∃ tag, type = some (.struct tag) ∧ .about tag .unknownStruct ∈ reports) ∧
        bound before id.name = false

end Site

/-- The errors are those of the sites, and the symbols there are as they should be. -/
structure Explained (sites : List Site) (errors : List Diagnostic) : Prop where
  errors_eq : errors = sites.flatMap Site.errors
  sound : ∀ site ∈ sites, site.Sound

namespace Explained

variable {a b : List Site} {e f : List Diagnostic}

theorem nil : Explained [] [] :=
  ⟨rfl, List.forall_mem_nil _⟩

theorem append (h : Explained a e) (h' : Explained b f) : Explained (a ++ b) (e ++ f) := by
  refine ⟨by rw [h.errors_eq, h'.errors_eq, List.flatMap_append], ?_⟩
  intro site hs
  exact (List.mem_append.1 hs).elim (h.sound site) (h'.sound site)

theorem single {site : Site} (h : site.Sound) (he : site.errors = e) : Explained [site] e :=
  ⟨by simp [he], by simpa using h⟩

end Explained

/-! ## Each occurrence is at one site -/

/-- The occurrences are those of the sites. In front of every dot is a chain that ends with one of
them, and the tag in a declared type has its site. -/
structure Covers (sites : List Site) (occurrences : List Occurrence) : Prop where
  perm : (sites.flatMap Site.occurrences).Perm occurrences
  anchored : ∀ object field symbol, .access object field symbol ∈ sites →
    ∃ last, object.lastIdent? = some last ∧ .ident last ∈ occurrences
  typed : ∀ before type id, .declaration before (some type) id ∈ sites →
    (∃ name, type = .primitive name) ∨ ∃ tag, type = .struct tag ∧ .tag tag ∈ sites

namespace Covers

variable {a b : List Site} {os ps : List Occurrence} {site : Site}

theorem nil : Covers [] [] :=
  ⟨.nil, nofun, nofun⟩

theorem append (h : Covers a os) (h' : Covers b ps) : Covers (a ++ b) (os ++ ps) where
  perm := by simpa using h.perm.append h'.perm
  anchored object field symbol hs := by
    rcases List.mem_append.1 hs with hs | hs
    · obtain ⟨last, hl, ho⟩ := h.anchored object field symbol hs
      exact ⟨last, hl, List.mem_append_left _ ho⟩
    · obtain ⟨last, hl, ho⟩ := h'.anchored object field symbol hs
      exact ⟨last, hl, List.mem_append_right _ ho⟩
  typed before type id hs := by
    rcases List.mem_append.1 hs with hs | hs
    · exact (h.typed before type id hs).imp_right fun ⟨tag, ht, hm⟩ =>
        ⟨tag, ht, List.mem_append_left _ hm⟩
    · exact (h'.typed before type id hs).imp_right fun ⟨tag, ht, hm⟩ =>
        ⟨tag, ht, List.mem_append_right _ hm⟩

theorem of_perm (h : Covers a os) (hp : os.Perm ps) : Covers a ps := by
  refine ⟨h.perm.trans hp, fun object field symbol hs => ?_, h.typed⟩
  obtain ⟨last, hl, ho⟩ := h.anchored object field symbol hs
  exact ⟨last, hl, hp.mem_iff.1 ho⟩

theorem use (id : Ident) : Covers [.use id] [.ident id] :=
  ⟨.refl _, by simp, by simp⟩

theorem tag (id : Ident) : Covers [.tag id] [.ident id] :=
  ⟨.refl _, by simp, by simp⟩

/-- A declared name without a declared type. -/
theorem declaration (before : List Decl) (id : Ident) :
    Covers [.declaration before none id] [.ident id] :=
  ⟨.refl _, by simp, by simp⟩

/-- A declared name behind its type. -/
theorem declared (before : List Decl) {type : TypeExpr} (id : Ident) (h : type.WellFormed) :
    Covers (type.sites ++ [.declaration before (some type) id])
      (type.occurrences ++ [.ident id]) := by
  cases type with
  | stray => exact h.elim
  | _ => exact ⟨.refl _, by simp [TypeExpr.sites], by simp +contextual [TypeExpr.sites]⟩

/-- One more dot behind a chain. -/
theorem access {object : Expr} {last : Ident} (h : Covers a os) (hl : object.lastIdent? = some last)
    (ho : .ident last ∈ os) (field : Ident) (symbol : Option Symbol) :
    Covers (a ++ [.access object field symbol])
      (.dot field symbol :: os ++ [.ident field]) where
  perm := by
    have hperm : (os ++ [Occurrence.dot field symbol, .ident field]).Perm
        (Occurrence.dot field symbol :: os ++ [.ident field]) :=
      List.perm_middle
    simpa [Site.occurrences] using (h.perm.append_right _).trans hperm
  anchored object' field' symbol' hs := by
    rcases List.mem_append.1 hs with hs | hs
    · obtain ⟨last, hl, ho⟩ := h.anchored object' field' symbol' hs
      exact ⟨last, hl, List.mem_cons_of_mem _ (List.mem_append_left _ ho)⟩
    · obtain ⟨rfl, -, -⟩ : object' = object ∧ _ ∧ _ := by simpa using hs
      exact ⟨last, hl, List.mem_cons_of_mem _ (List.mem_append_left _ ho)⟩
  typed before type id hs := by
    have hs : .declaration before (some type) id ∈ a := by simpa using hs
    exact (h.typed before type id hs).imp_right fun ⟨tag, ht, hm⟩ =>
      ⟨tag, ht, List.mem_append_left _ hm⟩

end Covers

theorem TypeExpr.covers {type : TypeExpr} (h : type.WellFormed) :
    Covers type.sites type.occurrences := by
  cases type with
  | primitive => exact .nil
  | struct tag => exact .tag tag
  | stray => exact h.elim

/-- The identifier that ends a chain is one of its occurrences. -/
theorem Expr.IsChain.lastIdent_mem {expr : Expr} (h : expr.IsChain) :
    ∃ last, expr.lastIdent? = some last ∧ .ident last ∈ expr.occurrences := by
  cases expr with
  | name id => exact ⟨id, rfl, by simp [Expr.occurrences]⟩
  | dot object field symbol => exact ⟨field, rfl, by simp [Expr.occurrences]⟩
  | _ => exact h.elim

theorem Expr.IsChain.covers : ∀ {expr : Expr}, expr.IsChain → Covers expr.sites expr.occurrences
  | .name id, _ => .use id
  | .dot object field symbol, h => by
    have hobject : object.IsChain := h
    obtain ⟨last, hl, ho⟩ := hobject.lastIdent_mem
    exact hobject.covers.access hl ho field symbol

mutual

theorem Expr.Shaped.covers : ∀ {expr : Expr}, expr.Shaped → Covers expr.sites expr.occurrences
  | .int .., _ | .str .., _ | .bool .., _ => .nil
  | .name id, _ => .use id
  | .dot .., h => Expr.IsChain.covers h
  | .assign _ _, ⟨ht, hv⟩ => ht.covers.append hv.covers
  | .call callee _, h => (Covers.use callee).append (Expr.ShapedAll.covers h)
  | .unary _ _, ⟨_, h⟩ => h.covers
  | .binary _ _ _, ⟨_, hl, hr⟩ => hl.covers.append hr.covers

theorem Expr.ShapedAll.covers : ∀ {exprs : List Expr}, Expr.ShapedAll exprs →
    Covers (Expr.sitesAll exprs) (Expr.occurrencesAll exprs)
  | [], _ => .nil
  | _ :: _, ⟨h, hs⟩ => h.covers.append (Expr.ShapedAll.covers hs)

end

theorem Decl.variable_covers {decl : Decl} (h : decl.IsVariable ∨ decl.IsFormal)
    (before : List Decl) : Covers (decl.variableSites before) decl.occurrences := by
  cases decl with
  | var type id =>
    have ht : type.WellFormed := h.resolve_right fun hf => hf
    exact .declared before id ht
  | formal type id =>
    have ht : type.WellFormed := h.resolve_left fun hv => hv
    exact .declared before id ht
  | function => exact h.elim False.elim False.elim
  | struct => exact h.elim False.elim False.elim
  | stray => exact h.elim False.elim False.elim

theorem Decl.variables_cover : ∀ {decls : List Decl} (before : List Decl),
    (∀ decl ∈ decls, decl.IsVariable ∨ decl.IsFormal) →
    Covers (Decl.variableSitesAll before decls) (Decl.occurrencesAll decls)
  | [], _, _ => .nil
  | decl :: _, before, h => by
    obtain ⟨hd, hds⟩ := List.forall_mem_cons.1 h
    exact (Decl.variable_covers hd before).append (Decl.variables_cover (before ++ [decl]) hds)

/-- The declarations and statements of a block. -/
theorem Covers.block {decls : List Decl} {stmts : List Stmt}
    (hd : ∀ decl ∈ decls, decl.IsVariable)
    (hs : Covers (Stmt.sitesAll stmts) (Stmt.occurrencesAll stmts)) :
    Covers (Decl.variableSitesAll [] decls ++ Stmt.sitesAll stmts)
      (Decl.occurrencesAll decls ++ Stmt.occurrencesAll stmts) :=
  (Decl.variables_cover [] fun decl hm => .inl (hd decl hm)).append hs

mutual

theorem Stmt.Shaped.covers : ∀ {stmt : Stmt}, stmt.Shaped → Covers stmt.sites stmt.occurrences
  | .assign (.assign _ _), ⟨ht, hv⟩ => ht.covers.append hv.covers
  | .increment _, h | .decrement _, h | .read _, h => Expr.IsChain.covers h
  | .write _, h | .returnValue _, h => Expr.Shaped.covers h
  | .ifThen .., ⟨hc, hd, hs⟩ | .loop .., ⟨hc, hd, hs⟩ => by
    rw [Stmt.sites, Stmt.occurrences, List.append_assoc]
    exact hc.covers.append (.block hd hs.covers)
  | .ifElse .., ⟨hc, ⟨htd, hts⟩, hed, hes⟩ => by
    have hall := (hc.covers.append (.block htd hts.covers)).append (.block hed hes.covers)
    simpa only [Stmt.sites, Stmt.occurrences, List.append_assoc] using hall
  | .call (.call callee _), h => (Covers.use callee).append (Expr.ShapedAll.covers h)
  | .returnNothing, _ => .nil

theorem Stmt.ShapedAll.covers : ∀ {stmts : List Stmt}, Stmt.ShapedAll stmts →
    Covers (Stmt.sitesAll stmts) (Stmt.occurrencesAll stmts)
  | [], _ => .nil
  | _ :: _, ⟨h, hs⟩ => h.covers.append (Stmt.ShapedAll.covers hs)

end

theorem Decl.Shaped.covers {decl : Decl} (h : decl.Shaped) (before : List Decl) :
    Covers (decl.sites before) decl.occurrences := by
  cases decl with
  | var type id => exact .declared before id h
  | function returns id formals decls stmts =>
    obtain ⟨hr, hf, hd, hs⟩ := h
    have hlocals : ∀ d ∈ formals ++ decls, d.IsVariable ∨ d.IsFormal := fun d hm =>
      (List.mem_append.1 hm).elim (fun hm => .inr (hf d hm)) fun hm => .inl (hd d hm)
    have hbody := (Decl.variables_cover [] hlocals).append hs.covers
    have hall := (TypeExpr.covers hr).append ((Covers.declaration before id).append hbody)
    simpa [Decl.sites, Decl.occurrences, Decl.occurrencesAll_append] using hall
  | struct tag fields =>
    have hfields := Decl.variables_cover [] fun d hm => .inl (h.2 d hm)
    exact (hfields.append (.declaration before tag)).of_perm List.perm_append_comm
  | formal => exact h.elim
  | stray => exact h.elim

theorem Decl.all_cover : ∀ {decls : List Decl} (before : List Decl), (∀ decl ∈ decls, decl.Shaped) →
    Covers (Decl.sitesAll before decls) (Decl.occurrencesAll decls)
  | [], _, _ => .nil
  | decl :: _, before, h => by
    obtain ⟨hd, hds⟩ := List.forall_mem_cons.1 h
    exact (hd.covers before).append (Decl.all_cover (before ++ [decl]) hds)

/-- Each occurrence in the tree is at one site. -/
theorem Program.Shaped.covers {program : Program} (h : program.Shaped) :
    Covers program.sites program.occurrences :=
  Decl.all_cover [] h

/-! ## Names and reports -/

theorem dotAnchor_eq {object : Expr} {last : Ident} (field : Ident)
    (h : object.lastIdent? = some last) : dotAnchor object field = last := by
  cases object <;> cases h <;> rfl

namespace Site

variable {site : Site} {id : Ident}

theorem symbol_of_undeclared (h : (id, .undeclared) ∈ site.misuses) : id.symbol = none := by
  cases site with
  | use own =>
    simp only [misuses, List.mem_ite_nil_right, Option.isNone_iff_eq_none, List.mem_singleton,
      Prod.mk.injEq, and_true] at h
    exact h.2 ▸ h.1
  | tag => simp [misuses] at h
  | access object field symbol =>
    simp only [misuses] at h
    split at h <;> simp at h
  | declaration => simp [misuses] at h

theorem symbol_of_unknownStruct (h : (id, .unknownStruct) ∈ site.misuses) : id.symbol = none := by
  cases site with
  | use => simp [misuses] at h
  | tag own =>
    simp only [misuses, List.mem_ite_nil_right, Option.isNone_iff_eq_none, List.mem_singleton,
      Prod.mk.injEq, and_true] at h
    exact h.2 ▸ h.1
  | access object field symbol =>
    simp only [misuses] at h
    split at h <;> simp at h
  | declaration => simp [misuses] at h

theorem symbol_of_unknownField (h : (id, .unknownField) ∈ site.misuses) (hs : site.Sound) :
    id.symbol = none := by
  cases site with
  | use => simp [misuses] at h
  | tag => simp [misuses] at h
  | access object field symbol =>
    obtain ⟨hfield, hsymbol⟩ := hs
    simp only [misuses] at h
    split at h
    · next hbase =>
      obtain ⟨hnone, rfl⟩ : _ ∧ id = field := by simpa using h
      rw [hfield, hsymbol, hbase]
      exact hnone
    · simp at h
  | declaration => simp [misuses] at h

/-- Nothing is a member of what is reported to be no struct. -/
theorem member_of_notAStruct (h : (id, .notAStruct) ∈ site.misuses)
    (ha : ∀ object field symbol, site = .access object field symbol →
      ∃ last, object.lastIdent? = some last) (name : String) :
    id.symbol.bind (·.member? name) = none := by
  cases site with
  | use => simp [misuses] at h
  | tag => simp [misuses] at h
  | access object field symbol =>
    obtain ⟨last, hl⟩ := ha object field symbol rfl
    simp only [misuses] at h
    split at h
    · simp at h
    · next hbase =>
      obtain rfl : id = last := by simpa [dotAnchor_eq field hl] using h
      simp only [hl, Option.bind_some] at hbase
      rcases hid : id.symbol with _ | _ | _ | _ | ⟨origin, type, definition⟩
      case some.structValue => exact absurd hid (hbase origin type definition)
      all_goals rfl
  | declaration => simp [misuses] at h

/-- An access without a symbol has one of two reasons. -/
theorem misuses_access {object : Expr} {last field : Ident} {symbol : Option Symbol}
    (hl : object.lastIdent? = some last) (hs : symbol = none)
    (hsound : (access object field symbol).Sound) :
    (field, .unknownField) ∈ (access object field symbol).misuses ∨
      (last, .notAStruct) ∈ (access object field symbol).misuses := by
  obtain ⟨-, hmember⟩ := hsound
  rw [hl, hs] at hmember
  simp only [misuses, hl, Option.bind_some, dotAnchor_eq field hl] at hmember ⊢
  rcases hlast : last.symbol with _ | _ | _ | _ | ⟨origin, type, definition⟩
  case some.structValue =>
    simp only [hlast, Option.bind_some, Symbol.member?] at hmember
    simp [← hmember]
  all_goals simp

end Site

/-- Where two identifiers have locations, a report about one is about the other only if it stands
there too. -/
theorem about_eq_about {a b : Ident} {m n : Misuse} (ha : a.loc.isSome) (hb : b.loc.isSome)
    (h : Diagnostic.about a m = .about b n) : a.loc = b.loc ∧ m = n := by
  obtain ⟨la, hla⟩ := Option.isSome_iff_exists.1 ha
  obtain ⟨lb, hlb⟩ := Option.isSome_iff_exists.1 hb
  simp only [Diagnostic.about, hla, hlb, Option.getD_some, Diagnostic.mk.injEq] at h ⊢
  exact ⟨congrArg some h.1, h.2⟩

namespace Covers

variable {sites : List Site} {os : List Occurrence} {reports : List Diagnostic} {site : Site}

theorem mem (h : Covers sites os) (hs : site ∈ sites) {o : Occurrence} (ho : o ∈ site.occurrences) :
    o ∈ os :=
  h.perm.mem_iff.1 (List.mem_flatMap.2 ⟨site, hs, ho⟩)

theorem misuse_mem (h : Covers sites os) (hs : site ∈ sites) {id : Ident} {misuse : Misuse}
    (hm : (id, misuse) ∈ site.misuses) : .ident id ∈ os := by
  cases site with
  | use own =>
    obtain ⟨-, rfl, -⟩ : _ ∧ id = own ∧ _ := by simpa [Site.misuses] using hm
    exact h.mem hs (by simp [Site.occurrences])
  | tag own =>
    obtain ⟨-, rfl, -⟩ : _ ∧ id = own ∧ _ := by simpa [Site.misuses] using hm
    exact h.mem hs (by simp [Site.occurrences])
  | access object field symbol =>
    obtain ⟨last, hl, hlast⟩ := h.anchored object field symbol hs
    simp only [Site.misuses] at hm
    split at hm
    · obtain ⟨-, rfl, -⟩ : _ ∧ id = field ∧ _ := by simpa using hm
      exact h.mem hs (by simp [Site.occurrences])
    · obtain ⟨rfl, -⟩ : id = last ∧ _ := by simpa [dotAnchor_eq field hl] using hm
      exact hlast
  | declaration before type own =>
    have hid : id = own := by
      rcases List.mem_append.1 hm with hm | hm
      · exact (by simpa using hm : _ ∧ id = own ∧ _).2.1
      · exact (by simpa using hm : _ ∧ id = own ∧ _).2.1
    exact hid ▸ h.mem hs (by simp [Site.occurrences])

section Accounted

variable (h : Covers sites os) (hnodup : (locsOf os).Nodup) (hlocs : ∀ loc ∈ locsOf os, loc.isSome)
  (he : Explained sites reports)

include h hnodup hlocs he

/-- What was reported about an identifier is what there is to complain about at some site. -/
theorem mem_reports {id : Ident} (hid : .ident id ∈ os) (misuse : Misuse) :
    .about id misuse ∈ reports ↔ ∃ site ∈ sites, (id, misuse) ∈ site.misuses := by
  rw [he.errors_eq]
  simp only [List.mem_flatMap, Site.errors, List.mem_map, Prod.exists]
  constructor
  · rintro ⟨site, hs, other, misuse', hm, hsame⟩
    have hother := h.misuse_mem hs hm
    obtain ⟨hloc, rfl⟩ := about_eq_about (hlocs _ (mem_locsOf hother)) (hlocs _ (mem_locsOf hid)) hsame
    obtain rfl := ident_eq_of_loc hnodup hother hid hloc
    exact ⟨site, hs, hm⟩
  · rintro ⟨site, hs, hm⟩
    exact ⟨site, hs, id, misuse, hm, rfl⟩

theorem tag_accounted {tag : Ident} (hs : .tag tag ∈ sites) :
    tag.symbol = none ↔ .about tag .unknownStruct ∈ reports := by
  rw [mem_reports h hnodup hlocs he (h.mem hs (by simp [Site.occurrences]))]
  constructor
  · intro hn
    exact ⟨.tag tag, hs, by simp [Site.misuses, hn]⟩
  · rintro ⟨site, -, hm⟩
    exact Site.symbol_of_unknownStruct hm

theorem access_accounted {object : Expr} {field : Ident} {symbol : Option Symbol}
    (hs : .access object field symbol ∈ sites) :
    (Site.access object field symbol).Accounted reports := by
  obtain ⟨last, hl, hlast⟩ := h.anchored object field symbol hs
  have hfield : .ident field ∈ os := h.mem hs (by simp [Site.occurrences])
  have hsound := he.sound _ hs
  obtain ⟨hsame, hmember⟩ := id hsound
  rw [hl, Option.bind_some] at hmember
  refine ⟨last, hl, hsame, ?_, ?_⟩
  · rw [mem_reports h hnodup hlocs he hfield, mem_reports h hnodup hlocs he hlast]
    constructor
    · intro hn
      exact (Site.misuses_access hl hn hsound).imp (fun hm => ⟨_, hs, hm⟩) fun hm => ⟨_, hs, hm⟩
    · rintro (⟨site, hsite, hm⟩ | ⟨site, hsite, hm⟩)
      · exact hsame ▸ Site.symbol_of_unknownField hm (he.sound site hsite)
      · rw [hmember]
        refine Site.member_of_notAStruct hm (fun object field symbol heq => ?_) field.name
        exact (h.anchored object field symbol (heq ▸ hsite)).imp fun _ hl => hl.1
  · intro found hfound
    exact Option.bind_eq_some_iff.1 (hmember.symm.trans hfound)

theorem declaration_accounted {before : List Decl} {type : Option TypeExpr} {id : Ident}
    (hs : .declaration before type id ∈ sites) :
    (Site.declaration before type id).Accounted reports := by
  have hsound : id.symbol.isSome = (type.all TypeExpr.isKnown || bound before id.name) :=
    he.sound _ hs
  have hnone : id.symbol = none ↔
      type.all TypeExpr.isKnown = false ∧ bound before id.name = false := by
    rw [← Option.isNone_iff_eq_none, ← Option.not_isSome, hsound]
    simp
  refine hnone.trans (and_congr_left' ?_)
  cases type with
  | none => simp
  | some type =>
    rcases h.typed before type id hs with ⟨name, rfl⟩ | ⟨tag, rfl, htag⟩
    · simp [TypeExpr.isKnown]
    · have htag := tag_accounted h hnodup hlocs he htag
      simp [TypeExpr.isKnown, htag]

/-- Where no two identifiers share a location, the reports tell exactly which names have no symbol. -/
theorem accounted (hs : site ∈ sites) : site.Accounted reports := by
  cases site with
  | use id =>
    refine Iff.trans ?_ (mem_reports h hnodup hlocs he (h.mem hs (by simp [Site.occurrences]))
      .undeclared).symm
    constructor
    · intro hn
      exact ⟨.use id, hs, by simp [Site.misuses, hn]⟩
    · rintro ⟨site, -, hm⟩
      exact Site.symbol_of_undeclared hm
  | tag id => exact tag_accounted h hnodup hlocs he hs
  | access => exact access_accounted h hnodup hlocs he hs
  | declaration => exact declaration_accounted h hnodup hlocs he hs

end Accounted

end Covers

end Moo
