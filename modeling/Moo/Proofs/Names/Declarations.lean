import Moo.Proofs.Names.Bindings

/-!
# Which declarations are reported

A declaration that enters its name is reported exactly if one before it in
its scope entered the same name, and a variable, field or formal exactly if
its type is `void`. One of an unknown struct type enters nothing: it is not
reported again, and it does not stand in the way of a later declaration.

Each declaration of a scope is at one site of analysis, with those before it
in the scope, and each site of a declaration belongs to one in a scope.

* `Program.Shaped.scopeSites`: the sites of declarations are those of the scopes.
* `Covers.site_eq`: an identifier is at one site.
* `analysis_declares`: the diagnostics, symbols and bindings of a program that
  was read.
-/
namespace Moo

/-! ## The sites of a scope -/

/-- The written type of a variable, field or formal. -/
def Decl.type? : Decl → Option TypeExpr
  | .var type _ | .formal type _ => some type
  | _ => none

/-- The site of a declaration behind others of its scope. -/
def Declared.site? (before : List Declared) (declared : Declared) : Option Site :=
  declared.2.id?.map (.declaration (before.map Prod.snd) declared.2.type?)

/-- The sites of the declarations of a scope behind others. -/
def scopeSites (before : List Declared) : List Declared → List Site
  | [] => []
  | declared :: scope => (declared.site? before).toList ++ scopeSites (before ++ [declared]) scope

def Site.isDeclaration : Site → Bool
  | .declaration .. => true
  | _ => false

theorem mem_scopeSites {scope : List Declared} {site : Site} : ∀ {before : List Declared},
    site ∈ scopeSites before scope ↔
      ∃ front declared, front ++ [declared] <+: scope ∧
        declared.site? (before ++ front) = some site := by
  induction scope with
  | nil => simp [scopeSites]
  | cons first scope ih =>
    intro before
    rw [scopeSites, List.mem_append, Option.mem_toList, ih]
    constructor
    · rintro (hsite | ⟨front, declared, hpart, hsite⟩)
      · exact ⟨[], first, by simp, by simpa using hsite⟩
      · exact ⟨first :: front, declared, by simpa using hpart, by simpa using hsite⟩
    · rintro ⟨_ | ⟨other, front⟩, declared, hpart, hsite⟩
      · obtain rfl : declared = first := by simpa using hpart
        exact .inl (by simpa using hsite)
      · obtain ⟨rfl, hrest⟩ := List.cons_prefix_cons.1 hpart
        exact .inr ⟨front, declared, hrest, by simpa using hsite⟩

theorem scopeSites_append (before scope more : List Declared) :
    scopeSites before (scope ++ more) =
      scopeSites before scope ++ scopeSites (before ++ scope) more := by
  induction scope generalizing before with
  | nil => simp [scopeSites]
  | cons declared scope ih => simp [scopeSites, ih]

mutual

/-- Nothing is declared in an expression. -/
theorem Expr.sites_declareNothing : ∀ expr : Expr, expr.sites.filter Site.isDeclaration = []
  | .int .. | .str .. | .bool .. | .strayDot .. | .strayCall .. | .stray _ | .name _ => rfl
  | .dot object field symbol => by
    rw [Expr.sites, List.filter_append, object.sites_declareNothing]
    rfl
  | .assign target value => by
    rw [Expr.sites, List.filter_append, target.sites_declareNothing, value.sites_declareNothing]
    rfl
  | .call callee args => Expr.sitesAll_declareNothing args
  | .unary _ operand => operand.sites_declareNothing
  | .binary _ left right => by
    rw [Expr.sites, List.filter_append, left.sites_declareNothing, right.sites_declareNothing]
    rfl

theorem Expr.sitesAll_declareNothing : ∀ exprs : List Expr,
    (Expr.sitesAll exprs).filter Site.isDeclaration = []
  | [] => rfl
  | expr :: exprs => by
    rw [Expr.sitesAll, List.filter_append, expr.sites_declareNothing,
      Expr.sitesAll_declareNothing exprs]
    rfl

end

theorem TypeExpr.sites_declareNothing (type : TypeExpr) :
    type.sites.filter Site.isDeclaration = [] := by
  cases type <;> rfl

theorem Decl.variables_scopeSites (origin : Nat → Origin) : ∀ {decls : List Decl} (index : Nat)
    (before : List Declared), (∀ decl ∈ decls, decl.IsVariable ∨ decl.IsFormal) →
    (Decl.variableSitesAll (before.map Prod.snd) decls).filter Site.isDeclaration =
      scopeSites before (listed origin index decls)
  | [], _, _, _ => rfl
  | decl :: decls, index, before, h => by
    obtain ⟨hd, hds⟩ := List.forall_mem_cons.1 h
    have hrest := Decl.variables_scopeSites origin (index + 1) (before ++ [(origin index, decl)]) hds
    have hfirst : (decl.variableSites (before.map Prod.snd)).filter Site.isDeclaration =
        (Declared.site? before (origin index, decl)).toList := by
      cases decl with
      | var type id | formal type id =>
        rw [Decl.variableSites, List.filter_append, type.sites_declareNothing]
        rfl
      | function => exact hd.elim False.elim False.elim
      | struct => exact hd.elim False.elim False.elim
      | stray => exact hd.elim False.elim False.elim
    rw [Decl.variableSitesAll, List.filter_append, hfirst, listed, scopeSites]
    simpa using hrest

mutual

theorem Stmt.WellFormed.scopeSites (path : Origin) : ∀ {stmt : Stmt}, stmt.WellFormed →
    stmt.sites.filter Site.isDeclaration = (stmt.scopes path).flatMap (scopeSites [])
  | .assign expr, _ | .increment expr, _ | .decrement expr, _ | .read expr, _ | .write expr, _
  | .call expr, _ | .returnValue expr, _ => expr.sites_declareNothing
  | .returnNothing, _ => rfl
  | .stray _, h => h.elim
  | .ifThen condition decls stmts, ⟨_, hd, hs⟩ | .loop condition decls stmts, ⟨_, hd, hs⟩ => by
    have hdecls := Decl.variables_scopeSites (path.child .decls) 0 [] fun d hm => .inl (hd d hm)
    rw [Stmt.sites, List.filter_append, condition.sites_declareNothing, List.nil_append,
      List.filter_append, Stmt.scopes, List.flatMap_cons,
      ← Stmt.WellFormedAll.scopeSites path .stmts 0 hs, ← hdecls]
    rfl
  | .ifElse condition thenDecls thenStmts elseDecls elseStmts, ⟨_, ⟨htd, hts⟩, hed, hes⟩ => by
    have hthen := Decl.variables_scopeSites (path.child .decls) 0 [] fun d hm => .inl (htd d hm)
    have helse := Decl.variables_scopeSites (path.child .elseDecls) 0 [] fun d hm => .inl (hed d hm)
    rw [Stmt.sites, List.filter_append, List.filter_append, condition.sites_declareNothing,
      List.nil_append, List.filter_append, List.filter_append, Stmt.scopes, List.flatMap_append,
      List.flatMap_cons, List.flatMap_cons, ← Stmt.WellFormedAll.scopeSites path .stmts 0 hts,
      ← Stmt.WellFormedAll.scopeSites path .elseStmts 0 hes, ← hthen, ← helse]
    rfl

theorem Stmt.WellFormedAll.scopeSites (path : Origin) (part : Part) : ∀ {stmts : List Stmt}
    (index : Nat), Stmt.WellFormedAll stmts →
    (Stmt.sitesAll stmts).filter Site.isDeclaration =
      (Stmt.scopesAll path part index stmts).flatMap (scopeSites [])
  | [], _, _ => rfl
  | _ :: _, index, ⟨h, hs⟩ => by
    rw [Stmt.sitesAll, List.filter_append, Stmt.scopesAll, List.flatMap_append,
      ← h.scopeSites (path.child part index),
      ← Stmt.WellFormedAll.scopeSites path part (index + 1) hs]

end

/-- A declaration at top level: its own site and those of the scopes inside it. -/
theorem Decl.WellFormed.scopeSites {decl : Decl} (h : decl.WellFormed) (origin : Origin)
    (before : List Declared) :
    ((decl.sites (before.map Prod.snd)).filter Site.isDeclaration).Perm
      ((Declared.site? before (origin, decl)).toList ++
        (decl.scopes origin).flatMap (scopeSites [])) := by
  cases decl with
  | formal => exact h.elim
  | stray => exact h.elim
  | var type id =>
    rw [Decl.sites, List.filter_append, type.sites_declareNothing]
    exact .refl _
  | struct tag fields =>
    have hfields := Decl.variables_scopeSites (origin.child .fields) 0 [] fun d hm => .inl (h d hm)
    rw [Decl.sites, List.filter_append, Decl.scopes, List.flatMap_singleton, ← hfields]
    exact List.perm_append_comm
  | function returns id formals decls stmts =>
    obtain ⟨_, hf, hd, hs⟩ := h
    have hformals := Decl.variables_scopeSites (origin.child .formals) 0 [] fun d hm => .inr (hf d hm)
    have hdecls := Decl.variables_scopeSites (origin.child .decls) 0
      (listed (origin.child .formals) 0 formals) fun d hm => .inl (hd d hm)
    rw [listed_decls] at hdecls
    rw [Decl.sites, List.filter_append, returns.sites_declareNothing, List.nil_append,
      List.filter_cons_of_pos rfl, List.filter_append, Decl.variableSitesAll_append,
      List.filter_append, List.nil_append, hdecls, Decl.scopes, List.flatMap_cons,
      scopeSites_append, List.nil_append, ← hformals,
      Stmt.WellFormedAll.scopeSites origin .stmts 0 hs]
    exact .refl _

theorem Decl.all_scopeSites : ∀ {decls : List Decl} (clock : Nat) (before : List Declared),
    (∀ decl ∈ decls, decl.WellFormed) →
    ((Decl.sitesAll (before.map Prod.snd) decls).filter Site.isDeclaration).Perm
      (scopeSites before (listed .top clock decls) ++
        (Decl.scopesAll clock decls).flatMap (scopeSites []))
  | [], _, _, _ => .refl _
  | decl :: decls, clock, before, h => by
    obtain ⟨hd, hds⟩ := List.forall_mem_cons.1 h
    have hrest := Decl.all_scopeSites (clock + 1) (before ++ [(.top clock, decl)]) hds
    have hfirst := hd.scopeSites (.top clock) before
    rw [List.map_append] at hrest
    rw [Decl.sitesAll, List.filter_append, listed, scopeSites, Decl.scopesAll, List.flatMap_append]
    refine (hfirst.append hrest).trans ?_
    rw [List.append_assoc, List.append_assoc]
    exact (List.perm_append_comm_assoc _ _ _).append_left _

/-- The sites of declarations are those of the declarations of all scopes. -/
theorem Program.WellFormed.scopeSites {program : Program} (h : program.WellFormed) :
    (program.sites.filter Site.isDeclaration).Perm (program.scopes.flatMap (scopeSites [])) :=
  Decl.all_scopeSites 0 [] h

/-! ## What is reported about a declared name -/

/-- A declaration enters its name unless it is a variable, field or formal of a struct type that was
reported to be unknown. -/
def Decl.Binding (reports : List Diagnostic) : Decl → Prop
  | .var (.struct tag) _ | .formal (.struct tag) _ => .about tag .unknownStruct ∉ reports
  | _ => True

/-- A variable, field or formal of type `void`. -/
def Decl.IsVoid : Decl → Prop
  | .var type _ | .formal type _ => type.isVoid = true
  | _ => False

theorem Decl.binds_iff (name : String) (decl : Decl) :
    decl.binds name = true ↔ decl.isKnown = true ∧ decl.id?.map Ident.name = some name := by
  cases decl <;> simp [Decl.binds, Decl.isKnown, Decl.id?]

theorem Decl.isVoid_iff (decl : Decl) : decl.type?.any TypeExpr.isVoid = true ↔ decl.IsVoid := by
  cases decl <;> simp [Decl.type?, Decl.IsVoid]

theorem Decl.isKnown_eq {decl : Decl} {id : Ident} (h : decl.id? = some id) :
    decl.isKnown = decl.type?.all TypeExpr.isKnown := by
  cases decl with
  | stray => cases h
  | _ => rfl

namespace Site

/-- What is wrong with a declaration is reported at the name that it declares. -/
theorem declaration_of_misuse {site : Site} {id : Ident} {misuse : Misuse}
    (h : (id, misuse) ∈ site.misuses) (hm : misuse = .redeclared ∨ misuse = .voidVariable) :
    site.isDeclaration ∧ .ident id ∈ site.occurrences := by
  cases site with
  | use own => rcases hm with rfl | rfl <;> simp [misuses] at h
  | tag own => rcases hm with rfl | rfl <;> simp [misuses] at h
  | access object field symbol =>
    simp only [misuses] at h
    split at h <;> rcases hm with rfl | rfl <;> simp at h
  | declaration before type own =>
    obtain rfl : id = own := by
      rcases List.mem_append.1 h with h | h
      · exact (by simpa using h : _ ∧ id = own ∧ _).2.1
      · exact (by simpa using h : _ ∧ id = own ∧ _).2.1
    exact ⟨rfl, by simp [occurrences]⟩

end Site

namespace Covers

variable {sites : List Site} {os : List Occurrence} {reports : List Diagnostic}

/-- An identifier is at one site. -/
theorem site_eq (h : Covers sites os) (hnodup : (locsOf os).Nodup) {a b : Site} (ha : a ∈ sites)
    (hb : b ∈ sites) {id : Ident} (hida : .ident id ∈ a.occurrences)
    (hidb : .ident id ∈ b.occurrences) : a = b := by
  have hsplit : locsOf (sites.flatMap Site.occurrences) =
      sites.flatMap fun site => locsOf site.occurrences :=
    List.filterMap_flatMap
  have hflat : (sites.flatMap fun site => locsOf site.occurrences).Nodup :=
    hsplit ▸ (h.perm.filterMap _).nodup_iff.2 hnodup
  have hsymm : Std.Symm (Function.onFun List.Disjoint fun site : Site => locsOf site.occurrences) :=
    ⟨fun _ _ h => List.Disjoint.symm h⟩
  by_contra hne
  have hdisjoint := (List.nodup_flatMap.1 hflat).2.forall ha hb hne
  exact hdisjoint (mem_locsOf hida) (mem_locsOf hidb)

end Covers

/-- What there is to say about a declaration behind others of its scope. -/
structure Declared.Reported (reports : List Diagnostic) (before : List Declared)
    (declared : Declared) (id : Ident) : Prop where
  declares : declared.2.id? = some id
  binding : (declared.2.symbol? declared.1).isSome ↔ declared.2.Binding reports
  redeclared : .about id .redeclared ∈ reports ↔ declared.2.Binding reports ∧
    ∃ earlier ∈ before, earlier.2.Binding reports ∧ earlier.2.id?.map Ident.name = some id.name
  void : .about id .voidVariable ∈ reports ↔ declared.2.IsVoid
  symbol : id.symbol = (entries (before ++ [declared])).lookup id.name

section Reports

variable {program : Program} {reports : List Diagnostic} {finals : List Scope}
  (hw : program.WellFormed) (hcovers : Covers program.sites program.occurrences)
  (hnodup : (locsOf program.occurrences).Nodup)
  (hlocs : ∀ loc ∈ locsOf program.occurrences, loc.isSome)
  (hexplained : Explained program.sites reports) (hholds : AllHold finals program.scopes)

include hw in
/-- Each declaration of a scope has its site. -/
theorem Program.WellFormed.site_mem {scope before : List Declared} {declared : Declared} {id : Ident}
    (hscope : scope ∈ program.scopes) (hpart : before ++ [declared] <+: scope)
    (hid : declared.2.id? = some id) :
    .declaration (before.map Prod.snd) declared.2.type? id ∈ program.sites := by
  have hsite : .declaration (before.map Prod.snd) declared.2.type? id ∈
      program.scopes.flatMap (Moo.scopeSites []) :=
    List.mem_flatMap.2 ⟨scope, hscope, mem_scopeSites.2
      ⟨before, declared, hpart, by simp [Declared.site?, hid]⟩⟩
  exact List.mem_of_mem_filter (hw.scopeSites.mem_iff.2 hsite)

include hcovers hnodup hlocs hexplained in
/-- A variable is declared exactly if its struct type was not reported. -/
theorem Decl.isKnown_iff {before : List Decl} {decl : Decl} {id : Ident} (hid : decl.id? = some id)
    (hs : .declaration before decl.type? id ∈ program.sites) :
    decl.isKnown = true ↔ decl.Binding reports := by
  have key {type : TypeExpr} (hs : .declaration before (some type) id ∈ program.sites) {known : Prop}
      (hprimitive : ∀ name, type = .primitive name → known)
      (hstruct : ∀ tag, type = .struct tag → (known ↔ .about tag .unknownStruct ∉ reports)) :
      type.isKnown = true ↔ known := by
    rcases hcovers.typed before type id hs with ⟨name, rfl⟩ | ⟨tag, rfl, htag⟩
    · simp [TypeExpr.isKnown, hprimitive name rfl]
    · have haccount := hcovers.tag_accounted hnodup hlocs hexplained htag
      rw [hstruct tag rfl, ← haccount, TypeExpr.isKnown, Option.isSome_iff_ne_none]
  cases decl with
  | stray => cases hid
  | function => simp [Decl.isKnown, Decl.Binding]
  | struct => simp [Decl.isKnown, Decl.Binding]
  | var type own =>
    refine key hs ?_ ?_
    · rintro name rfl
      trivial
    · rintro tag rfl
      rfl
  | formal type own =>
    refine key hs ?_ ?_
    · rintro name rfl
      trivial
    · rintro tag rfl
      rfl

include hw hcovers hnodup hlocs hexplained in
theorem Declared.binding_iff {scope before : List Declared} {declared : Declared} {id : Ident}
    (hscope : scope ∈ program.scopes) (hpart : before ++ [declared] <+: scope)
    (hid : declared.2.id? = some id) :
    declared.2.isKnown = true ↔ declared.2.Binding reports :=
  Decl.isKnown_iff hcovers hnodup hlocs hexplained hid (hw.site_mem hscope hpart hid)

include hw hcovers hnodup hlocs hexplained in
/-- A name is taken if a declaration of the scope that is not skipped has it. -/
theorem Declared.bound_iff {scope before : List Declared} (hscope : scope ∈ program.scopes)
    (hpart : before <+: scope) (name : String) :
    bound (before.map Prod.snd) name = true ↔
      ∃ earlier ∈ before, earlier.2.Binding reports ∧ earlier.2.id?.map Ident.name = some name := by
  have hbinding {earlier : Declared} (hm : earlier ∈ before)
      (hname : earlier.2.id?.map Ident.name = some name) :
      earlier.2.isKnown = true ↔ earlier.2.Binding reports := by
    obtain ⟨id, hid, -⟩ := Option.map_eq_some_iff.1 hname
    obtain ⟨front, back, rfl⟩ := List.append_of_mem hm
    have hfront : front ++ [earlier] <+: front ++ earlier :: back := ⟨back, by simp⟩
    exact Declared.binding_iff hw hcovers hnodup hlocs hexplained hscope (hfront.trans hpart) hid
  rw [bound, List.any_map, List.any_eq_true]
  refine exists_congr fun earlier => and_congr_right fun hm => ?_
  rw [Function.comp_apply, Decl.binds_iff]
  exact and_congr_left fun hname => hbinding hm hname

include hw hcovers hnodup hlocs hexplained hholds in
theorem AllHold.reported {scope before : List Declared} {declared : Declared}
    (hscope : scope ∈ program.scopes) (hpart : before ++ [declared] <+: scope) :
    ∃ id, declared.Reported reports before id := by
  obtain ⟨hknown, id, hid, hsymbol⟩ := hholds.settled hscope declared hpart
  have hsite := hw.site_mem hscope hpart hid
  have hbinding := Declared.binding_iff hw hcovers hnodup hlocs hexplained hscope hpart hid
  have hbound := Declared.bound_iff hw hcovers hnodup hlocs hexplained hscope
    ((List.prefix_append before [declared]).trans hpart) id.name
  have hreport {misuse : Misuse} (hm : misuse = .redeclared ∨ misuse = .voidVariable) :
      .about id misuse ∈ reports ↔ (id, misuse) ∈
        (Site.declaration (before.map Prod.snd) declared.2.type? id).misuses := by
    rw [hcovers.mem_reports hnodup hlocs hexplained (hcovers.mem hsite (by simp [Site.occurrences]))]
    constructor
    · rintro ⟨site, hs, hmisuse⟩
      obtain ⟨-, hown⟩ := Site.declaration_of_misuse hmisuse hm
      rwa [hcovers.site_eq hnodup hsite hs (by simp [Site.occurrences]) hown]
    · exact fun hmisuse => ⟨_, hsite, hmisuse⟩
  refine ⟨id, hid, ?_, ?_, ?_, hsymbol⟩
  · rw [hknown, hbinding]
  · rw [hreport (.inl rfl), ← hbinding, ← hbound, Decl.isKnown_eq hid]
    simp [Site.misuses]
  · rw [hreport (.inr rfl), ← Decl.isVoid_iff]
    simp [Site.misuses]

include hw hexplained in
/-- A name that is reported as declared wrongly is declared in a scope. -/
theorem Program.WellFormed.misuse_declared {d : Diagnostic} (hd : d ∈ reports)
    (hm : d.misuse = .redeclared ∨ d.misuse = .voidVariable) :
    ∃ scope ∈ program.scopes, ∃ declared ∈ scope, ∃ id,
      declared.2.id? = some id ∧ d = .about id d.misuse := by
  rw [hexplained.errors_eq] at hd
  obtain ⟨site, hs, hd⟩ := List.mem_flatMap.1 hd
  obtain ⟨⟨id, misuse⟩, hmisuse, rfl⟩ := List.mem_map.1 hd
  obtain ⟨hdeclaration, hid⟩ := Site.declaration_of_misuse hmisuse hm
  obtain ⟨scope, hscope, hsite⟩ := List.mem_flatMap.1
    (hw.scopeSites.mem_iff.1 (List.mem_filter.2 ⟨hs, hdeclaration⟩))
  obtain ⟨front, declared, hpart, hat⟩ := mem_scopeSites.1 hsite
  obtain ⟨own, hown, rfl⟩ := Option.map_eq_some_iff.1 hat
  obtain rfl : id = own := by simpa [Site.occurrences] using hid
  exact ⟨scope, hscope, declared, hpart.subset (by simp), id, hown, rfl⟩

end Reports

/-! ## Programs that were read -/

/-- After analysis of a program that was read each scope, when it is closed, has the first symbol of
each name that its declarations make. A declaration makes one unless it is a variable, field or formal
whose struct type was reported. It is reported as declared already exactly if it makes one and one of
its name before it in its scope did too, and as a variable of type `void` exactly if it is one; no name
that is declared nowhere is reported so. A declared name has the first symbol made for it in its scope
up to and including its own declaration, if there is one. -/
theorem analysis_declares {source : String} {program : Program} (h : parse source = .ok program) :
    let analysis := program.analyze
    analysis.fault = none ∧
      program.finals = analysis.program.scopes.map bindings ∧
      (∀ scope ∈ analysis.program.scopes, ∀ before declared after,
        scope = before ++ declared :: after →
          ∃ id, declared.Reported analysis.diagnostics before id) ∧
      ∀ d ∈ analysis.diagnostics, d.misuse = .redeclared ∨ d.misuse = .voidVariable →
        ∃ scope ∈ analysis.program.scopes, ∃ declared ∈ scope, ∃ id,
          declared.2.id? = some id ∧ d = .about id d.misuse := by
  have hshape := parse_shaped h
  obtain ⟨hunresolved, hnodup, hlocs⟩ := parse_written h
  obtain ⟨hfault, hexplained, -⟩ := analysis_explained program hshape.wellFormed hunresolved
  have hholds := analysis_holds program hshape.wellFormed hunresolved
  have hshaped := hshape.analyze
  rw [← locsOf_analyze] at hnodup hlocs
  refine ⟨hfault, hholds.eq_map, ?_, fun d hd hm =>
    hshaped.wellFormed.misuse_declared hexplained hd hm⟩
  rintro scope hscope before declared after rfl
  exact hholds.reported hshaped.wellFormed hshaped.covers hnodup hlocs hexplained hscope
    ⟨after, by simp⟩

/-- A variable of an unknown struct type, and after it two more of its name, the first of them `void`;
then a function with a formal and a variable of one name. -/
def redeclaring : Program :=
  let id (name : String) (column : Int) : Ident := ⟨name, some ⟨1, column⟩, none⟩
  ⟨[.var (.struct (id "T" 8)) (id "x" 10), .var (.primitive "void") (id "x" 17),
    .var (.primitive "int") (id "x" 23),
    .function (.primitive "void") (id "f" 30) [.formal (.primitive "int") (id "a" 36)]
      [.var (.primitive "bool") (id "a" 44)] []]⟩

theorem analysis_declares_void :
    parse "struct T x;void x;int x;void f(int a)\x7bbool a;\x7d" = .ok redeclaring ∧
      redeclaring.analyze.diagnostics = [⟨⟨1, 8⟩, .unknownStruct⟩, ⟨⟨1, 17⟩, .voidVariable⟩,
        ⟨⟨1, 23⟩, .redeclared⟩, ⟨⟨1, 44⟩, .redeclared⟩] ∧
      redeclaring.finals = redeclaring.analyze.program.scopes.map bindings ∧
      redeclaring.finals = [[("x", .value (.top 1) "<error>"), ("f", .function (.top 3) "void" ["int"])],
        [("a", .value ((Origin.top 3).child .formals 0) "int")]] ∧
      ∀ scope ∈ redeclaring.analyze.program.scopes, ∀ before declared after,
        scope = before ++ declared :: after →
          ∃ id, declared.Reported redeclaring.analyze.diagnostics before id := by
  have h : parse "struct T x;void x;int x;void f(int a)\x7bbool a;\x7d" = .ok redeclaring := by cbv
  have hdeclares := analysis_declares h
  exact ⟨h, by cbv, hdeclares.2.1, by cbv, hdeclares.2.2.1⟩

end Moo
