import Moo.Proofs.Names.Lockstep
import Moo.Proofs.Names.Translation

/-!
# Analysis retraces its steps

Analysis of a tree without symbols, and analysis once more of the tree that it
came to, under other names perhaps and at another time: the second run goes
the way of the first. No form of tree needs its parts in the right places for
that.

There is one lemma for each form of expression, declaration and statement, and
`Decl.analyzeAll_retraces` for all declarations of a program. A name that is
used, declared or a tag gets a symbol in the second run exactly if it got one
in the first, so nothing of the first run is left where the second one leaves
no symbol.
-/
namespace Moo

open Walk

variable {t : Retracing}

/-! ## Trees -/

def TypeExpr.given (t : Retracing) (type : TypeExpr) : TypeExpr :=
  (type.relabel t.input).rename t.name

def Expr.given (t : Retracing) (expr : Expr) : Expr :=
  (expr.relabel t.input).rename t.name

def Expr.givenAll (t : Retracing) (exprs : List Expr) : List Expr :=
  Expr.renameAll t.name (Expr.relabelAll t.input exprs)

def Decl.given (t : Retracing) (decl : Decl) : Decl :=
  (decl.relabel t.input).rename t.name

def Decl.givenAll (t : Retracing) (decls : List Decl) : List Decl :=
  Decl.renameAll t.name (Decl.relabelAll t.input decls)

def Stmt.given (t : Retracing) (stmt : Stmt) : Stmt :=
  (stmt.relabel t.input).rename t.name

def Stmt.givenAll (t : Retracing) (stmts : List Stmt) : List Stmt :=
  Stmt.renameAll t.name (Stmt.relabelAll t.input stmts)

/-- What the two runs make of a type. -/
abbrev TypeExpr.Retraced (t : Retracing) (r s : TypeExpr) : Prop :=
  s.relabel t.after = (r.relabel t.before).rename t.name

abbrev Expr.Retraced (t : Retracing) (r s : Expr) : Prop :=
  s.relabel t.after = (r.relabel t.before).rename t.name

abbrev Expr.RetracedAll (t : Retracing) (r s : List Expr) : Prop :=
  Expr.relabelAll t.after s = Expr.renameAll t.name (Expr.relabelAll t.before r)

abbrev Decl.Retraced (t : Retracing) (r s : Decl) : Prop :=
  s.relabel t.after = (r.relabel t.before).rename t.name

abbrev Decl.RetracedAll (t : Retracing) (r s : List Decl) : Prop :=
  Decl.relabelAll t.after s = Decl.renameAll t.name (Decl.relabelAll t.before r)

abbrev Stmt.Retraced (t : Retracing) (r s : Stmt) : Prop :=
  s.relabel t.after = (r.relabel t.before).rename t.name

abbrev Stmt.RetracedAll (t : Retracing) (r s : List Stmt) : Prop :=
  Stmt.relabelAll t.after s = Stmt.renameAll t.name (Stmt.relabelAll t.before r)

theorem Relabel.fixes_retracing {occurrences : List Occurrence} (h : Unresolved occurrences) :
    t.input.Fixes occurrences ∧ t.before.Fixes occurrences ∧ t.after.Fixes occurrences :=
  ⟨fixes_of_unresolved (fun _ => rfl) t.label_none h, fixes_of_unresolved (fun _ => rfl) rfl h,
    fixes_of_unresolved (fun _ => rfl) rfl h⟩

/-- A tree without symbols, which both runs leave alone. -/
theorem TypeExpr.retraced_given {type : TypeExpr} (h : Unresolved type.occurrences) :
    type.Retraced t (type.given t) := by
  have hnew : Unresolved (type.rename t.name).occurrences := by
    rwa [TypeExpr.occurrences_rename, unresolved_rename]
  obtain ⟨hinput, hbefore, -⟩ := Relabel.fixes_retracing (t := t) h
  obtain ⟨-, -, hafter⟩ := Relabel.fixes_retracing (t := t) hnew
  rw [Retraced, given, relabel_fixed hinput, relabel_fixed hbefore, relabel_fixed hafter]

theorem Expr.retraced_given {expr : Expr} (h : Unresolved expr.occurrences) :
    expr.Retraced t (expr.given t) := by
  have hnew : Unresolved (expr.rename t.name).occurrences := by
    rwa [Expr.occurrences_rename, unresolved_rename]
  obtain ⟨hinput, hbefore, -⟩ := Relabel.fixes_retracing (t := t) h
  obtain ⟨-, -, hafter⟩ := Relabel.fixes_retracing (t := t) hnew
  rw [Retraced, given, relabel_fixed hinput, relabel_fixed hbefore, relabel_fixed hafter]

theorem Decl.retraced_given {decl : Decl} (h : Unresolved decl.occurrences) :
    decl.Retraced t (decl.given t) := by
  have hnew : Unresolved (decl.rename t.name).occurrences := by
    rwa [Decl.occurrences_rename, unresolved_rename]
  obtain ⟨hinput, hbefore, -⟩ := Relabel.fixes_retracing (t := t) h
  obtain ⟨-, -, hafter⟩ := Relabel.fixes_retracing (t := t) hnew
  rw [Retraced, given, relabel_fixed hinput, relabel_fixed hbefore, relabel_fixed hafter]

theorem Stmt.retraced_given {stmt : Stmt} (h : Unresolved stmt.occurrences) :
    stmt.Retraced t (stmt.given t) := by
  have hnew : Unresolved (stmt.rename t.name).occurrences := by
    rwa [Stmt.occurrences_rename, unresolved_rename]
  obtain ⟨hinput, hbefore, -⟩ := Relabel.fixes_retracing (t := t) h
  obtain ⟨-, -, hafter⟩ := Relabel.fixes_retracing (t := t) hnew
  rw [Retraced, given, relabel_fixed hinput, relabel_fixed hbefore, relabel_fixed hafter]

/-! ## Expressions -/

/-- The thing in the place of an identifier that the second run is given. -/
def Stray.given (t : Retracing) (thing : Stray) : Stray :=
  ((thing.relabel t.input).rename t.name).renameWord t.name

theorem Stray.renamed_given {thing : Stray} (h : Unresolved thing.occurrences) :
    Stray.Renamed t.name thing (thing.given t) := by
  obtain ⟨hinput, -, -⟩ := Relabel.fixes_retracing (t := t) h
  rw [Stray.given, relabel_fixed hinput]
  exact thing.renamed t.name

/-- A thing without symbols, which both runs leave alone. -/
theorem Stray.retraced_given {thing : Stray} (h : Unresolved thing.occurrences) :
    (thing.given t).relabel t.after =
      ((thing.relabel t.before).rename t.name).renameWord t.name := by
  obtain ⟨hinput, hbefore, -⟩ := Relabel.fixes_retracing (t := t) h
  have hnew : Unresolved ((thing.rename t.name).renameWord t.name).occurrences := by
    rwa [Stray.occurrences_renameWord, Stray.occurrences_rename, unresolved_rename]
  obtain ⟨-, -, hafter⟩ := Relabel.fixes_retracing (t := t) hnew
  rw [Stray.given, relabel_fixed hinput, relabel_fixed hbefore, relabel_fixed hafter]

/-- What is said of a wrong dot does not depend on symbols. -/
theorem Expr.blame_relabel {r : Relabel} (hloc : ∀ loc, r.loc loc = loc) (expr : Expr) :
    (expr.relabel r).blame?.map Remark.errors? = expr.blame?.map Remark.errors? := by
  have hid (id : Ident) : Diagnostic.about (id.relabel r) .notAStruct = .about id .notAStruct := by
    rw [Diagnostic.about, Ident.relabel, hloc, Diagnostic.about]
  cases expr with
  | name id => exact congrArg (fun error => some (some [error])) (hid id)
  | dot _ field => exact congrArg (fun error => some (some [error])) (hid field)
  | strayDot _ thing =>
    have hthing : (thing.relabel r).remark .notAStruct = thing.remark .notAStruct := by
      have hsame : r.loc = id := funext hloc
      rw [Stray.remark, Stray.remark, Stray.loc_relabel, Stray.kind_relabel, hsame, id_map]
    exact congrArg (fun remark : Remark => some remark.errors?) hthing
  | _ => rfl

/-- Nor does it depend on names. -/
theorem Expr.blame_rename (f : String → String) (expr : Expr) :
    (expr.rename f).blame?.map Remark.errors? = expr.blame?.map Remark.errors? := by
  cases expr with
  | strayDot _ thing => exact congrArg some ((thing.renamed f).errors_remark .notAStruct)
  | _ => rfl

theorem Expr.Retraced.blame {object object' : Expr} (h : object.Retraced t object')
    {remark remark' : Remark} (hr : remark'.errors? = remark.errors?) :
    (object'.blame?.getD remark').errors? = (object.blame?.getD remark).errors? := by
  have hblame : object'.blame?.map Remark.errors? = object.blame?.map Remark.errors? := by
    rw [← Expr.blame_relabel (r := t.after) (fun _ => rfl), h, Expr.blame_rename,
      Expr.blame_relabel fun _ => rfl]
  rw [← Option.getD_map Remark.errors?, ← Option.getD_map Remark.errors?, hblame, hr]

/-- Where two struct values are the same in other words, so are their members. -/
theorem Retracing.scopes_members {p q : Origin} {type type' : String} {d e : StructType}
    (h : (Symbol.structValue q type' e).translate t.told =
      (Symbol.structValue p type d).translate t.toTranslation) :
    t.Scopes d.members e.members := by
  simp only [Symbol.translate, Symbol.structValue.injEq] at h
  rw [Scopes, ← StructType.members_translate, h.2.2, StructType.members_translate]

theorem narrow_retraces {object object' : Expr} (ho : object.Retraced t object')
    {base base' : Option Symbol} (hb : t.Matches base base') {field : Ident}
    (hf : field.symbol = none) :
    Retraces t (narrow object base field none)
      (fun r => narrow object' base' (r.1.given t) (t.label r.2.1))
      fun r s => r.1.Retraced t s.1 ∧ t.Matches r.2.1 s.2.1 ∧ t.Matches r.2.2 s.2.2 := by
  let post (r s : Ident × Option Symbol × Option Symbol) : Prop :=
    r.1.Retraced t s.1 ∧ t.Matches r.2.1 s.2.1 ∧ t.Matches r.2.2 s.2.2
  have hkept : post (field, none, none) (field.anew t field.symbol, t.label none, none) :=
    ⟨Ident.retraced_anew hf, congrArg (Option.map _) t.label_none, rfl⟩
  refine .given (fun r field' => narrow object' base' field' (t.label r.2.1))
    (look_retraces hkept fun _ _ _ => ?_) (narrow_forget object base field none)
  have hno : (object'.blame?.getD (.misuse (field.anew t field.symbol) .notAStruct)).errors? =
      (object.blame?.getD (.misuse field .notAStruct)).errors? := ho.blame rfl
  cases base with
  | none =>
    obtain rfl := hb.eq_none
    exact ⟨hno, hkept⟩
  | some s =>
    obtain ⟨u, rfl, hsu⟩ := hb.exists_some
    cases s with
    | structValue _ _ d =>
      cases u with
      | structValue _ _ e =>
        have hfind := (Retracing.scopes_members hsu).find? field.name
        cases hm : Scope.find? d.members field.name with
        | none =>
          rw [hm] at hfind
          simp only [Ident.anew, hm, hfind.eq_none]
          exact ⟨rfl, hkept⟩
        | some member =>
          rw [hm] at hfind
          obtain ⟨u, hu, hsame⟩ := hfind.exists_some
          have hmatch := Retracing.matches_some hsame
          simp only [Ident.anew, hm, hu, true_and]
          exact ⟨field.retraced_set hmatch, hmatch, hmatch⟩
      | _ => simp [Symbol.translate] at hsu
    | _ =>
      cases u with
      | structValue _ _ e => simp [Symbol.translate] at hsu
      | _ => exact ⟨hno, hkept⟩

theorem narrowStray_retraces {object object' : Expr} (ho : object.Retraced t object')
    {base base' : Option Symbol} (hb : t.Matches base base') {field field' : Stray}
    (hf : Stray.Renamed t.name field field') :
    Retraces t (narrowStray object base field none none)
      (fun r => narrowStray object' base' field' (t.label r.1) (t.label r.2.1))
      fun r s => t.Matches r.1 s.1 ∧ t.Matches r.2.1 s.2.1 ∧ t.Matches r.2.2 s.2.2 := by
  have hnone : t.Matches none (t.label none) := congrArg (Option.map _) t.label_none
  refine look_retraces ⟨hnone, hnone, rfl⟩ fun _ _ _ => ?_
  have hno := ho.blame (hf.errors_remark .notAStruct)
  cases base with
  | none =>
    obtain rfl := hb.eq_none
    exact ⟨hno, hnone, hnone, rfl⟩
  | some s =>
    obtain ⟨u, rfl, hsu⟩ := hb.exists_some
    cases s with
    | structValue _ _ d =>
      cases u with
      | structValue _ _ e =>
        rcases hf.names with ⟨fault, fault', hn, hn'⟩ | ⟨name, hn, hn'⟩ <;> simp only [hn, hn']
        · exact ⟨rfl, hnone, hnone, rfl⟩
        · have hfind := (Retracing.scopes_members hsu).find? name
          cases hm : Scope.find? d.members name with
          | none =>
            rw [hm] at hfind
            simp only [hfind.eq_none]
            exact ⟨hf.errors_remark .unknownField, hnone, hnone, rfl⟩
          | some member =>
            rw [hm] at hfind
            obtain ⟨u, hu, hsame⟩ := hfind.exists_some
            have hmatch := Retracing.matches_some hsame
            simp only [hu, true_and]
            exact ⟨hmatch, hmatch, hmatch⟩
      | _ => simp [Symbol.translate] at hsu
    | _ =>
      cases u with
      | structValue _ _ e => simp [Symbol.translate] at hsu
      | _ => exact ⟨hno, hnone, hnone, rfl⟩

mutual

theorem Expr.resolve_retraces : ∀ expr : Expr, Unresolved expr.occurrences →
    Retraces t expr.resolve (fun r => (r.1.given t).resolve)
      fun r s => r.1.Retraced t s.1 ∧ t.Matches r.2 s.2
  | .int .., _ | .str .., _ | .bool .., _ => .ofPure rfl ⟨rfl, rfl⟩
  | .name id, h => by
    have hid : id.symbol = none := h _ List.mem_cons_self
    refine (Walk.resolve_retraces hid).last ?_ fun _ => rfl
    exact fun _ _ ⟨hr, hm⟩ => ⟨congrArg Expr.name hr, hm⟩
  | .dot object field symbol, h => by
    simp only [Expr.occurrences, unresolved_append, unresolved_cons] at h
    obtain ⟨⟨hs, ho⟩, hf, -⟩ := h
    obtain rfl : symbol = none := hs
    refine (object.resolve_retraces ho).both
      (fun _ _ ⟨hobject, hbase⟩ => narrow_retraces hobject hbase hf) ?_ fun _ _ => rfl
    rintro x y u v ⟨hx, -⟩ ⟨hfield, hsymbol, hmatch⟩
    refine ⟨?_, hmatch⟩
    have hlabel : t.after.symbol v.2.1 = t.before.symbol u.2.1 := hsymbol
    rw [Expr.Retraced, Expr.relabel, hx, hfield, hlabel]
    rfl
  | .assign target value, h => by
    obtain ⟨ht, hv⟩ := (unresolved_append _ _).1 h
    refine (target.resolve_retraces ht).both (fun _ _ _ => value.resolve_retraces hv) ?_
      fun _ _ => rfl
    rintro x y u v ⟨hx, -⟩ ⟨hu, -⟩
    exact ⟨by rw [Expr.Retraced, Expr.relabel, hx, hu]; rfl, rfl⟩
  | .call callee args, h => by
    obtain ⟨hc, ha⟩ := (unresolved_cons _ _).1 h
    refine (Walk.resolve_retraces hc).both (fun _ _ _ => Expr.resolveAll_retraces args ha) ?_
      fun _ _ => rfl
    rintro x y u v ⟨hx, -⟩ hu
    exact ⟨by rw [Expr.Retraced, Expr.relabel, hx, hu]; rfl, rfl⟩
  | .unary op operand, h => by
    have ho : Unresolved operand.occurrences := h
    refine (operand.resolve_retraces ho).last ?_ fun _ => rfl
    exact fun _ _ ⟨hr, _⟩ => ⟨congrArg (Expr.unary op) hr, rfl⟩
  | .binary op left right, h => by
    obtain ⟨hl, hr⟩ := (unresolved_append _ _).1 h
    refine (left.resolve_retraces hl).both (fun _ _ _ => right.resolve_retraces hr) ?_
      fun _ _ => rfl
    rintro x y u v ⟨hx, -⟩ ⟨hu, -⟩
    exact ⟨by rw [Expr.Retraced, Expr.relabel, hx, hu]; rfl, rfl⟩
  | .strayDot object field given symbol, h => by
    simp only [Expr.occurrences, unresolved_append, unresolved_cons] at h
    obtain ⟨⟨hs, ho⟩, hg, hf⟩ := h
    obtain rfl : symbol = none := hs
    obtain rfl : given = none := hg
    refine (object.resolve_retraces ho).both (fun _ _ ⟨hobject, hbase⟩ =>
      narrowStray_retraces hobject hbase (Stray.renamed_given hf)) ?_ fun _ _ => rfl
    rintro x y u v ⟨hx, -⟩ ⟨hgiven, hsymbol, hmatch⟩
    refine ⟨?_, hmatch⟩
    have hlabel : t.after.symbol v.1 = t.before.symbol u.1 := hgiven
    have hlabel' : t.after.symbol v.2.1 = t.before.symbol u.2.1 := hsymbol
    rw [Expr.Retraced, Expr.relabel, hx, ← Stray.given, Stray.retraced_given hf, hlabel, hlabel']
    rfl
  | .strayCall callee given args, h => by
    simp only [Expr.occurrences, unresolved_append, unresolved_cons] at h
    obtain ⟨⟨hg, hc⟩, ha⟩ := h
    obtain rfl : given = none := hg
    refine (resolveStray_retraces (Stray.renamed_given hc)).both
      (fun _ _ _ => Expr.resolveAll_retraces args ha) ?_ fun _ _ => rfl
    intro x y u v hx hu
    refine ⟨?_, rfl⟩
    have hlabel : t.after.symbol y = t.before.symbol x := hx
    rw [Expr.Retraced, Expr.relabel, ← Stray.given, Stray.retraced_given hc, hlabel, hu]
    rfl
  | .stray thing, h => .ofFault rfl ⟨Expr.retraced_given h, rfl⟩

theorem Expr.resolveAll_retraces : ∀ exprs : List Expr, Unresolved (Expr.occurrencesAll exprs) →
    Retraces t (Expr.resolveAll exprs) (fun r => Expr.resolveAll (Expr.givenAll t r))
      (Expr.RetracedAll t)
  | [], _ => .ofPure rfl rfl
  | expr :: exprs, h => by
    obtain ⟨he, hes⟩ := (unresolved_append _ _).1 h
    refine (expr.resolve_retraces he).both (fun _ _ _ => Expr.resolveAll_retraces exprs hes) ?_
      fun _ _ => rfl
    rintro x y u v ⟨hx, -⟩ hu
    rw [Expr.RetracedAll, Expr.relabelAll, hx, hu]
    rfl

end

/-! ## Variables -/

theorem Ident.loc_given (t : Retracing) {id id' : Ident}
    (h : id'.relabel .forget = id.relabel .forget) : (id'.given t).loc = id.loc :=
  (congrArg Ident.loc h :)

/-- Struct types that match make variables that match. -/
theorem Retracing.Matches.structValue {p q : Origin} (ho : t.Moves p q)
    {d e : Option StructType} (h : t.Matches (d.map .structType) (e.map .structType)) :
    t.Matches (d.map fun definition => .structValue p definition.name definition)
      (e.map fun definition => .structValue q definition.name definition) := by
  cases d with
  | none =>
    cases e with
    | none => rfl
    | some e => simp [Retracing.Matches] at h
  | some d =>
    cases e with
    | none => simp [Retracing.Matches] at h
    | some e =>
      obtain ⟨_, he, hsame⟩ := h.exists_some
      obtain rfl := Option.some.inj he
      have hdef : e.translate t.told = d.translate t.toTranslation := by
        simpa [Symbol.translate] using hsame
      have hname : e.name = t.name d.name := by
        rw [← StructType.name_translate, ← hdef, StructType.name_translate]
        rfl
      refine Retracing.matches_some ?_
      simp only [Symbol.translate, ho.here, hdef, hname]
      rfl

/-- What a type without a symbol is resolved to depends on the place of the identifier alone. -/
theorem TypeExpr.resolve_retraces {p q : Origin} (ho : t.Moves p q) {id id' : Ident}
    (hloc : id'.loc = id.loc) {type : TypeExpr} (h : Unresolved type.occurrences) :
    Retraces t (type.resolve p id) (fun r => (r.1.given t).resolve q id')
      fun r s => r.1.Retraced t s.1 ∧ t.Matches r.2 s.2 := by
  have hvalue (name : String) : t.Matches (some (.value p name)) (some (.value q name)) :=
    Retracing.matches_some (by simp only [Symbol.translate, ho.here]; rfl)
  cases type with
  | primitive name =>
    by_cases hvoid : name = "void"
    · subst hvoid
      exact .ofReport rfl hloc ⟨rfl, hvalue Symbol.errorType⟩
    · have hresolve (origin : Origin) (id : Ident) :
          (TypeExpr.primitive name).resolve origin id =
            pure (.primitive name, some (.value origin name)) := by
        rw [TypeExpr.resolve, if_neg hvoid]
      rw [hresolve]
      exact .ofPure (hresolve q id') ⟨rfl, hvalue name⟩
  | struct tag =>
    have htag : tag.symbol = none := h _ List.mem_cons_self
    refine (resolveTag_retraces htag).last ?_ fun _ => rfl
    rintro x y ⟨hr, hm⟩
    exact ⟨congrArg TypeExpr.struct hr, hm.structValue ho⟩
  | stray thing => exact .ofFault rfl ⟨TypeExpr.retraced_given h, rfl⟩

/- The second run looks at the type when the first one is done with the identifier, of which only
the place matters for that. -/
theorem Decl.analyzeVariable_retraces {p q : Origin} (ho : t.Moves p q) {decl : Decl}
    (h : Unresolved decl.occurrences) :
    Retraces t (decl.analyzeVariable p) (fun r => (r.given t).analyzeVariable q)
      (Decl.Retraced t) := by
  cases decl with
  | var type id | formal type id =>
    obtain ⟨ht, hids⟩ := (unresolved_append _ _).1 h
    have hid : id.symbol = none := hids _ List.mem_cons_self
    refine .tied (fun x => bind_forget id x.2)
      (fun _ hnew => TypeExpr.resolve_retraces ho (Ident.loc_given t hnew) ht)
      (fun _ _ hxy => bind_retraces hid hxy.2) ?_ fun _ _ => rfl
    rintro x y u v ⟨hx, -⟩ hu
    rw [Decl.Retraced, Decl.relabel, hx, hu]
    rfl
  | _ => exact .ofFault rfl (Decl.retraced_given h)

theorem Decl.analyzeField_retraces {p q : Origin} (ho : t.Moves p q) {members members' : Scope}
    (hscope : t.Scopes members members') {decl : Decl} (h : Unresolved decl.occurrences) :
    Retraces t (decl.analyzeField p members) (fun r => (r.1.given t).analyzeField q members')
      fun r s => r.1.Retraced t s.1 ∧ t.Scopes r.2 s.2 := by
  cases decl with
  | var type id | formal type id =>
    obtain ⟨ht, hids⟩ := (unresolved_append _ _).1 h
    have hid : id.symbol = none := hids _ List.mem_cons_self
    refine .tied (fun x => bindMember_forget members id x.2)
      (fun _ hnew => TypeExpr.resolve_retraces ho (Ident.loc_given t hnew) ht)
      (fun _ _ hxy => bindMember_retraces hscope hid hxy.2) ?_ fun _ _ => rfl
    rintro x y u v ⟨hx, -⟩ ⟨hu, hafter⟩
    refine ⟨?_, hafter⟩
    rw [Decl.Retraced, Decl.relabel, hx, hu]
    rfl
  | _ => exact .ofFault rfl ⟨Decl.retraced_given h, hscope⟩

theorem Decl.analyzeVariables_retraces {p q : Origin} (ho : t.Moves p q) (part : Part)
    {decls : List Decl} (h : Unresolved (Decl.occurrencesAll decls)) (index : Nat) :
    Retraces t (Decl.analyzeVariables p part index decls)
      (fun r => Decl.analyzeVariables q part index (Decl.givenAll t r)) (Decl.RetracedAll t) := by
  induction decls generalizing index with
  | nil => exact .ofPure rfl rfl
  | cons decl decls ih =>
    obtain ⟨hd, hds⟩ := (unresolved_append _ _).1 h
    refine (Decl.analyzeVariable_retraces (ho.child part index) hd).both
      (fun _ _ _ => ih hds (index + 1)) ?_ fun _ _ => rfl
    intro x y u v hx hu
    rw [Decl.RetracedAll, Decl.relabelAll, hx, hu]
    rfl

theorem Decl.analyzeFields_retraces {p q : Origin} (ho : t.Moves p q) {decls : List Decl}
    (h : Unresolved (Decl.occurrencesAll decls)) (index : Nat) {members members' : Scope}
    (hscope : t.Scopes members members') :
    Retraces t (Decl.analyzeFields p index members decls)
      (fun r => Decl.analyzeFields q index members' (Decl.givenAll t r.1))
      fun r s => Decl.RetracedAll t r.1 s.1 ∧ t.Scopes r.2 s.2 := by
  induction decls generalizing index members members' with
  | nil => exact .ofPure rfl ⟨rfl, hscope⟩
  | cons decl decls ih =>
    obtain ⟨hd, hds⟩ := (unresolved_append _ _).1 h
    refine (Decl.analyzeField_retraces (ho.child .fields index) hscope hd).both
      (fun _ _ hmid => ih hds (index + 1) hmid.2) ?_ fun _ _ => rfl
    rintro x y u v ⟨hx, -⟩ ⟨hu, hlast⟩
    refine ⟨?_, hlast⟩
    rw [Decl.RetracedAll, Decl.relabelAll, hx, hu]
    rfl

/-! ## Statements -/

/-- The declarations and statements of a block. -/
def analyzeParts (path : Origin) (inDecls inStmts : Part) (decls : List Decl) (stmts : List Stmt) :
    Walk (List Decl × List Stmt) := do
  let decls ← Decl.analyzeVariables path inDecls 0 decls
  let stmts ← Stmt.analyzeAll path inStmts 0 stmts
  pure (decls, stmts)

theorem analyzeParts_retraces {p q : Origin} (ho : t.Moves p q) (inDecls inStmts : Part)
    {decls : List Decl} (hd : Unresolved (Decl.occurrencesAll decls)) {stmts : List Stmt}
    (hs : Retraces t (Stmt.analyzeAll p inStmts 0 stmts)
      (fun r => Stmt.analyzeAll q inStmts 0 (Stmt.givenAll t r)) (Stmt.RetracedAll t)) :
    Retraces t (analyzeParts p inDecls inStmts decls stmts)
      (fun r => analyzeParts q inDecls inStmts (Decl.givenAll t r.1) (Stmt.givenAll t r.2))
      fun r s => Decl.RetracedAll t r.1 s.1 ∧ Stmt.RetracedAll t r.2 s.2 :=
  (Decl.analyzeVariables_retraces ho inDecls hd 0).both (fun _ _ _ => hs)
    (fun _ _ _ _ hx hu => ⟨hx, hu⟩) fun _ _ => rfl

/-- What is made of the result of an action can be made behind its scope. -/
theorem inScope_map {α β : Type} (action : Walk α) (f : α → β) :
    (inScope do let a ← action; pure (f a)) = (do let a ← inScope action; pure (f a)) := by
  funext state
  show _ = (f (inScope action state).1, (inScope action state).2)
  unfold Walk.inScope
  by_cases hf : state.fault.isSome
  · simp only [hf, if_true]
    rfl
  · simp only [hf]
    rfl

/-- A statement that is an expression and no more. -/
theorem alone_retraces {q : Origin} {expr : Expr} (h : Unresolved expr.occurrences)
    {make : Expr → Stmt} (hp : ∀ r s, r.Retraced t s → (make r).Retraced t (make s))
    (hw : ∀ r, ((make r).given t).analyze q = (do
      let s ← (r.given t).resolve
      pure (make s.1))) :
    Retraces t (do let r ← expr.resolve; pure (make r.1)) (fun r => (r.given t).analyze q)
      (Stmt.Retraced t) :=
  (expr.resolve_retraces h).last (g := fun s => make s.1) (fun r s hr => hp r.1 s.1 hr.1)
    fun r => hw r.1

theorem Stmt.analyze_ifThen (path : Origin) (condition : Expr) (decls : List Decl)
    (stmts : List Stmt) :
    (Stmt.ifThen condition decls stmts).analyze path = (do
      let condition ← condition.resolve
      let block ← inScope (analyzeParts path .decls .stmts decls stmts)
      pure (.ifThen condition.1 block.1 block.2)) :=
  bind_congr fun condition =>
    inScope_map (analyzeParts path .decls .stmts decls stmts) fun block =>
      Stmt.ifThen condition.1 block.1 block.2

theorem Stmt.analyze_loop (path : Origin) (condition : Expr) (decls : List Decl)
    (stmts : List Stmt) :
    (Stmt.loop condition decls stmts).analyze path = (do
      let condition ← condition.resolve
      let block ← inScope (analyzeParts path .decls .stmts decls stmts)
      pure (.loop condition.1 block.1 block.2)) :=
  bind_congr fun condition =>
    inScope_map (analyzeParts path .decls .stmts decls stmts) fun block =>
      Stmt.loop condition.1 block.1 block.2

/-- The two blocks of a statement. -/
def analyzeBranches (path : Origin) (thenDecls : List Decl) (thenStmts : List Stmt)
    (elseDecls : List Decl) (elseStmts : List Stmt) :
    Walk ((List Decl × List Stmt) × (List Decl × List Stmt)) := do
  let first ← inScope (analyzeParts path .decls .stmts thenDecls thenStmts)
  let second ← inScope (analyzeParts path .elseDecls .elseStmts elseDecls elseStmts)
  pure (first, second)

theorem Stmt.analyze_ifElse (path : Origin) (condition : Expr) (thenDecls : List Decl)
    (thenStmts : List Stmt) (elseDecls : List Decl) (elseStmts : List Stmt) :
    (Stmt.ifElse condition thenDecls thenStmts elseDecls elseStmts).analyze path = (do
      let condition ← condition.resolve
      let blocks ← analyzeBranches path thenDecls thenStmts elseDecls elseStmts
      pure (.ifElse condition.1 blocks.1.1 blocks.1.2 blocks.2.1 blocks.2.2)) := by
  refine bind_congr fun condition => ?_
  refine Eq.trans (bind_congr fun block => ?_) (bind_assoc _ _ _).symm
  exact inScope_map (analyzeParts path .elseDecls .elseStmts elseDecls elseStmts) fun other =>
    Stmt.ifElse condition.1 block.1 block.2 other.1 other.2

mutual

theorem Stmt.analyze_retraces : ∀ (stmt : Stmt) {p q : Origin}, t.Moves p q →
    Unresolved stmt.occurrences →
    Retraces t (stmt.analyze p) (fun r => (r.given t).analyze q) (Stmt.Retraced t)
  | .assign expr, _, _, _, h | .increment expr, _, _, _, h | .decrement expr, _, _, _, h
  | .read expr, _, _, _, h | .write expr, _, _, _, h | .call expr, _, _, _, h
  | .returnValue expr, _, _, _, h => by
    have he : Unresolved expr.occurrences := h
    exact alone_retraces he (fun _ _ hr => congrArg _ hr) fun _ => rfl
  | .returnNothing, _, _, _, _ => .ofPure rfl rfl
  | .ifThen condition decls stmts, _, q, ho, h => by
    simp only [Stmt.occurrences, unresolved_append] at h
    obtain ⟨⟨hc, hd⟩, hs⟩ := h
    rw [Stmt.analyze_ifThen]
    refine (condition.resolve_retraces hc).both (fun _ _ _ => .inScope
      (analyzeParts_retraces ho _ _ hd (Stmt.analyzeAll_retraces stmts ho hs .stmts 0))) ?_
      fun _ _ => Stmt.analyze_ifThen q _ _ _
    rintro x y u v ⟨hx, -⟩ ⟨hu, hv⟩
    rw [Stmt.Retraced, Stmt.relabel, hx, hu, hv]
    rfl
  | .loop condition decls stmts, _, q, ho, h => by
    simp only [Stmt.occurrences, unresolved_append] at h
    obtain ⟨⟨hc, hd⟩, hs⟩ := h
    rw [Stmt.analyze_loop]
    refine (condition.resolve_retraces hc).both (fun _ _ _ => .inScope
      (analyzeParts_retraces ho _ _ hd (Stmt.analyzeAll_retraces stmts ho hs .stmts 0))) ?_
      fun _ _ => Stmt.analyze_loop q _ _ _
    rintro x y u v ⟨hx, -⟩ ⟨hu, hv⟩
    rw [Stmt.Retraced, Stmt.relabel, hx, hu, hv]
    rfl
  | .ifElse condition thenDecls thenStmts elseDecls elseStmts, p, q, ho, h => by
    simp only [Stmt.occurrences, unresolved_append] at h
    obtain ⟨⟨⟨⟨hc, htd⟩, hts⟩, hed⟩, hes⟩ := h
    have hbranches : Retraces t (analyzeBranches p thenDecls thenStmts elseDecls elseStmts)
        (fun r => analyzeBranches q (Decl.givenAll t r.1.1) (Stmt.givenAll t r.1.2)
          (Decl.givenAll t r.2.1) (Stmt.givenAll t r.2.2))
        fun r s => (Decl.RetracedAll t r.1.1 s.1.1 ∧ Stmt.RetracedAll t r.1.2 s.1.2) ∧
          Decl.RetracedAll t r.2.1 s.2.1 ∧ Stmt.RetracedAll t r.2.2 s.2.2 :=
      (Retraces.inScope (analyzeParts_retraces ho .decls .stmts htd
        (Stmt.analyzeAll_retraces thenStmts ho hts .stmts 0))).both
        (fun _ _ _ => .inScope (analyzeParts_retraces ho .elseDecls .elseStmts hed
          (Stmt.analyzeAll_retraces elseStmts ho hes .elseStmts 0)))
        (fun _ _ _ _ hx hu => ⟨hx, hu⟩) fun _ _ => rfl
    rw [Stmt.analyze_ifElse]
    refine (condition.resolve_retraces hc).both (fun _ _ _ => hbranches) ?_
      fun _ _ => Stmt.analyze_ifElse q _ _ _ _ _
    rintro x y u v ⟨hx, -⟩ ⟨⟨htd, hts⟩, hed, hes⟩
    rw [Stmt.Retraced, Stmt.relabel, hx, htd, hts, hed, hes]
    rfl
  | .stray thing, _, _, _, h => .ofFault rfl (Stmt.retraced_given h)

theorem Stmt.analyzeAll_retraces : ∀ (stmts : List Stmt) {p q : Origin}, t.Moves p q →
    Unresolved (Stmt.occurrencesAll stmts) → ∀ (part : Part) (index : Nat),
    Retraces t (Stmt.analyzeAll p part index stmts)
      (fun r => Stmt.analyzeAll q part index (Stmt.givenAll t r)) (Stmt.RetracedAll t)
  | [], _, _, _, _, _, _ => .ofPure rfl rfl
  | stmt :: stmts, _, _, ho, h, part, index => by
    obtain ⟨hs, hss⟩ := (unresolved_append _ _).1 h
    refine (stmt.analyze_retraces (ho.child part index) hs).both
      (fun _ _ _ => Stmt.analyzeAll_retraces stmts ho hss part (index + 1)) ?_ fun _ _ => rfl
    intro x y u v hx hu
    rw [Stmt.RetracedAll, Stmt.relabelAll, hx, hu]
    rfl

end

/-! ## Declarations at top level -/

theorem TypeExpr.resolveReturn_retraces {returns : TypeExpr} (h : Unresolved returns.occurrences) :
    Retraces t returns.resolveReturn (fun r => (r.given t).resolveReturn)
      (TypeExpr.Retraced t) := by
  cases returns with
  | primitive => exact .ofPure rfl rfl
  | struct tag =>
    have htag : tag.symbol = none := h _ List.mem_cons_self
    refine (resolveTag_retraces htag).last ?_ fun _ => rfl
    exact fun _ _ hr => congrArg TypeExpr.struct hr.1
  | stray => exact .ofPure rfl (TypeExpr.retraced_given h)

theorem TypeExpr.Retraced.shown {r s : TypeExpr} (h : r.Retraced t s) :
    s.name?.map t.shown = r.name?.map t.shown := by
  calc s.name?.map t.shown
      = (s.relabel t.after).name?.map t.shown := by rw [TypeExpr.name?_relabel]
    _ = ((r.relabel t.before).rename t.name).name?.map t.shown := by rw [h]
    _ = r.name?.map t.shown := by
      rw [TypeExpr.name?_rename t.shown_name, TypeExpr.name?_relabel]

theorem Decl.formalType_rename (decl : Decl) :
    (decl.rename t.name).formalType.toOption.map t.shown =
      decl.formalType.toOption.map t.shown := by
  cases decl with
  | var type id | formal type id =>
    have hname := TypeExpr.name?_rename t.shown_name type
    simp only [Decl.rename, Decl.formalType]
    generalize (type.rename t.name).name? = new at hname
    generalize type.name? = old at hname
    cases new <;> cases old <;> exact hname
  | _ => rfl

theorem mapM_formalType_rename (decls : List Decl) :
    ((Decl.renameAll t.name decls).mapM Decl.formalType).toOption.map (List.map t.shown) =
      (decls.mapM Decl.formalType).toOption.map (List.map t.shown) := by
  have hcons (first : Except Fault String) (others : Except Fault (List String)) :
      (do let name ← first; let names ← others; pure (name :: names) :
          Except Fault (List String)).toOption.map (List.map t.shown) =
        (first.toOption.map t.shown).bind fun name =>
          (others.toOption.map (List.map t.shown)).map (name :: ·) := by
    cases first <;> cases others <;> rfl
  induction decls with
  | nil => rfl
  | cons decl decls ih =>
    rw [Decl.renameAll, List.mapM_cons, List.mapM_cons, hcons, hcons, Decl.formalType_rename, ih]

/-- The signatures of a function whose formals the first run has not seen yet, but the second run
has been given. -/
theorem functionSymbol_matches {p q : Origin} (ho : t.Moves p q) {returns returns' : TypeExpr}
    (hr : returns.Retraced t returns') {formals seen : List Decl}
    (hf : Decl.relabelAll .forget seen = Decl.relabelAll .forget formals) :
    t.Matches (functionSymbol p returns formals).toOption
      (functionSymbol q returns' (Decl.givenAll t seen)).toOption := by
  have hsymbol (origin : Origin) (returns : TypeExpr) (formals : List Decl) (d : Translation) :
      (functionSymbol origin returns formals).toOption.map (·.translate d) =
        ((formals.mapM Decl.formalType).toOption.map (List.map d.shown)).bind fun params =>
          (returns.name?.map d.shown).map fun name =>
            .function (d.origin origin) name params := by
    unfold functionSymbol
    cases formals.mapM Decl.formalType <;> cases returns.name? <;> rfl
  have hseen : (seen.mapM Decl.formalType) = formals.mapM Decl.formalType := by
    rw [← mapM_formalType_relabel .forget seen, hf, mapM_formalType_relabel]
  have hparams : ((Decl.givenAll t seen).mapM Decl.formalType).toOption.map
      (List.map t.told.shown) = (formals.mapM Decl.formalType).toOption.map (List.map t.shown) := by
    rw [← hseen, ← mapM_formalType_relabel t.input seen]
    exact mapM_formalType_rename _
  have hname : returns'.name?.map t.told.shown = returns.name?.map t.shown := hr.shown
  rw [Retracing.Matches, hsymbol, hsymbol, hparams, hname, ho.here]
  rfl

/-- A function is declared where its formals have not been seen yet by the first run. -/
theorem bindFunction_retraces {p q : Origin} (ho : t.Moves p q) {id : Ident}
    (hid : id.symbol = none) {returns returns' : TypeExpr} (hr : returns.Retraced t returns')
    {formals seen : List Decl}
    (hf : Decl.relabelAll .forget seen = Decl.relabelAll .forget formals) :
    Retraces t (bindFunction p id returns formals)
      (fun r => bindFunction q (r.given t) returns' (Decl.givenAll t seen)) (Ident.Retraced t) := by
  have hmatch := functionSymbol_matches ho hr hf
  unfold bindFunction
  cases hfirst : functionSymbol p returns formals with
  | error fault =>
    rw [hfirst] at hmatch
    cases hsecond : functionSymbol q returns' (Decl.givenAll t seen) with
    | error fault' => exact .ofFault rfl (Ident.retraced_anew hid)
    | ok symbol' =>
      rw [hsecond] at hmatch
      cases hmatch.eq_none
  | ok symbol =>
    rw [hfirst] at hmatch
    cases hsecond : functionSymbol q returns' (Decl.givenAll t seen) with
    | error fault' =>
      rw [hsecond] at hmatch
      obtain ⟨_, hno, -⟩ := hmatch.exists_some
      cases hno
    | ok symbol' =>
      rw [hsecond] at hmatch
      exact (bind_retraces hid hmatch).both (fun _ _ _ => note_retraces rfl)
        (fun _ _ _ _ hxy _ => hxy) fun _ _ => rfl

/-- What stands in the scope of a function. -/
def analyzeInside (origin : Origin) (formals decls : List Decl) (stmts : List Stmt) :
    Walk (List Decl × List Decl × List Stmt) := do
  let formals ← Decl.analyzeVariables origin .formals 0 formals
  let body ← analyzeParts origin .decls .stmts decls stmts
  pure (formals, body)

theorem analyzeInside_retraces {p q : Origin} (ho : t.Moves p q) {formals decls : List Decl}
    {stmts : List Stmt} (hf : Unresolved (Decl.occurrencesAll formals))
    (hd : Unresolved (Decl.occurrencesAll decls)) (hs : Unresolved (Stmt.occurrencesAll stmts)) :
    Retraces t (analyzeInside p formals decls stmts)
      (fun r => analyzeInside q (Decl.givenAll t r.1) (Decl.givenAll t r.2.1)
        (Stmt.givenAll t r.2.2))
      fun r s => Decl.RetracedAll t r.1 s.1 ∧ Decl.RetracedAll t r.2.1 s.2.1 ∧
        Stmt.RetracedAll t r.2.2 s.2.2 :=
  (Decl.analyzeVariables_retraces ho .formals hf 0).both
    (fun _ _ _ => analyzeParts_retraces ho .decls .stmts hd
      (Stmt.analyzeAll_retraces stmts ho hs .stmts 0))
    (fun _ _ _ _ hx hu => ⟨hx, hu⟩) fun _ _ => rfl

/-- Declares a function and analyses what stands in its scope. -/
def analyzeDeclared (origin : Origin) (id : Ident) (returns : TypeExpr) (formals decls : List Decl)
    (stmts : List Stmt) : Walk (Ident × List Decl × List Decl × List Stmt) := do
  let id ← bindFunction origin id returns formals
  let inside ← inScope (analyzeInside origin formals decls stmts)
  pure (id, inside)

theorem Decl.analyze_function (origin : Origin) (returns : TypeExpr) (id : Ident)
    (formals decls : List Decl) (stmts : List Stmt) :
    (Decl.function returns id formals decls stmts).analyze origin = (do
      let returns ← returns.resolveReturn
      let whole ← analyzeDeclared origin id returns formals decls stmts
      pure (.function returns whole.1 whole.2.1 whole.2.2.1 whole.2.2.2)) := by
  refine bind_congr fun returns => ?_
  refine Eq.trans (bind_congr fun id => ?_) (bind_assoc _ _ _).symm
  exact inScope_map (analyzeInside origin formals decls stmts) fun inside =>
    Decl.function returns id inside.1 inside.2.1 inside.2.2

theorem analyzeDeclared_retraces {p q : Origin} (ho : t.Moves p q) {id : Ident}
    (hid : id.symbol = none) {returns returns' : TypeExpr} (hr : returns.Retraced t returns')
    {formals decls : List Decl} {stmts : List Stmt}
    (hf : Unresolved (Decl.occurrencesAll formals)) (hd : Unresolved (Decl.occurrencesAll decls))
    (hs : Unresolved (Stmt.occurrencesAll stmts)) :
    Retraces t (analyzeDeclared p id returns formals decls stmts)
      (fun r => analyzeDeclared q (r.1.given t) returns' (Decl.givenAll t r.2.1)
        (Decl.givenAll t r.2.2.1) (Stmt.givenAll t r.2.2.2))
      fun r s => r.1.Retraced t s.1 ∧ Decl.RetracedAll t r.2.1 s.2.1 ∧
        Decl.RetracedAll t r.2.2.1 s.2.2.1 ∧ Stmt.RetracedAll t r.2.2.2 s.2.2.2 := by
  have hbody : Yields (analyzeParts p .decls .stmts decls stmts) fun _ => True :=
    .of fun _ => trivial
  have hseen : Yields (inScope (analyzeInside p formals decls stmts)) fun u =>
      Decl.relabelAll .forget u.1 = Decl.relabelAll .forget formals :=
    .inScope trivial <| (Decl.analyzeVariables_forget p .formals formals 0).bind fun _ h =>
      hbody.last fun _ _ => h
  exact .tied (fun _ => hseen) (fun _ hu => bindFunction_retraces ho hid hr hu)
    (fun _ _ _ => .inScope (analyzeInside_retraces ho hf hd hs))
    (fun _ _ _ _ hx hu => ⟨hx, hu⟩) fun _ _ => rfl

theorem Decl.analyze_retraces {p q : Origin} (ho : t.Moves p q) {decl : Decl}
    (h : Unresolved decl.occurrences) :
    Retraces t (decl.analyze p) (fun r => (r.given t).analyze q) (Decl.Retraced t) := by
  cases decl with
  | var type id =>
    intro a b hab
    exact Decl.analyzeVariable_retraces ho h a b hab
  | function returns id formals decls stmts =>
    simp only [Decl.occurrences, unresolved_append, unresolved_cons] at h
    obtain ⟨⟨⟨hr, hid, hf⟩, hd⟩, hs⟩ := h
    rw [Decl.analyze_function]
    refine (TypeExpr.resolveReturn_retraces hr).both
      (fun _ _ hret => analyzeDeclared_retraces ho hid hret hf hd hs) ?_
      fun _ _ => Decl.analyze_function q _ _ _ _ _
    rintro x y u v hx ⟨hid, hf, hd, hs⟩
    rw [Decl.Retraced, Decl.relabel, hx, hid, hf, hd, hs]
    rfl
  | struct tag fields =>
    obtain ⟨htag, hf⟩ := (unresolved_cons _ _).1 h
    have hempty : t.Scopes [] [] := rfl
    refine (Decl.analyzeFields_retraces ho hf 0 hempty).both
      (fun _ _ hfields => bindStruct_retraces ho htag hfields.2) ?_ fun _ _ => rfl
    rintro x y u v ⟨hx, -⟩ hu
    rw [Decl.Retraced, Decl.relabel, hx, hu]
    rfl
  | formal => exact .ofFault rfl (Decl.retraced_given h)
  | stray => exact .ofFault rfl (Decl.retraced_given h)

theorem Decl.analyzeAll_retraces {decls : List Decl} (h : Unresolved (Decl.occurrencesAll decls))
    {clock clock' : Nat}
    (ho : ∀ index < decls.length, t.Moves (.top (clock + index)) (.top (clock' + index))) :
    Retraces t (Decl.analyzeAll clock decls)
      (fun r => Decl.analyzeAll clock' (Decl.givenAll t r)) (Decl.RetracedAll t) := by
  induction decls generalizing clock clock' with
  | nil => exact .ofPure rfl rfl
  | cons decl decls ih =>
    obtain ⟨hd, hds⟩ := (unresolved_append _ _).1 h
    have hrest : ∀ index < decls.length,
        t.Moves (.top (clock + 1 + index)) (.top (clock' + 1 + index)) := by
      intro index hi
      have hnext := ho (index + 1) (by simpa using hi)
      rwa [show clock + 1 + index = clock + (index + 1) by omega,
        show clock' + 1 + index = clock' + (index + 1) by omega]
    refine (Decl.analyze_retraces (ho 0 (by simp)) hd).both (fun _ _ _ => ih hds hrest) ?_
      fun _ _ => rfl
    intro x y u v hx hu
    rw [Decl.RetracedAll, Decl.relabelAll, hx, hu]
    rfl

/-- The program that the second run is given. -/
def Program.given (t : Retracing) (program : Program) : Program :=
  (program.relabel t.input).rename t.name

/-- What two analyses come to, the second of which was given what the first one came to. -/
structure Analysis.Retraced (t : Retracing) (first second : Analysis) : Prop where
  program : second.program.relabel t.after = (first.program.relabel t.before).rename t.name
  table : second.table.translate t.told = first.table.translate t.toTranslation
  diagnostics : second.diagnostics = first.diagnostics
  fault : second.fault.isSome = first.fault.isSome

theorem Table.depth_translate (d : Translation) (table : Table) :
    (table.translate d).depth = table.depth := by
  simp [Table.depth, Table.translate]

theorem WalkState.Follows.outcome {a b : WalkState} (h : a.Follows t b) :
    b.outcome.isSome = a.outcome.isSome := by
  have hdepth : b.table.depth = a.table.depth := by
    rw [← Table.depth_translate t.told, h.table, Table.depth_translate]
  rw [isSome_outcome, isSome_outcome, h.fault, hdepth]

theorem Program.analyzeWith_retraces {program : Program} (h : Unresolved program.occurrences)
    {clock clock' : Nat} (ho : ∀ index < program.decls.length,
      t.Moves (.top (clock + index)) (.top (clock' + index))) {table table' : Table}
    (ht : table'.translate t.told = table.translate t.toTranslation) :
    (program.analyzeWith table clock).Retraced t
      (((program.analyzeWith table clock).program.given t).analyzeWith table' clock') := by
  obtain ⟨hlast, hprogram⟩ := Decl.analyzeAll_retraces h ho ⟨table, [], none⟩ ⟨table', [], none⟩
    ⟨ht, rfl, rfl⟩
  exact ⟨congrArg Program.mk hprogram, hlast.table, hlast.errors, hlast.outcome⟩

end Moo
