import Mathlib
import Moo.Proofs.Reading.Legible
import Moo.Proofs.RoundTrip.Stmt

/-!
# Printed programs, read back

The printed form of an accepted program is accepted again exactly if the
program has no field access, and then the tree is the same up to locations.

* `Decl.prints`, `Decl.printsAll`: declarations at top level.
* `parse_print`: the statement for whole programs.
-/
namespace Moo

open Relabel (unplace)

/-- The lines are read where a declaration starts, as the declaration, unless that has a dot. -/
def Decl.ReadsBack (d : Decl) (lines : List String) : Prop :=
  ∀ before, (Place.between before).ReadsLines (dotted d.occurrences) lines fun next =>
    ∃ d' : Decl, d'.relabel unplace = d.relabel unplace ∧ next = .between (d' :: before)

/-! ## Structs -/

/-- The line that opens a struct. -/
theorem readsLines_structHead {tag : Ident} (ht : tag.Fits .name) (indent : Nat)
    (before : List Decl) :
    (Place.between before).ReadsLines false [openLine indent ("struct " ++ tag.name)] fun next =>
      ∃ tag' : Ident, tag'.relabel unplace = tag.relabel unplace ∧
        next = .inStruct before tag' [] := by
  refine .line indent fun rest => ?_
  have htext : ("struct " ++ tag.name ++ " \x7b").toList ++ rest =
      Fixed.struct.spelling.toList ++ ' ' :: (tag.name.toList ++ ' ' :: '\x7b' :: rest) := by
    simp [Fixed.spelling]
  have hword : ∀ loc, (Place.between before).step? ⟨.fixed .struct, Fixed.struct.spelling, loc⟩ =
      some (.structWord (.top before)) := fun _ => rfl
  have htag : (Place.structWord (.top before)).Reads (tag.name.toList ++ ' ' :: '\x7b' :: rest)
      (' ' :: '\x7b' :: rest) fun next => ∃ tag' : Ident,
        tag'.relabel unplace = tag.relabel unplace ∧ next = .tagged before tag' :=
    .ident ht (parts_blank _) fun loc =>
      ⟨_, rfl, _, Ident.relabel_unplace (some loc) ht.symbol, rfl⟩
  rw [htext]
  refine Place.Reads.to (.leading .struct (by decide) hword _) ((Place.reads_blank _).to ?_)
  refine htag.seq ?_
  intro next hnext
  obtain ⟨tag', hlike, rfl⟩ := hnext
  exact (reads_openBrace (fun _ => rfl) rest).mono fun _ hn => ⟨tag', hlike, hn⟩

/-- The line that closes a struct with some fields. -/
theorem readsLines_structEnd (indent : Nat) (before : List Decl) (tag : Ident) {fields : List Decl}
    (hne : fields ≠ []) :
    (Place.inStruct before tag fields).ReadsLines false [line indent "\x7d;", ""]
      (· = .between (.struct tag fields.reverse :: before)) := by
  obtain ⟨d, ds, rfl⟩ := List.exists_cons_of_ne_nil hne
  have hclose (rest : List Char) : (Place.inStruct before tag (d :: ds)).Reads
      ('\x7d' :: ';' :: rest) (';' :: rest) (· = .structEnd before tag (d :: ds)) :=
    .sign .closeBrace (by decide) fun _ => rfl
  have hend (rest : List Char) : (Place.structEnd before tag (d :: ds)).Reads (';' :: rest) rest
      (· = .between (.struct tag (d :: ds).reverse :: before)) :=
    .sign .semicolon (by decide) fun _ => rfl
  have hline : (Place.inStruct before tag (d :: ds)).ReadsLines false [line indent "\x7d;"]
      (· = .between (.struct tag (d :: ds).reverse :: before)) :=
    .line indent fun rest => (hclose rest).to (hend rest)
  exact hline.unless fun next hn => .empty hn

theorem Decl.prints_struct {tag : Ident} {fields : List Decl} (ht : tag.Fits .name)
    (hne : fields ≠ []) (hfs : ∀ d ∈ fields, d.LegibleVar) (indent : Nat) :
    ∃ lines, (Decl.struct tag fields).lines false indent = .ok lines ∧
      (Decl.struct tag fields).ReadsBack lines := by
  obtain ⟨lines, hp, hfields⟩ := Decl.reads_vars hfs (indent + indentStep)
  refine ⟨[openLine indent ("struct " ++ tag.name)] ++ (lines ++ [line indent "\x7d;", ""]),
    by simp only [Decl.lines, hp]; rfl, fun before => ?_⟩
  have hocc : dotted (Decl.struct tag fields).occurrences = false := by
    simp [Decl.occurrences, Decl.dotted_vars hfs]
  rw [hocc]
  refine (readsLines_structHead ht indent before).unless ?_
  intro next hnext
  obtain ⟨tag', hlike, rfl⟩ := hnext
  refine (hfields _ _ (declares_inStruct before tag') []).unless ?_
  intro next hnext
  obtain ⟨fields', hlikes, rfl⟩ := hnext
  have hne' : fields'.reverse ++ [] ≠ [] := by
    rintro h
    obtain rfl : fields' = [] := by simpa using h
    cases fields <;> simp_all [Decl.relabelAll]
  refine (readsLines_structEnd indent before tag' hne').mono ?_
  rintro _ rfl
  exact ⟨.struct tag' fields', by simp [Decl.relabel, hlike, hlikes], by simp⟩

/-! ## Functions -/

/-- The line that opens a function. -/
theorem readsLines_functionHead {returns : TypeExpr} {id : Ident} {formals : List Decl}
    {text : String} {texts : List String} (hnamed : ReadsNamed returns id text.toList)
    (hformals : ReadsFormals formals texts) (indent : Nat) (before : List Decl) :
    (Place.between before).ReadsLines false
      [openLine indent (text ++ " " ++ id.name ++ "(" ++ ", ".intercalate texts ++ ")")]
      fun next => ∃ (returns' : TypeExpr) (id' : Ident) (formals' : List Decl),
        returns'.relabel unplace = returns.relabel unplace ∧
        id'.relabel unplace = id.relabel unplace ∧
        Decl.relabelAll unplace formals' = Decl.relabelAll unplace formals ∧
          next = .inBlock (.function ⟨before, returns', id', formals'.reverse⟩ [] []) := by
  refine .line indent fun rest => ?_
  have htext : (text ++ " " ++ id.name ++ "(" ++ ", ".intercalate texts ++ ")" ++ " \x7b").toList ++
      rest = text.toList ++ ' ' :: (id.name.toList ++ '(' ::
        ((", ".intercalate texts).toList ++ ')' :: ' ' :: '\x7b' :: rest)) := by
    simp only [String.toList_append, List.append_assoc]
    rfl
  rw [htext]
  refine Place.Reads.seq (hnamed _ _ (startsType_between before) _ (parts_cons _ (by decide))) ?_
  intro next hnext
  obtain ⟨returns', id', hrlike, hlike, rfl⟩ := hnext
  have hopen (text : List Char) : (Place.named (.top before) returns' id').Reads ('(' :: text) text
      (· = .inFormals ⟨before, returns', id', []⟩) :=
    .sign .openParen (by decide) fun _ => rfl
  refine (hopen _).to ((hformals before returns' id' _).seq ?_)
  intro next hnext
  obtain ⟨formals', hflike, rfl⟩ := hnext
  exact (reads_openBrace (fun _ => rfl) rest).mono
    fun _ hn => ⟨returns', id', formals', hrlike, hlike, hflike, hn⟩

theorem Decl.prints_function {returns : TypeExpr} {id : Ident} {formals decls : List Decl}
    {stmts : List Stmt} (hr : returns.Legible) (hid : id.Fits .name)
    (hfs : ∀ d ∈ formals, d.LegibleFormal) (hds : ∀ d ∈ decls, d.LegibleVar)
    (hss : Stmt.LegibleAll (bodySpot decls) stmts) (indent : Nat) :
    ∃ lines, (Decl.function returns id formals decls stmts).lines false indent = .ok lines ∧
      (Decl.function returns id formals decls stmts).ReadsBack lines := by
  obtain ⟨text, hp, hnamed⟩ := TypeExpr.reads hr hid
  obtain ⟨texts, hpf, hformals⟩ := Decl.reads_formals hfs
  obtain ⟨slines, hps, hstmts⟩ := Stmt.printsAll (bodySpot decls) (indent + indentStep) stmts hss
  obtain ⟨dlines, hpd, hbody⟩ := Decl.reads_body indent hds hstmts
  refine ⟨[openLine indent (text ++ " " ++ id.name ++ "(" ++ ", ".intercalate texts ++ ")")] ++
    ((dlines ++ slines ++ [closeLine indent]) ++ [""]), ?_, fun before => ?_⟩
  · simp only [Decl.lines, hp, hpf, hpd, hps]
    show Except.ok _ = Except.ok _
    simp
  have hocc : dotted (Decl.function returns id formals decls stmts).occurrences =
      dotted (Stmt.occurrencesAll stmts) := by
    simp [Decl.occurrences, TypeExpr.dotted_eq hr, Decl.dotted_formals hfs, Decl.dotted_vars hds]
  rw [hocc]
  refine (readsLines_functionHead hnamed hformals indent before).unless ?_
  intro next hnext
  obtain ⟨returns', id', formals', hrlike, hlike, hflike, rfl⟩ := hnext
  refine (hbody _ rfl rfl).reads ?_
  intro next hnext
  obtain ⟨ds', ss', hdlike, hslike, rfl⟩ := hnext
  refine .empty ⟨.function returns' id' formals' ds' ss', ?_, ?_⟩
  · simp [Decl.relabel, hrlike, hlike, hflike, hdlike, hslike]
  · simp [Block.addDecls, Block.addStmts, Block.withStmts, Block.stmts, Block.close, Header.close]

/-! ## Programs -/

/-- A legible declaration prints as lines that read back. -/
theorem Decl.prints {d : Decl} (h : d.Legible) (indent : Nat) :
    ∃ lines, d.lines false indent = .ok lines ∧ d.ReadsBack lines := by
  match d, h with
  | .var type id, h =>
    have hvar : (Decl.var type id).LegibleVar := h
    obtain ⟨lines, hp, hreads⟩ := Decl.reads_var hvar indent
    refine ⟨lines, hp, fun before => ?_⟩
    rw [Decl.dotted_eq (.inl hvar)]
    exact hreads _ _ declares_between before
  | .function .., ⟨hr, hid, hfs, hds, hss⟩ => exact Decl.prints_function hr hid hfs hds hss indent
  | .struct .., ⟨ht, hne, hfs⟩ => exact Decl.prints_struct ht hne hfs indent

theorem Decl.printsAll {ds : List Decl} (h : ∀ d ∈ ds, d.Legible) (indent : Nat) :
    ∃ lines, Decl.linesAll false indent ds = .ok lines ∧ ∀ before,
      (Place.between before).ReadsLines (dotted (Decl.occurrencesAll ds)) lines fun next =>
        ∃ ds', Decl.relabelAll unplace ds' = Decl.relabelAll unplace ds ∧
          next = .between (ds'.reverse ++ before) := by
  induction ds with
  | nil => exact ⟨[], rfl, fun before => .nil ⟨[], rfl, rfl⟩⟩
  | cons d ds ih =>
    obtain ⟨hd, hds⟩ := List.forall_mem_cons.1 h
    obtain ⟨lines, hp, hback⟩ := Decl.prints hd indent
    obtain ⟨others, hps, hbacks⟩ := ih hds
    refine ⟨lines ++ others, by simp only [Decl.linesAll, hp, hps]; rfl, fun before => ?_⟩
    rw [Decl.occurrencesAll, dotted_append]
    refine (hback before).seq ?_
    intro next hnext
    obtain ⟨d', hlike, rfl⟩ := hnext
    refine (hbacks (d' :: before)).mono ?_
    intro next hnext
    obtain ⟨ds', hlikes, rfl⟩ := hnext
    exact ⟨d' :: ds', by simp [Decl.relabelAll, hlike, hlikes], by simp⟩

/-- The printed form of an accepted program is a program with the same tree, up to locations, and
the same printed form; but if there is a field access in it, it is refused. -/
theorem parse_print {source : String} {p : Program} (h : parse source = .ok p) :
    ∃ text, p.print false = .ok text ∧
      (dotted p.occurrences = false → ∃ q, parse text = .ok q ∧
        q.relabel unplace = p.relabel unplace ∧ q.print false = .ok text) ∧
      (dotted p.occurrences = true → ∃ error, parse text = .error (.malformed error)) := by
  obtain ⟨lines, hp, hall⟩ := Decl.printsAll (parse_legible h) 0
  have hprint : p.print false = .ok (unlines lines) := by
    simp only [Program.print, hp]
    rfl
  have hreads := hall [] []
  rw [List.append_nil] at hreads
  refine ⟨unlines lines, hprint, fun hn => ?_, fun hd => ?_⟩
  · rw [show dotted (Decl.occurrencesAll p.decls) = false from hn] at hreads
    obtain ⟨_, tokens, loc, ⟨ds, hlike, rfl⟩, ho, hr⟩ := hreads [] .start
    have hread : read (unlines lines) = .ok ⟨(tokens ++ []).reverse, ⟨ds⟩⟩ :=
      hr.trans (readOn_end (List.forall_mem_nil _) (by simp [Place.program?]))
    have hparse : parse (unlines lines) = .ok ⟨ds⟩ := by
      unfold parse
      rw [hread]
      have hshort : (tokens ++ []).reverse.findSome? Token.overlong? = none :=
        List.findSome?_eq_none_iff.2 (by simpa using ho)
      simp only [hshort]
    have hsame : Program.relabel unplace ⟨ds⟩ = p.relabel unplace := congrArg Program.mk hlike
    refine ⟨⟨ds⟩, hparse, hsame, ?_⟩
    rw [← hprint, ← Program.print_relabel unplace ⟨ds⟩, hsame, Program.print_relabel]
  · rw [show dotted (Decl.occurrencesAll p.decls) = true from hd] at hreads
    obtain ⟨error, hr⟩ := hreads [] .start
    refine ⟨error, ?_⟩
    unfold parse read
    rw [hr]

/-- An assignment to a variable that is spelled like a keyword, where that is none. -/
def keywordName : Program :=
  ⟨[.function (.primitive "void") ⟨"f", some ⟨1, 6⟩, none⟩ [] []
    [.assign (.assign (.name ⟨"else", some ⟨1, 10⟩, none⟩) (.int 1 (some ⟨1, 15⟩)))]]⟩

/-- An assignment to a field. -/
def fieldAccess : Program :=
  ⟨[.function (.primitive "void") ⟨"f", some ⟨1, 6⟩, none⟩ [] []
    [.assign (.assign (.dot (.name ⟨"s", some ⟨1, 10⟩, none⟩) ⟨"x", some ⟨1, 12⟩, none⟩ none)
      (.int 1 (some ⟨1, 14⟩)))]]⟩

theorem parse_print_assignments :
    (∃ q, parse "void f() \x7b\n    else = 1;\n\x7d\n\n" = .ok q ∧
      q.relabel unplace = keywordName.relabel unplace) ∧
    ∃ error, parse "void f() \x7b\n    (s).x = 1;\n\x7d\n\n" = .error (.malformed error) := by
  have hname : parse "void f()\x7belse=1;\x7d" = .ok keywordName := by cbv
  have hfield : parse "void f()\x7bs.x=1;\x7d" = .ok fieldAccess := by cbv
  have hprint : keywordName.print false = .ok "void f() \x7b\n    else = 1;\n\x7d\n\n" := rfl
  have hprint' : fieldAccess.print false = .ok "void f() \x7b\n    (s).x = 1;\n\x7d\n\n" := rfl
  obtain ⟨_, hp, hread, _⟩ := parse_print hname
  obtain ⟨_, hp', _, hrefuse⟩ := parse_print hfield
  cases hprint.symm.trans hp
  cases hprint'.symm.trans hp'
  obtain ⟨q, hq, hlike, _⟩ := hread rfl
  exact ⟨⟨q, hq, hlike⟩, hrefuse rfl⟩

end Moo
