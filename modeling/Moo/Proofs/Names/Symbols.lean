import Moo.Names.Analysis
import Moo.Proofs.Tree.Relabel

/-!
# What analysis makes of a tree

Whatever the tree holds, and also when analysis gives up half-way: the tree
that comes out is the one that went in, but for the symbols of identifiers and
field accesses.

Analysis makes a symbol for a declaration and passes on symbols that it finds
in the table, among the members of a struct, or in the tree. So whatever can
be said of all symbols at first, and of every symbol that it makes, is true
of all symbols in the end.

* `Symbol.Closed`: what can be said of symbols in this way, if no struct type
  is made. A new struct type is for whoever says what its members are.
* `Scope.Kept`: what can be said of scopes, so that it stays true and is true
  of the members of a struct.
* `Table.Proper`: it holds of all symbols in a table. Apart from that no scope
  has a name twice, and a struct type has the name that it is bound to.
* `Labelled`: it holds of all symbols in a tree.
* `Walk.Keeps`: an action that keeps what is said of scopes, and what its
  result is then, by one rule for each way to put actions together.
* `Expr.resolve_keeps`, `Stmt.analyze_keeps`, `Decl.analyze_keeps`: one part of
  a program.
-/
namespace Moo

/-! ## Symbols in tables and trees -/

/-- `ok` holds of all symbols that analysis makes, but for struct types, and of those that it
comes to from a symbol of which it holds. -/
structure Symbol.Closed (ok : Symbol → Prop) : Prop where
  value : ∀ origin type, ok (.value origin type)
  function : ∀ origin returns params, ok (.function origin returns params)
  structValue : ∀ origin definition, ok (.structType definition) →
    ok (.structValue origin definition.name definition)
  part : ∀ symbol, ok symbol → ∀ part ∈ symbol.parts, ok part

/-- A symbol that may be bound to a name. -/
def Symbol.Names (name : String) (symbol : Symbol) : Prop :=
  ∀ definition, symbol = .structType definition → definition.name = name

/-- Only a struct type is kept to its own name. -/
theorem Symbol.names_value (origin : Origin) (type name : String) :
    (Symbol.value origin type).Names name :=
  nofun

theorem Symbol.names_structValue (origin : Origin) (type : String) (definition : StructType)
    (name : String) : (Symbol.structValue origin type definition).Names name :=
  nofun

structure Scope.Proper (ok : Symbol → Prop) (scope : Scope) : Prop where
  distinct : (scope.map Prod.fst).Nodup
  holds : ∀ name symbol, (name, symbol) ∈ scope → ok symbol
  named : ∀ name symbol, (name, symbol) ∈ scope → symbol.Names name

def Table.Proper (ok : Symbol → Prop) (table : Table) : Prop :=
  ∀ scope ∈ table.scopes, scope.Proper ok

/-- `ok` holds of all symbols of these occurrences. -/
def Labelled (ok : Symbol → Prop) (occurrences : List Occurrence) : Prop :=
  ∀ occurrence ∈ occurrences, ∀ symbol ∈ occurrence.symbol, ok symbol

variable {ok : Symbol → Prop}

theorem Scope.proper_nil : Scope.Proper ok [] :=
  ⟨List.nodup_nil, nofun, nofun⟩

theorem Scope.Proper.mono {ok' : Symbol → Prop} {scope : Scope} (h : scope.Proper ok)
    (hok : ∀ symbol, ok symbol → ok' symbol) : scope.Proper ok' :=
  ⟨h.distinct, fun name symbol hm => hok symbol (h.holds name symbol hm), h.named⟩

theorem Scope.Proper.find? {scope : Scope} (h : scope.Proper ok) {name : String}
    {symbol : Symbol} (hf : symbol ∈ scope.find? name) : ok symbol :=
  h.holds name symbol ((Scope.find?_eq_some_iff h.distinct).1 hf)

theorem Scope.Proper.declare? {scope after : Scope} (h : scope.Proper ok) {name : String}
    {symbol : Symbol} (hs : ok symbol) (hn : symbol.Names name)
    (hd : scope.declare? name symbol = some after) : after.Proper ok := by
  obtain ⟨hfree, rfl⟩ := Scope.declare?_eq_some_iff.1 hd
  refine ⟨?_, fun own other hm => ?_, fun own other hm => ?_⟩
  · rw [List.map_append]
    refine List.nodup_append.2 ⟨h.distinct, by simp, ?_⟩
    rintro own hown _ hname rfl
    obtain rfl : own = name := by simpa using hname
    obtain ⟨⟨_, old⟩, hold, rfl⟩ := List.mem_map.1 hown
    rw [(Scope.find?_eq_some_iff h.distinct).2 hold] at hfree
    cases hfree
  · rcases List.mem_append.1 hm with hm | hm
    · exact h.holds own other hm
    · obtain ⟨rfl, rfl⟩ : own = name ∧ other = symbol := by simpa using hm
      exact hs
  · rcases List.mem_append.1 hm with hm | hm
    · exact h.named own other hm
    · obtain ⟨rfl, rfl⟩ : own = name ∧ other = symbol := by simpa using hm
      exact hn

/-- What is said of scopes holds of an empty one and goes on to hold when a name is entered, and of
every symbol in such a scope it can be said that it is `ok`. -/
structure Scope.Kept (good : Scope → Prop) (ok : Symbol → Prop) : Prop where
  nil : good []
  find? : ∀ {scope}, good scope → ∀ {name symbol}, scope.find? name = some symbol → ok symbol
  enter : ∀ {scope}, good scope → ∀ (id : Ident) {symbol : Option Symbol},
    (∀ s ∈ symbol, ok s ∧ s.Names id.name) → good (scope.enter id symbol).1.2

theorem Scope.Proper.kept : Scope.Kept (Scope.Proper ok) ok where
  nil := Scope.proper_nil
  find? h _ _ hf := h.find? hf
  enter {scope} h id symbol hs := by
    cases symbol with
    | none => exact h
    | some symbol =>
      obtain ⟨hok, hname⟩ := hs symbol rfl
      cases hf : scope.find? id.name with
      | none =>
        rw [Scope.enter_new hf]
        exact h.declare? hok hname (Scope.declare?_eq_some_iff.2 ⟨hf, rfl⟩)
      | some old => rwa [Scope.enter_old hf]

/-- Nothing is said. -/
theorem Scope.kept_trivial : Scope.Kept (fun _ => True) (fun _ => True) :=
  ⟨trivial, fun _ _ _ _ => trivial, fun _ _ _ _ => trivial⟩

theorem Symbol.closed_trivial : Symbol.Closed (fun _ => True) :=
  ⟨fun _ _ => trivial, fun _ _ _ => trivial, fun _ _ _ => trivial, fun _ _ _ _ => trivial⟩

theorem labelled_trivial (occurrences : List Occurrence) :
    Labelled (fun _ => True) occurrences :=
  fun _ _ _ _ => trivial

/-- A member of a struct that a variable is. -/
theorem Symbol.Closed.member (hc : Symbol.Closed ok) {origin : Origin} {type name : String}
    {definition : StructType} {symbol : Symbol} (h : ok (.structValue origin type definition))
    (hf : Scope.find? definition.members name = some symbol) : ok symbol := by
  have hdef : ok (.structType definition) := hc.part _ h _ (by simp [Symbol.parts])
  obtain ⟨before, _, hmembers, -⟩ := List.lookup_eq_some_iff.1 hf
  refine hc.part _ hdef symbol (List.mem_map.2 ⟨(name, symbol), ?_, rfl⟩)
  rw [hmembers]
  simp

namespace Table.Proper

variable {table : Table}

theorem mono {ok' : Symbol → Prop} (h : table.Proper ok)
    (hok : ∀ symbol, ok symbol → ok' symbol) : table.Proper ok' :=
  fun scope hs => (h scope hs).mono hok

theorem new : Table.Proper ok .new := by
  intro scope hs
  obtain rfl : scope = [] := by simpa [Table.new] using hs
  exact Scope.proper_nil

theorem push (h : table.Proper ok) : table.push.Proper ok := by
  intro scope hs
  rcases List.mem_cons.1 hs with rfl | hs
  · exact Scope.proper_nil
  · exact h scope hs

theorem pop (h : table.Proper ok) {scope : Scope} {after : Table}
    (hp : table.pop = .ok (scope, after)) : after.Proper ok := by
  unfold Table.pop at hp
  split at hp
  · cases hp
  · next htable =>
    cases hp
    exact fun scope hs => h scope (htable ▸ List.mem_cons_of_mem _ hs)

theorem declare (h : table.Proper ok) {name : String} {symbol : Symbol} {after : Table}
    (hs : ok symbol) (hn : symbol.Names name) (hd : table.declare name symbol = .ok after) :
    after.Proper ok := by
  unfold Table.declare at hd
  split at hd
  · cases hd
  · next inner outer htable =>
    split at hd
    · cases hd
    · next hadd =>
      cases hd
      intro scope hm
      rcases List.mem_cons.1 hm with rfl | hm
      · exact (h inner (htable ▸ List.mem_cons_self)).declare? hs hn hadd
      · exact h scope (htable ▸ List.mem_cons_of_mem _ hm)

end Table.Proper

@[simp]
theorem labelled_nil : Labelled ok [] :=
  nofun

@[simp]
theorem labelled_cons (occurrence : Occurrence) (rest : List Occurrence) :
    Labelled ok (occurrence :: rest) ↔
      (∀ symbol ∈ occurrence.symbol, ok symbol) ∧ Labelled ok rest :=
  List.forall_mem_cons

@[simp]
theorem labelled_append (a b : List Occurrence) :
    Labelled ok (a ++ b) ↔ Labelled ok a ∧ Labelled ok b :=
  List.forall_mem_append

theorem Labelled.mono {ok' : Symbol → Prop} {occurrences : List Occurrence}
    (h : Labelled ok occurrences) (hok : ∀ symbol, ok symbol → ok' symbol) :
    Labelled ok' occurrences :=
  fun occurrence ho symbol hs => hok symbol (h occurrence ho symbol hs)

/-! ## Actions -/

namespace Walk

variable {good : Scope → Prop} {α β : Type} {mid : α → Prop} {post : β → Prop}

/-- If all scopes are good they still are afterwards, and the result is as `post` says. -/
def Keeps (good : Scope → Prop) (action : Walk α) (post : α → Prop) : Prop :=
  ∀ state, (∀ scope ∈ state.table.scopes, good scope) →
    (∀ scope ∈ (action state).2.table.scopes, good scope) ∧ post (action state).1

namespace Keeps

theorem pure {b : β} (h : post b) : Keeps good (Pure.pure b : Walk β) post :=
  fun _ ht => ⟨ht, h⟩

theorem bind {action : Walk α} {next : α → Walk β} (h : Keeps good action mid)
    (hn : ∀ a, mid a → Keeps good (next a) post) : Keeps good (action >>= next) post :=
  fun state ht => hn _ (h state ht).2 _ (h state ht).1

/-- The last action before a result. -/
theorem last {action : Walk α} {f : α → β} (h : Keeps good action mid)
    (hp : ∀ a, mid a → post (f a)) : Keeps good (do let a ← action; Pure.pure (f a)) post :=
  h.bind fun a ha => .pure (hp a ha)

/-- An action whose result does not matter. -/
theorem before {action : Walk α} {b : β} (h : Keeps good action fun _ => True) (hp : post b) :
    Keeps good (do let _ ← action; Pure.pure b) post :=
  h.last fun _ _ => hp

theorem mono {action : Walk α} {wide : α → Prop} (h : Keeps good action mid)
    (hp : ∀ a, mid a → wide a) : Keeps good action wide :=
  fun state ht => ⟨(h state ht).1, hp _ (h state ht).2⟩

theorem unlessFaulted {action : Walk α} {kept : α} (hk : mid kept) (h : Keeps good action mid) :
    Keeps good (unlessFaulted kept action) mid := by
  intro state ht
  unfold Walk.unlessFaulted
  split
  · exact ⟨ht, hk⟩
  · exact h state ht

theorem inScope {action : Walk α} (hnil : good []) (h : Keeps good action mid) :
    Keeps good (inScope action) mid := by
  intro state ht
  unfold Walk.inScope
  split
  · exact h state ht
  · obtain ⟨hafter, hresult⟩ := h (openScope state).2 (List.forall_mem_cons.2 ⟨hnil, ht⟩)
    refine ⟨?_, hresult⟩
    show ∀ scope ∈ (closeScope (action (openScope state).2).2).2.table.scopes, good scope
    unfold closeScope Table.pop
    split
    · next hpop =>
      split at hpop
      · cases hpop
      · next hscopes =>
        cases hpop
        exact (List.forall_mem_cons.1 (hscopes ▸ hafter)).2
    · exact hafter

end Keeps

theorem note_keeps (event : Event) : Keeps good (note event) fun _ => True :=
  .unlessFaulted trivial fun _ ht => ⟨ht, trivial⟩

theorem report_keeps (id : Ident) (misuse : Misuse) :
    Keeps good (report id misuse) fun _ => True :=
  note_keeps _

theorem fail_keeps (fault : Fault) : Keeps good (fail fault) fun _ => True :=
  .unlessFaulted trivial fun _ ht => ⟨ht, trivial⟩

theorem remark_keeps (remark : Remark) : Keeps good (Walk.remark remark) fun _ => True := by
  cases remark with
  | nothing => exact .pure trivial
  | misuse id misuse => exact report_keeps id misuse
  | fault fault => exact fail_keeps fault

theorem look_keeps {kept : α} {answer : Table → α × Remark} (hk : mid kept)
    (h : ∀ table : Table, (∀ scope ∈ table.scopes, good scope) → mid (answer table).1) :
    Keeps good (look kept answer) mid :=
  .unlessFaulted hk fun state ht => (remark_keeps _).before (h state.table ht) state ht

section Names

variable (hk : Scope.Kept good ok)

include hk

theorem lookup_kept {table : Table} (ht : ∀ scope ∈ table.scopes, good scope) {name : String}
    {symbol : Symbol} (hl : table.lookup name = some symbol) : ok symbol := by
  obtain ⟨scope, hs, hf⟩ := List.exists_of_findSome?_eq_some hl
  exact hk.find? (ht scope hs) hf

theorem resolve_keeps {id : Ident} (hid : ∀ symbol ∈ id.symbol, ok symbol) :
    Keeps good (resolve id) fun result =>
      (result.1.relabel .forget = id.relabel .forget ∧ ∀ symbol ∈ result.1.symbol, ok symbol) ∧
        ∀ symbol ∈ result.2, ok symbol := by
  refine look_keeps ⟨⟨rfl, hid⟩, nofun⟩ fun table ht => ?_
  split
  · next symbol hl =>
    have hsymbol : ok symbol := lookup_kept hk ht hl
    exact ⟨⟨rfl, by rintro _ ⟨⟩; exact hsymbol⟩, by rintro _ ⟨⟩; exact hsymbol⟩
  · exact ⟨⟨rfl, nofun⟩, nofun⟩

theorem resolveStray_keeps (thing : Stray) {given : Option Symbol}
    (hgiven : ∀ symbol ∈ given, ok symbol) :
    Keeps good (resolveStray thing given) fun result => ∀ symbol ∈ result, ok symbol := by
  refine look_keeps hgiven fun table ht => ?_
  split
  · exact hgiven
  · split
    · next symbol hl =>
      rintro _ ⟨⟩
      exact lookup_kept hk ht hl
    · exact hgiven

theorem resolveTag_keeps {tag : Ident} (htag : ∀ symbol ∈ tag.symbol, ok symbol) :
    Keeps good (resolveTag tag) fun result =>
      (result.1.relabel .forget = tag.relabel .forget ∧ ∀ symbol ∈ result.1.symbol, ok symbol) ∧
        ∀ definition ∈ result.2, ok (.structType definition) := by
  refine look_keeps ⟨⟨rfl, htag⟩, nofun⟩ fun table ht => ?_
  split
  · next definition hl =>
    have hdef : ok (.structType definition) := lookup_kept hk ht hl
    exact ⟨⟨rfl, by rintro _ ⟨⟩; exact hdef⟩, by rintro _ ⟨⟩; exact hdef⟩
  · exact ⟨⟨rfl, htag⟩, nofun⟩

theorem entered_kept {scope : Scope} {id : Ident} {symbol : Option Symbol}
    (hafter : good (scope.enter id symbol).1.2) :
    ((scope.enter id symbol).1.1.relabel .forget = id.relabel .forget ∧
      ∀ s ∈ (scope.enter id symbol).1.1.symbol, ok s) ∧ good (scope.enter id symbol).1.2 := by
  rw [Scope.enter_ident]
  exact ⟨⟨rfl, fun s hs => hk.find? hafter hs⟩, hafter⟩

theorem bindMember_keeps {members : Scope} (hm : good members) {id : Ident}
    (hid : ∀ s ∈ id.symbol, ok s) {symbol : Option Symbol}
    (hafter : good (members.enter id symbol).1.2) :
    Keeps good (bindMember members id symbol) fun result =>
      (result.1.relabel .forget = id.relabel .forget ∧ ∀ s ∈ result.1.symbol, ok s) ∧
        good result.2 :=
  look_keeps ⟨⟨rfl, hid⟩, hm⟩ fun _ _ => entered_kept hk hafter

theorem bind_keeps {id : Ident} (hid : ∀ s ∈ id.symbol, ok s) {symbol : Option Symbol}
    (henter : ∀ scope : Scope, good scope → good (scope.enter id symbol).1.2) :
    Keeps good (bind id symbol) fun result =>
      result.relabel .forget = id.relabel .forget ∧ ∀ s ∈ result.symbol, ok s := by
  refine .unlessFaulted ⟨rfl, hid⟩ fun state ht => ?_
  obtain ⟨⟨scopes⟩, events, fault⟩ := state
  cases scopes with
  | nil =>
    cases symbol with
    | none =>
      have hunset : Keeps good (pure { id with symbol := none }) fun result =>
          result.relabel .forget = id.relabel .forget ∧ ∀ s ∈ result.symbol, ok s :=
        .pure ⟨rfl, nofun⟩
      exact hunset _ ht
    | some symbol =>
      have hfail : Keeps good (do fail (.table (.nowhereToDeclare id.name)); pure id) fun result =>
          result.relabel .forget = id.relabel .forget ∧ ∀ s ∈ result.symbol, ok s :=
        (fail_keeps _).before ⟨rfl, hid⟩
      exact hfail _ ht
  | cons scope scopes =>
    obtain ⟨hscope, hscopes⟩ := List.forall_mem_cons.1 ht
    obtain ⟨hident, hafter⟩ := entered_kept hk (henter scope hscope)
    have henter : Keeps good (do
        remark (scope.enter id symbol).2
        modify fun state => { state with table := ⟨(scope.enter id symbol).1.2 :: scopes⟩ }
        pure (scope.enter id symbol).1.1) fun result =>
          result.relabel .forget = id.relabel .forget ∧ ∀ s ∈ result.symbol, ok s :=
      (remark_keeps _).bind fun _ _ _ _ => ⟨List.forall_mem_cons.2 ⟨hafter, hscopes⟩, hident⟩
    exact henter _ ht

end Names

/-- The members of a struct are a table of their own that has one scope, and fields are bound in it
as variables are bound in the other table. -/
theorem bindMember_eq_bind (members : Scope) (id : Ident) (symbol : Option Symbol)
    (state : WalkState) :
    let member := bindMember members id symbol state
    bind id symbol { state with table := ⟨[members]⟩ } =
      (member.1.1, { member.2 with table := ⟨[member.1.2]⟩ }) := by
  obtain ⟨table, events, fault⟩ := state
  cases fault with
  | some fault => rfl
  | none =>
    have hbind : bind id symbol ⟨⟨[members]⟩, events, none⟩ =
        (do let entered := members.enter id symbol
            remark entered.2
            modify fun state => { state with table := ⟨[entered.1.2]⟩ }
            pure entered.1.1 : Walk Ident) ⟨⟨[members]⟩, events, none⟩ := rfl
    have hmember : bindMember members id symbol ⟨table, events, none⟩ =
        (do let entered := members.enter id symbol
            remark entered.2
            pure entered.1 : Walk (Ident × Scope)) ⟨table, events, none⟩ := rfl
    intro member
    rw [hbind]
    simp only [member, hmember]
    cases (members.enter id symbol).2 <;> rfl

end Walk

open Walk

section Tree

variable {good : Scope → Prop} (hk : Scope.Kept good ok) (hc : Symbol.Closed ok)

/-! ## Expressions -/

include hc in
theorem narrow_keeps (object : Expr) {base old : Option Symbol} {field : Ident}
    (hb : ∀ s ∈ base, ok s) (hf : ∀ s ∈ field.symbol, ok s) (ho : ∀ s ∈ old, ok s) :
    Keeps good (narrow object base field old) fun result =>
      (result.1.relabel .forget = field.relabel .forget ∧ ∀ s ∈ result.1.symbol, ok s) ∧
        (∀ s ∈ result.2.1, ok s) ∧ ∀ s ∈ result.2.2, ok s := by
  refine look_keeps ⟨⟨rfl, hf⟩, ho, nofun⟩ fun _ _ => ?_
  split
  · split
    · next symbol hfind =>
      have hsymbol : ∀ s ∈ some symbol, ok s := by
        rintro _ ⟨⟩
        exact hc.member (hb _ rfl) hfind
      exact ⟨⟨rfl, hsymbol⟩, hsymbol, hsymbol⟩
    · exact ⟨⟨rfl, hf⟩, ho, nofun⟩
  · exact ⟨⟨rfl, hf⟩, ho, nofun⟩

include hc in
theorem narrowStray_keeps (object : Expr) (field : Stray) {base given old : Option Symbol}
    (hb : ∀ s ∈ base, ok s) (hg : ∀ s ∈ given, ok s) (ho : ∀ s ∈ old, ok s) :
    Keeps good (narrowStray object base field given old) fun result =>
      (∀ s ∈ result.1, ok s) ∧ (∀ s ∈ result.2.1, ok s) ∧ ∀ s ∈ result.2.2, ok s := by
  refine look_keeps ⟨hg, ho, nofun⟩ fun _ _ => ?_
  split
  · split
    · exact ⟨hg, ho, nofun⟩
    · split
      · next symbol hfind =>
        have hsymbol : ∀ s ∈ some symbol, ok s := by
          rintro _ ⟨⟩
          exact hc.member (hb _ rfl) hfind
        exact ⟨hsymbol, hsymbol, hsymbol⟩
      · exact ⟨hg, ho, nofun⟩
  · exact ⟨hg, ho, nofun⟩

mutual

theorem Expr.resolve_keeps (hk : Scope.Kept good ok) (hc : Symbol.Closed ok) :
    ∀ expr : Expr, Labelled ok expr.occurrences →
    Keeps good expr.resolve fun result =>
      (result.1.relabel .forget = expr.relabel .forget ∧ Labelled ok result.1.occurrences) ∧
        ∀ s ∈ result.2, ok s
  | .int .., _ | .str .., _ | .bool .., _ => .pure ⟨⟨rfl, labelled_nil⟩, nofun⟩
  | .name id, h => by
    simp only [Expr.occurrences, labelled_cons, Occurrence.symbol] at h
    refine (Walk.resolve_keeps hk h.1).last fun _ ⟨⟨hid, hl⟩, hs⟩ =>
      ⟨⟨congrArg Expr.name hid, ?_⟩, hs⟩
    simpa [Expr.occurrences, Occurrence.symbol] using hl
  | .dot object field symbol, h => by
    simp only [Expr.occurrences, labelled_append, labelled_cons, Occurrence.symbol] at h
    obtain ⟨⟨hs, ho⟩, hf, -⟩ := h
    refine (object.resolve_keeps hk hc ho).bind fun _ ⟨⟨hobject, hlo⟩, hbase⟩ => ?_
    refine (narrow_keeps hc _ hbase hf hs).last fun _ ⟨⟨hfield, hlf⟩, hls, hres⟩ =>
      ⟨⟨?_, ?_⟩, hres⟩
    · simp only [Expr.relabel, hobject, hfield, Relabel.forget_symbol]
    · simp only [Expr.occurrences, labelled_append, labelled_cons, labelled_nil, Occurrence.symbol,
        and_true]
      exact ⟨⟨hls, hlo⟩, hlf⟩
  | .assign target value, h | .binary _ target value, h => by
    simp only [Expr.occurrences, labelled_append] at h
    refine (target.resolve_keeps hk hc h.1).bind fun _ ⟨⟨ht, hlt⟩, _⟩ =>
      (value.resolve_keeps hk hc h.2).last fun _ ⟨⟨hv, hlv⟩, _⟩ => ⟨⟨?_, ?_⟩, nofun⟩
    · simp only [Expr.relabel, ht, hv]
    · simp only [Expr.occurrences, labelled_append]
      exact ⟨hlt, hlv⟩
  | .call callee args, h => by
    simp only [Expr.occurrences, labelled_cons, Occurrence.symbol] at h
    refine (Walk.resolve_keeps hk h.1).bind fun _ ⟨⟨hcallee, hlc⟩, _⟩ =>
      (Expr.resolveAll_keeps hk hc args h.2).last fun _ ⟨ha, hla⟩ => ⟨⟨?_, ?_⟩, nofun⟩
    · simp only [Expr.relabel, hcallee, ha]
    · simp only [Expr.occurrences, labelled_cons, Occurrence.symbol]
      exact ⟨hlc, hla⟩
  | .unary _ operand, h =>
    (operand.resolve_keeps hk hc h).last fun _ ⟨⟨ho, hl⟩, _⟩ =>
      ⟨⟨by simp only [Expr.relabel, ho], hl⟩, nofun⟩
  | .strayDot object field given symbol, h => by
    simp only [Expr.occurrences, labelled_append, labelled_cons, Occurrence.symbol] at h
    obtain ⟨⟨hs, ho⟩, hg, hf⟩ := h
    refine (object.resolve_keeps hk hc ho).bind fun _ ⟨⟨hobject, hlo⟩, hbase⟩ => ?_
    refine (narrowStray_keeps hc _ field hbase hg hs).last fun _ ⟨hlg, hls, hres⟩ =>
      ⟨⟨?_, ?_⟩, hres⟩
    · simp only [Expr.relabel, hobject, Relabel.forget_symbol]
    · simp only [Expr.occurrences, labelled_append, labelled_cons, Occurrence.symbol]
      exact ⟨⟨hls, hlo⟩, hlg, hf⟩
  | .strayCall callee given args, h => by
    simp only [Expr.occurrences, labelled_append, labelled_cons, Occurrence.symbol] at h
    obtain ⟨⟨hg, hcallee⟩, ha⟩ := h
    refine (resolveStray_keeps hk callee hg).bind fun _ hlg =>
      (Expr.resolveAll_keeps hk hc args ha).last fun _ ⟨ha, hla⟩ => ⟨⟨?_, ?_⟩, nofun⟩
    · simp only [Expr.relabel, ha, Relabel.forget_symbol]
    · simp only [Expr.occurrences, labelled_append, labelled_cons, Occurrence.symbol]
      exact ⟨⟨hlg, hcallee⟩, hla⟩
  | .stray _, h => (fail_keeps _).before ⟨⟨rfl, h⟩, nofun⟩

theorem Expr.resolveAll_keeps (hk : Scope.Kept good ok) (hc : Symbol.Closed ok) :
    ∀ exprs : List Expr, Labelled ok (Expr.occurrencesAll exprs) →
    Keeps good (Expr.resolveAll exprs) fun result =>
      Expr.relabelAll .forget result = Expr.relabelAll .forget exprs ∧
        Labelled ok (Expr.occurrencesAll result)
  | [], _ => .pure ⟨rfl, labelled_nil⟩
  | expr :: exprs, h => by
    simp only [Expr.occurrencesAll, labelled_append] at h
    refine (expr.resolve_keeps hk hc h.1).bind fun _ ⟨⟨he, hle⟩, _⟩ =>
      (Expr.resolveAll_keeps hk hc exprs h.2).last fun _ ⟨hes, hles⟩ => ⟨?_, ?_⟩
    · simp only [Expr.relabelAll, he, hes]
    · simp only [Expr.occurrencesAll, labelled_append]
      exact ⟨hle, hles⟩

end

include hk hc

/-! ## Variables -/

theorem TypeExpr.resolve_keeps (origin : Origin) (id : Ident) {type : TypeExpr}
    (h : Labelled ok type.occurrences) :
    Keeps good (type.resolve origin id) fun result =>
      (result.1.relabel .forget = type.relabel .forget ∧ Labelled ok result.1.occurrences) ∧
        ∀ s ∈ result.2, ok s ∧ ∀ name, s.Names name := by
  have hvalue (type : String) : ∀ s ∈ some (Symbol.value origin type),
      ok s ∧ ∀ name, s.Names name := by
    rintro _ ⟨⟩
    exact ⟨hc.value origin type, Symbol.names_value origin type⟩
  cases type with
  | primitive name =>
    simp only [TypeExpr.resolve]
    split
    · exact (report_keeps id .voidVariable).before ⟨⟨rfl, labelled_nil⟩, hvalue _⟩
    · exact .pure ⟨⟨rfl, labelled_nil⟩, hvalue _⟩
  | struct tag =>
    simp only [TypeExpr.occurrences, labelled_cons, Occurrence.symbol] at h
    refine (resolveTag_keeps hk h.1).last fun result hresult => ?_
    obtain ⟨⟨htag, hl⟩, hdef⟩ := hresult
    refine ⟨⟨congrArg TypeExpr.struct htag, ?_⟩, ?_⟩
    · simpa [TypeExpr.occurrences, Occurrence.symbol] using hl
    · intro s hs
      obtain ⟨definition, hd, rfl⟩ := Option.map_eq_some_iff.1 hs
      exact ⟨hc.structValue origin definition (hdef definition hd),
        Symbol.names_structValue origin _ definition⟩
  | stray thing => exact (fail_keeps _).before ⟨⟨rfl, h⟩, by simp⟩

theorem Decl.analyzeVariable_keeps (origin : Origin) {decl : Decl}
    (h : Labelled ok decl.occurrences) :
    Keeps good (decl.analyzeVariable origin) fun result =>
      result.relabel .forget = decl.relabel .forget ∧ Labelled ok result.occurrences := by
  cases decl with
  | var type id | formal type id =>
    simp only [Decl.occurrences, labelled_append, labelled_cons, Occurrence.symbol] at h
    refine (TypeExpr.resolve_keeps hk hc origin id h.1).bind fun _ ⟨⟨ht, hlt⟩, hs⟩ =>
      (bind_keeps hk h.2.1 fun _ hscope =>
        hk.enter hscope id fun s hm => ⟨(hs s hm).1, (hs s hm).2 _⟩).last
        fun _ ⟨hid, hlid⟩ => ⟨?_, ?_⟩
    · simp only [Decl.relabel, ht, hid]
    · simp only [Decl.occurrences, labelled_append, labelled_cons, labelled_nil, Occurrence.symbol,
        and_true]
      exact ⟨hlt, hlid⟩
  | _ => exact (fail_keeps _).before ⟨rfl, h⟩

theorem Decl.analyzeVariables_keeps (path : Origin) (part : Part) {decls : List Decl}
    (h : Labelled ok (Decl.occurrencesAll decls)) (index : Nat) :
    Keeps good (Decl.analyzeVariables path part index decls) fun result =>
      Decl.relabelAll .forget result = Decl.relabelAll .forget decls ∧
        Labelled ok (Decl.occurrencesAll result) := by
  induction decls generalizing index with
  | nil => exact .pure ⟨rfl, labelled_nil⟩
  | cons decl decls ih =>
    simp only [Decl.occurrencesAll, labelled_append] at h
    refine (Decl.analyzeVariable_keeps hk hc _ h.1).bind fun _ ⟨hd, hld⟩ =>
      (ih h.2 (index + 1)).last fun _ ⟨hds, hlds⟩ => ⟨?_, ?_⟩
    · simp only [Decl.relabelAll, hd, hds]
    · simp only [Decl.occurrencesAll, labelled_append]
      exact ⟨hld, hlds⟩

theorem Decl.analyzeField_keeps (origin : Origin) {members : Scope} (hm : good members)
    {decl : Decl} (h : Labelled ok decl.occurrences) :
    Keeps good (decl.analyzeField origin members) fun result =>
      (result.1.relabel .forget = decl.relabel .forget ∧ Labelled ok result.1.occurrences) ∧
        good result.2 := by
  cases decl with
  | var type id | formal type id =>
    simp only [Decl.occurrences, labelled_append, labelled_cons, Occurrence.symbol] at h
    refine (TypeExpr.resolve_keeps hk hc origin id h.1).bind fun _ ⟨⟨ht, hlt⟩, hs⟩ =>
      (bindMember_keeps hk hm h.2.1
        (hk.enter hm id fun s hm => ⟨(hs s hm).1, (hs s hm).2 _⟩)).last
        fun _ ⟨⟨hid, hlid⟩, hafter⟩ => ⟨⟨?_, ?_⟩, hafter⟩
    · simp only [Decl.relabel, ht, hid]
    · simp only [Decl.occurrences, labelled_append, labelled_cons, labelled_nil, Occurrence.symbol,
        and_true]
      exact ⟨hlt, hlid⟩
  | _ => exact (fail_keeps _).before ⟨⟨rfl, h⟩, hm⟩

theorem Decl.analyzeFields_keeps (path : Origin) {decls : List Decl}
    (h : Labelled ok (Decl.occurrencesAll decls)) (index : Nat) {members : Scope}
    (hm : good members) :
    Keeps good (Decl.analyzeFields path index members decls) fun result =>
      (Decl.relabelAll .forget result.1 = Decl.relabelAll .forget decls ∧
        Labelled ok (Decl.occurrencesAll result.1)) ∧ good result.2 := by
  induction decls generalizing index members with
  | nil => exact .pure ⟨⟨rfl, labelled_nil⟩, hm⟩
  | cons decl decls ih =>
    simp only [Decl.occurrencesAll, labelled_append] at h
    refine (Decl.analyzeField_keeps hk hc _ hm h.1).bind fun _ ⟨⟨hd, hld⟩, hmid⟩ =>
      (ih h.2 (index + 1) hmid).last fun _ ⟨⟨hds, hlds⟩, hlast⟩ => ⟨⟨?_, ?_⟩, hlast⟩
    · simp only [Decl.relabelAll, hd, hds]
    · simp only [Decl.occurrencesAll, labelled_append]
      exact ⟨hld, hlds⟩

/-! ## Statements -/

/-- The declarations and statements of a block, whatever is made of them. -/
theorem block_keeps {γ : Type} {post : γ → Prop} (path : Origin) (inDecls inStmts : Part)
    {decls : List Decl} {stmts : List Stmt} (make : List Decl → List Stmt → γ)
    (hd : Labelled ok (Decl.occurrencesAll decls))
    (hs : Keeps good (Stmt.analyzeAll path inStmts 0 stmts) fun result =>
      Stmt.relabelAll .forget result = Stmt.relabelAll .forget stmts ∧
        Labelled ok (Stmt.occurrencesAll result))
    (hp : ∀ decls' stmts', Decl.relabelAll .forget decls' = Decl.relabelAll .forget decls →
      Labelled ok (Decl.occurrencesAll decls') →
      Stmt.relabelAll .forget stmts' = Stmt.relabelAll .forget stmts →
      Labelled ok (Stmt.occurrencesAll stmts') → post (make decls' stmts')) :
    Keeps good (do
      let decls ← Decl.analyzeVariables path inDecls 0 decls
      let stmts ← Stmt.analyzeAll path inStmts 0 stmts
      pure (make decls stmts)) post :=
  (Decl.analyzeVariables_keeps hk hc path inDecls hd 0).bind fun _ ⟨hds, hlds⟩ =>
    hs.last fun _ ⟨hss, hlss⟩ => hp _ _ hds hlds hss hlss

omit hk hc

mutual

theorem Stmt.analyze_keeps (hk : Scope.Kept good ok) (hc : Symbol.Closed ok) (path : Origin) :
    ∀ stmt : Stmt, Labelled ok stmt.occurrences →
    Keeps good (stmt.analyze path) fun result =>
      result.relabel .forget = stmt.relabel .forget ∧ Labelled ok result.occurrences
  | .assign expr, h | .increment expr, h | .decrement expr, h | .read expr, h | .write expr, h
  | .call expr, h | .returnValue expr, h =>
    (expr.resolve_keeps hk hc h).last fun _ ⟨⟨he, hl⟩, _⟩ => ⟨by simp only [Stmt.relabel, he], hl⟩
  | .ifThen condition decls stmts, h | .loop condition decls stmts, h => by
    simp only [Stmt.occurrences, labelled_append] at h
    obtain ⟨⟨hcond, hd⟩, hs⟩ := h
    refine (condition.resolve_keeps hk hc hcond).bind fun _ ⟨⟨hr, hlr⟩, _⟩ => .inScope hk.nil ?_
    refine block_keeps hk hc path .decls .stmts _ hd
      (Stmt.analyzeAll_keeps hk hc path .stmts stmts hs 0) fun _ _ hds hlds hss hlss => ⟨?_, ?_⟩
    · simp only [Stmt.relabel, hr, hds, hss]
    · simp only [Stmt.occurrences, labelled_append]
      exact ⟨⟨hlr, hlds⟩, hlss⟩
  | .ifElse condition thenDecls thenStmts elseDecls elseStmts, h => by
    simp only [Stmt.occurrences, labelled_append] at h
    obtain ⟨⟨⟨⟨hcond, htd⟩, hts⟩, hed⟩, hes⟩ := h
    have hthen : Keeps good (do
        let decls ← Decl.analyzeVariables path .decls 0 thenDecls
        let stmts ← Stmt.analyzeAll path .stmts 0 thenStmts
        pure (decls, stmts)) fun result =>
          (Decl.relabelAll .forget result.1 = Decl.relabelAll .forget thenDecls ∧
            Stmt.relabelAll .forget result.2 = Stmt.relabelAll .forget thenStmts) ∧
          Labelled ok (Decl.occurrencesAll result.1) ∧ Labelled ok (Stmt.occurrencesAll result.2) :=
      block_keeps hk hc path .decls .stmts Prod.mk htd
        (Stmt.analyzeAll_keeps hk hc path .stmts thenStmts hts 0)
        fun _ _ hds hlds hss hlss => ⟨⟨hds, hss⟩, hlds, hlss⟩
    refine (condition.resolve_keeps hk hc hcond).bind fun _ ⟨⟨hr, hlr⟩, _⟩ =>
      (hthen.inScope hk.nil).bind fun _ ⟨⟨htd, hts⟩, hltd, hlts⟩ => .inScope hk.nil ?_
    refine block_keeps hk hc path .elseDecls .elseStmts _ hed
      (Stmt.analyzeAll_keeps hk hc path .elseStmts elseStmts hes 0)
      fun _ _ hds hlds hss hlss => ⟨?_, ?_⟩
    · simp only [Stmt.relabel, hr, htd, hts, hds, hss]
    · simp only [Stmt.occurrences, labelled_append]
      exact ⟨⟨⟨⟨hlr, hltd⟩, hlts⟩, hlds⟩, hlss⟩
  | .returnNothing, _ => .pure ⟨rfl, labelled_nil⟩
  | .stray _, h => (fail_keeps _).before ⟨rfl, h⟩

theorem Stmt.analyzeAll_keeps (hk : Scope.Kept good ok) (hc : Symbol.Closed ok) (path : Origin)
    (part : Part) : ∀ stmts : List Stmt,
    Labelled ok (Stmt.occurrencesAll stmts) → ∀ index,
    Keeps good (Stmt.analyzeAll path part index stmts) fun result =>
      Stmt.relabelAll .forget result = Stmt.relabelAll .forget stmts ∧
        Labelled ok (Stmt.occurrencesAll result)
  | [], _, _ => .pure ⟨rfl, labelled_nil⟩
  | stmt :: stmts, h, index => by
    simp only [Stmt.occurrencesAll, labelled_append] at h
    refine (Stmt.analyze_keeps hk hc _ stmt h.1).bind fun _ ⟨hs, hls⟩ =>
      (Stmt.analyzeAll_keeps hk hc path part stmts h.2 (index + 1)).last
        fun _ ⟨hss, hlss⟩ => ⟨?_, ?_⟩
    · simp only [Stmt.relabelAll, hs, hss]
    · simp only [Stmt.occurrencesAll, labelled_append]
      exact ⟨hls, hlss⟩

end

include hk hc

/-! ## Declarations at top level -/

omit hc in
theorem TypeExpr.resolveReturn_keeps {returns : TypeExpr} (h : Labelled ok returns.occurrences) :
    Keeps good returns.resolveReturn fun result =>
      result.relabel .forget = returns.relabel .forget ∧ Labelled ok result.occurrences := by
  cases returns with
  | struct tag =>
    simp only [TypeExpr.occurrences, labelled_cons, Occurrence.symbol] at h
    refine (resolveTag_keeps hk h.1).last fun _ ⟨⟨htag, hl⟩, _⟩ =>
      ⟨congrArg TypeExpr.struct htag, ?_⟩
    simpa [TypeExpr.occurrences, Occurrence.symbol] using hl
  | _ => exact .pure ⟨rfl, h⟩

theorem bindFunction_keeps (origin : Origin) {id : Ident} (hid : ∀ s ∈ id.symbol, ok s)
    (returns : TypeExpr) (formals : List Decl) :
    Keeps good (bindFunction origin id returns formals) fun result =>
      result.relabel .forget = id.relabel .forget ∧ ∀ s ∈ result.symbol, ok s := by
  have hsymbol {symbol : Symbol} (h : functionSymbol origin returns formals = .ok symbol) :
      ∃ name params, symbol = .function origin name params := by
    unfold functionSymbol at h
    cases hp : formals.mapM Decl.formalType with
    | error fault => rw [hp] at h; cases h
    | ok params =>
      rw [hp] at h
      cases hn : returns.name? with
      | none => simp [hn, Bind.bind, Except.bind] at h
      | some name =>
        simp only [hn, Bind.bind, Except.bind, Except.ok.injEq] at h
        exact ⟨name, params, h.symm⟩
  unfold bindFunction
  split
  · next symbol h =>
    obtain ⟨name, params, rfl⟩ := hsymbol h
    refine (bind_keeps hk hid fun _ hscope => hk.enter hscope id ?_).bind fun _ hr =>
      (note_keeps _).before hr
    rintro _ ⟨⟩
    exact ⟨hc.function origin name params, nofun⟩
  · exact (fail_keeps _).before ⟨rfl, hid⟩

/-- A declaration at top level. For the struct type that it may make, it has to be known that it is
`ok` if its members are good. -/
theorem Decl.analyze_keeps (origin : Origin) {decl : Decl} (h : Labelled ok decl.occurrences)
    (hstruct : ∀ tag fields, decl = .struct tag fields → ∀ members, good members →
      ok (.structType (.mk origin tag.name members))) :
    Keeps good (decl.analyze origin) fun result =>
      result.relabel .forget = decl.relabel .forget ∧ Labelled ok result.occurrences := by
  cases decl with
  | var type id => exact Decl.analyzeVariable_keeps hk hc origin h
  | function returns id formals decls stmts =>
    simp only [Decl.occurrences, labelled_append, labelled_cons, Occurrence.symbol] at h
    obtain ⟨⟨⟨hr, hid, hf⟩, hd⟩, hs⟩ := h
    refine (TypeExpr.resolveReturn_keeps hk hr).bind fun returns' ⟨hr, hlr⟩ =>
      (bindFunction_keeps hk hc origin hid returns' formals).bind fun _ ⟨hid, hlid⟩ =>
        .inScope hk.nil ?_
    refine (Decl.analyzeVariables_keeps hk hc origin .formals hf 0).bind fun _ ⟨hf, hlf⟩ => ?_
    refine block_keeps hk hc origin .decls .stmts _ hd
      (Stmt.analyzeAll_keeps hk hc origin .stmts stmts hs 0)
      fun _ _ hds hlds hss hlss => ⟨?_, ?_⟩
    · simp only [Decl.relabel, hr, hid, hf, hds, hss]
    · simp only [Decl.occurrences, labelled_append, labelled_cons, Occurrence.symbol]
      exact ⟨⟨⟨hlr, hlid, hlf⟩, hlds⟩, hlss⟩
  | struct tag fields =>
    simp only [Decl.occurrences, labelled_cons, Occurrence.symbol] at h
    refine (Decl.analyzeFields_keeps hk hc origin h.2 0 hk.nil).bind
      fun result ⟨⟨hf, hlf⟩, hmembers⟩ => ?_
    have hmade : ∀ s ∈ some (Symbol.structType (.mk origin tag.name result.2)),
        ok s ∧ s.Names tag.name := by
      rintro _ ⟨⟩
      exact ⟨hstruct tag fields rfl _ hmembers, by rintro _ ⟨⟩; rfl⟩
    refine (bind_keeps hk h.1 fun _ hscope => hk.enter hscope tag hmade).last
      fun _ ⟨htag, hltag⟩ => ⟨?_, ?_⟩
    · simp only [Decl.relabel, htag, hf]
    · simp only [Decl.occurrences, labelled_cons, Occurrence.symbol]
      exact ⟨hltag, hlf⟩
  | _ => exact (fail_keeps _).before ⟨rfl, h⟩

end Tree

end Moo
