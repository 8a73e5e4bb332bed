import Sprig.Proofs.Evaluation.Independence
import Sprig.Session

/-!
What stops a part stops the whole.

A `Context` is a tree with an open place that evaluation reaches from left to right without entering
the body of a function. `Context.arrives` evaluates what stands before the open place. Once there, a
fault or a return in the open place is the end of the whole, and the store is left as it is. Only a
call and a program look at what stopped them: they pass a fault on, and take a return for their
value.
-/

namespace Sprig

/-- What can stand in an open place. -/
inductive Category
  | expr | stmt | block

namespace Category

abbrev Tree : Category → Type
  | expr => Expr
  | stmt => Stmt
  | block => Block

def eval (call : Applier) (i : ScopeId) : (c : Category) → c.Tree → Eval Value
  | expr, e => e.eval call i
  | stmt, s => s.eval call i
  | block, ss => Stmt.evalAll call i ss .null

end Category

/-- A construct with an open place directly in it. The first category is that of the open place, the
second one that of the construct. -/
inductive Layer : Category → Category → Type
  | operand (op : UnaryOp) : Layer .expr .expr
  | left (op : BinaryOp) (right : Expr) : Layer .expr .expr
  | right (op : BinaryOp) (left : Expr) : Layer .expr .expr
  | subject (position : Expr) : Layer .expr .expr
  | position (subject : Expr) : Layer .expr .expr
  | item (before after : List Expr) : Layer .expr .expr
  | callee (args : List Expr) : Layer .expr .expr
  | argument (callee : Expr) (before after : List Expr) : Layer .expr .expr
  | test (yes : Block) (no : Option Block) : Layer .expr .expr
  | yes (test : Expr) (no : Option Block) : Layer .block .expr
  | no (test : Expr) (yes : Block) : Layer .block .expr
  | bound (name : String) : Layer .expr .stmt
  | returned : Layer .expr .stmt
  | bare : Layer .expr .stmt
  | body : Layer .block .stmt
  | statement (before after : List Stmt) : Layer .stmt .block

/-- Layers one inside of the other, the outermost first, with an open place of category `a`. -/
inductive Context (a : Category) : Category → Type
  | here : Context a a
  | under {b c : Category} (layer : Layer b c) (inner : Context a b) : Context a c

variable {a b c : Category}

namespace Layer

def fill : {a b : Category} → Layer a b → a.Tree → b.Tree
  | _, _, operand op, e => .unary op e
  | _, _, left op f, e => .binary op e f
  | _, _, right op d, e => .binary op d e
  | _, _, subject f, e => .index e f
  | _, _, position d, e => .index d e
  | _, _, item before after, e => .array (before ++ e :: after)
  | _, _, callee args, e => .call e args
  | _, _, argument d before after, e => .call d (before ++ e :: after)
  | _, _, test ss ts, e => .cond e ss ts
  | _, _, yes d ts, ss => .cond d ss ts
  | _, _, no d ss, ts => .cond d ss (some ts)
  | _, _, bound name, e => .bind name e
  | _, _, returned, e => .ret e
  | _, _, bare, e => .expr e
  | _, _, body, ss => .block ss
  | _, _, statement before after, s => before ++ s :: after

/-- Evaluate what stands before the open place, and say whether the open place is next. It is not
where a conditional takes its other branch. -/
def arrives (call : Applier) (i : ScopeId) : {a b : Category} → Layer a b → Eval Bool
  | _, _, right _ d | _, _, position d => do
    let _ ← d.eval call i
    return true
  | _, _, item before _ => do
    let _ ← Expr.evalAll call i before
    return true
  | _, _, argument d before _ => do
    let _ ← d.eval call i
    let _ ← Expr.evalAll call i before
    return true
  | _, _, yes d _ => do
    let v ← d.eval call i
    return v.isTruthy
  | _, _, no d _ => do
    let v ← d.eval call i
    return !v.isTruthy
  | _, _, statement before _ => do
    let _ ← Stmt.evalAll call i before .null
    return true
  | _, _, operand _ | _, _, left _ _ | _, _, subject _ | _, _, callee _ | _, _, test _ _
  | _, _, bound _ | _, _, returned | _, _, bare | _, _, body => pure true

end Layer

namespace Context

def fill : {c : Category} → Context a c → a.Tree → c.Tree
  | _, here, t => t
  | _, under layer inner, t => layer.fill (inner.fill t)

def arrives (call : Applier) (i : ScopeId) : {c : Category} → Context a c → Eval Bool
  | _, here => pure true
  | _, under layer inner => do
    if ← layer.arrives call i then inner.arrives call i else return false

end Context

variable {call : Applier} {i : ScopeId} {st s s' : Store} {x : Halt}

theorem Expr.evalAll_append (es fs : List Expr) :
    Expr.evalAll call i (es ++ fs) = do
      let vs ← Expr.evalAll call i es
      let us ← Expr.evalAll call i fs
      return vs ++ us := by
  induction es with
  | nil => simp [Expr.evalAll]
  | cons e es ih => simp [Expr.evalAll, ih]

theorem Stmt.evalAll_append (ss ts : List Stmt) (last : Value) :
    Stmt.evalAll call i (ss ++ ts) last =
      Stmt.evalAll call i ss last >>= fun v => Stmt.evalAll call i ts v := by
  induction ss generalizing last with
  | nil => simp [Stmt.evalAll]
  | cons s ss ih => simp [Stmt.evalAll, ih]

/-- The items before the one that stops have been evaluated, and no other. -/
theorem Expr.evalAll_of_error {before : List Expr} {vs : List Value} {e : Expr}
    (hb : Expr.evalAll call i before st = (.ok vs, s)) (he : e.eval call i s = (.error x, s'))
    (after : List Expr) : Expr.evalAll call i (before ++ e :: after) st = (.error x, s') := by
  rw [Expr.evalAll_append, Run.bind_of_ok hb, Expr.evalAll, bind_assoc]
  exact Run.bind_of_error he _

theorem Stmt.evalAll_of_error {before : List Stmt} {last v : Value} {t : Stmt}
    (hb : Stmt.evalAll call i before last st = (.ok v, s))
    (ht : t.eval call i s = (.error x, s')) (after : List Stmt) :
    Stmt.evalAll call i (before ++ t :: after) last st = (.error x, s') := by
  rw [Stmt.evalAll_append, Run.bind_of_ok hb, Stmt.evalAll]
  exact Run.bind_of_error ht _

/-- A branch is evaluated once the test has chosen it. -/
theorem Expr.eval_cond {d : Expr} {v : Value} (hd : d.eval call i st = (.ok v, s)) (ss : Block)
    (ts : Option Block) :
    (Expr.cond d ss ts).eval call i st =
      if v.isTruthy then Stmt.evalAll call i ss .null s
      else match ts with
        | some ts => Stmt.evalAll call i ts .null s
        | none => (.ok .null, s) := by
  cases ts <;> rw [Expr.eval, Run.bind_of_ok hd] <;> split <;> rfl

/-- One layer passes on what stops the open place. -/
theorem Layer.eval_of_error (layer : Layer a b) {t : a.Tree}
    (ha : layer.arrives call i st = (.ok true, s)) (ht : a.eval call i t s = (.error x, s')) :
    b.eval call i (layer.fill t) st = (.error x, s') := by
  cases layer with
  | operand | left | subject | callee | bound | returned =>
      cases ha
      exact Run.bind_of_error ht _
  | bare | body =>
      cases ha
      exact ht
  | test ss ts =>
      cases ha
      cases ts <;> exact Run.bind_of_error ht _
  | right | position =>
      obtain ⟨v, s₁, hd, ha⟩ := Run.bind_eq_ok.1 ha
      cases ha
      exact (Run.bind_of_ok hd _).trans (Run.bind_of_error ht _)
  | item before after =>
      obtain ⟨vs, s₁, hb, ha⟩ := Run.bind_eq_ok.1 ha
      cases ha
      exact Run.bind_of_error (Expr.evalAll_of_error hb ht after) _
  | argument d before after =>
      obtain ⟨v, s₁, hd, ha⟩ := Run.bind_eq_ok.1 ha
      obtain ⟨vs, s₂, hb, ha⟩ := Run.bind_eq_ok.1 ha
      cases ha
      exact (Run.bind_of_ok hd _).trans
        (Run.bind_of_error (Expr.evalAll_of_error hb ht after) _)
  | yes d ts =>
      obtain ⟨v, s₁, hd, ha⟩ := Run.bind_eq_ok.1 ha
      obtain ⟨hv, rfl⟩ : v.isTruthy = true ∧ s₁ = s := by simpa using ha
      exact (Expr.eval_cond hd t ts).trans ((if_pos hv).trans ht)
  | no d ss =>
      obtain ⟨v, s₁, hd, ha⟩ := Run.bind_eq_ok.1 ha
      obtain ⟨hv, rfl⟩ : v.isTruthy = false ∧ s₁ = s := by simpa using ha
      exact (Expr.eval_cond hd ss (some t)).trans ((if_neg (by simp [hv])).trans ht)
  | statement before after =>
      obtain ⟨v, s₁, hb, ha⟩ := Run.bind_eq_ok.1 ha
      cases ha
      exact Stmt.evalAll_of_error hb ht after

/-- So do any number of layers. -/
theorem Context.eval_of_error (C : Context a c) {t : a.Tree}
    (ha : C.arrives call i st = (.ok true, s)) (ht : a.eval call i t s = (.error x, s')) :
    c.eval call i (C.fill t) st = (.error x, s') := by
  induction C generalizing st with
  | here =>
      cases ha
      exact ht
  | under layer inner ih =>
      obtain ⟨reached, s₁, hlayer, ha⟩ := Run.bind_eq_ok.1 ha
      cases reached with
      | true => exact layer.eval_of_error hlayer (ih ha)
      | false => cases ha

/-- From `st` the evaluation arrives in the open place, where `x` stops `t`, which leaves `s`. -/
def Context.Stopped (C : Context a c) (limit : Nat) (i : ScopeId) (t : a.Tree) (x : Halt)
    (st s : Store) : Prop :=
  ∃ s₀, C.arrives (Value.apply limit) i st = (.ok true, s₀) ∧
    a.eval (Value.apply limit) i t s₀ = (.error x, s)

/-- What is made of it where a body or a program is stopped. -/
def Halt.outcome : Halt → Except Fault Value
  | .fault f => .error f
  | .returned v => .ok v

theorem Halt.settle_error (x : Halt) : Halt.settle (.error x) = x.outcome := by
  cases x <;> rfl

/-- The answer `y` is what a caller may make of the outcome `r` of a body: it fails as the body does
and not by a return, and its value is the one that the body ends with or returns. -/
structure Halt.Caught (r : Except Halt Value) (y : Except Fault Value) : Prop where
  fault_iff : ∀ f, y = .error f ↔ r = .error (.fault f)
  value_iff : ∀ v, y = .ok v ↔ r = .ok v ∨ r = .error (.returned v)

theorem Halt.caught_settle (r : Except Halt Value) : Caught r (settle r) := by
  rcases r with (f | v) | v <;> constructor <;> simp [settle]

section

variable {limit : Nat} {r : Except Halt Value}

theorem Closure.caught {code : Closure} {args : List Value} (id : ObjectId)
    (harity : code.arity = args.length) (hroom : st.depth < limit)
    (h : Stmt.evalAll (Value.apply limit) (code.enter args st).1 code.body .null
      (code.enter args st).2 = (r, s)) :
    Halt.Caught r (Value.apply limit (.closure id code) args st).1 := by
  rw [Value.apply_closure, if_pos harity, if_pos hroom, Closure.run]
  simp only [h]
  exact Halt.caught_settle r

theorem Program.caught {p : Program}
    (h : Stmt.evalAll (Value.apply limit) i p.statements .null st = (r, s)) :
    Halt.Caught r (p.eval limit i st).1 := by
  rw [p.eval_eq_settle, h]
  exact Halt.caught_settle r

/-- What a program shows is told from its value only when it is not stopped. -/
theorem Program.shown_caught {p : Program}
    (h : Stmt.evalAll (Value.apply limit) i p.statements .null st = (r, s)) :
    ∃ y, p.shown limit i st = (y, s) ∧ (∀ f, y = .error f ↔ r = .error (.fault f)) ∧
      ∀ v, r = .error (.returned v) → y = .ok (some v) := by
  rw [Stmt.evalAll_null, Run.map_apply] at h
  rw [Program.shown]
  generalize Stmt.shownAll (Value.apply limit) i p.statements none st = out at h ⊢
  rcases out with ⟨(f | v) | o, s₁⟩ <;> cases h <;> simp [Except.map]

theorem Session.caught {root : ScopeId} {source : String}
    (hclean : (Parsed.ofText source).isClean)
    (h : Stmt.evalAll (Value.apply limit) root (Parsed.ofText source).program.statements .null st =
      (r, s)) :
    (∀ f, (Session.run ⟨limit, root, st⟩ source).1.result = .error (.fault f) ↔
        r = .error (.fault f)) ∧
      ∀ v, r = .error (.returned v) →
        (Session.run ⟨limit, root, st⟩ source).1.result = .ok (some v) := by
  obtain ⟨y, hy, hfault, hreturned⟩ := Program.shown_caught h
  rw [Session.run_of_clean _ hclean]
  simp only [hy]
  refine ⟨fun f => ?_, fun v hr => ?_⟩
  · rw [← hfault f]
    cases y with
    | error g => exact ⟨fun h => by cases h; rfl, fun h => by cases h; rfl⟩
    | ok v => exact ⟨nofun, nofun⟩
  · rw [hreturned v hr]
    rfl

end

namespace Context.Stopped

variable {limit : Nat} {t : a.Tree}

theorem eval {C : Context a c} (h : C.Stopped limit i t x st s) :
    c.eval (Value.apply limit) i (C.fill t) st = (.error x, s) := by
  obtain ⟨s₀, ha, ht⟩ := h
  exact C.eval_of_error ha ht

/-- A call ends with its body. -/
theorem apply {C : Context a .block} {code : Closure} {args : List Value} (id : ObjectId)
    (hcode : code.body = C.fill t) (harity : code.arity = args.length) (hroom : st.depth < limit)
    (h : C.Stopped limit (code.enter args st).1 t x (code.enter args st).2 s) :
    Value.apply limit (.closure id code) args st =
      (x.outcome, { s with depth := s.depth - 1 }) := by
  have hbody : Stmt.evalAll _ _ _ _ _ = _ := h.eval
  rw [← hcode] at hbody
  rw [Value.apply_closure, if_pos harity, if_pos hroom, Closure.run]
  simp only [hbody, Halt.settle_error]

theorem program {C : Context a .block} (h : C.Stopped limit i t x st s) :
    Program.eval limit i ⟨C.fill t⟩ st = (x.outcome, s) := by
  have hbody : Stmt.evalAll _ _ _ _ _ = _ := h.eval
  rw [Program.eval_eq_settle, hbody, Halt.settle_error]

theorem shown {C : Context a .block} (h : C.Stopped limit i t x st s) :
    Program.shown limit i ⟨C.fill t⟩ st = (x.outcome.map some, s) := by
  obtain ⟨y, hy, hfault, hreturned⟩ := Program.shown_caught (p := ⟨C.fill t⟩) h.eval
  rw [hy]
  cases x with
  | fault f => rw [(hfault f).2 rfl]; rfl
  | returned v => rw [hreturned v rfl]; rfl

theorem session {C : Context a .block} {session : Session} {source : String}
    (hclean : (Parsed.ofText source).isClean)
    (hfill : (Parsed.ofText source).program.statements = C.fill t)
    (h : C.Stopped session.limit session.root t x session.store s) :
    session.run source =
      ({ result := (x.outcome.map some).mapError .fault, output := s.output },
        { session with store := { s with output := "" } }) := by
  have hprogram : (Parsed.ofText source).program = ⟨C.fill t⟩ := by rw [← hfill]
  rw [session.run_of_clean hclean, hprogram]
  simp only [h.shown]
  rfl

end Context.Stopped

/-- The text starts with `c`. -/
def Text.Begins (c : Char) (s : String) : Prop := s.toList.head? = some c

theorem Text.Begins.append {c : Char} {s t : String} (h : Begins c s) : Begins c (s ++ t) := by
  rw [Begins, String.toList_append, List.head?_append, h]
  rfl

/-- No fault reads like a return that nothing caught. -/
theorem Fault.message_ne_returned (f : Fault) (v : Value) :
    f.message ≠ (Halt.returned v).message := by
  have hreturned : Text.Begins 'c' (Halt.returned v).message := .append (.append rfl)
  have hfault : ∃ c, Text.Begins c f.message ∧ c ≠ 'c' := by
    cases f with
    | divisionByZero => exact ⟨_, rfl, by decide⟩
    | undefined | notCallable | negateOverflow | stackOverflow =>
        exact ⟨_, .append rfl, by decide⟩
    | unknownUnary => exact ⟨_, .append (.append rfl), by decide⟩
    | arity => exact ⟨_, .append (.append (.append rfl)), by decide⟩
    | notIndexable => exact ⟨_, .append (.append (.append (.append rfl))), by decide⟩
    | typeMismatch | unknownBinary | overflow =>
        exact ⟨_, .append (.append (.append (.append (.append rfl)))), by decide⟩
    | builtin b cause => cases b <;> exact ⟨_, .append (.append rfl), by decide⟩
  intro h
  obtain ⟨c, hc, hne⟩ := hfault
  rw [h, Text.Begins, hreturned] at hc
  exact hne (Option.some.inj hc).symm

/-- What stops a part stops every construct around it, and leaves the store as it is, up to the body
of the function or the program. There a fault goes on, and a return is the value: of the call, which
then counts as left, or of the program. However a body ends, no caller gets to see a return: it sees
a fault only if the body was stopped by that fault, and no fault reads like a return. -/
theorem first_halt_wins (limit : Nat) {a : Category} (t : a.Tree) (x : Halt) (s : Store) :
    (∀ (c : Category) (C : Context a c) (i : ScopeId) (st : Store), C.Stopped limit i t x st s →
        c.eval (Value.apply limit) i (C.fill t) st = (.error x, s)) ∧
      (∀ (C : Context a .block) (id : ObjectId) (code : Closure) (args : List Value) (st : Store),
        code.body = C.fill t → code.arity = args.length → st.depth < limit →
        C.Stopped limit (code.enter args st).1 t x (code.enter args st).2 s →
          Value.apply limit (.closure id code) args st =
            (x.outcome, { s with depth := s.depth - 1 })) ∧
      (∀ (C : Context a .block) (i : ScopeId) (st : Store), C.Stopped limit i t x st s →
        Program.eval limit i ⟨C.fill t⟩ st = (x.outcome, s)) ∧
      (∀ (C : Context a .block) (root : ScopeId) (st : Store) (source : String),
        (Parsed.ofText source).isClean →
        (Parsed.ofText source).program.statements = C.fill t → C.Stopped limit root t x st s →
          Session.run ⟨limit, root, st⟩ source =
            (⟨(x.outcome.map some).mapError .fault, s.output⟩,
              ⟨limit, root, { s with output := "" }⟩)) ∧
      (∀ (id : ObjectId) (code : Closure) (args : List Value) (st s' : Store)
          (r : Except Halt Value), code.arity = args.length → st.depth < limit →
        Stmt.evalAll (Value.apply limit) (code.enter args st).1 code.body .null
            (code.enter args st).2 = (r, s') →
          Halt.Caught r (Value.apply limit (.closure id code) args st).1) ∧
      (∀ (i : ScopeId) (p : Program) (st s' : Store) (r : Except Halt Value),
        Stmt.evalAll (Value.apply limit) i p.statements .null st = (r, s') →
          Halt.Caught r (p.eval limit i st).1) ∧
      (∀ (root : ScopeId) (source : String) (st s' : Store) (r : Except Halt Value),
        (Parsed.ofText source).isClean →
        Stmt.evalAll (Value.apply limit) root (Parsed.ofText source).program.statements .null st =
            (r, s') →
          (∀ f, (Session.run ⟨limit, root, st⟩ source).1.result = .error (.fault f) ↔
              r = .error (.fault f)) ∧
            ∀ v, r = .error (.returned v) →
              (Session.run ⟨limit, root, st⟩ source).1.result = .ok (some v)) ∧
      ∀ (f : Fault) (v : Value), f.message ≠ (Halt.returned v).message := by
  refine ⟨fun c C i st h => h.eval, fun C id code args st hcode harity hroom h => ?_,
    fun C i st h => h.program, fun C root st source hclean hfill h => ?_,
    fun id code args st s' r harity hroom h => ?_, fun i p st s' r h => Program.caught h,
    fun root source st s' r hclean h => Session.caught hclean h, Fault.message_ne_returned⟩
  · exact h.apply id hcode harity hroom
  · exact h.session hclean hfill
  · exact Closure.caught id harity hroom h

/-- In `fn() { let y = len(if (true) { return 7; 1 }); 9 }` the return leaves a branch, an argument
and a binding behind, of which nothing is finished. -/
theorem first_halt_wins_nested :
    let branch : Context .stmt .expr :=
      .under (.yes (.bool true) none) (.under (.statement [] [.expr (.int 1)]) .here)
    let C : Context .stmt .block := .under (.statement [] [.expr (.int 9)])
      (.under (.bound "y") (.under (.argument (.ident "len") [] []) branch))
    let code : Closure := ⟨[], C.fill (.ret (.int 7)), 0⟩
    let st := Store.empty.newRoot.2
    code.arity = ([] : List Value).length ∧ st.depth < 3 ∧ ∃ s, s.names 1 = [] ∧
      C.Stopped 3 1 (.ret (.int 7)) (.returned (.int 7)) (code.enter [] st).2 s ∧
      Value.apply 3 (.closure 0 code) [] st = (.ok (.int 7), { s with depth := s.depth - 1 }) := by
  intro branch C code st
  have hstopped : C.Stopped 3 1 (.ret (.int 7)) (.returned (.int 7)) (code.enter [] st).2
      (code.enter [] st).2 := ⟨_, rfl, rfl⟩
  refine ⟨rfl, by decide, _, rfl, hstopped, ?_⟩
  exact (first_halt_wins 3 _ _ _).2.1 C 0 code [] st rfl rfl (by decide) hstopped

end Sprig
