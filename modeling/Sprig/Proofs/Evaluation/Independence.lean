import Sprig.Proofs.Evaluation.Agreement

/-!
What an evaluation does not depend on.

The output printed before stays in front and is looked at by nothing. The limit on calls matters
only to an evaluation that runs into it: one that does not is the same under every higher limit,
down to the identities of its objects. Both come from one pairing, in which the stores are equal but
for a text that the second one has printed before.

The room that a call is given is also only a way of counting. A body may ask the store how many
calls are running instead, which is the equation `Value.apply_closure`.
-/

namespace Sprig

/-- The store, had `text` been printed before everything else. -/
def Store.behind (text : String) (st : Store) : Store :=
  { st with output := text ++ st.output }

theorem Store.behind_empty (st : Store) : st.behind "" = st := by
  rw [behind, String.empty_append]

/-- Objects and scopes stand for themselves. -/
def Matching.self : Matching where
  World := Unit
  Grows _ _ := True
  object _ i j := i = j
  scope _ i j := i = j
  grows_refl _ := trivial
  grows_trans _ _ := trivial
  object_mono _ h := h
  scope_mono _ h := h
  object_iff hi hj := by rw [hi, hj]

namespace Matching

variable {w : self.World}

mutual

theorem Same.refl : ∀ v : Value, self.Same w v v
  | .int n => .int n
  | .str _ s => .str rfl s
  | .bool b => .bool b
  | .null => .null
  | .array _ vs => .array rfl (SameAll.refl vs)
  | .closure _ ⟨params, body, _⟩ => .closure rfl rfl params body
  | .builtin b => .builtin b

theorem SameAll.refl : ∀ vs : List Value, self.SameAll w vs vs
  | [] => .nil
  | v :: vs => .cons (Same.refl v) (SameAll.refl vs)

end

mutual

theorem Same.eq : ∀ {v v' : Value}, self.Same w v v' → v = v'
  | _, _, .int _ | _, _, .str rfl _ | _, _, .bool _ | _, _, .null | _, _, .closure rfl rfl _ _
  | _, _, .builtin _ => rfl
  | _, _, .array rfl hvs => by rw [SameAll.eq hvs]

theorem SameAll.eq : ∀ {vs vs' : List Value}, self.SameAll w vs vs' → vs = vs'
  | _, _, .nil => rfl
  | _, _, .cons hv hvs => by rw [Same.eq hv, SameAll.eq hvs]

end

theorem Same.rel_refl : ∀ shown : Option Value, Option.Rel (self.Same w) shown shown
  | none => .none
  | some v => .some (.refl v)

theorem Same.rel_eq : ∀ {shown shown' : Option Value}, Option.Rel (self.Same w) shown shown' →
    shown = shown'
  | _, _, .none => rfl
  | _, _, .some h => congrArg some h.eq

end Matching

namespace Pairing

/-- The second store is the first one behind `text`. -/
def behind (text : String) (stops escapes : Fault → Prop)
    (hstops : ∀ f : Fault, f.isOverflow = false → stops f) : Pairing where
  toMatching := .self
  store _ st st' := st' = st.behind text
  stops := stops
  escapes := escapes
  stops_of_ordinary := hstops _
  depth_eq h := by rw [h]; rfl
  setDepth d h := by rw [h]; rfl
  write s h := by rw [h]; simp [Store.behind, String.append_assoc]
  get? name h hi := by
    subst h hi
    exact Matching.Same.rel_refl _
  define name h hi hv := by
    subst h hi
    rw [hv.eq]
    rfl
  newObject h := by
    subst h
    exact ⟨(), trivial, rfl, rfl⟩
  newInner h hi := by
    subst h hi
    exact ⟨(), trivial, rfl, rfl⟩

variable {text : String} {stops escapes : Fault → Prop}
  {hstops : ∀ f : Fault, f.isOverflow = false → stops f} {d : Nat} {α : Type}

/-- Unless the first evaluation is given up, the second one ends in the same way, behind `text`. -/
theorem Meets.behind {w : Unit} {A : Unit → α → α → Prop} (hA : ∀ {w a b}, A w a b → a = b)
    {x y : Except Halt α × Store}
    (h : (Pairing.behind text stops escapes hstops).Meets d w A x y) :
    (∃ f, x.1 = .error (.fault f) ∧ escapes f) ∨
      y = (x.1, x.2.behind text) ∧ ∀ f, x.1 = .error (.fault f) → stops f := by
  cases h with
  | value hr h =>
      obtain ⟨-, rfl, -⟩ := hr
      rw [hA h]
      exact .inr ⟨rfl, fun f hf => by cases hf⟩
  | fault hr h =>
      obtain ⟨-, rfl, -⟩ := hr
      exact .inr ⟨rfl, fun f hf => by cases hf; exact h⟩
  | returned hr h =>
      obtain ⟨-, rfl, -⟩ := hr
      rw [h.eq]
      exact .inr ⟨rfl, fun f hf => by cases hf⟩
  | escaped h => exact .inl ⟨_, rfl, h⟩

end Pairing

/-- Every fault is met by both evaluations. -/
abbrev Pairing.always (text : String) : Pairing :=
  .behind text (fun _ => True) (fun _ => False) fun _ _ => trivial

theorem Pairing.Runs.always {text : String} {d : Nat} {α : Type} {A : Unit → α → α → Prop}
    (hA : ∀ {w a b}, A w a b → a = b) {x y : Eval α}
    (h : (Pairing.always text).Runs d () A x y) {st : Store} (hd : st.depth = d) :
    y (st.behind text) = ((x st).1, (x st).2.behind text) := by
  obtain ⟨_, -, hf⟩ | ⟨heq, -⟩ := (h st _ rfl hd).behind hA
  · exact hf.elim
  · exact heq

/-- What was printed before a run is not seen by it. -/
theorem Stmt.shownAll_behind (limit : Nat) (i : ScopeId) (ss : List Stmt) (last : Option Value)
    (text : String) (st : Store) :
    Stmt.shownAll (Value.apply limit) i ss last (st.behind text) =
      ((Stmt.shownAll (Value.apply limit) i ss last st).1,
        (Stmt.shownAll (Value.apply limit) i ss last st).2.behind text) := by
  have hcall : (Pairing.always text).Calls st.depth (Value.apply limit) (Value.apply limit) :=
    Pairing.apply_paired (Nat.le_refl limit) (.inr ⟨trivial, rfl⟩)
  exact (Pairing.stmts_shows hcall ss rfl (Matching.Same.rel_refl last)).always
    Matching.Same.rel_eq rfl

/-- Running statements with the room that is left is running them with the count in the store. -/
theorem Stmt.evalAll_applyWithin (limit : Nat) (i : ScopeId) (ss : List Stmt) (last : Value)
    {d : Nat} {st : Store} (hd : st.depth = d) :
    Stmt.evalAll (Value.applyWithin limit (limit - d)) i ss last st =
      Stmt.evalAll (Value.apply limit) i ss last st := by
  have hcall : (Pairing.always "").Calls d (Value.apply limit)
      (Value.applyWithin limit (limit - d)) := by
    intro w f f' args args' hf hargs st st' hst hd
    rw [Value.apply_eval hd]
    exact Pairing.applyWithin_paired _ _ d (Nat.le_refl _) (.inr ⟨trivial, rfl, rfl⟩) hf hargs
      st st' hst hd
  have h := (Pairing.stmts_runs (i := i) hcall ss rfl (.refl last)).always Matching.Same.eq hd
  rwa [Store.behind_empty, Store.behind_empty] at h

/-- A closure is entered whenever fewer calls than `limit` are running. -/
theorem Value.apply_closure (limit : Nat) (id : ObjectId) (code : Closure) (args : List Value)
    (st : Store) :
    Value.apply limit (.closure id code) args st =
      if code.arity = args.length then
        if st.depth < limit then code.run (Value.apply limit) args st
        else (.error (.stackOverflow limit), st)
      else (.error (.arity code.arity args.length), st) := by
  rw [Value.apply, Value.applyWithin_closure]
  split
  · by_cases hroom : st.depth < limit
    · obtain ⟨less, hless⟩ : ∃ less, limit - st.depth = less + 1 :=
        ⟨limit - (st.depth + 1), by omega⟩
      have hless' : less = limit - (st.depth + 1) := by omega
      rw [if_pos hroom, hless]
      simp only [Closure.run]
      rw [hless', Stmt.evalAll_applyWithin limit _ _ _ (code.depth_enter args st)]
    · rw [if_neg hroom, Nat.sub_eq_zero_of_le (Nat.le_of_not_lt hroom)]
      rfl
  · rfl

/-- The first evaluation is given up when it runs into its limit. -/
abbrev Pairing.guard (limit : Nat) : Pairing :=
  .behind "" (fun f => f.isOverflow = false) (fun f => f = .stackOverflow limit) fun _ h => h

/-- A run under a limit, and one under a limit that is at least as high: the first one runs into its
limit, or both do the same and meet none. -/
theorem Stmt.shownAll_of_limit_le {limit limit' : Nat} (hle : limit ≤ limit') (i : ScopeId)
    (ss : List Stmt) (st : Store) :
    (Stmt.shownAll (Value.apply limit) i ss none st).1 =
        .error (.fault (.stackOverflow limit)) ∨
      Stmt.shownAll (Value.apply limit') i ss none st =
          Stmt.shownAll (Value.apply limit) i ss none st ∧
        ∀ n, (Stmt.shownAll (Value.apply limit) i ss none st).1 ≠
          .error (.fault (.stackOverflow n)) := by
  have hcall : (Pairing.guard limit).Calls st.depth (Value.apply limit) (Value.apply limit') :=
    Pairing.apply_paired hle (.inl rfl)
  have hruns : (Pairing.guard limit).Runs st.depth () (Pairing.Shows _)
      (Stmt.shownAll (Value.apply limit) i ss none)
      (Stmt.shownAll (Value.apply limit') i ss none) :=
    Pairing.stmts_shows hcall ss rfl (Matching.Same.rel_refl none)
  obtain ⟨f, hf, rfl⟩ | ⟨heq, hf⟩ := (hruns st _ rfl rfl).behind Matching.Same.rel_eq
  · exact .inl hf
  · rw [Store.behind_empty, Store.behind_empty] at heq
    refine .inr ⟨heq, fun n hn => ?_⟩
    cases hf _ hn

/-- What may be said of `out'`, which a higher limit leads to, when `limit` leads to `out`. -/
structure Guarded {α : Type} (limit : Nat) (out out' : Except Fault α × Store) : Prop where
  eq_of_fits : (∀ n, out.1 ≠ .error (.stackOverflow n)) → out' = out
  limit_of_overflow : ∀ n, out.1 = .error (.stackOverflow n) → n = limit

theorem Guarded.map {α β : Type} {limit : Nat} {x y : Step α} {st : Store}
    (h : Guarded limit (x st) (y st)) (f : α → β) :
    Guarded limit ((f <$> x) st) ((f <$> y) st) := by
  rw [Run.map_apply, Run.map_apply]
  have hiff : ∀ n, (x st).1.map f = .error (.stackOverflow n) ↔
      (x st).1 = .error (.stackOverflow n) := by
    intro n
    cases (x st).1 <;> simp [Except.map]
  constructor
  · intro hfits
    rw [h.eq_of_fits fun n hn => hfits n ((hiff n).2 hn)]
  · intro n hn
    exact h.limit_of_overflow n ((hiff n).1 hn)

theorem Program.shown_guarded {limit limit' : Nat} (hle : limit ≤ limit') (i : ScopeId)
    (p : Program) (st : Store) : Guarded limit (p.shown limit i st) (p.shown limit' i st) := by
  have hrun := Stmt.shownAll_of_limit_le hle i p.statements st
  rw [Program.shown, Program.shown]
  generalize Stmt.shownAll (Value.apply limit) i p.statements none st = out at hrun ⊢
  obtain ⟨r, st'⟩ := out
  obtain rfl | ⟨heq, hfits⟩ := hrun
  · exact ⟨fun h => absurd rfl (h limit), fun n hn => by cases hn; rfl⟩
  · rw [heq]
    refine ⟨fun _ => rfl, fun n hn => ?_⟩
    obtain (f | v) | shown := r
    · cases hn
      exact absurd rfl (hfits n)
    · cases hn
    · cases hn

/-- Evaluation under a limit gives a value, a fault, a store and an output that every higher limit
gives too, unless it runs into the limit; the fault then names this limit. -/
theorem limit_only_guards (limit limit' : Nat) (hle : limit ≤ limit') (i : ScopeId) (p : Program)
    (st : Store) :
    Guarded limit (p.eval limit i st) (p.eval limit' i st) ∧
      Guarded limit (p.shown limit i st) (p.shown limit' i st) := by
  have hshown := p.shown_guarded hle i st
  exact ⟨hshown.map Value.orNull, hshown⟩

/-- `let f = fn(n) { if (n == 0) { n } else { f(n - 1) } }; f(1)` nests two calls. So every limit
from 2 on does as 2 does, and 1 is too low and says so. -/
theorem limit_only_guards_nested :
    let body : Block := [.expr (.cond (.binary .eq (.ident "n") (.int 0)) [.expr (.ident "n")]
      (some [.expr (.call (.ident "f") [.binary .sub (.ident "n") (.int 1)])]))]
    let p : Program := ⟨[.bind "f" (.function ["n"] body), .expr (.call (.ident "f") [.int 1])]⟩
    let st := Store.empty.newRoot.2
    2 ≤ 9 ∧ (p.eval 2 0 st).1 = .ok (.int 0) ∧ p.eval 9 0 st = p.eval 2 0 st ∧
      ∃ n, (p.eval 1 0 st).1 = .error (.stackOverflow n) ∧ n = 1 := by
  intro body p st
  have hfits : (p.eval 2 0 st).1 = .ok (.int 0) := rfl
  refine ⟨by decide, hfits, ?_, 1, rfl, ?_⟩
  · refine (limit_only_guards 2 9 (by decide) 0 p st).1.eq_of_fits ?_
    intro n hn
    rw [hfits] at hn
    cases hn
  · exact (limit_only_guards 1 9 (by decide) 0 p st).1.limit_of_overflow 1 rfl

end Sprig
