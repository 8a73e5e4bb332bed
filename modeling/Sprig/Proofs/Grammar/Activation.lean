import Sprig.Proofs.Grammar.Nesting
import Sprig.Proofs.Grammar.Routine

/-!
What the plans of the grammar come to, and what they start.

A plan ends if all that it starts ends, and each routine that it starts is an activation of its own,
at the place that has been reached by then. Both are relations, defined along the plans and without
any bound. For each routine there is one lemma on what its plan can start. Most start nothing before
they have taken a token, and from then on only parts of an expression; so the one thing to follow
through the forms of expressions is that they stay under the number of tokens they began with.
-/

namespace Sprig

/-- A routine that has been started with the cursor at some place. -/
structure Activation where
  routine : Routine
  cursor : Cursor

/-- From `c` to `d` tokens have been passed, or the position is still the same. -/
def Cursor.Onward (c d : Cursor) : Prop :=
  d.rest.length < c.rest.length ∨ d.rest = c.rest ∧ d.depth = c.depth

theorem Cursor.Onward.trans {c d e : Cursor} (h : c.Onward d) (h' : d.Onward e) : c.Onward e := by
  rcases h with h | ⟨hr, hd⟩
  · rcases h' with h' | ⟨hr, -⟩
    · exact .inl (Nat.lt_trans h' h)
    · exact .inl (by rwa [hr])
  · rwa [Onward, hr, hd] at h'

theorem Cursor.onward_advance (c : Cursor) : c.Onward c.advance := by
  cases hr : c.rest with
  | nil => exact .inr (by simp [advance, hr])
  | cons t ts => exact .inl (by simp [hr])

namespace Plan

variable {α β : Type}

/-- From `c` the plan comes to an end, with `x`. A plan that goes on forever has no such end. -/
inductive Ends : {α : Type} → Plan α → Cursor → Option α × Cursor → Prop
  | stop {α : Type} (tree : Option α) (c : Cursor) : Ends (.stop tree) c (tree, c)
  | look {α : Type} {next : Cursor → Plan α} {c : Cursor} {x : Option α × Cursor}
      (h : Ends (next c) c x) : Ends (.look next) c x
  | move {α : Type} {next : Plan α} {c : Cursor} {x : Option α × Cursor}
      (h : Ends next c.advance x) : Ends (.move next) c x
  | record {α : Type} {d : Diagnostic} {next : Plan α} {c : Cursor} {x : Option α × Cursor}
      (h : Ends next (c.record d) x) : Ends (.record d next) c x
  | drop {α : Type} {next : Plan α} {c : Cursor} {x : Option α × Cursor}
      (h : Ends next { c with dropped := c.dropped + 1 } x) : Ends (.drop next) c x
  | start {α : Type} {g : Routine} {next : Option g.Tree → Plan α} {c : Cursor}
      {y : Option g.Tree × Cursor} {x : Option α × Cursor} (hg : Ends g.plan c y)
      (h : Ends (next y.1) y.2 x) : Ends (.start g next) c x

/-- From `c` the plan starts the activation `a`, not counting what is started in its turn by what
the plan starts. -/
inductive Starts : Plan α → Cursor → Activation → Prop
  | here {g : Routine} {next : Option g.Tree → Plan α} {c : Cursor} :
      Starts (.start g next) c ⟨g, c⟩
  | later {g : Routine} {next : Option g.Tree → Plan α} {c : Cursor} {y : Option g.Tree × Cursor}
      {a : Activation} (hg : g.plan.Ends c y) (h : Starts (next y.1) y.2 a) :
      Starts (.start g next) c a
  | look {next : Cursor → Plan α} {c : Cursor} {a : Activation} (h : Starts (next c) c a) :
      Starts (.look next) c a
  | move {next : Plan α} {c : Cursor} {a : Activation} (h : Starts next c.advance a) :
      Starts (.move next) c a
  | record {d : Diagnostic} {next : Plan α} {c : Cursor} {a : Activation}
      (h : Starts next (c.record d) a) : Starts (.record d next) c a
  | drop {next : Plan α} {c : Cursor} {a : Activation}
      (h : Starts next { c with dropped := c.dropped + 1 } a) : Starts (.drop next) c a

theorem Ends.onward {s : Plan α} {c : Cursor} {x : Option α × Cursor} (h : s.Ends c x) :
    c.Onward x.2 := by
  induction h with
  | stop => exact .inr ⟨rfl, rfl⟩
  | look _ ih | record _ ih | drop _ ih => exact ih
  | move _ ih => exact (Cursor.onward_advance _).trans ih
  | start _ _ ihg ih => exact ihg.trans ih

theorem Ends.length_le {s : Plan α} {c : Cursor} {x : Option α × Cursor} (h : s.Ends c x) :
    x.2.rest.length ≤ c.rest.length := by
  rcases h.onward with h | ⟨h, -⟩
  · exact Nat.le_of_lt h
  · exact Nat.le_of_eq (congrArg List.length h)

theorem Ends.unique {s : Plan α} {c : Cursor} {x y : Option α × Cursor} (h : s.Ends c x)
    (h' : s.Ends c y) : x = y := by
  induction h with
  | stop tree c => cases h'; rfl
  | look _ ih | move _ ih | record _ ih | drop _ ih =>
      cases h' with
      | _ h' => exact ih h'
  | start _ _ ihg ih =>
      cases h' with
      | start hg' h' =>
          cases ihg hg'
          exact ih h'

/-- A plan comes to what it evaluates to, if all that it starts does. -/
theorem ends_eval {H : (g : Routine) → Parser g.Tree} (s : Plan α) (c : Cursor)
    (h : ∀ a, s.Starts c a → a.routine.plan.Ends a.cursor (H a.routine a.cursor)) :
    s.Ends c (s.eval H c) := by
  induction s generalizing c with
  | stop tree => exact .stop tree c
  | look next ih => exact .look (ih c c fun a ha => h a (.look ha))
  | move next ih => exact .move (ih _ fun a ha => h a (.move ha))
  | record d next ih => exact .record (ih _ fun a ha => h a (.record ha))
  | drop next ih => exact .drop (ih _ fun a ha => h a (.drop ha))
  | start g next ih =>
      have hg := h ⟨g, c⟩ .here
      exact .start hg (ih _ _ fun a ha => h a (.later hg ha))

theorem Ends.of_expect {k : Kind} {c d : Cursor} {u : Unit} (h : (expect k).Ends c (some u, d)) :
    c.peek = k ∧ d = c.advance := by
  cases h with
  | look h =>
      dsimp only at h
      split at h
      · next hk =>
          cases h with
          | move h =>
              cases h
              exact ⟨hk, rfl⟩
      · cases h with
        | record h => cases h

/-- What is started by a plan that goes on is started before or after the first part has ended. -/
theorem Starts.of_bind {s : Plan α} {f : α → Plan β} {c : Cursor} {a : Activation}
    (h : (s >>= f).Starts c a) :
    s.Starts c a ∨ ∃ v d, s.Ends c (some v, d) ∧ (f v).Starts d a := by
  replace h : (s.bind f).Starts c a := h
  induction s generalizing c with
  | stop tree =>
      cases tree with
      | none => cases h
      | some v => exact .inr ⟨v, c, .stop _ c, h⟩
  | look next ih =>
      cases h with
      | look h => exact (ih c h).imp .look fun ⟨v, d, he, hf⟩ => ⟨v, d, .look he, hf⟩
  | move next ih =>
      cases h with
      | move h => exact (ih h).imp .move fun ⟨v, d, he, hf⟩ => ⟨v, d, .move he, hf⟩
  | record m next ih =>
      cases h with
      | record h => exact (ih h).imp .record fun ⟨v, d, he, hf⟩ => ⟨v, d, .record he, hf⟩
  | drop next ih =>
      cases h with
      | drop h => exact (ih h).imp .drop fun ⟨v, d, he, hf⟩ => ⟨v, d, .drop he, hf⟩
  | start g next ih =>
      cases h with
      | here => exact .inl .here
      | later hg h =>
          exact (ih _ h).imp (.later hg) fun ⟨v, d, he, hf⟩ => ⟨v, d, .start hg he, hf⟩

variable {c : Cursor} {a : Activation}

/-- A plan that first looks at the cursor starts what it goes on to start from there. -/
theorem Starts.observe {o : Cursor → β} {f : β → Plan α}
    (h : ((Plan.look fun c => pure (o c)) >>= f).Starts c a) : (f (o c)).Starts c a := by
  cases h with
  | look h => exact h

theorem Starts.of_advance {f : Unit → Plan α} (h : (Plan.advance >>= f).Starts c a) :
    (f ()).Starts c.advance a := by
  cases h with
  | move h => exact h

theorem Starts.of_attempt {g : Routine} {f : Option g.Tree → Plan α}
    (h : (Plan.attempt g >>= f).Starts c a) :
    a = ⟨g, c⟩ ∨ ∃ r d, g.plan.Ends c (r, d) ∧ (f r).Starts d a := by
  cases h with
  | here => exact .inl rfl
  | later hg h => exact .inr ⟨_, _, hg, h⟩

theorem Starts.of_run {g : Routine} (h : (Plan.run g).Starts c a) : a = ⟨g, c⟩ := by
  cases h with
  | here => rfl
  | later _ h => cases h

theorem Starts.not_ite_advance {q : Prop} [Decidable q] {s : Plan Unit} (hs : ¬ s.Starts c a) :
    ¬ (if q then Plan.advance else s).Starts c a := by
  intro h
  split at h
  · cases h with
    | move h => cases h
  · exact hs h

theorem Starts.not_expect {k : Kind} : ¬ (Plan.expect k).Starts c a := by
  intro h
  cases h with
  | look h =>
      refine Starts.not_ite_advance (fun h => ?_) h
      cases h with
      | record h => cases h

theorem Starts.not_skip {k : Kind} : ¬ (Plan.skip k).Starts c a := by
  intro h
  cases h with
  | look h => exact Starts.not_ite_advance (fun h => by cases h) h

variable {x : Option α × Cursor}

theorem Ends.observe {o : Cursor → β} {f : β → Plan α}
    (h : ((Plan.look fun c => pure (o c)) >>= f).Ends c x) : (f (o c)).Ends c x := by
  cases h with
  | look h => exact h

theorem Ends.of_advance {f : Unit → Plan α} (h : (Plan.advance >>= f).Ends c x) :
    (f ()).Ends c.advance x := by
  cases h with
  | move h => exact h

theorem Ends.lt_of_advance {f : Unit → Plan α} {m : Nat} (h : (Plan.advance >>= f).Ends c x)
    (hm : c.advance.rest.length < m) : x.2.rest.length < m :=
  Nat.lt_of_le_of_lt h.of_advance.length_le hm

theorem Ends.of_attempt {g : Routine} {f : Option g.Tree → Plan α}
    (h : (Plan.attempt g >>= f).Ends c x) :
    ∃ r d, g.plan.Ends c (r, d) ∧ (f r).Ends d x := by
  cases h with
  | start hg h => exact ⟨_, _, hg, h⟩

theorem Ends.of_run {g : Routine} {f : g.Tree → Plan α} (h : (Plan.run g >>= f).Ends c x) :
    (∃ d, g.plan.Ends c (none, d)) ∨ ∃ v d, g.plan.Ends c (some v, d) ∧ (f v).Ends d x := by
  cases h with
  | @start _ _ _ _ y _ hg h =>
      obtain ⟨_ | v, d⟩ := y
      · exact .inl ⟨d, hg⟩
      · exact .inr ⟨v, d, hg, h⟩

end Plan

/-- A routine that reads a part of an expression, started with fewer than `m` tokens in view. -/
def Activation.IsPart (m : Nat) (a : Activation) : Prop :=
  match a.routine with
  | .block => a.cursor.kind = .lbrace ∧ a.cursor.rest.length < m
  | .expr _ | .climb _ _ | .moreItems _ | .moreParams => a.cursor.rest.length < m
  | _ => False

namespace Plan

variable {α β : Type} {m : Nat}

/-- With fewer than `m` tokens in view, the plan starts nothing but parts of an expression, and
these with fewer than `m` tokens in view. -/
def Under (m : Nat) (s : Plan α) : Prop :=
  ∀ c a, c.rest.length < m → s.Starts c a → a.IsPart m

namespace Under

theorem stop (tree : Option α) : (Plan.stop tree).Under m := by
  intro c a _ h
  cases h

theorem pure (v : α) : (Pure.pure v : Plan α).Under m := stop (some v)

theorem look {next : Cursor → Plan α} (h : ∀ c, (next c).Under m) : (Plan.look next).Under m := by
  intro c a hc ha
  cases ha with
  | look ha => exact h c c a hc ha

theorem move {next : Plan α} (h : next.Under m) : (Plan.move next).Under m := by
  intro c a hc ha
  have hl := c.length_advance
  cases ha with
  | move ha => exact h c.advance a (by omega) ha

theorem bind {s : Plan α} {f : α → Plan β} (hs : s.Under m) (hf : ∀ v, (f v).Under m) :
    (s >>= f).Under m := by
  intro c a hc h
  rcases h.of_bind with h | ⟨v, d, he, h⟩
  · exact hs c a hc h
  · exact hf v d a (Nat.lt_of_le_of_lt he.length_le hc) h

theorem ite {q : Prop} [Decidable q] {s t : Plan α} (hs : s.Under m) (ht : t.Under m) :
    (if q then s else t).Under m := by
  split
  · exact hs
  · exact ht

theorem kind : Plan.kind.Under m := look fun _ => pure _

theorem text : Plan.text.Under m := look fun _ => pure _

theorem peek : Plan.peek.Under m := look fun _ => pure _

theorem advance : Plan.advance.Under m := move (pure ())

theorem expect (k : Kind) : (Plan.expect k).Under m := fun _ _ _ h => absurd h Starts.not_expect

theorem skip (k : Kind) : (Plan.skip k).Under m := fun _ _ _ h => absurd h Starts.not_skip

theorem run {g : Routine} (hg : ∀ c : Cursor, c.rest.length < m → Activation.IsPart m ⟨g, c⟩) :
    (Plan.run g).Under m := by
  intro c a hc h
  cases h.of_run
  exact hg c hc

/-- A block is started on its opening brace. -/
theorem braced {f : Block → Plan α} (hf : ∀ b, (f b).Under m) :
    (Plan.expect .lbrace >>= fun _ => Plan.run .block >>= f).Under m := by
  intro c a hc h
  rcases h.of_bind with h | ⟨_, d, he, h⟩
  · exact expect _ c a hc h
  · have hd := Nat.lt_of_le_of_lt he.length_le hc
    rcases h.of_bind with h | ⟨b, e, hb, h⟩
    · obtain ⟨hk, rfl⟩ := he.of_expect
      cases h.of_run
      exact ⟨by rw [c.advance_kind, hk], hd⟩
    · exact hf b e a (Nat.lt_of_le_of_lt hb.length_le hd) h

theorem items (close : Kind) : (Plan.items close).Under m := by
  refine .bind .peek fun k => .ite ?_ ?_
  · exact .bind .advance fun _ => .pure _
  · refine .bind .advance fun _ => .bind (.run fun _ h => h) fun _ => ?_
    exact .bind (.run fun _ h => h) fun _ => .pure _

theorem params : Plan.params.Under m := by
  refine .bind .peek fun k => .ite ?_ ?_
  · exact .bind .advance fun _ => .pure _
  · refine .bind (.expect _) fun _ => .bind .text fun _ => ?_
    exact .bind (.run fun _ h => h) fun _ => .pure _

theorem alternative : Plan.alternative.Under m := by
  refine .bind .peek fun k => .ite ?_ ?_
  · exact .bind .advance fun _ => .braced fun _ => .pure _
  · exact .pure _

theorem binary (left : Expr) : (Plan.binary left).Under m := by
  refine .bind .kind fun k => ?_
  split
  · exact .stop none
  · exact .bind .advance fun _ => .bind (.run fun _ h => h) fun _ => .pure _

theorem follow (left : Expr) (form : Follower) : (Plan.follow left form).Under m := by
  cases form with
  | operator => exact .binary left
  | call => exact .bind (.items _) fun _ => .pure _
  | index =>
      refine .bind .advance fun _ => .bind (.run fun _ h => h) fun _ => ?_
      exact .bind (.expect _) fun _ => .pure _

end Under

variable {c : Cursor} {a : Activation}

theorem Starts.part_of_advance {f : Unit → Plan α} (h : (Plan.advance >>= f).Starts c a)
    (hpos : 0 < c.rest.length) (hf : (f ()).Under c.rest.length) : a.IsPart c.rest.length := by
  have hl := c.length_advance
  exact hf c.advance a (by omega) h.of_advance

theorem Starts.part_of_expect {k : Kind} {f : Unit → Plan α} (h : (Plan.expect k >>= f).Starts c a)
    (hk : k ≠ .eof) (hf : (f ()).Under c.rest.length) : a.IsPart c.rest.length := by
  rcases h.of_bind with h | ⟨_, d, he, h⟩
  · exact absurd h Starts.not_expect
  · obtain ⟨hp, rfl⟩ := he.of_expect
    exact hf _ a (c.length_advance_lt (hp ▸ hk)) h

theorem Starts.part_of_items {close : Kind} (h : (items close).Starts c a)
    (hpos : 0 < c.rest.length) : a.IsPart c.rest.length := by
  replace h := h.observe
  split at h
  · exact h.part_of_advance hpos (.pure _)
  · refine h.part_of_advance hpos (.bind (.run fun _ h => h) fun _ => ?_)
    exact .bind (.run fun _ h => h) fun _ => .pure _

theorem Starts.part_of_conditional (h : conditional.Starts c a) : a.IsPart c.rest.length := by
  refine h.part_of_expect (by decide) (.bind .advance fun _ => ?_)
  refine .bind (.run fun _ h => h) fun _ => .bind (.expect _) fun _ => .braced fun _ => ?_
  exact .bind .alternative fun _ => .pure _

theorem Starts.part_of_function (h : function.Starts c a) : a.IsPart c.rest.length := by
  refine h.part_of_expect (by decide) (.bind .params fun _ => ?_)
  exact .braced fun _ => .pure _

/-- Every form that contains anything begins with a token of its own. -/
theorem Starts.part_of_begin {form : Operand} (h : (begin form).Starts c a)
    (hpos : 0 < c.rest.length) : a.IsPart c.rest.length := by
  cases form with
  | name | string | boolean => cases h.observe
  | integer =>
      replace h := h.observe
      split at h
      · cases h
      · cases h with
        | record h => cases h
  | unary =>
      replace h := h.observe
      split at h
      · cases h
      · exact h.part_of_advance hpos (.bind (.run fun _ h => h) fun _ => .pure _)
  | group =>
      refine h.part_of_advance hpos (.bind (.run fun _ h => h) fun _ => ?_)
      exact .bind (.expect _) fun _ => .pure _
  | array =>
      rcases h.of_bind with h | ⟨_, _, _, h⟩
      · exact h.part_of_items hpos
      · cases h
  | conditional => exact h.part_of_conditional
  | function => exact h.part_of_function

theorem Starts.part_of_operand (h : operand.Starts c a) : a.IsPart c.rest.length := by
  replace h := h.observe
  split at h
  · next form hk =>
      exact h.part_of_begin (c.length_pos fun he => by rw [he] at hk; cases hk)
  · cases h with
    | record h => cases h

theorem Starts.of_expression {least : Precedence} (h : (expression least).Starts c a) :
    a.IsPart c.rest.length ∨
      ∃ left d, a = ⟨.climb least left, d⟩ ∧ d.rest.length ≤ c.rest.length := by
  rcases h.of_bind with h | ⟨left, d, he, h⟩
  · exact .inl h.part_of_operand
  · exact .inr ⟨left, d, h.of_run, he.length_le⟩

theorem Starts.part_of_climb {least : Precedence} {left : Expr}
    (h : (climb least left).Starts c a) : a.IsPart c.rest.length := by
  replace h := h.observe
  split at h
  · split at h
    · cases h
    · next form hk =>
        have hlt := c.length_advance_lt fun he => by rw [he] at hk; cases hk
        exact h.part_of_advance (Nat.zero_lt_of_lt hlt)
          (.bind (.follow left form) fun _ => .run fun _ h => h)
  · cases h

theorem Starts.part_of_moreItems {close : Kind} (h : (moreItems close).Starts c a) :
    a.IsPart c.rest.length := by
  replace h := h.observe
  split at h
  · next hk =>
      have hlt := c.length_advance_lt (by rw [hk]; decide)
      refine h.part_of_advance (Nat.zero_lt_of_lt hlt) (.bind .advance fun _ => ?_)
      exact .bind (.run fun _ h => h) fun _ => .bind (.run fun _ h => h) fun _ => .pure _
  · rcases h.of_bind with h | ⟨_, _, _, h⟩
    · exact absurd h Starts.not_expect
    · cases h

theorem Starts.part_of_moreParams (h : moreParams.Starts c a) : a.IsPart c.rest.length := by
  replace h := h.observe
  split at h
  · next hk =>
      have hlt := c.length_advance_lt (by rw [hk]; decide)
      refine h.part_of_advance (Nat.zero_lt_of_lt hlt) (.bind (.expect _) fun _ => ?_)
      exact .bind .text fun _ => .bind (.run fun _ h => h) fun _ => .pure _
  · exact h.part_of_expect (by decide) (.pure _)

theorem Starts.of_statement (h : statement.Starts c a) :
    a.IsPart c.rest.length ∨ a = ⟨.block, c⟩ ∧ c.kind = .lbrace ∨ a = ⟨.expr .lowest, c⟩ := by
  have terminated {f : Expr → Stmt} {m : Nat} :
      (Plan.run (.expr .lowest) >>= fun e => skip .semicolon >>= fun _ => pure (f e)).Under m :=
    .bind (.run fun _ h => h) fun _ => .bind (.skip _) fun _ => .pure _
  replace h := h.observe
  split at h
  · refine .inl (h.part_of_expect (by decide) (.bind .text fun _ => .bind (.expect _) fun _ => ?_))
    exact .bind .advance fun _ => terminated
  · next hk => exact .inl (h.part_of_advance (c.length_pos (by rw [hk]; decide)) terminated)
  · next hk =>
      rcases h.of_bind with h | ⟨_, _, _, h⟩
      · exact .inr (.inl ⟨h.of_run, hk⟩)
      · cases h
  · rcases h.of_bind with h | ⟨_, _, _, h⟩
    · exact .inr (.inr h.of_run)
    · rcases h.of_bind with h | ⟨_, _, _, h⟩
      · exact absurd h Starts.not_skip
      · cases h

theorem Starts.of_recovery {level : Nat} (h : (recovery level).Starts c a) :
    a = ⟨.recovery level, c.advance⟩ ∧ c.atBoundary level = false := by
  cases h with
  | look h =>
      dsimp only at h
      split at h
      · cases h
      · next hb => exact ⟨h.of_advance.of_run, Bool.eq_false_iff.mpr hb⟩

theorem Starts.of_block (h : block.Starts c a) :
    a = ⟨.statements Nested.endsBlock c.depth, c.advance⟩ :=
  h.observe.of_advance.of_run

theorem Starts.of_program (h : program.Starts c a) :
    a = ⟨.statements Nested.endsProgram 0, c⟩ := by
  rcases h.of_bind with h | ⟨_, _, _, h⟩
  · exact h.of_run
  · cases h

/-- A list reads a statement and goes on behind it. If there is none, it recovers and goes on from
there, unless that has led out of the braces around it. -/
theorem Starts.of_statements {stop : Kind → Bool} {level : Nat}
    (h : (statements stop level).Starts c a) :
    stop c.kind = false ∧ (a = ⟨.statement, c⟩ ∨
      (∃ d, Routine.statement.plan.Ends c (none, d) ∧ a = ⟨.recovery level, d⟩) ∨
      ∃ d, d.rest.length ≤ c.rest.length ∧ a = ⟨.statements stop level, d.advance⟩ ∧
        (level ≤ d.depth ∨ ∃ s, Routine.statement.plan.Ends c (some s, d))) := by
  replace h := h.observe
  split at h
  · cases h
  · next hs =>
      refine ⟨Bool.eq_false_iff.mpr hs, ?_⟩
      rcases h.of_attempt with h | ⟨_ | st, d, hg, h⟩
      · exact .inl h
      · rcases h.of_bind with h | ⟨_, e, he, h⟩
        · exact .inr (.inl ⟨d, hg, h.of_run⟩)
        · cases h with
          | drop h =>
              replace h := Starts.observe h
              split at h
              · cases h
              · next hd =>
                  exact .inr (.inr ⟨{ e with dropped := e.dropped + 1 },
                    Nat.le_trans he.length_le hg.length_le, h.of_advance.of_run,
                    .inl (Nat.le_of_not_lt hd)⟩)
      · rcases h.of_advance.of_bind with h | ⟨_, _, _, h⟩
        · exact .inr (.inr ⟨d, hg.length_le, h.of_run, .inr ⟨st, hg⟩⟩)
        · cases h

end Plan

end Sprig
