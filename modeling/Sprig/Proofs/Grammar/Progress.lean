import Mathlib.Logic.Relation
import Sprig.Proofs.Grammar.Activation
import Sprig.Proofs.Grammar.Tables

/-!
Reading always makes progress.

Whatever the tokens are, every routine that reading them starts comes to an end, and to the one that
the parsers yield under any bound above the number of tokens: the bounds decide nothing. What an
activation starts has fewer tokens to read, or as many and a lower rank, so the weight falls from
each activation to the next. Two activations of one routine inside each other therefore differ in
their tokens. A turn of a loop takes a token even where it is the last. That is not obvious for a
list of statements, which ends without a further step if recovery has led out of the braces around
it; but then recovery has come over a closing brace.
-/

namespace Sprig

/-- Where no token is taken, a routine starts only routines of lower rank. Two routines are of the
same rank if they are one and the same part of the grammar. -/
def Routine.rank : Routine → Nat
  | moreParams => 0
  | moreItems _ => 1
  | climb _ _ => 2
  | expr _ => 3
  | block => 4
  | statement => 5
  | recovery _ => 6
  | statements _ _ => 7
  | program => 8

theorem Routine.rank_le (g : Routine) : g.rank ≤ 8 := by
  cases g <;> simp [rank]

theorem Cursor.advance_lt_of_le {c d : Cursor} (h : d.rest.length ≤ c.rest.length)
    (hk : c.kind ≠ .eof) : d.advance.rest.length < c.rest.length := by
  have hpos := c.length_pos hk
  rw [d.length_advance]
  omega

theorem Cursor.ne_eof_of_lbrace {c : Cursor} (h : c.kind = .lbrace) : c.kind ≠ .eof := by
  rw [h]
  decide

theorem Cursor.kind_of_not_boundary (c : Cursor) {level : Nat} (h : c.atBoundary level = false) :
    c.kind ≠ .eof := by
  intro he
  simp [atBoundary, he] at h

namespace Activation

/-- The number of tokens that have not been passed, the current one included. -/
def unread (a : Activation) : Nat := a.cursor.rest.length

/-- The activation comes to an end, with `x`. -/
def Ends (a : Activation) (x : Option a.routine.Tree × Cursor) : Prop :=
  a.routine.plan.Ends a.cursor x

def Starts (a b : Activation) : Prop := a.routine.plan.Starts a.cursor b

/-- A block is started on its opening brace. A list of statements stops where the tokens end and, if
it is inside of braces, at a closing one. -/
def Fits (a : Activation) : Prop :=
  match a.routine with
  | .block => a.cursor.kind = .lbrace
  | .statements stop level => stop .eof ∧ (level = 0 ∨ stop .rbrace)
  | _ => True

/-- Tokens count for more than any difference in rank. -/
def weight (a : Activation) : Nat := 9 * a.unread + a.routine.rank

variable {a b : Activation} {m : Nat}

theorem IsPart.fits (h : b.IsPart m) : b.Fits := by
  obtain ⟨g, c⟩ := b
  cases g with
  | block => exact h.1
  | statements => exact h.elim
  | _ => trivial

theorem IsPart.unread_lt (h : b.IsPart m) : b.unread < m := by
  obtain ⟨g, c⟩ := b
  cases g with
  | block => exact h.2
  | expr | climb | moreItems | moreParams => exact h
  | _ => exact h.elim

theorem weight_lt_of_fewer (h : b.unread < a.unread) : b.weight < a.weight := by
  have hb := b.routine.rank_le
  simp only [weight]
  omega

theorem weight_lt_of_lower (h : b.unread ≤ a.unread) (hr : b.routine.rank < a.routine.rank) :
    b.weight < a.weight := by
  simp only [weight]
  omega

/-- What an activation starts has fewer tokens to read, or as many and a lower rank. -/
theorem Starts.fits_and_weight_lt (h : a.Starts b) (ha : a.Fits) :
    b.Fits ∧ b.weight < a.weight := by
  obtain ⟨g, c⟩ := a
  have part (hb : b.IsPart c.rest.length) : b.Fits ∧ b.weight < Activation.weight ⟨g, c⟩ :=
    ⟨hb.fits, weight_lt_of_fewer hb.unread_lt⟩
  cases g with
  | moreParams => exact part (Plan.Starts.part_of_moreParams h)
  | moreItems close => exact part (Plan.Starts.part_of_moreItems h)
  | climb least left => exact part (Plan.Starts.part_of_climb h)
  | expr least =>
      rcases Plan.Starts.of_expression h with h | ⟨left, d, rfl, hd⟩
      · exact part h
      · exact ⟨trivial, weight_lt_of_lower hd (by simp [Routine.rank])⟩
  | block =>
      cases Plan.Starts.of_block h
      exact ⟨⟨rfl, .inr rfl⟩, weight_lt_of_fewer
        (Cursor.advance_lt_of_le (Nat.le_refl _) (Cursor.ne_eof_of_lbrace ha))⟩
  | statement =>
      rcases Plan.Starts.of_statement h with h | ⟨rfl, hk⟩ | rfl
      · exact part h
      · exact ⟨hk, weight_lt_of_lower (Nat.le_refl _) (by simp [Routine.rank])⟩
      · exact ⟨trivial, weight_lt_of_lower (Nat.le_refl _) (by simp [Routine.rank])⟩
  | recovery level =>
      obtain ⟨rfl, hb⟩ := Plan.Starts.of_recovery h
      exact ⟨trivial, weight_lt_of_fewer
        (Cursor.advance_lt_of_le (Nat.le_refl _) (c.kind_of_not_boundary hb))⟩
  | statements stop level =>
      obtain ⟨hs, rfl | ⟨d, he, rfl⟩ | ⟨d, hd, rfl, -⟩⟩ := Plan.Starts.of_statements h
      · exact ⟨trivial, weight_lt_of_lower (Nat.le_refl _) (by simp [Routine.rank])⟩
      · exact ⟨trivial, weight_lt_of_lower he.length_le (by simp [Routine.rank])⟩
      · refine ⟨ha, weight_lt_of_fewer (Cursor.advance_lt_of_le hd fun hk => ?_)⟩
        simp [hk, ha.1] at hs
  | program =>
      cases Plan.Starts.of_program h
      exact ⟨⟨rfl, .inl rfl⟩, weight_lt_of_lower (Nat.le_refl _) (by simp [Routine.rank])⟩

end Activation

/-- Bounds that a routine does not reach with `v` tokens to read: `n` on nesting, `b` on the items
and parameters of a list, and `k` on the turns of the other loops. -/
def Routine.Enough (n b k v : Nat) : Routine → Prop
  | statement | block | expr _ => v < n
  | recovery _ => True
  | program | statements _ _ => v < n ∧ v < b ∧ v < k
  | climb _ _ | moreItems _ | moreParams => v ≤ n ∧ v < b ∧ v < k

theorem Routine.Enough.of_lt {g : Routine} {n b k v : Nat} (hn : v < n) (hb : v < b) (hk : v < k) :
    g.Enough n b k v := by
  cases g <;> simp only [Enough] <;> omega

theorem Activation.IsPart.enough {a : Activation} {m n b k : Nat} (h : a.IsPart m) (hn : m ≤ n)
    (hb : m ≤ b) (hk : m ≤ k) : a.routine.Enough n b k a.unread :=
  have hlt := h.unread_lt
  .of_lt (Nat.lt_of_lt_of_le hlt hn) (Nat.lt_of_lt_of_le hlt hb) (Nat.lt_of_lt_of_le hlt hk)

/-- A parser is its plan with the parsers of smaller bounds, and these bounds are enough for what
the plan starts. -/
theorem Routine.Enough.unfold {g : Routine} {c : Cursor} {n b k : Nat}
    (h : g.Enough n b k c.rest.length) (ha : Activation.Fits ⟨g, c⟩) :
    ∃ n' b' k', g.plan.eval ((Nested.within n').does b' k') c = (Nested.within n).does b k g c ∧
      ∀ a, Activation.Starts ⟨g, c⟩ a → a.routine.Enough n' b' k' a.unread := by
  cases g with
  | program =>
      refine ⟨n, b, k, Nested.eval_program _ b k c, fun a hs => ?_⟩
      cases Plan.Starts.of_program hs
      exact h
  | statements stop level =>
      obtain ⟨hn, hb, hk⟩ := h
      obtain ⟨k, rfl⟩ : ∃ j, k = j + 1 := ⟨k - 1, by omega⟩
      refine ⟨n, b, k, Nested.eval_statements_turn _ b k stop level c, fun a hs => ?_⟩
      obtain ⟨hc, rfl | ⟨d, he, rfl⟩ | ⟨d, hd, rfl, -⟩⟩ := Plan.Starts.of_statements hs
      · exact hn
      · trivial
      · have hlt := Cursor.advance_lt_of_le hd fun he => by simp [he, ha.1] at hc
        exact ⟨Nat.lt_trans hlt hn, Nat.lt_trans hlt hb,
          Nat.lt_of_lt_of_le hlt (Nat.le_of_lt_succ hk)⟩
  | recovery level =>
      refine ⟨n, b, k, Nested.eval_recovery _ b k level c, fun a hs => ?_⟩
      obtain ⟨rfl, -⟩ := Plan.Starts.of_recovery hs
      trivial
  | statement =>
      have hn : c.rest.length ≤ n := Nat.le_of_lt h
      refine ⟨n, n, n, congrFun (Nested.eval_statement _ n n) c, fun a hs => ?_⟩
      rcases Plan.Starts.of_statement hs with hp | ⟨rfl, -⟩ | rfl
      · exact hp.enough hn hn hn
      · exact h
      · exact h
  | block =>
      have hn : c.rest.length < n := h
      obtain ⟨n, rfl⟩ : ∃ j, n = j + 1 := ⟨n - 1, by omega⟩
      refine ⟨n, n + 1, n + 1, Nested.eval_block_body _ k n c, fun a hs => ?_⟩
      cases Plan.Starts.of_block hs
      have hlt := Cursor.advance_lt_of_le (Nat.le_refl c.rest.length) (Cursor.ne_eof_of_lbrace ha)
      exact .of_lt (g := .statements _ _) (Nat.lt_of_lt_of_le hlt (Nat.le_of_lt_succ hn))
        (Nat.lt_trans hlt hn) (Nat.lt_trans hlt hn)
  | expr least =>
      have hn : c.rest.length < n := h
      obtain ⟨n, rfl⟩ : ∃ j, n = j + 1 := ⟨n - 1, by omega⟩
      refine ⟨n, n + 1, n + 1, congrFun (Nested.eval_expression _ (n + 1) least) c, fun a hs => ?_⟩
      replace hn := Nat.le_of_lt_succ hn
      rcases Plan.Starts.of_expression hs with hp | ⟨left, d, rfl, hd⟩
      · exact hp.enough hn (Nat.le_succ_of_le hn) (Nat.le_succ_of_le hn)
      · have hd := Nat.le_trans hd hn
        exact ⟨hd, Nat.lt_succ_of_le hd, Nat.lt_succ_of_le hd⟩
  | climb least left =>
      obtain ⟨hn, hb, hk⟩ := h
      obtain ⟨k, rfl⟩ : ∃ j, k = j + 1 := ⟨k - 1, by omega⟩
      refine ⟨n, b, k, congrFun (Nested.eval_climb_turn _ b k least left) c, fun a hs => ?_⟩
      exact (Plan.Starts.part_of_climb hs).enough hn (Nat.le_of_lt hb) (Nat.le_of_lt_succ hk)
  | moreItems close =>
      obtain ⟨hn, hb, hk⟩ := h
      obtain ⟨b, rfl⟩ : ∃ j, b = j + 1 := ⟨b - 1, by omega⟩
      refine ⟨n, b, k, congrFun (Nested.eval_moreItems_turn _ b k close) c, fun a hs => ?_⟩
      exact (Plan.Starts.part_of_moreItems hs).enough hn (Nat.le_of_lt_succ hb) (Nat.le_of_lt hk)
  | moreParams =>
      obtain ⟨hn, hb, hk⟩ := h
      obtain ⟨b, rfl⟩ : ∃ j, b = j + 1 := ⟨b - 1, by omega⟩
      refine ⟨n, b, k, congrFun (Nested.eval_moreParams_turn _ b k) c, fun a hs => ?_⟩
      exact (Plan.Starts.part_of_moreParams hs).enough hn (Nat.le_of_lt_succ hb) (Nat.le_of_lt hk)

namespace Activation

variable {a b : Activation}

/-- With enough bounds, the parsers yield what the plans come to. In particular, these end. -/
theorem ends_does (a : Activation) (ha : a.Fits) {n i k : Nat}
    (h : a.routine.Enough n i k a.unread) :
    a.Ends ((Nested.within n).does i k a.routine a.cursor) := by
  induction hw : a.weight using Nat.strongRecOn generalizing a n i k with
  | ind w ih =>
      subst hw
      obtain ⟨n', i', k', he, hs⟩ := h.unfold ha
      rw [Ends, ← he]
      refine a.routine.plan.ends_eval a.cursor fun b hb => ?_
      obtain ⟨hf, hlt⟩ := Starts.fits_and_weight_lt hb ha
      exact ih b.weight hlt b hf (hs b hb) rfl

theorem ends_iff (ha : a.Fits) {n : Nat} (hn : a.unread < n) (x : Option a.routine.Tree × Cursor) :
    a.Ends x ↔ x = (Nested.within n).does n n a.routine a.cursor := by
  have h := a.ends_does ha (.of_lt hn hn hn)
  constructor
  · intro hx
    exact hx.unique h
  · rintro rfl
    exact h

/-- A list of statements is inside of the braces that it counts. -/
def Inside (a : Activation) : Prop :=
  match a.routine with
  | .program => a.cursor.Inside 0
  | .statements _ level => a.cursor.Inside level
  | _ => True

theorem IsPart.inside {m : Nat} (h : b.IsPart m) : b.Inside := by
  obtain ⟨g, c⟩ := b
  cases g with
  | program | statements => exact h.elim
  | _ => trivial

theorem le_depth_of_read {level : Nat} {c d : Cursor} {s : Stmt} (h : c.Inside level)
    (he : Routine.statement.plan.Ends c (some s, d)) : level ≤ d.depth := by
  have hn := Nat.lt_succ_self c.rest.length
  have hx := (ends_iff (a := ⟨.statement, c⟩) trivial hn (some s, d)).mp he
  exact Nested.le_depth_of_read h hn hx.symm

theorem Starts.inside (h : a.Starts b) (ha : a.Inside) : b.Inside := by
  obtain ⟨g, c⟩ := a
  cases g with
  | moreParams => exact (Plan.Starts.part_of_moreParams h).inside
  | moreItems close => exact (Plan.Starts.part_of_moreItems h).inside
  | climb least left => exact (Plan.Starts.part_of_climb h).inside
  | expr least =>
      rcases Plan.Starts.of_expression h with h | ⟨left, d, rfl, -⟩
      · exact h.inside
      · trivial
  | block =>
      cases Plan.Starts.of_block h
      exact Cursor.inside_advance (Nat.le_refl c.depth)
  | statement =>
      rcases Plan.Starts.of_statement h with h | ⟨rfl, -⟩ | rfl
      · exact h.inside
      · trivial
      · trivial
  | recovery level =>
      obtain ⟨rfl, -⟩ := Plan.Starts.of_recovery h
      trivial
  | statements stop level =>
      obtain ⟨-, rfl | ⟨d, -, rfl⟩ | ⟨d, -, rfl, hd⟩⟩ := Plan.Starts.of_statements h
      · trivial
      · trivial
      · rcases hd with hd | ⟨s, he⟩
        · exact Cursor.inside_advance hd
        · exact Cursor.inside_advance (le_depth_of_read ha he)
  | program =>
      cases Plan.Starts.of_program h
      exact ha

/-- The loop of which the activation is a turn does not end here. -/
def Turns (a : Activation) : Prop :=
  match a.routine with
  | .statements stop _ => stop a.cursor.kind = false
  | .recovery level => a.cursor.atBoundary level = false
  | .climb least _ => least < a.cursor.peek.precedence
  | .moreItems _ | .moreParams => a.cursor.peek = .comma
  | _ => False

end Activation

namespace Plan

variable {c : Cursor} {level : Nat}

theorem Ends.climb_shorter {least : Precedence} {left : Expr} {x : Option Expr × Cursor}
    (h : (climb least left).Ends c x) (ht : least < c.peek.precedence) :
    x.2.rest.length < c.rest.length := by
  have hsome := Kind.isSome_follower?_of_lt ht
  replace h := h.observe
  rw [if_pos ⟨Kind.ne_semicolon_of_lt ht, ht⟩] at h
  split at h
  · next hk => rw [hk] at hsome; cases hsome
  · next form hk =>
      exact h.lt_of_advance (c.length_advance_lt fun he => by rw [he] at hk; cases hk)

theorem Ends.comma_shorter {α : Type} {f : Unit → Plan α} {s : Plan α} {x : Option α × Cursor}
    (h : (Plan.peek >>= fun k => if k = .comma then advance >>= f else s).Ends c x)
    (ht : c.peek = .comma) : x.2.rest.length < c.rest.length := by
  replace h := h.observe
  rw [if_pos ht] at h
  exact h.lt_of_advance (c.length_advance_lt (by rw [ht]; decide))

theorem Ends.recovery_shorter {x : Option Unit × Cursor} (h : (recovery level).Ends c x)
    (ht : c.atBoundary level = false) : x.2.rest.length < c.rest.length := by
  cases h with
  | look h =>
      dsimp only at h
      rw [ht] at h
      exact h.lt_of_advance (Cursor.advance_lt_of_le (Nat.le_refl _) (c.kind_of_not_boundary ht))

theorem Ends.recovery_some {r : Option Unit} {d : Cursor} (h : (recovery level).Ends c (r, d)) :
    r = some () := by
  have hx := (Activation.ends_iff (a := ⟨.recovery level, c⟩) trivial
    (Nat.lt_succ_self c.rest.length) (r, d)).mp h
  exact congrArg Prod.fst hx

/-- If a list ends without taking a token behind a statement, recovery has led out of the braces and
so has taken one. -/
theorem Ends.statements_shorter {stop : Kind → Bool} {x : Option Block × Cursor}
    (h : (statements stop level).Ends c x) (ht : stop c.kind = false) (hi : c.Inside level)
    (hf : stop .eof ∧ (level = 0 ∨ stop .rbrace)) : x.2.rest.length < c.rest.length := by
  have hne : c.kind ≠ .eof := fun he => by simp [he, hf.1] at ht
  have hle : level ≤ c.depth := by
    rcases hf.2 with rfl | hr
    · exact Nat.zero_le _
    · exact hi.le_depth fun he => by simp [he, hr] at ht
  replace h := h.observe
  rw [ht] at h
  obtain ⟨_ | s, d, hd, h⟩ := h.of_attempt
  · rcases h.of_run with ⟨e, he⟩ | ⟨_, e, he, h⟩
    · cases Ends.recovery_some he
    · cases h with
      | drop h =>
          replace h := Ends.observe h
          split at h
          · next hlt =>
              cases h
              rcases hd.onward.trans he.onward with h | ⟨-, h⟩
              · exact h
              · exact absurd (h ▸ hlt) (Nat.not_lt_of_le hle)
          · exact h.lt_of_advance
              (Cursor.advance_lt_of_le (Nat.le_trans he.length_le hd.length_le) hne)
  · exact h.lt_of_advance (Cursor.advance_lt_of_le hd.length_le hne)

end Plan

namespace Activation

variable {a b : Activation} {ts : List Token}

theorem Ends.shorter {x : Option a.routine.Tree × Cursor} (h : a.Ends x) (hf : a.Fits)
    (hi : a.Inside) (ht : a.Turns) : x.2.rest.length < a.unread := by
  obtain ⟨g, c⟩ := a
  cases g with
  | statements stop level => exact Plan.Ends.statements_shorter h ht hi hf
  | recovery level => exact Plan.Ends.recovery_shorter h ht
  | climb least left => exact Plan.Ends.climb_shorter h ht
  | moreItems close => exact Plan.Ends.comma_shorter h ht
  | moreParams => exact Plan.Ends.comma_shorter h ht
  | _ => exact ht.elim

/-- Reading the tokens comes to start the activation at some time. -/
def Occurs (ts : List Token) (a : Activation) : Prop :=
  Relation.ReflTransGen Starts ⟨.program, Cursor.start ts⟩ a

theorem Occurs.fits_and_inside (h : a.Occurs ts) : a.Fits ∧ a.Inside := by
  induction h with
  | refl => exact ⟨trivial, Cursor.inside_start ts⟩
  | tail _ hs ih => exact ⟨(hs.fits_and_weight_lt ih.1).1, hs.inside ih.2⟩

theorem weight_lt_of_nested (h : Relation.TransGen Starts a b) (ha : a.Fits) :
    b.Fits ∧ b.weight < a.weight := by
  induction h with
  | single hs => exact hs.fits_and_weight_lt ha
  | tail _ hs ih =>
      obtain ⟨hf, hlt⟩ := hs.fits_and_weight_lt ih.1
      exact ⟨hf, Nat.lt_trans hlt ih.2⟩

theorem unread_of_weight_lt (h : b.weight < a.weight) :
    b.unread ≤ a.unread ∧ (b.routine.rank = a.routine.rank → b.unread < a.unread) := by
  have ha := a.routine.rank_le
  simp only [weight] at h
  omega

end Activation

open Activation

/-- Reading the tokens `ts` ends, with the program and the diagnostics that are made of them. No
plan gives tokens back. Every activation on the way ends as the parsers say. If it is a turn of a
loop, it ends with fewer tokens to read than it began with. Whatever is started inside of it, at
once or further down, has at most as many tokens to read, and fewer if it is the same routine once
more or the next turn of the same loop. -/
theorem reading_progresses (ts : List Token) :
    (∃ p d, (∀ x, Ends ⟨.program, Cursor.start ts⟩ x ↔ x = (some p, d)) ∧
      Parsed.ofTokens ts = ⟨p, d.diagnostics⟩) ∧
    (∀ (α : Type) (s : Plan α) (c : Cursor) (x : Option α × Cursor), s.Ends c x →
      x.2.rest.length ≤ c.rest.length) ∧
    ∀ a, Occurs ts a →
      (∀ n, a.unread < n → ∀ x, a.Ends x ↔ x = (Nested.within n).does n n a.routine a.cursor) ∧
      (a.Turns → ∀ x, a.Ends x → x.2.rest.length < a.unread) ∧
      ∀ b, Relation.TransGen Starts a b →
        b.unread ≤ a.unread ∧ (b.routine.rank = a.routine.rank → b.unread < a.unread) := by
  refine ⟨⟨(Cursor.start ts).program.1, (Cursor.start ts).program.2, fun x => ?_, rfl⟩,
    fun _ _ _ _ h => h.length_le, fun a ha => ?_⟩
  · exact ends_iff (a := ⟨.program, Cursor.start ts⟩) trivial (Nat.lt_succ_self ts.length) x
  · obtain ⟨hf, hi⟩ := ha.fits_and_inside
    refine ⟨fun n hn x => ends_iff hf hn x, fun ht x hx => hx.shorter hf hi ht, fun b hb => ?_⟩
    exact unread_of_weight_lt (weight_lt_of_nested hb hf).2

/-- In `{ return }` the statement inside fails on the closing brace, and the block is left there
without a further step. -/
theorem reading_progresses_left_block :
    let ts : List Token := [.symbol .lbrace, ⟨.kwReturn, "return"⟩, .symbol .rbrace]
    let outer : Activation := ⟨.statement, Cursor.start ts⟩
    let list : Activation := ⟨.statements Nested.endsBlock 1, (Cursor.start ts).advance⟩
    let inner : Activation := ⟨.statement, (Cursor.start ts).advance⟩
    (Occurs ts list ∧ list.Turns ∧ ∀ x, list.Ends x → x.2.rest.length < list.unread) ∧
      Occurs ts outer ∧ Relation.TransGen Starts outer inner ∧
      inner.routine.rank = outer.routine.rank ∧ inner.unread < outer.unread := by
  intro ts outer list inner
  have outermost : Occurs ts ⟨.statements Nested.endsProgram 0, Cursor.start ts⟩ := .single .here
  have ho : Occurs ts outer := outermost.tail (.look .here)
  have hb : Starts outer ⟨.block, Cursor.start ts⟩ := .look .here
  have hl : Relation.TransGen Starts outer list := .tail (.single hb) (.look (.move .here))
  have hi : Relation.TransGen Starts outer inner := hl.tail (.look .here)
  have hlo : Occurs ts list := ho.trans hl.to_reflTransGen
  obtain ⟨-, -, progress⟩ := reading_progresses ts
  refine ⟨⟨hlo, rfl, (progress list hlo).2.1 rfl⟩, ho, hi, rfl, ?_⟩
  exact ((progress outer ho).2.2 inner hi).2 rfl

end Sprig
