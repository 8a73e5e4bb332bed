import Sprig.Proofs.Grammar.Replay

/-!
No statement leads out of the braces around it.

A statement that is read ends inside of the braces in which it starts. One that fails may stop on
the brace that closes the innermost of them, and recovery goes no further than that, so a block that
is given up ends where its closing brace would be. This holds whether or not the braces match, and
wherever the tokens mark an end.
-/

namespace Sprig

/-- The cursor is inside `level` braces, if the one on which it may stand is left out of account. -/
def Cursor.Inside (level : Nat) (c : Cursor) : Prop :=
  ∃ k, level ≤ k ∧ c.depth = c.kind.nest k

theorem Kind.le_nest_succ (k : Kind) (depth : Nat) : depth ≤ k.nest depth + 1 := by
  cases k <;> simp only [nest] <;> omega

theorem Kind.le_nest {k : Kind} (h : k ≠ .rbrace) (depth : Nat) : depth ≤ k.nest depth := by
  cases k <;> simp_all [nest]

namespace Cursor

variable {level : Nat} {c : Cursor}

theorem length_pos (c : Cursor) (h : c.kind ≠ .eof) : 0 < c.rest.length :=
  List.length_pos_iff.mpr fun hr => h (by rw [kind, hr]; rfl)

theorem length_advance_lt (c : Cursor) (h : c.peek ≠ .eof) :
    c.advance.rest.length < c.rest.length := by
  have hpos := c.advance.length_pos (by rwa [c.advance_kind])
  rw [c.length_advance] at hpos ⊢
  omega

theorem inside_start (tokens : List Token) : (start tokens).Inside 0 := ⟨0, Nat.le_refl 0, rfl⟩

theorem inside_advance (h : level ≤ c.depth) : c.advance.Inside level :=
  ⟨c.depth, h, by rw [advance_kind, advance_depth]⟩

theorem Inside.le_depth_succ (h : c.Inside level) : level ≤ c.depth + 1 := by
  obtain ⟨k, hk, hd⟩ := h
  rw [hd]
  exact Nat.le_trans hk (Kind.le_nest_succ _ k)

theorem Inside.le_depth (h : c.Inside level) (hne : c.kind ≠ .rbrace) : level ≤ c.depth := by
  obtain ⟨k, hk, hd⟩ := h
  rw [hd]
  exact Nat.le_trans hk (Kind.le_nest hne k)

/-- The brace on which the cursor stands is counted. -/
theorem Inside.lt_depth (h : c.Inside level) (hlb : c.kind = .lbrace) : level < c.depth := by
  obtain ⟨k, hk, hd⟩ := h
  rw [hd, hlb]
  exact Nat.lt_succ_of_le hk

/-- Skipping stops as soon as it has left a brace. -/
theorem le_skipFrom_succ (ts : List Token) {depth : Nat} (h : level ≤ depth + 1) :
    level ≤ (skipFrom level ts depth).2 + 1 := by
  induction ts generalizing depth with
  | nil => exact h
  | cons t ts ih =>
      rw [skipFrom]
      split
      · exact h
      · next hb =>
          refine ih (Nat.le_trans ?_ (Kind.le_nest_succ _ depth))
          simp only [isBoundary, Bool.or_eq_true, decide_eq_true_eq, not_or] at hb
          omega

end Cursor

namespace Nesting

/-- The link of a run with itself, inside `level` braces. -/
def link (level : Nat) : Link where
  ready v c c' := c = c' ∧ c.Inside level ∧ c.rest.length ≤ v
  done v c c' := c = c' ∧ level ≤ c.depth ∧ c.rest.length ≤ v
  failed v c c' := c = c' ∧ level ≤ c.depth + 1 ∧ c.rest.length ≤ v
  ready_mono hvw h := ⟨h.1, h.2.1, Nat.le_trans h.2.2 hvw⟩
  done_mono hvw h := ⟨h.1, h.2.1, Nat.le_trans h.2.2 hvw⟩
  failed_mono hvw h := ⟨h.1, h.2.1, Nat.le_trans h.2.2 hvw⟩
  kind_eq h := .inl (by rw [h.1])
  done_of_ready h hk := by
    refine ⟨⟨h.1, h.2.1.le_depth ?_, h.2.2⟩, Nat.lt_of_lt_of_le (Cursor.length_pos _ ?_) h.2.2⟩ <;>
      intro he <;> rw [he] at hk <;> cases hk
  text_eq h := by rw [h.1]
  ready_advance {v c c'} h := by
    refine ⟨by rw [h.1], Cursor.inside_advance h.2.1, ?_⟩
    rw [c.length_advance]
    exact Nat.sub_le_sub_right h.2.2 1
  noOperand h := ⟨by rw [h.1], h.2.1.le_depth_succ, h.2.2⟩
  unexpected h _ := ⟨by rw [h.1], Nat.le_succ_of_le h.2.1, h.2.2⟩
  badInteger h := ⟨by rw [h.1], Nat.le_succ_of_le h.2.1, h.2.2⟩

variable {p : Nested} {level m n : Nat} {c d : Cursor}

theorem read_statement {s : Stmt} (hp : (link level).Keeps p p m) (h : c.Inside level)
    (hm : c.rest.length < m) (hx : p.statement c = (some s, d)) :
    level ≤ d.depth ∧ d.rest.length ≤ c.rest.length := by
  have hs := Link.statement hp ⟨rfl, h, Nat.le_refl _⟩ hm
  rw [hx] at hs
  cases hs with
  | read _ hd =>
      rcases hd with hd | ⟨⟨-, hi, hl⟩, hk⟩
      · exact hd.2
      · exact ⟨hi.le_depth (by rw [hk]; decide), Nat.le_trans hl (Nat.sub_le _ 1)⟩

theorem failed_statement (hp : (link level).Keeps p p m) (h : c.Inside level)
    (hm : c.rest.length < m) (hx : p.statement c = (none, d)) :
    level ≤ d.depth + 1 ∧ d.rest.length ≤ c.rest.length := by
  have hs := Link.statement hp ⟨rfl, h, Nat.le_refl _⟩ hm
  rw [hx] at hs
  cases hs with
  | failed hd => exact hd.2

/-- A list inside `level` braces leaves at most the innermost of them. -/
theorem statements (stop : Kind → Bool) (hp : (link level).Keeps p p m) (h : c.Inside level)
    (hm : c.rest.length < m) :
    level ≤ (p.statements stop level n c).2.depth + 1 ∧
      (p.statements stop level n c).2.rest.length ≤ c.rest.length := by
  induction n generalizing c with
  | zero => exact ⟨h.le_depth_succ, Nat.le_refl _⟩
  | succ n ih =>
      have again {d : Cursor} (hd : level ≤ d.depth) (hl : d.rest.length ≤ c.rest.length) :
          level ≤ (p.statements stop level n d.advance).2.depth + 1 ∧
            (p.statements stop level n d.advance).2.rest.length ≤ c.rest.length := by
        have ha := d.length_advance
        obtain ⟨hdepth, hlength⟩ := ih (Cursor.inside_advance hd) (by omega)
        exact ⟨hdepth, by omega⟩
      cases hs : stop c.kind with
      | true =>
          rw [p.statements_of_stop hs]
          exact ⟨h.le_depth_succ, Nat.le_refl _⟩
      | false =>
          rcases hx : p.statement c with ⟨_ | s, d⟩
          · obtain ⟨hd, hl⟩ := failed_statement hp h hm hx
            have hr : (d.recover level).rest.length ≤ c.rest.length :=
              Nat.le_trans (Cursor.length_skipFrom_le _ _ _) hl
            rw [p.statements_of_failed hs hx]
            split
            · exact ⟨Cursor.le_skipFrom_succ _ hd, hr⟩
            · next hlt => exact again (Nat.le_of_not_lt hlt) hr
          · obtain ⟨hd, hl⟩ := read_statement hp h hm hx
            rw [p.statements_of_read hs hx]
            exact again hd hl

/-- Every nested block is a list inside one brace more, so all levels are kept at once. -/
theorem keeps_within (n level : Nat) : (link level).Keeps (.within n) (.within n) n := by
  induction n generalizing level with
  | zero =>
      exact ⟨fun v hv => absurd hv (Nat.not_lt_zero v), fun v hv => absurd hv (Nat.not_lt_zero v)⟩
  | succ n ih =>
      constructor
      · intro v hv least c c' h
        exact Link.expression (ih level) least h (by omega) (by omega) (by omega)
      · rintro v hv c _ ⟨rfl, h, hl⟩ hk
        have hpos := c.length_pos (by rw [hk]; decide)
        have ha := c.length_advance
        have hlt := h.lt_depth hk
        have hs := statements (n := n + 1) Nested.endsBlock (ih c.depth)
          (Cursor.inside_advance (Nat.le_refl c.depth)) (by omega)
        exact .read _ ⟨rfl, Nat.le_of_lt_succ (Nat.lt_of_lt_of_le hlt hs.1),
          Nat.le_trans hs.2 (by omega)⟩

end Nesting

/-- With a bound above the number of tokens, a statement that is read ends inside of the braces in
which it started. -/
theorem Nested.le_depth_of_read {level n : Nat} {c d : Cursor} {s : Stmt} (h : c.Inside level)
    (hn : c.rest.length < n) (hx : (within n).statement c = (some s, d)) : level ≤ d.depth :=
  (Nesting.read_statement (Nesting.keeps_within n level) h hn hx).1

end Sprig
