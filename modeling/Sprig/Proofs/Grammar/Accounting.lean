import Sprig.Proofs.Grammar.Replay
import Sprig.Session

/-!
One diagnostic for each statement that is given up.

A parser that fails gives no tree and leaves a diagnostic. Nothing but the grammar itself ties the
two together: a form that failed in silence would make a statement disappear, and one that went on
after a complaint would make one diagnostic too many. `Cursor.Accounts` is the balance of the two.
It is carried through the forms as the link of a run with itself, and settled by recovery, which
counts the statement whose diagnostic has been recorded. Blocks settle on their own, so a statement
that is given up later keeps what was given up inside of it on the account.
-/

namespace Sprig

/-- On the way from `c` to `d` the diagnostics recorded before stayed in front, and behind them
there is one for each statement given up on the way, and `n` more. -/
def Cursor.Accounts (n : Nat) (c d : Cursor) : Prop :=
  ∃ ds : Array Diagnostic, d.diagnostics = c.diagnostics ++ ds ∧
    d.dropped + n = c.dropped + ds.size

namespace Cursor.Accounts

variable {n : Nat} {c d : Cursor}

theorem refl (c : Cursor) : c.Accounts 0 c :=
  ⟨#[], by simp, rfl⟩

theorem advance (h : c.Accounts n d) : c.Accounts n d.advance := by
  simpa [Accounts] using h

theorem record (h : c.Accounts n d) (x : Diagnostic) : c.Accounts (n + 1) (d.record x) := by
  obtain ⟨ds, hds, hsize⟩ := h
  refine ⟨ds.push x, by simp [hds], ?_⟩
  simp only [record_dropped, Array.size_push]
  omega

/-- Giving up a statement settles its diagnostic. -/
theorem recover (h : c.Accounts (n + 1) d) (level : Nat) : c.Accounts n (d.recover level) := by
  obtain ⟨ds, hds, hsize⟩ := h
  refine ⟨ds, hds, ?_⟩
  simp only [recover_dropped]
  omega

end Cursor.Accounts

/-- The outcome of a parser at `c` owes a diagnostic exactly if it is a failure. -/
def Cursor.Explains {α : Type} (c : Cursor) (x : Option α × Cursor) : Prop :=
  c.Accounts (if x.1.isSome then 0 else 1) x.2

/-- A run that started at `a` stands at `c`, with at most `v` tokens in view. -/
structure Accounted (a : Cursor) (n v : Nat) (c : Cursor) : Prop where
  accounts : a.Accounts n c
  length : c.rest.length ≤ v

namespace Accounted

variable {a c : Cursor} {n v w : Nat}

theorem mono (h : Accounted a n v c) (hvw : v ≤ w) : Accounted a n w c :=
  { h with length := Nat.le_trans h.length hvw }

theorem pos (h : Accounted a n v c) (hk : c.kind ≠ .eof) : 0 < v := by
  refine Nat.lt_of_lt_of_le (List.length_pos_iff.mpr fun hr => ?_) h.length
  exact hk (by rw [Cursor.kind, hr]; rfl)

theorem advance (h : Accounted a n v c) : Accounted a n (v - 1) c.advance where
  accounts := h.accounts.advance
  length := by
    rw [c.length_advance]
    exact Nat.sub_le_sub_right h.length 1

theorem record (h : Accounted a n v c) (x : Diagnostic) : Accounted a (n + 1) v (c.record x) where
  accounts := h.accounts.record x
  length := h.length

theorem recover (h : Accounted a (n + 1) v c) (level : Nat) :
    Accounted a n v (c.recover level) where
  accounts := h.accounts.recover level
  length := Nat.le_trans (Cursor.length_skipFrom_le _ _ _) h.length

/-- The link of a run with itself. Nothing is owed before a construct or behind one, and one
diagnostic where one could not be read. -/
def link (a : Cursor) : Link where
  ready v c c' := c = c' ∧ Accounted a 0 v c
  done v c c' := c = c' ∧ Accounted a 0 v c
  failed v c c' := c = c' ∧ Accounted a 1 v c
  ready_mono hvw h := ⟨h.1, h.2.mono hvw⟩
  done_mono hvw h := ⟨h.1, h.2.mono hvw⟩
  failed_mono hvw h := ⟨h.1, h.2.mono hvw⟩
  kind_eq h := .inl (by rw [h.1])
  done_of_ready h hk := ⟨h, h.2.pos fun he => by rw [he] at hk; cases hk⟩
  text_eq h := by rw [h.1]
  ready_advance h := ⟨by rw [h.1], h.2.advance⟩
  noOperand h := ⟨by rw [h.1], h.2.record _⟩
  unexpected h _ := ⟨by rw [h.1], h.2.record _⟩
  badInteger h := ⟨by rw [h.1], h.2.record _⟩

/-- A parser whose run is linked with itself accounts for its outcome. -/
theorem of_agree {α : Type} {x : Option α × Cursor}
    (h : Agree ((link a).done v) ((link a).failed v) x x) :
    Accounted a (if x.1.isSome then 0 else 1) v x.2 := by
  cases h with
  | read _ h => exact h.2
  | failed h => exact h.2

variable {p : Nested} {m : Nat}

theorem statement (hp : (link a).Keeps p p m) (h : Accounted a 0 v c) (hm : v < m) :
    Accounted a (if (p.statement c).1.isSome then 0 else 1) v (p.statement c).2 := by
  refine of_agree ((Link.statement hp ⟨rfl, h⟩ hm).mono ?_ fun _ _ h => h)
  rintro d d' (hd | ⟨⟨rfl, hr⟩, -⟩)
  · exact hd
  · exact ⟨rfl, hr.mono (Nat.sub_le v 1)⟩

/-- Whatever is dropped from a list, nothing is owed behind it. -/
theorem statements {stop : Kind → Bool} (level : Nat) (hp : (link a).Keeps p p m)
    (hstop : stop .eof) (h : Accounted a 0 v c) (hm : v < m) (hn : v < n) :
    Accounted a 0 v (p.statements stop level n c).2 := by
  induction n generalizing v c with
  | zero => omega
  | succ n ih =>
      cases hs : stop c.kind with
      | true =>
          rw [p.statements_of_stop hs]
          exact h
      | false =>
          have hpos : 0 < v := h.pos fun he => by rw [he, hstop] at hs; cases hs
          have hst := statement hp h hm
          have again {d : Cursor} (hd : Accounted a 0 v d) :
              Accounted a 0 v (p.statements stop level n d.advance).2 :=
            (ih hd.advance (by omega) (by omega)).mono (Nat.sub_le v 1)
          rcases hx : p.statement c with ⟨_ | s, d⟩
          · rw [hx] at hst
            rw [p.statements_of_failed hs hx]
            split
            · exact hst.recover level
            · exact again (hst.recover level)
          · rw [hx] at hst
            rw [p.statements_of_read hs hx]
            exact again hst

theorem keeps_within (a : Cursor) (n : Nat) : (link a).Keeps (.within n) (.within n) n := by
  induction n with
  | zero =>
      exact ⟨fun v hv => absurd hv (Nat.not_lt_zero v), fun v hv => absurd hv (Nat.not_lt_zero v)⟩
  | succ n ih =>
      constructor
      · intro v hv least c c' h
        exact Link.expression ih least h (by omega) (by omega) (by omega)
      · rintro v hv c _ ⟨rfl, h⟩ hk
        have hpos : 0 < v := h.pos (by rw [hk]; decide)
        have hbody := statements c.depth ih (show Nested.endsBlock .eof from rfl) h.advance
          (by omega) (show v - 1 < n + 1 by omega)
        exact .read _ ⟨rfl, hbody.mono (Nat.sub_le v 1)⟩

end Accounted

namespace Nested

variable {n : Nat} {c : Cursor}

/-- With a bound above the number of tokens, a form leaves a diagnostic exactly where it fails. -/
theorem expr_explains (hn : c.rest.length < n) (least : Precedence) :
    c.Explains ((within n).expr least c) :=
  (Accounted.of_agree ((Accounted.keeps_within c n).expr _ hn least c c
    ⟨rfl, .refl c, Nat.le_refl _⟩)).accounts

theorem block_explains (hn : c.rest.length < n) (hk : c.kind = .lbrace) :
    c.Explains ((within n).block c) :=
  (Accounted.of_agree ((Accounted.keeps_within c n).block _ hn c c
    ⟨rfl, .refl c, Nat.le_refl _⟩ hk)).accounts

theorem statement_explains (hn : c.rest.length < n) : c.Explains ((within n).statement c) :=
  (Accounted.statement (Accounted.keeps_within c n) ⟨.refl c, Nat.le_refl _⟩ hn).accounts

end Nested

theorem Cursor.program_accounts (c : Cursor) : c.Accounts 0 c.program.2 :=
  (Accounted.statements 0 (Accounted.keeps_within c _) (show Nested.endsProgram .eof from rfl)
    ⟨.refl c, Nat.le_refl _⟩ (Nat.lt_succ_self _) (Nat.lt_succ_self _)).accounts

namespace Parsed

/-- The number of statements given up in reading the tokens, in the program and in all blocks, also
in blocks of statements that were given up themselves. -/
def dropped (ts : List Token) : Nat := (Cursor.start ts).program.2.dropped

theorem diagnostics_ofTokens (ts : List Token) :
    (ofTokens ts).diagnostics = (Cursor.start ts).program.2.diagnostics := rfl

theorem size_diagnostics (ts : List Token) : (ofTokens ts).diagnostics.size = dropped ts := by
  obtain ⟨ds, hds, hsize⟩ := (Cursor.start ts).program_accounts
  simp only [Cursor.start, Array.empty_append, Nat.zero_add, Nat.add_zero] at hds hsize
  rw [diagnostics_ofTokens, Cursor.start, hds]
  exact hsize.symm

theorem isClean_iff (ts : List Token) : (ofTokens ts).isClean ↔ dropped ts = 0 := by
  rw [isClean, Array.isEmpty_iff_size_eq_zero, size_diagnostics]

end Parsed

/-- A text from which a statement is missing is refused, and nothing of it is evaluated. -/
theorem Session.run_of_dropped (s : Session) {source : String}
    (h : 0 < Parsed.dropped (Token.ofText source)) :
    s.run source = (⟨.error (.syntactic (Parsed.ofText source).diagnostics), ""⟩, s) := by
  have hclean : ¬ (Parsed.ofText source).isClean := by
    rw [Parsed.ofText, Parsed.isClean_iff]
    exact Nat.ne_of_gt h
  rw [run, if_neg hclean]

/-- There are as many diagnostics as statements that were given up. Wherever the grammar reads from,
the diagnostics recorded before stay in front, each statement given up on the way has added one, and
a form that fails adds one more. So nothing was given up if and only if there is no diagnostic, and
a session evaluates a text only if no statement of it is missing. -/
theorem diagnostic_per_dropped (ts : List Token) :
    (Parsed.ofTokens ts).diagnostics.size = Parsed.dropped ts ∧
      ((Parsed.ofTokens ts).diagnostics = #[] ↔ Parsed.dropped ts = 0) ∧
      (∀ c : Cursor, c.Accounts 0 c.program.2) ∧
      (∀ (n : Nat) (c : Cursor), c.rest.length < n →
        c.Explains ((Nested.within n).statement c) ∧
        (∀ least, c.Explains ((Nested.within n).expr least c)) ∧
        (c.kind = .lbrace → c.Explains ((Nested.within n).block c))) ∧
      ∀ (s : Session) (source : String), 0 < Parsed.dropped (Token.ofText source) →
        s.run source = (⟨.error (.syntactic (Parsed.ofText source).diagnostics), ""⟩, s) := by
  refine ⟨Parsed.size_diagnostics ts, ?_, Cursor.program_accounts, fun n c hn => ?_, ?_⟩
  · rw [← Parsed.size_diagnostics, Array.size_eq_zero_iff]
  · exact ⟨Nested.statement_explains hn, Nested.expr_explains hn, Nested.block_explains hn⟩
  · exact fun s source h => s.run_of_dropped h

/-- In `let x = fn() { let = 1; 2 }(; 3` a statement of the body is given up, and then the whole
`let`. -/
theorem diagnostic_per_dropped_nested :
    let source := "let x = fn() \x7b let = 1; 2 \x7d(; 3"
    let ts := Token.ofText source
    let c := Cursor.start ts
    Parsed.dropped ts = 2 ∧ (Parsed.ofTokens ts).program = ⟨[.expr (.int 3)]⟩ ∧
      (Parsed.ofTokens ts).diagnostics =
        #[.unexpected .ident .assign, .noOperand .semicolon] ∧
      c.rest.length < 20 ∧ ((Nested.within 20).statement c).1 = none ∧
      c.Explains ((Nested.within 20).statement c) ∧
      (Parsed.ofTokens ts).diagnostics.size = Parsed.dropped ts ∧
      ((Session.start 5).run source).2 = Session.start 5 := by
  intro source ts c
  have hdropped : Parsed.dropped ts = 2 := by decide +kernel
  have hlength : c.rest.length < 20 := by decide +kernel
  obtain ⟨hsize, -, -, hforms, hsession⟩ := diagnostic_per_dropped ts
  have hrun := hsession (Session.start 5) source (by rw [hdropped]; exact Nat.zero_lt_succ 1)
  exact ⟨hdropped, by decide +kernel, by decide +kernel, hlength, by decide +kernel,
    (hforms 20 c hlength).1, hsize, congrArg Prod.snd hrun⟩

end Sprig
