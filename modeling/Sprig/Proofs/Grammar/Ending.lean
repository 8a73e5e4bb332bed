import Sprig.Proofs.Grammar.Composition

/-!
Whether an end marker ends the input.

Two runs read the same tokens. Behind them the first finds an end marker and nothing else, and the
second finds `x`, which begins with a marker too or is empty. As long as a form stops before the
marker the runs cannot differ. Once a form has come to the marker, nothing is claimed but that both
runs are there: `Abreast` has one case for each, and every form of the grammar keeps it.

A statement list steps on behind each of its statements, also behind one that ended on the marker
or was given up there. So the first run decides for all others. If the marker is still in front of
it at the end, no run has looked at the tokens behind. Otherwise every run has gone on to these.
-/

namespace Sprig

open Sprig.Parser Token

/-- The cursors stand in front of the same tokens. Behind these the first finds an end marker, the
second finds `x`. -/
structure Parallel (x : List Token) (c c' : Cursor) : Prop where
  rest : ∃ s, c.rest = s ++ [.eof] ∧ c'.rest = s ++ x
  depth : c.depth = c'.depth
  diagnostics : c.diagnostics = c'.diagnostics

/-- The cursors have come to the marker or, where `j` is zero, have passed it. -/
def Spent (x : List Token) (j : Nat) (c c' : Cursor) : Prop :=
  c.rest.length ≤ j ∧ c'.rest.length ≤ x.length + j - 1

/-- What two runs have come to: the same result and the same tokens ahead, or the marker. -/
inductive Abreast {α : Type} (x : List Token) (j : Nat) : α × Cursor → α × Cursor → Prop
  | before (a : α) {c c' : Cursor} (h : Parallel x c c') : Abreast x j (a, c) (a, c')
  | spent {r r' : α × Cursor} (h : Spent x j r.2 r'.2) : Abreast x j r r'

variable {x : List Token} {j k : Nat} {c c' d d' : Cursor}

theorem Abreast.map {α β : Type} {r r' : α × Cursor} (f : α → β) (h : Abreast x j r r') :
    Abreast x j (f r.1, r.2) (f r'.1, r'.2) := by
  cases h with
  | before a h => exact .before (f a) h
  | spent h => exact .spent h

namespace Spent

theorem mono (h : Spent x j c c') (hjk : j ≤ k) : Spent x k c c' := by
  obtain ⟨h, h'⟩ := h
  constructor <;> omega

theorem of_le (h : Spent x j c c') (hd : d.rest.length ≤ c.rest.length)
    (hd' : d'.rest.length ≤ c'.rest.length) : Spent x j d d' :=
  ⟨Nat.le_trans hd h.1, Nat.le_trans hd' h.2⟩

theorem advance (h : Spent x 1 c c') : Spent x 0 c.advance c'.advance := by
  obtain ⟨h, h'⟩ := h
  constructor
  · rw [c.length_advance]; omega
  · rw [c'.length_advance]; omega

end Spent

theorem Cursor.length_recover_le (c : Cursor) (level : Nat) :
    (c.recover level).rest.length ≤ c.rest.length :=
  length_skipFrom_le level c.rest c.depth

theorem Token.kindOf_append_eof (hx : kindOf x = .eof) (s : List Token) :
    kindOf (s ++ [.eof]) = kindOf (s ++ x) := by
  cases s with
  | nil => exact hx.symm
  | cons t s => rfl

/-- Recovery stops at the marker at the latest, so it does not see what lies behind. -/
theorem Cursor.skipFrom_append_eof (hx : kindOf x = .eof) (level : Nat) (s : List Token)
    (depth : Nat) :
    ∃ s' depth', skipFrom level (s ++ [.eof]) depth = (s' ++ [.eof], depth') ∧
      skipFrom level (s ++ x) depth = (s' ++ x, depth') := by
  induction s generalizing depth with
  | nil =>
      refine ⟨[], depth, rfl, ?_⟩
      cases x with
      | nil => rfl
      | cons z u =>
          have hb : isBoundary level z u depth := by
            rw [kindOf_cons] at hx
            rw [isBoundary, hx]
            rfl
          exact if_pos hb
  | cons t s ih =>
      have hk := kindOf_append_eof hx s
      have hb : isBoundary level t (s ++ [.eof]) depth = isBoundary level t (s ++ x) depth := by
        rw [isBoundary, isBoundary, hk]
      simp only [List.cons_append, skipFrom, ← hb]
      split
      · exact ⟨t :: s, depth, rfl, rfl⟩
      · rw [hk]
        exact ih _

namespace Parallel

theorem kind (hx : kindOf x = .eof) (h : Parallel x c c') : c.kind = c'.kind := by
  obtain ⟨s, hr, hr'⟩ := h.rest
  rw [Cursor.kind, Cursor.kind, hr, hr', kindOf_append_eof hx]

/-- On the marker, or on a common token with the same one behind it. -/
theorem spent_or_ahead (hx : kindOf x = .eof) (h : Parallel x c c') :
    Spent x 1 c c' ∨
      (c.text = c'.text ∧ c.peek = c'.peek) ∧ Parallel x c.advance c'.advance := by
  obtain ⟨s, hr, hr'⟩ := h.rest
  cases s with
  | nil => exact .inl ⟨by rw [hr]; exact Nat.le_refl 1, by rw [hr']; exact Nat.le_refl _⟩
  | cons t s =>
      have hp : c.peek = c'.peek := by
        rw [Cursor.peek, Cursor.peek, hr, hr']
        exact kindOf_append_eof hx s
      refine .inr ⟨⟨by rw [Cursor.text_of_rest hr, Cursor.text_of_rest hr'], hp⟩, ?_, ?_, ?_⟩
      · exact ⟨s, by rw [c.advance_rest, hr]; rfl, by rw [c'.advance_rest, hr']; rfl⟩
      · rw [c.advance_depth, c'.advance_depth, hp, h.depth]
      · rw [c.advance_diagnostics, c'.advance_diagnostics, h.diagnostics]

theorem record (h : Parallel x c c') (d : Diagnostic) : Parallel x (c.record d) (c'.record d) :=
  ⟨h.rest, h.depth, congrArg (·.push d) h.diagnostics⟩

theorem recover (hx : kindOf x = .eof) (h : Parallel x c c') (level : Nat) :
    Parallel x (c.recover level) (c'.recover level) := by
  obtain ⟨s, hr, hr'⟩ := h.rest
  obtain ⟨s', depth, hs, hs'⟩ := Cursor.skipFrom_append_eof hx level s c.depth
  rw [← hr] at hs
  rw [← hr', h.depth] at hs'
  exact ⟨⟨s', congrArg Prod.fst hs, congrArg Prod.fst hs'⟩,
    (congrArg Prod.snd hs).trans (congrArg Prod.snd hs').symm, h.diagnostics⟩

end Parallel

theorem Abreast.mono {α : Type} {r r' : α × Cursor} (h : Abreast x j r r') (hjk : j ≤ k) :
    Abreast x k r r' := by
  cases h with
  | before a h => exact .before a h
  | spent h => exact .spent (h.mono hjk)

/-- The parser never moves back, and it keeps two runs abreast. -/
structure Parser.Advances {α : Type} (x : List Token) (p : Parser α) : Prop where
  length_le (c : Cursor) : (p c).2.rest.length ≤ c.rest.length
  abreast {c c' : Cursor} : Parallel x c c' → Abreast x 1 (p c) (p c')

namespace Parser.Advances

variable {α β : Type} {p : Parser α} {f : α → Parser β}

theorem pure (a : α) : (Pure.pure a : Parser α).Advances x :=
  ⟨fun _ => Nat.le_refl _, fun h => .before (some a) h⟩

theorem fail : (Parser.fail : Parser α).Advances x :=
  ⟨fun _ => Nat.le_refl _, fun h => .before none h⟩

theorem reject (d : Diagnostic) : (Parser.reject d : Parser α).Advances x :=
  ⟨fun _ => Nat.le_refl _, fun h => .before none (h.record d)⟩

theorem bind (hp : p.Advances x) (hf : ∀ a, (f a).Advances x) : (p >>= f).Advances x := by
  have hle (c : Cursor) : ((p >>= f) c).2.rest.length ≤ (p c).2.rest.length := by
    rw [bind_apply]
    rcases p c with ⟨_ | a, d⟩
    · exact Nat.le_refl _
    · exact (hf a).length_le d
  refine ⟨fun c => Nat.le_trans (hle c) (hp.length_le c), fun {c c'} h => ?_⟩
  have ha := hp.abreast h
  have hlc := hle c
  have hlc' := hle c'
  rw [bind_apply, bind_apply] at *
  generalize p c = r at *
  generalize p c' = r' at *
  cases ha with
  | spent hs => exact .spent (hs.of_le hlc hlc')
  | before a h =>
      cases a with
      | none => exact .before none h
      | some a => exact (hf a).abreast h

/-- A parser may depend on whatever two cursors agree on as long as they are not on the marker. -/
theorem observe {g : Cursor → α} (hf : ∀ a, (f a).Advances x)
    (hg : ∀ c c', Parallel x c c' → Spent x 1 c c' ∨ g c = g c') :
    Parser.Advances x fun c => f (g c) c := by
  refine ⟨fun c => (hf (g c)).length_le c, fun {c c'} h => ?_⟩
  rcases hg c c' h with hs | he
  · exact .spent (hs.of_le ((hf _).length_le c) ((hf _).length_le c'))
  · rw [he]
    exact (hf _).abreast h

section

variable (hx : kindOf x = .eof)
include hx

theorem kind {f : Kind → Parser β} (hf : ∀ k, (f k).Advances x) :
    (Parser.kind >>= f).Advances x :=
  observe (g := Cursor.kind) hf fun _ _ h => .inr (h.kind hx)

theorem text {f : String → Parser β} (hf : ∀ s, (f s).Advances x) :
    (Parser.text >>= f).Advances x :=
  observe (g := Cursor.text) hf fun _ _ h => (h.spent_or_ahead hx).imp_right fun h => h.1.1

theorem peek {f : Kind → Parser β} (hf : ∀ k, (f k).Advances x) :
    (Parser.peek >>= f).Advances x :=
  observe (g := Cursor.peek) hf fun _ _ h => (h.spent_or_ahead hx).imp_right fun h => h.1.2

theorem advance : Parser.advance.Advances x := by
  refine ⟨fun c => ?_, fun {c c'} h => ?_⟩
  · exact Nat.le_trans (Nat.le_of_eq c.length_advance) (Nat.sub_le _ 1)
  · rcases h.spent_or_ahead hx with hs | ⟨-, ha⟩
    · exact .spent (hs.advance.mono (Nat.zero_le 1))
    · exact .before (some ()) ha

theorem expect (k : Kind) : (Parser.expect k).Advances x := by
  have h : Parser.expect k = Parser.peek >>= fun got =>
      if got = k then Parser.advance else Parser.reject (.unexpected k got) := by
    funext c
    rw [peek_bind, Parser.expect]
    split <;> rfl
  rw [h]
  refine peek hx fun got => ?_
  split
  · exact advance hx
  · exact reject _

theorem skip (k : Kind) : (Parser.skip k).Advances x := by
  have h : Parser.skip k = Parser.peek >>= fun got =>
      if got = k then Parser.advance else Pure.pure () := by
    funext c
    rw [peek_bind, Parser.skip]
    split <;> rfl
  rw [h]
  refine peek hx fun got => ?_
  split
  · exact advance hx
  · exact pure ()

end

end Parser.Advances

/-- The parsers for nested constructs keep two runs abreast. -/
structure Nested.Advances (x : List Token) (p : Nested) : Prop where
  expr (least : Precedence) : (p.expr least).Advances x
  block : p.block.Advances x

namespace Nested

variable {p : Nested}

section

variable (hx : kindOf x = .eof)
include hx

theorem moreParams_advances (n : Nat) : (moreParams n).Advances x := by
  induction n with
  | zero => exact .fail
  | succ n ih =>
      refine .peek hx fun k => ?_
      split
      · refine (Advances.advance hx).bind fun _ => (Advances.expect hx _).bind fun _ => ?_
        exact .text hx fun name => ih.bind fun names => .pure _
      · exact (Advances.expect hx _).bind fun _ => .pure _

theorem params_advances (n : Nat) : (params n).Advances x := by
  refine .peek hx fun k => ?_
  split
  · exact (Advances.advance hx).bind fun _ => .pure _
  · refine (Advances.expect hx _).bind fun _ => .text hx fun name => ?_
    exact (moreParams_advances hx n).bind fun names => .pure _

theorem integer_advances : integer.Advances x := by
  refine .text hx fun digits => ?_
  split
  · exact .pure _
  · exact .reject _

variable (hp : p.Advances x)
include hp

theorem moreItems_advances (close : Kind) (n : Nat) : (p.moreItems close n).Advances x := by
  induction n with
  | zero => exact .fail
  | succ n ih =>
      refine .peek hx fun k => ?_
      split
      · refine (Advances.advance hx).bind fun _ => (Advances.advance hx).bind fun _ => ?_
        exact (hp.expr _).bind fun item => ih.bind fun items => .pure _
      · exact (Advances.expect hx close).bind fun _ => .pure _

theorem items_advances (n : Nat) (close : Kind) : (p.items n close).Advances x := by
  refine .peek hx fun k => ?_
  split
  · exact (Advances.advance hx).bind fun _ => .pure _
  · refine (Advances.advance hx).bind fun _ => (hp.expr _).bind fun item => ?_
    exact (moreItems_advances hx hp close n).bind fun items => .pure _

theorem unary_advances (op : UnaryOp) : (p.unaryBy op).Advances x :=
  (Advances.advance hx).bind fun _ => (hp.expr _).bind fun _ => .pure _

theorem group_advances : p.group.Advances x :=
  (Advances.advance hx).bind fun _ => (hp.expr _).bind fun _ =>
    (Advances.expect hx _).bind fun _ => .pure _

theorem alternative_advances : p.alternative.Advances x := by
  refine .peek hx fun k => ?_
  split
  · refine (Advances.advance hx).bind fun _ => (Advances.expect hx _).bind fun _ => ?_
    exact hp.block.bind fun _ => .pure _
  · exact .pure _

theorem conditional_advances : p.conditional.Advances x := by
  refine (Advances.expect hx _).bind fun _ => (Advances.advance hx).bind fun _ => ?_
  refine (hp.expr _).bind fun test => (Advances.expect hx _).bind fun _ => ?_
  refine (Advances.expect hx _).bind fun _ => hp.block.bind fun yes => ?_
  exact (alternative_advances hx hp).bind fun no => .pure _

theorem function_advances (n : Nat) : (p.function n).Advances x := by
  refine (Advances.expect hx _).bind fun _ => (params_advances hx n).bind fun names => ?_
  exact (Advances.expect hx _).bind fun _ => hp.block.bind fun body => .pure _

theorem operand_advances (n : Nat) : (p.operand n).Advances x := by
  rw [operand_eq]
  refine .kind hx fun k => ?_
  cases k with
  | ident | string => exact .text hx fun _ => .pure _
  | int => exact integer_advances hx
  | kwTrue | kwFalse => exact .pure _
  | bang | minus => exact unary_advances hx hp _
  | lparen => exact group_advances hx hp
  | lbracket => exact (items_advances hx hp n _).bind fun _ => .pure _
  | kwIf => exact conditional_advances hx hp
  | kwFn => exact function_advances hx hp n
  | _ => exact .reject _

theorem extend_advances (n : Nat) (left : Expr) (s : Suffix) : (p.extend n left s).Advances x := by
  cases s with
  | operator op => exact (Advances.advance hx).bind fun _ => (hp.expr _).bind fun _ => .pure _
  | call => exact (items_advances hx hp n _).bind fun _ => .pure _
  | index =>
      exact (Advances.advance hx).bind fun _ => (hp.expr _).bind fun _ =>
        (Advances.expect hx _).bind fun _ => .pure _

theorem climb_advances (bound : Nat) (least : Precedence) (n : Nat) (left : Expr) :
    (p.climb bound least n left).Advances x := by
  induction n generalizing left with
  | zero => exact .fail
  | succ n ih =>
      rw [climb_succ]
      refine .peek hx fun k => ?_
      split
      · exact .pure _
      · next s _ =>
          split
          · exact (Advances.advance hx).bind fun _ =>
              (extend_advances hx hp bound left s).bind fun longer => ih longer
          · exact .pure _

theorem expression_advances (n : Nat) (least : Precedence) : (p.expression n least).Advances x :=
  (operand_advances hx hp n).bind fun left => climb_advances hx hp n least n left

theorem bare_advances : p.bare.Advances x :=
  (hp.expr _).bind fun _ => (Advances.skip hx _).bind fun _ => .pure _

theorem ret_advances : p.ret.Advances x :=
  (Advances.advance hx).bind fun _ => (hp.expr _).bind fun _ =>
    (Advances.skip hx _).bind fun _ => .pure _

theorem binding_advances : p.binding.Advances x := by
  refine (Advances.expect hx _).bind fun _ => .text hx fun name => ?_
  refine (Advances.expect hx _).bind fun _ => (Advances.advance hx).bind fun _ => ?_
  exact (hp.expr _).bind fun value => (Advances.skip hx _).bind fun _ => .pure _

theorem statement_advances : p.statement.Advances x := by
  refine .kind hx fun k => ?_
  cases k with
  | kwLet => exact binding_advances hx hp
  | kwReturn => exact ret_advances hx hp
  | lbrace => exact hp.block.bind fun _ => .pure _
  | _ => exact bare_advances hx hp

end

/-- Behind a statement the list takes another step, unless it is left for good. That happens only
inside of braces. -/
theorem length_statements_succ_le {stop : Kind → Bool} {level n : Nat} {c : Cursor}
    (ih : ∀ c, (p.statements stop level n c).2.rest.length ≤ c.rest.length)
    (hs : stop c.kind = false) :
    (p.statements stop level (n + 1) c).2.rest.length ≤
      (p.statement c).2.rest.length - (1 - level) := by
  have step (d : Cursor) :
      (p.statements stop level n d.advance).2.rest.length ≤ d.rest.length - 1 :=
    d.length_advance ▸ ih d.advance
  rcases hst : p.statement c with ⟨_ | s, d⟩
  · rw [p.statements_of_failed hs hst]
    have hrec := d.length_recover_le level
    split
    · exact Nat.le_trans hrec (by show _ ≤ d.rest.length - _; omega)
    · exact Nat.le_trans (step _) (by show _ ≤ d.rest.length - _; omega)
  · rw [p.statements_of_read hs hst]
    exact Nat.le_trans (step d) (by show _ ≤ d.rest.length - _; omega)

variable (hx : kindOf x = .eof) (hp : p.Advances x)
include hx hp

theorem length_statements_le (stop : Kind → Bool) (level n : Nat) (c : Cursor) :
    (p.statements stop level n c).2.rest.length ≤ c.rest.length := by
  induction n generalizing c with
  | zero => exact Nat.le_refl _
  | succ n ih =>
      cases hs : stop c.kind with
      | true => exact Nat.le_of_eq (by rw [p.statements_of_stop hs])
      | false =>
          calc (p.statements stop level (n + 1) c).2.rest.length
              ≤ (p.statement c).2.rest.length - (1 - level) := length_statements_succ_le ih hs
            _ ≤ (p.statement c).2.rest.length := Nat.sub_le _ _
            _ ≤ c.rest.length := (statement_advances hx hp).length_le c

/-- One turn of a list. If its statement came to the marker, the list has passed it, except where
the list was left. -/
theorem statements_spent {stop : Kind → Bool} (level n : Nat) (hs : stop c.kind = false)
    (hs' : stop c'.kind = false) (h : Spent x 1 (p.statement c).2 (p.statement c').2) :
    Spent x (min 1 level) (p.statements stop level (n + 1) c).2
      (p.statements stop level (n + 1) c').2 := by
  have hle := length_statements_succ_le (length_statements_le hx hp stop level n) hs
  have hle' := length_statements_succ_le (length_statements_le hx hp stop level n) hs'
  obtain ⟨h, h'⟩ := h
  constructor <;> omega

/-- A step from the marker spends it, any other one keeps the runs parallel. -/
theorem statements_step {stop : Kind → Bool} {level n : Nat}
    (ih : ∀ {c c'}, Parallel x c c' → Abreast x (min 1 level) (p.statements stop level n c)
      (p.statements stop level n c')) (h : Parallel x c c') :
    Abreast x (min 1 level) (p.statements stop level n c.advance)
      (p.statements stop level n c'.advance) := by
  rcases h.spent_or_ahead hx with hl | ⟨-, ha⟩
  · refine .spent (Spent.mono (hl.advance.of_le ?_ ?_) (Nat.zero_le _))
    · exact length_statements_le hx hp stop level n _
    · exact length_statements_le hx hp stop level n _
  · exact ih ha

theorem statements_abreast (stop : Kind → Bool) (level n : Nat) (h : Parallel x c c') :
    Abreast x (min 1 level) (p.statements stop level n c) (p.statements stop level n c') := by
  induction n generalizing c c' with
  | zero => exact .before [] h
  | succ n ih =>
      have hk := h.kind hx
      cases hs : stop c.kind with
      | true =>
          rw [p.statements_of_stop hs, p.statements_of_stop (hk ▸ hs)]
          exact .before [] h
      | false =>
          have hs' : stop c'.kind = false := hk ▸ hs
          have hspent := statements_spent hx hp level n hs hs'
          have hst := (statement_advances hx hp).abreast h
          generalize hy : p.statement c = y at hst hspent
          generalize hy' : p.statement c' = y' at hst hspent
          cases hst with
          | spent h => exact .spent (hspent h)
          | @before a d d' h =>
              cases a with
              | none =>
                  have hr := h.recover hx level
                  rw [p.statements_of_failed hs hy, p.statements_of_failed hs' hy', ← hr.depth]
                  split
                  · exact .before [] hr
                  · exact statements_step hx hp ih hr
              | some s =>
                  rw [p.statements_of_read hs hy, p.statements_of_read hs' hy']
                  exact (statements_step hx hp ih h).map (s :: ·)

theorem body_advances (n : Nat) : (p.body n).Advances x := by
  refine ⟨fun c => ?_, fun {c c'} h => ?_⟩
  · refine Nat.le_trans (length_statements_le hx hp endsBlock c.depth n c.advance) ?_
    exact Nat.le_trans (Nat.le_of_eq c.length_advance) (Nat.sub_le _ 1)
  · have hl := statements_step hx hp (statements_abreast hx hp endsBlock c.depth n) h
    rw [p.body_of_statements rfl, p.body_of_statements rfl, ← h.depth]
    exact (hl.map some).mono (Nat.min_le_left 1 _)

omit hp in
theorem advances_within (n : Nat) : (within n).Advances x := by
  induction n with
  | zero => exact ⟨fun _ => .fail, .fail⟩
  | succ n ih =>
      exact ⟨fun least => expression_advances hx ih (n + 1) least, body_advances hx ih (n + 1)⟩

end Nested

/-- A larger bound changes nothing. -/
theorem Parsed.ofTokens_bound {t : List Token} {n : Nat} (hn : t.length < n) :
    ∃ d, (Nested.within n).statements Nested.endsProgram 0 n (Cursor.start t) =
        ((ofTokens t).program.statements, d) ∧
      d.diagnostics = (ofTokens t).diagnostics ∧
      d.rest = (Cursor.start t).program.2.rest := by
  have hc : Replays #[] t.length (Cursor.start t) (Cursor.start t) :=
    ⟨rfl, rfl, by simp, Nat.le_refl _⟩
  obtain ⟨ss, d, d', hs, hs', h⟩ := Replays.statements 0 n (t.length + 1)
    (Replays.keeps_within (m := t.length + 1) hn (Nat.le_refl _))
    (show Nested.endsProgram .eof from rfl) hc (Nat.lt_succ_self _) hn (Nat.lt_succ_self _)
  rw [ofTokens_of_statements hs', Cursor.program_of_statements (c := .start t) hs']
  exact ⟨d, hs, by simpa using h.diagnostics, h.rest⟩

theorem Parsed.ext_statements {p q : Parsed} (hs : p.program.statements = q.program.statements)
    (hd : p.diagnostics = q.diagnostics) : p = q := by
  obtain ⟨⟨ss⟩, ds⟩ := p
  obtain ⟨⟨ss'⟩, ds'⟩ := q
  obtain rfl : ss = ss' := hs
  obtain rfl : ds = ds' := hd
  rfl

theorem Parallel.start (hx : kindOf x = .eof) (t : List Token) :
    Parallel x (Cursor.start (t ++ [.eof])) (Cursor.start (t ++ x)) :=
  ⟨⟨t, rfl, rfl⟩, congrArg (·.nest 0) (kindOf_append_eof hx t), rfl⟩

/-- Reading the tokens up to an end marker leaves the marker unread. -/
def Token.Terminated (t : List Token) : Prop :=
  (Cursor.start (t ++ [.eof])).program.2.rest ≠ []

instance (t : List Token) : Decidable (Terminated t) :=
  inferInstanceAs (Decidable (_ ≠ []))

/-- If the marker is left unread, whatever stands in its place leads to the same program. Otherwise
reading goes on behind whatever stands there. -/
theorem Parsed.ofTokens_append_of_kindOf (hx : kindOf x = .eof) (t : List Token) :
    Terminated t ∧ ofTokens (t ++ x) = ofTokens (t ++ [.eof]) ∨
      ¬ Terminated t ∧ (Cursor.start (t ++ x)).program.2.rest.length ≤ x.length - 1 := by
  have hn : (t ++ [Token.eof]).length < t.length + x.length + 2 := by
    rw [List.length_append, List.length_singleton]; omega
  have hn' : (t ++ x).length < t.length + x.length + 2 := by rw [List.length_append]; omega
  obtain ⟨d, hd, hdiag, hrest⟩ := ofTokens_bound hn
  obtain ⟨d', hd', hdiag', hrest'⟩ := ofTokens_bound hn'
  have h := Nested.statements_abreast hx (Nested.advances_within hx (t.length + x.length + 2))
    Nested.endsProgram 0 (t.length + x.length + 2) (Parallel.start hx t)
  rw [Terminated, ← hrest, ← hrest']
  generalize (Nested.within _).statements _ _ _ (Cursor.start (t ++ [.eof])) = r at h hd
  generalize (Nested.within _).statements _ _ _ (Cursor.start (t ++ x)) = r' at h hd'
  cases h with
  | before ss h =>
      obtain ⟨hss, rfl⟩ := Prod.mk.inj hd
      obtain ⟨hss', rfl⟩ := Prod.mk.inj hd'
      refine .inl ⟨?_, ext_statements (hss'.symm.trans hss) ?_⟩
      · obtain ⟨s, hs, -⟩ := h.rest
        rw [hs]
        exact List.append_ne_nil_of_right_ne_nil s (List.cons_ne_nil _ _)
      · rw [← hdiag, ← hdiag', h.diagnostics]
  | spent h =>
      subst hd hd'
      refine .inr ⟨not_not_intro ?_, h.2⟩
      exact List.length_eq_zero_iff.mp (Nat.le_zero.mp h.1)

theorem Token.Terminated.of_semicolon {t : List Token} (free : EofFree t) (balanced : Balanced t)
    (boundary : t.getLast?.map Token.kind = some .semicolon) : Terminated t := by
  obtain ⟨sc, hlast, hsc⟩ := Option.map_eq_some_iff.mp boundary
  obtain ⟨s, rfl⟩ := List.getLast?_eq_some_iff.mp hlast
  have e : Enclosed 0 s := Enclosed.of_append_semicolon hsc ⟨balanced, free⟩
  obtain ⟨ss, d, d', k, hs, -, hreplay, -⟩ := Frame.ofSemicolon_run hsc e [.eof]
  have hstop : Nested.endsProgram d.kind := by rw [hreplay.kind]; rfl
  rw [Nested.statements_of_stop _ hstop] at hs
  rw [Terminated, List.append_assoc, List.singleton_append,
    Cursor.program_of_statements (c := .start _) hs]
  show d.rest ≠ []
  rw [hreplay.rest]
  exact List.cons_ne_nil _ _

/-- An end marker ends the input for tokens that are terminated, such as those with partners for all
their braces and a `;` at the end. For all others reading goes on behind the marker. -/
theorem ofTokens_append_marker (t u : List Token) (z : Token) (hz : z.kind = .eof) :
    (Terminated t → Parsed.ofTokens (t ++ z :: u) = Parsed.ofTokens t) ∧
      (EofFree t → Balanced t → t.getLast?.map Token.kind = some .semicolon → Terminated t) ∧
      (¬ Terminated t → (Cursor.start (t ++ z :: u)).program.2.rest.length ≤ u.length) := by
  have hzu : kindOf (z :: u) = .eof := hz
  refine ⟨fun ht => ?_, Terminated.of_semicolon, fun ht => ?_⟩
  · have hnil := Parsed.ofTokens_append_of_kindOf (x := []) rfl t
    rw [List.append_nil] at hnil
    obtain ⟨-, hnil⟩ := hnil.resolve_right fun h => h.1 ht
    obtain ⟨-, hu⟩ := (Parsed.ofTokens_append_of_kindOf hzu t).resolve_right fun h => h.1 ht
    exact hu.trans hnil.symm
  · obtain ⟨-, hu⟩ := (Parsed.ofTokens_append_of_kindOf hzu t).resolve_left fun h => ht h.1
    exact hu

/-- Recovery from the malformed `let a { b } c` stops at the `;` in front of the marker. -/
theorem ofTokens_append_marker_malformed :
    let t : List Token := [⟨.kwLet, "let"⟩, ⟨.ident, "a"⟩, .symbol .lbrace, ⟨.ident, "b"⟩,
      .symbol .rbrace, ⟨.ident, "c"⟩, .symbol .semicolon]
    Token.eof.kind = .eof ∧ Terminated t ∧
      Parsed.ofTokens (t ++ .eof :: [⟨.int, "1"⟩]) = Parsed.ofTokens t := by
  intro t
  have ht : Terminated t := by decide
  exact ⟨rfl, ht, (ofTokens_append_marker t [⟨.int, "1"⟩] .eof rfl).1 ht⟩

/-- A `return` that fails on the marker is given up there, and the list steps over the marker. -/
theorem ofTokens_return_marker :
    let t : List Token := [⟨.kwReturn, "return"⟩]
    EofFree t ∧ (Parsed.ofTokens t).program.statements = [] ∧
      (Parsed.ofTokens (t ++ .eof :: [⟨.int, "1"⟩])).program.statements = [.expr (.int 1)] := by
  decide

end Sprig
