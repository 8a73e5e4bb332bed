import Sprig.Grammar.Parsed
import Sprig.Proofs.Grammar.Braces
import Sprig.Proofs.Grammar.Writing

/-!
What is read without a diagnostic was written in the tokens.

If nothing is found wrong, the tokens spell the program that was read, up to closing braces that are
missing at their end. `Spans` accounts for the tokens between two cursors, and promises nothing once
a diagnostic has been recorded. So it composes over a block that goes on behind its errors, and no
form needs a proof of its own that diagnostics stay. `Answers` adds that a failure is recorded. The
bounds enter by `Cursor.Fits` only: with tokens that fit, none of them is ever reached.
-/

namespace Sprig

open Token Writing Sprig.Parser

/-- The tokens `r` are `w` and then `y`. Where nothing is left, `r` may lack closing braces. -/
def Splits (r w y : List Token) : Prop :=
  ∃ k, r ++ .replicate k (.symbol .rbrace) = w ++ y ∧ (y ≠ [] → k = 0)

namespace Splits

variable {r u w x y : List Token}

theorem of_append (u y : List Token) : Splits (u ++ y) u y :=
  ⟨0, List.append_nil _, fun _ => rfl⟩

theorem eq_append (h : Splits r w y) (hy : y ≠ []) : r = w ++ y := by
  obtain ⟨k, hr, hk⟩ := h
  rwa [hk hy, List.replicate_zero, List.append_nil] at hr

theorem trans (h : Splits r u y) (h' : Splits y w x) : Splits r (u ++ w) x := by
  cases y with
  | nil =>
      obtain ⟨k, hr, -⟩ := h
      obtain ⟨l, hy, hl⟩ := h'
      refine ⟨k + l, ?_, ?_⟩
      · rw [← List.replicate_append_replicate, ← List.append_assoc, hr, List.append_nil,
          List.append_assoc, ← hy]
        rfl
      · intro hx
        rw [hl hx] at hy
        exact absurd (List.append_eq_nil_iff.1 hy.symm).2 hx
  | cons t y =>
      obtain ⟨l, hy, hl⟩ := h'
      refine ⟨l, ?_, hl⟩
      rw [h.eq_append (List.cons_ne_nil t y), List.append_assoc, hy, List.append_assoc]

theorem length_le (h : Splits r w y) : y.length ≤ r.length := by
  cases y with
  | nil => exact Nat.zero_le _
  | cons t y => rw [h.eq_append (List.cons_ne_nil t y), List.length_append]; omega

theorem eofFree (h : Splits r w y) (hr : EofFree r) : EofFree y := by
  cases y with
  | nil => intro t ht; cases ht
  | cons t y =>
      rw [h.eq_append (List.cons_ne_nil t y)] at hr
      exact fun a ha => hr a (List.mem_append_right w ha)

/-- At the end of the tokens one more closing brace may be missing. -/
theorem close (h : Splits r w []) : Splits r (w ++ [.symbol .rbrace]) [] := by
  obtain ⟨k, hr, -⟩ := h
  refine ⟨k + 1, ?_, fun h => absurd rfl h⟩
  rw [List.replicate_succ', ← List.append_assoc, hr, List.append_nil, List.append_nil]

end Splits

/-- Nothing has been found wrong. -/
def Cursor.Clean (c : Cursor) : Prop := c.diagnostics = #[]

/-- As long as nothing is wrong, fewer than `n` tokens follow, none of which marks the end. -/
def Cursor.Fits (n : Nat) (c : Cursor) : Prop :=
  c.Clean → EofFree c.rest ∧ c.rest.length < n

/-- Unless something is wrong at `d`, nothing was at `c`, and the tokens from the current one of `c`
through the current one of `d` satisfy `φ`. -/
def Spans (φ : List Token → Prop) (c d : Cursor) : Prop :=
  d.Clean → c.Clean ∧ ∃ w, φ w ∧ Splits c.rest w d.rest.tail ∧ d.rest.tail.length < c.rest.length

/-- A single token of kind `k`. -/
def Word (k : Kind) (s : String) (w : List Token) : Prop :=
  ∃ t : Token, w = [t] ∧ t.kind = k ∧ t.text = s

/-- A part with `φ` and then one with `ψ`. -/
def Joined (φ ψ : List Token → Prop) (w : List Token) : Prop :=
  ∃ u v, φ u ∧ ψ v ∧ w = u ++ v

/-- A part with `φ` between delimiters of the kinds `a` and `b`. -/
def Between (a b : Kind) (φ : List Token → Prop) (w : List Token) : Prop :=
  ∃ o u z, o.kind = a ∧ φ u ∧ z.kind = b ∧ w = o :: (u ++ [z])

theorem Cursor.clean_advance {c : Cursor} : c.advance.Clean ↔ c.Clean := by
  rw [Clean, Clean, c.advance_diagnostics]

theorem Cursor.not_clean_record (c : Cursor) (d : Diagnostic) : ¬ (c.record d).Clean :=
  Array.push_ne_empty

theorem Cursor.Fits.mono {c : Cursor} {m n : Nat} (h : c.Fits m) (hn : m ≤ n) : c.Fits n :=
  fun hc => ⟨(h hc).1, Nat.lt_of_lt_of_le (h hc).2 hn⟩

theorem Cursor.Fits.not_clean {c : Cursor} (h : c.Fits 0) : ¬ c.Clean :=
  fun hc => Nat.not_lt_zero _ (h hc).2

namespace Spans

variable {φ ψ : List Token → Prop} {c d f : Cursor} {n : Nat}

theorem mono (h : Spans φ c d) (hφ : ∀ w, φ w → ψ w) : Spans ψ c d := by
  intro hd
  obtain ⟨hc, w, hw, hs⟩ := h hd
  exact ⟨hc, w, hφ w hw, hs⟩

theorem current {k : Kind} (hk : c.kind = k) (hne : k ≠ .eof) : Spans (Word k c.text) c c := by
  intro hc
  cases hr : c.rest with
  | nil =>
      rw [Cursor.kind, hr] at hk
      exact absurd hk.symm hne
  | cons t ts =>
      refine ⟨hc, [t], ⟨t, rfl, ?_, (Cursor.text_of_rest hr).symm⟩, .of_append [t] ts, ?_⟩
      · rw [← hk, Cursor.kind_of_rest hr]
      · exact Nat.lt_succ_self _

theorem andThen (h : Spans φ c d) (h' : Spans ψ d.advance f) : Spans (Joined φ ψ) c f := by
  intro hf
  obtain ⟨hd, v, hv, hs', hl'⟩ := h' hf
  obtain ⟨hc, u, hu, hs, hl⟩ := h (Cursor.clean_advance.1 hd)
  rw [d.advance_rest] at hs' hl'
  exact ⟨hc, u ++ v, ⟨u, v, hu, hv, rfl⟩, hs.trans hs', Nat.lt_trans hl' hl⟩

theorem andToken {k : Kind} (h : Spans φ c d) (hk : d.advance.kind = k) (hne : k ≠ .eof) :
    Spans (Joined φ (Word k d.advance.text)) c d.advance :=
  h.andThen (current hk hne)

theorem between {a b : Kind} {s : String} (h : Spans (Joined (Word a s) φ) c d)
    (hb : d.advance.kind = b) (hne : b ≠ .eof) : Spans (Between a b φ) c d.advance := by
  refine (h.andToken hb hne).mono ?_
  rintro _ ⟨_, _, ⟨_, u, ⟨o, rfl, ho, -⟩, hu, rfl⟩, ⟨z, rfl, hz, -⟩, rfl⟩
  exact ⟨o, u, z, ho, hu, hz, rfl⟩

/-- What was read leaves fewer tokens. -/
theorem fits (h : Spans φ c d) (hc : c.Fits (n + 1)) : d.advance.Fits n := by
  intro hd
  obtain ⟨hclean, w, -, hs, hl⟩ := h (Cursor.clean_advance.1 hd)
  obtain ⟨hfree, hn⟩ := hc hclean
  rw [d.advance_rest]
  exact ⟨hs.eofFree hfree, by omega⟩

theorem fits_same (h : Spans φ c d) (hc : c.Fits n) : d.advance.Fits n :=
  h.fits (hc.mono (Nat.le_succ n))

end Spans

/-- A result that satisfies `Q`, or a failure that has been recorded. -/
inductive Answers {α : Type} (Q : α → Cursor → Prop) : Option α × Cursor → Prop
  | read {a : α} {d : Cursor} (h : Q a d) : Answers Q (some a, d)
  | failed {d : Cursor} (h : ¬ d.Clean) : Answers Q (none, d)

namespace Answers

variable {α β : Type} {Q : α → Cursor → Prop} {R : β → Cursor → Prop}

theorem bind {p : Parser α} {f : α → Parser β} {c : Cursor} (h : Answers Q (p c))
    (k : ∀ a d, Q a d → Answers R (f a d)) : Answers R ((p >>= f) c) := by
  rw [bind_apply]
  generalize p c = x at h ⊢
  cases h with
  | read h => exact k _ _ h
  | failed h => exact .failed h

theorem mono {x : Option α × Cursor} {R : α → Cursor → Prop} (h : Answers Q x)
    (hQ : ∀ a d, Q a d → R a d) : Answers R x := by
  cases h with
  | read h => exact .read (hQ _ _ h)
  | failed h => exact .failed h

theorem expect {f : Unit → Parser β} {k : Kind} {c : Cursor}
    (h : c.advance.kind = k → Answers R (f () c.advance)) :
    Answers R ((Parser.expect k >>= f) c) := by
  rw [bind_apply, Parser.expect]
  by_cases hk : c.peek = k
  · rw [if_pos hk]
    exact h (c.advance_kind.trans hk)
  · rw [if_neg hk]
    exact .failed (c.not_clean_record _)

end Answers

/-- Within the bound `n`, what the parsers read is what was written. -/
structure Nested.Sound (p : Nested) (n : Nat) : Prop where
  expr {pos : Position} {least : Precedence} {c : Cursor} : pos.Entered least → c.Fits n →
    Answers (fun e d => Spans (Written false pos e) c d ∧ ¬ least < d.peek.precedence)
      (p.expr least c)
  block {c : Cursor} : c.kind = .lbrace → c.Fits n →
    Answers (fun ss d => Spans (Braced false ss) c d) (p.block c)

/-- The tokens spell the expression at every position that takes it without parentheses, if it may
be entered with `least` and stand in front of `k`. -/
def Held (least : Precedence) (k : Kind) (e : Expr) (w : List Token) : Prop :=
  ∀ pos : Position, (e.Above least → e.Yields k → ¬ pos.Groups e) → Written false pos e w

theorem Held.of_bare {least : Precedence} {k : Kind} {e : Expr} {w : List Token}
    (hw : Bare false e w) (ha : e.Above least) (hy : e.Yields k) : Held least k e w :=
  fun _ h => .bare (h ha hy) hw

namespace Nested

variable {p : Nested} {n m : Nat} {c d : Cursor} {φ : List Token → Prop}

theorem moreItems_answers {close : Kind} (hp : p.Sound n) (hclose : close ≠ .eof)
    (hn : d.advance.Fits (n + 1)) (hm : d.advance.Fits m) :
    Answers (fun es f => Spans (Joined (MoreItems false es) (Word close f.text)) d.advance f)
      (p.moreItems close m d) := by
  induction m generalizing d with
  | zero => exact .failed (fun hd => hm.not_clean (Cursor.clean_advance.2 hd))
  | succ m ih =>
      rw [moreItems, peek_bind]
      by_cases hk : d.peek = .comma
      · rw [if_pos hk]
        simp only [advance_bind]
        have hcomma := Spans.current (d.advance_kind.trans hk) (by decide)
        refine (hp.expr .free (hcomma.fits hn)).bind ?_
        intro e f ⟨he, _⟩
        have hitem := hcomma.andThen he
        refine (ih (hitem.fits_same hn) (hitem.fits hm)).bind ?_
        intro es g hes
        refine .read ((hitem.andThen hes).mono ?_)
        rintro _ ⟨_, _, ⟨_, u, ⟨k, rfl, hk, -⟩, hu, rfl⟩, ⟨v, z, hv, hz, rfl⟩, rfl⟩
        exact ⟨_, z, .cons hk hu hv, hz, by simp⟩
      · rw [if_neg hk]
        refine .expect ?_
        intro hz
        refine .read ((Spans.current hz hclose).mono ?_)
        intro w hw
        exact ⟨[], w, .nil, hw, rfl⟩

theorem items_answers {opener close : Kind} (hp : p.Sound n) (hk : c.kind = opener)
    (hopener : opener ≠ .eof) (hclose : close ≠ .eof) (hn : c.Fits (n + 1)) (hm : c.Fits m) :
    Answers (fun es f => Spans (Between opener close (Items false es)) c f)
      (p.items m close c) := by
  have hopen := Spans.current hk hopener
  rw [items, peek_bind]
  by_cases hz : c.peek = close
  · rw [if_pos hz]
    refine .read ((hopen.andToken (c.advance_kind.trans hz) hclose).mono ?_)
    rintro _ ⟨_, _, ⟨o, rfl, ho, -⟩, ⟨z, rfl, hz, -⟩, rfl⟩
    exact ⟨o, [], z, ho, .nil, hz, rfl⟩
  · rw [if_neg hz, advance_bind]
    refine (hp.expr .free (hopen.fits hn)).bind ?_
    intro e d ⟨he, _⟩
    have hitem := hopen.andThen he
    refine (moreItems_answers hp hclose (hitem.fits_same hn) (hitem.fits_same hm)).bind ?_
    intro es f hes
    refine .read ((hitem.andThen hes).mono ?_)
    rintro _ ⟨_, _, ⟨_, u, ⟨o, rfl, ho, -⟩, hu, rfl⟩, ⟨v, _, hv, ⟨z, rfl, hz, -⟩, rfl⟩, rfl⟩
    exact ⟨o, u ++ v, z, ho, .cons hu hv, hz, by simp⟩

theorem moreParams_answers (hm : d.advance.Fits m) :
    Answers (fun ns f => Spans (Joined (MoreNames ns) (Word .rparen f.text)) d.advance f)
      (moreParams m d) := by
  induction m generalizing d with
  | zero => exact .failed (fun hd => hm.not_clean (Cursor.clean_advance.2 hd))
  | succ m ih =>
      rw [moreParams, peek_bind]
      by_cases hk : d.peek = .comma
      · rw [if_pos hk, advance_bind]
        have hcomma := Spans.current (d.advance_kind.trans hk) (by decide)
        refine .expect ?_
        intro hname
        have hparam := hcomma.andToken hname (by decide)
        rw [text_bind]
        refine (ih (hparam.fits hm)).bind ?_
        intro ns g hns
        refine .read ((hparam.andThen hns).mono ?_)
        rintro _ ⟨_, _, ⟨_, _, ⟨k, rfl, hk, -⟩, ⟨t, rfl, ht, hs⟩, rfl⟩, ⟨v, z, hv, hz, rfl⟩, rfl⟩
        rw [← hs]
        exact ⟨_, z, .cons hk ht hv, hz, by simp⟩
      · rw [if_neg hk]
        refine .expect ?_
        intro hz
        refine .read ((Spans.current hz (by decide)).mono ?_)
        intro w hw
        exact ⟨[], w, .nil, hw, rfl⟩

theorem params_answers (hk : c.kind = .lparen) (hm : c.Fits m) :
    Answers (fun ns f => Spans (Between .lparen .rparen (Names ns)) c f) (params m c) := by
  have hopen := Spans.current hk (by decide)
  rw [params, peek_bind]
  by_cases hz : c.peek = .rparen
  · rw [if_pos hz]
    refine .read ((hopen.andToken (c.advance_kind.trans hz) (by decide)).mono ?_)
    rintro _ ⟨_, _, ⟨o, rfl, ho, -⟩, ⟨z, rfl, hz, -⟩, rfl⟩
    exact ⟨o, [], z, ho, .nil, hz, rfl⟩
  · rw [if_neg hz]
    refine .expect ?_
    intro hname
    have hparam := hopen.andToken hname (by decide)
    rw [text_bind]
    refine (moreParams_answers (hparam.fits_same hm)).bind ?_
    intro ns f hns
    refine .read ((hparam.andThen hns).mono ?_)
    rintro _ ⟨_, _, ⟨_, _, ⟨o, rfl, ho, -⟩, ⟨t, rfl, ht, hs⟩, rfl⟩,
      ⟨v, _, hv, ⟨z, rfl, hz, -⟩, rfl⟩, rfl⟩
    rw [← hs]
    exact ⟨o, t :: v, z, ho, .cons ht hv, hz, by simp⟩

theorem unary_answers (op : UnaryOp) {least : Precedence} (hp : p.Sound n)
    (hk : c.kind = op.kind) (hn : c.Fits (n + 1)) :
    Answers (fun e d => Spans (Held least d.peek e) c d) (p.unaryBy op c) := by
  have hop := Spans.current hk (by cases op <;> decide)
  rw [unaryBy, advance_bind]
  refine (hp.expr .operand (hop.fits hn)).bind ?_
  intro e d ⟨he, hpeek⟩
  refine .read ((hop.andThen he).mono ?_)
  rintro _ ⟨_, w, ⟨t, rfl, ht, -⟩, hw, rfl⟩
  exact .of_bare (.unary ht hw) trivial hpeek

theorem group_answers {least : Precedence} (hp : p.Sound n) (hk : c.kind = .lparen)
    (hn : c.Fits (n + 1)) :
    Answers (fun e d => Spans (Held least d.peek e) c d) (p.group c) := by
  have hopen := Spans.current hk (by decide)
  rw [group, advance_bind]
  refine (hp.expr .free (hopen.fits hn)).bind ?_
  intro e d ⟨he, _⟩
  refine .expect ?_
  intro hz
  refine .read (((hopen.andThen he).between hz (by decide)).mono ?_)
  rintro _ ⟨o, w, z, ho, hw, hz, rfl⟩
  exact fun pos _ => .group ho hw hz

/-- A block behind what was read so far. -/
theorem braced_answers {α : Type} {g : Block → α} (hp : p.Sound n) (h : Spans φ c d)
    (hn : c.Fits (n + 1)) :
    Answers (fun a f => ∃ ss, a = g ss ∧ Spans (Joined φ (Braced false ss)) c f)
      ((do Parser.expect .lbrace; let b ← p.block; return g b) d) := by
  refine .expect ?_
  intro hk
  refine (hp.block hk (h.fits hn)).bind ?_
  intro ss f hss
  exact .read ⟨ss, rfl, h.andThen hss⟩

theorem alternative_answers (hp : p.Sound n) (h : Spans φ c d) (hn : c.Fits (n + 1)) :
    Answers (fun no f => Spans (Joined φ (Alternative false no)) c f) (p.alternative d) := by
  rw [alternative, peek_bind]
  by_cases hk : d.peek = .kwElse
  · rw [if_pos hk, advance_bind]
    have helse := h.andToken (d.advance_kind.trans hk) (by decide)
    refine (braced_answers (g := some) hp helse hn).mono ?_
    rintro _ f ⟨ss, rfl, hss⟩
    refine hss.mono ?_
    rintro _ ⟨_, v, ⟨u, _, hu, ⟨e, rfl, he, -⟩, rfl⟩, hv, rfl⟩
    exact ⟨u, _, hu, .some he hv, by simp⟩
  · rw [if_neg hk]
    refine .read (h.mono ?_)
    intro w hw
    exact ⟨w, [], hw, .none, by simp⟩

theorem conditional_answers {least : Precedence} (hp : p.Sound n) (hk : c.kind = .kwIf)
    (hn : c.Fits (n + 1)) :
    Answers (fun e d => Spans (Held least d.peek e) c d) (p.conditional c) := by
  have hif := Spans.current hk (by decide)
  refine .expect ?_
  intro ho
  have hopen := Spans.current ho (by decide)
  rw [advance_bind]
  refine (hp.expr .free (hopen.fits_same (hif.fits hn))).bind ?_
  intro test d ⟨htest, _⟩
  refine .expect ?_
  intro hz
  have hhead := hif.andThen ((hopen.andThen htest).between hz (by decide))
  refine .expect ?_
  intro hb
  refine (hp.block hb (hhead.fits hn)).bind ?_
  intro yes f hyes
  refine (alternative_answers hp (hhead.andThen hyes) hn).bind ?_
  intro no g hno
  refine .read (hno.mono ?_)
  rintro _ ⟨_, v, ⟨_, y, ⟨_, _, ⟨i, rfl, hi, -⟩, ⟨o, w, z, ho, hw, hz, rfl⟩, rfl⟩, hy, rfl⟩, hv,
    rfl⟩
  exact .of_bare (by simpa using Bare.cond hi ho hw hz hy hv) trivial trivial

theorem function_answers {least : Precedence} (hp : p.Sound n) (hk : c.kind = .kwFn)
    (hn : c.Fits (n + 1)) (hm : c.Fits m) :
    Answers (fun e d => Spans (Held least d.peek e) c d) (p.function m c) := by
  have hfn := Spans.current hk (by decide)
  refine .expect ?_
  intro ho
  refine (params_answers ho (hfn.fits_same hm)).bind ?_
  intro ns d hns
  refine (braced_answers hp (hfn.andThen hns) hn).mono ?_
  rintro _ f ⟨body, rfl, hbody⟩
  refine hbody.mono ?_
  rintro _ ⟨_, y, ⟨_, _, ⟨f, rfl, hf, -⟩, ⟨o, w, z, ho, hw, hz, rfl⟩, rfl⟩, hy, rfl⟩
  exact .of_bare (by simpa using Bare.function hf ho hw hz hy) trivial trivial

theorem integer_answers {least : Precedence} (hk : c.kind = .int) :
    Answers (fun e d => Spans (Held least d.peek e) c d) (integer c) := by
  rw [integer, text_bind]
  cases hv : Text.readInt64? c.text with
  | none => exact .failed (c.not_clean_record _)
  | some v =>
      refine .read ((Spans.current hk (by decide)).mono ?_)
      rintro _ ⟨t, rfl, ht, hs⟩
      rw [← hs] at hv
      exact .of_bare (.int ht hv) trivial trivial

theorem operand_answers (least : Precedence) (hp : p.Sound n) (hn : c.Fits (n + 1))
    (hm : c.Fits m) :
    Answers (fun e d => Spans (Held least d.peek e) c d) (p.operand m c) := by
  cases hs : startsOperand c.kind with
  | false =>
      rw [p.operand_of_not_starts hs]
      exact .failed (c.not_clean_record _)
  | true =>
      rw [operand_eq, kind_bind]
      generalize hk : c.kind = k at hs
      cases k with
      | ident =>
          refine .read ((Spans.current hk (by decide)).mono ?_)
          rintro _ ⟨t, rfl, ht, hs⟩
          rw [← hs]
          exact .of_bare (.ident ht) trivial trivial
      | string =>
          refine .read ((Spans.current hk (by decide)).mono ?_)
          rintro _ ⟨t, rfl, ht, hs⟩
          rw [← hs]
          exact .of_bare (.str ht) trivial trivial
      | kwTrue | kwFalse =>
          refine .read ((Spans.current hk (by decide)).mono ?_)
          rintro _ ⟨t, rfl, ht, -⟩
          exact .of_bare (.bool ht) trivial trivial
      | int => exact integer_answers hk
      | bang => exact unary_answers .not hp hk hn
      | minus => exact unary_answers .negate hp hk hn
      | lparen => exact group_answers hp hk hn
      | lbracket =>
          refine (items_answers hp hk (by decide) (by decide) hn hm).bind ?_
          intro es d hes
          refine .read (hes.mono ?_)
          rintro _ ⟨o, w, z, ho, hw, hz, rfl⟩
          exact .of_bare (.array ho hw hz) trivial trivial
      | kwIf => exact conditional_answers hp hk hn
      | kwFn => exact function_answers hp hk hn hm
      | _ => cases hs

/-- A suffix takes what stands before it as its left part. -/
theorem extend_answers (left : Expr) {least : Precedence} {s : Suffix} (hp : p.Sound n)
    (hs : c.kind.suffix? = some s) (hl : least < s.precedence) (hn : c.Fits (n + 1))
    (hm : c.Fits m) :
    Answers (fun e d => Spans
      (fun v => ∀ u, Held least c.kind left u → Held least d.peek e (u ++ v)) c d)
      (p.extend m left s c) := by
  have hk := Kind.eq_of_suffix hs
  have hhead := Spans.current hk s.kind_ne_eof
  cases s with
  | operator op =>
      rw [extend, advance_bind]
      refine (hp.expr (.right op) (hhead.fits hn)).bind ?_
      intro right d ⟨hright, hpeek⟩
      refine .read ((hhead.andThen hright).mono ?_)
      rintro _ ⟨_, w, ⟨t, rfl, ht, -⟩, hw, rfl⟩ u hu
      have hleft : Written false (.left op) left u := by
        refine hu (.left op) fun _ hy => ?_
        rw [hk] at hy
        exact Position.not_groups_left_iff.2 hy
      exact .of_bare (.binary hleft ht hw) hl hpeek
  | call =>
      refine (items_answers hp hk (by decide) (by decide) hn hm).bind ?_
      intro args d hargs
      refine .read (hargs.mono ?_)
      rintro _ ⟨o, w, z, ho, hw, hz, rfl⟩ u hu
      have hleft : Written false .callee left u := by
        refine hu .callee fun _ hy => ?_
        exact (Position.not_groups_callee_iff (by rw [hk]; decide)).2 hy
      exact .of_bare (.call hleft ho hw hz) trivial trivial
  | index =>
      rw [extend, advance_bind]
      refine (hp.expr .free (hhead.fits hn)).bind ?_
      intro position d ⟨hposition, _⟩
      refine .expect ?_
      intro hz
      refine .read (((hhead.andThen hposition).between hz (by decide)).mono ?_)
      rintro _ ⟨o, w, z, ho, hw, hz, rfl⟩ u hu
      have hleft : Written false .subject left u := by
        refine hu .subject fun _ hy hg => ?_
        exact (Position.not_groups_callee_iff (by rw [hk]; decide)).2 hy
          (Position.groups_subject.1 hg)
      exact .of_bare (.index hleft ho hw hz) trivial trivial

/-- The invariant of the loop: what it holds is spelled by the tokens so far and may stand in front
of the next one. -/
theorem climb_answers {least : Precedence} {left : Expr} {b : Nat} (hp : p.Sound n)
    (hn : c.Fits (n + 1)) (hb : c.Fits b) (h : Spans (Held least d.peek left) c d)
    (hm : d.advance.Fits m) :
    Answers (fun e f => Spans (Held least f.peek e) c f ∧ ¬ least < f.peek.precedence)
      (p.climb b least m left d) := by
  induction m generalizing left d with
  | zero => exact .failed (fun hd => hm.not_clean (Cursor.clean_advance.2 hd))
  | succ m ih =>
      rw [climb_succ, peek_bind]
      cases hs : d.peek.suffix? with
      | none => exact .read ⟨h, Kind.not_lt_precedence_of_none hs least⟩
      | some s =>
          by_cases hl : least < s.precedence
          · simp only [if_pos hl, advance_bind]
            have hturn := extend_answers left hp (d.advance_kind ▸ hs) hl
              (h.fits_same hn) (h.fits_same hb)
            refine hturn.bind ?_
            intro longer f hf
            refine ih ((h.andThen hf).mono ?_) (hf.fits hm)
            rintro _ ⟨u, v, hu, hv, rfl⟩
            exact hv u (d.advance_kind ▸ hu)
          · simp only [if_neg hl]
            refine .read ⟨h, ?_⟩
            rw [Kind.precedence_of_suffix hs]
            exact hl

theorem expression_answers {pos : Position} {least : Precedence} (hp : p.Sound n)
    (hpos : pos.Entered least) (hn : c.Fits (n + 1)) (hm : c.Fits m) :
    Answers (fun e d => Spans (Written false pos e) c d ∧ ¬ least < d.peek.precedence)
      (p.expression m least c) := by
  refine (operand_answers least hp hn hm).bind ?_
  intro left d hleft
  refine (climb_answers hp hn hm hleft (hleft.fits_same hm)).mono ?_
  intro e f ⟨he, hpeek⟩
  refine ⟨he.mono ?_, hpeek⟩
  intro w hw
  exact hw pos fun ha _ => hpos.not_groups_iff.2 ha

/-- An expression, and the `;` behind it if there is one. -/
theorem terminated_answers {g : Expr → Stmt} (hp : p.Sound n) (hc : c.Fits n) :
    Answers (fun s d => ∃ e, s = g e ∧
        Spans (Joined (Written false .free e) (Terminated false)) c d)
      ((do let value ← p.expr .lowest; Parser.skip .semicolon; return g value) c) := by
  refine (hp.expr .free hc).bind ?_
  intro e d ⟨he, _⟩
  refine .read ⟨e, rfl, ?_⟩
  by_cases hk : d.peek = .semicolon
  · rw [if_pos hk]
    refine (he.andToken (d.advance_kind.trans hk) (by decide)).mono ?_
    rintro _ ⟨u, _, hu, ⟨t, rfl, ht, -⟩, rfl⟩
    exact ⟨u, [t], hu, .semicolon ht, rfl⟩
  · rw [if_neg hk]
    refine he.mono ?_
    intro w hw
    exact ⟨w, [], hw, .nothing rfl, (List.append_nil w).symm⟩

theorem binding_answers (hp : p.Sound n) (hk : c.kind = .kwLet) (hn : c.Fits (n + 1)) :
    Answers (fun s d => Spans (Stated false s) c d) (p.binding c) := by
  have hlet := Spans.current hk (by decide)
  refine .expect ?_
  intro hname
  have hhead := hlet.andToken hname (by decide)
  rw [text_bind]
  refine .expect ?_
  intro hassign
  have hhead := hhead.andToken hassign (by decide)
  rw [advance_bind]
  refine (terminated_answers hp (hhead.fits hn)).mono ?_
  rintro _ d ⟨e, rfl, he⟩
  refine (hhead.andThen he).mono ?_
  rintro _ ⟨_, _, ⟨_, _, ⟨_, _, ⟨l, rfl, hl, -⟩, ⟨t, rfl, ht, hs⟩, rfl⟩, ⟨a, rfl, ha, -⟩, rfl⟩,
    ⟨w, z, hw, hz, rfl⟩, rfl⟩
  rw [← hs]
  exact .bind (w := w) hl ht ha hw hz

theorem ret_answers (hp : p.Sound n) (hk : c.kind = .kwReturn) (hn : c.Fits (n + 1)) :
    Answers (fun s d => Spans (Stated false s) c d) (p.ret c) := by
  have hret := Spans.current hk (by decide)
  rw [ret, advance_bind]
  refine (terminated_answers hp (hret.fits hn)).mono ?_
  rintro _ d ⟨e, rfl, he⟩
  refine (hret.andThen he).mono ?_
  rintro _ ⟨_, _, ⟨r, rfl, hr, -⟩, ⟨w, z, hw, hz, rfl⟩, rfl⟩
  exact .ret (w := w) hr hw hz

theorem bare_answers (hp : p.Sound n) (hn : c.Fits n) :
    Answers (fun s d => Spans (Stated false s) c d) (p.bare c) := by
  refine (terminated_answers hp hn).mono ?_
  rintro _ d ⟨e, rfl, he⟩
  refine he.mono ?_
  rintro _ ⟨w, z, hw, hz, rfl⟩
  exact .expr hw hz

theorem statement_answers (hp : p.Sound n) (hn : c.Fits n) :
    Answers (fun s d => Spans (Stated false s) c d) (p.statement c) := by
  by_cases hl : c.kind = .kwLet
  · rw [p.statement_of_kwLet hl]
    exact binding_answers hp hl (hn.mono (Nat.le_succ n))
  by_cases hr : c.kind = .kwReturn
  · rw [p.statement_of_kwReturn hr]
    exact ret_answers hp hr (hn.mono (Nat.le_succ n))
  by_cases hb : c.kind = .lbrace
  · rw [p.statement_of_lbrace hb]
    refine (hp.block hb hn).bind ?_
    intro ss d hss
    exact .read (hss.mono fun w hw => .block hw)
  · rw [p.statement_of_other hl hr hb]
    exact bare_answers hp hn

/-- A list of statements that ends without a diagnostic has started without one. It gave up no
statement and goes up to a token that ends it. -/
theorem statements_clean {stop : Kind → Bool} {level : Nat} {ss : Block} (hp : p.Sound n)
    (hn : c.Fits n) (hm : c.Fits m) (h : p.statements stop level m c = (ss, d)) (hd : d.Clean) :
    c.Clean ∧ stop d.kind ∧ ∃ w, Listed false ss w ∧ Splits c.rest w d.rest := by
  induction m generalizing c ss with
  | zero =>
      obtain ⟨rfl, rfl⟩ : [] = ss ∧ c = d := Prod.mk.inj h
      exact absurd hd hm.not_clean
  | succ m ih =>
      cases hs : stop c.kind with
      | true =>
          rw [p.statements_of_stop hs] at h
          obtain ⟨rfl, rfl⟩ := Prod.mk.inj h
          exact ⟨hd, hs, [], .nil, .of_append [] c.rest⟩
      | false =>
          have hst := statement_answers hp hn
          generalize hx : p.statement c = x at hst
          cases hst with
          | @read s e he =>
              rw [p.statements_of_read hs hx] at h
              obtain ⟨rfl, hrest⟩ := Prod.mk.inj h
              obtain ⟨hclean, hend, w, hw, hsplit⟩ := ih
                (he.fits_same hn) (he.fits hm) (Prod.ext rfl hrest)
              obtain ⟨hc, u, hu, hsplit', -⟩ := he (Cursor.clean_advance.1 hclean)
              rw [e.advance_rest] at hsplit
              exact ⟨hc, hend, u ++ w, .cons hu hw, hsplit'.trans hsplit⟩
          | @failed e he =>
              rw [p.statements_of_failed hs hx] at h
              split at h
              · obtain ⟨rfl, rfl⟩ := Prod.mk.inj h
                exact absurd hd he
              · have hskip : ∀ k, ((e.recover level).advance).Fits k := fun k hclean =>
                  absurd (Cursor.clean_advance.1 hclean) he
                obtain ⟨hclean, -⟩ := ih (hskip n) (hskip m) h
                exact absurd (Cursor.clean_advance.1 hclean) he

theorem body_answers (hp : p.Sound n) (hk : c.kind = .lbrace) (hn : c.Fits (n + 1))
    (hm : c.Fits m) : Answers (fun ss d => Spans (Braced false ss) c d) (p.body m c) := by
  have hopen := Spans.current hk (by decide)
  refine .read ?_
  intro hd
  obtain ⟨hclean, hend, w, hw, hsplit⟩ := statements_clean hp (hopen.fits hn)
    (hopen.fits_same hm) rfl hd
  obtain ⟨hc, _, ⟨o, rfl, ho, -⟩, hfirst, hlen⟩ := hopen (Cursor.clean_advance.1 hclean)
  rw [c.advance_rest] at hsplit
  have hsplit := hfirst.trans hsplit
  have hfree := hsplit.eofFree (hn hc).1
  generalize (p.statements endsBlock c.depth m c.advance).2 = d at hsplit hfree hend
  generalize (p.statements endsBlock c.depth m c.advance).1 = ss at hw
  refine ⟨hc, ?_⟩
  cases hr : d.rest with
  | nil =>
      -- the tokens end inside of the block
      rw [hr] at hsplit
      exact ⟨_, .braces (z := .symbol .rbrace) ho hw rfl, hsplit.close, Nat.zero_lt_of_lt hlen⟩
  | cons z y =>
      rw [hr] at hsplit hfree
      have hz : z.kind = .rbrace := by
        rw [Cursor.kind_of_rest hr, endsBlock, Bool.or_eq_true, beq_iff_eq, beq_iff_eq] at hend
        exact hend.resolve_right (hfree z List.mem_cons_self)
      refine ⟨_, .braces ho hw hz, hsplit.trans (.of_append [z] y), ?_⟩
      exact hsplit.length_le

theorem sound_within (n : Nat) : (within n).Sound n := by
  induction n with
  | zero => exact ⟨fun _ hc => .failed hc.not_clean, fun _ hc => .failed hc.not_clean⟩
  | succ n ih =>
      constructor
      · intro pos least c hpos hc
        exact expression_answers ih hpos hc hc
      · intro c hk hc
        exact body_answers ih hk hc hc

end Nested

/-- Tokens that are read without a diagnostic spell the program that was read, once the closing
braces that are missing at their end have been added. -/
theorem listed_ofTokens (ts : List Token) (free : EofFree ts)
    (clean : (Parsed.ofTokens ts).diagnostics = #[]) :
    ∃ k, Listed false (Parsed.ofTokens ts).program.statements
      (ts ++ .replicate k (.symbol .rbrace)) := by
  obtain ⟨ss, d, hrun⟩ : ∃ ss d, (Nested.within (ts.length + 1)).statements Nested.endsProgram 0
      (ts.length + 1) (Cursor.start ts) = (ss, d) := ⟨_, _, rfl⟩
  rw [Parsed.ofTokens_of_statements hrun] at clean ⊢
  have hfits : (Cursor.start ts).Fits (ts.length + 1) := fun _ => ⟨free, Nat.lt_succ_self _⟩
  obtain ⟨-, hend, w, hw, hsplit⟩ :=
    Nested.statements_clean (Nested.sound_within (ts.length + 1)) hfits hfits hrun clean
  have hrest : d.rest = [] := by
    cases hr : d.rest with
    | nil => rfl
    | cons t y =>
        rw [Cursor.kind_of_rest hr, Nested.endsProgram, beq_iff_eq] at hend
        rw [hr] at hsplit
        exact absurd hend (hsplit.eofFree free t List.mem_cons_self)
  rw [hrest] at hsplit
  obtain ⟨k, hk, -⟩ := hsplit
  rw [List.append_nil] at hk
  exact ⟨k, hk ▸ hw⟩

/-- Two blocks are left open in `fn ( ) { { a b`, and no `;` stands between the statements. -/
theorem listed_ofTokens_unclosed :
    let ts : List Token := [⟨.kwFn, "fn"⟩, .symbol .lparen, .symbol .rparen, .symbol .lbrace,
      .symbol .lbrace, ⟨.ident, "a"⟩, ⟨.ident, "b"⟩]
    ∃ k, Listed false
      [.expr (.function [] [.block [.expr (.ident "a"), .expr (.ident "b")]])]
      (ts ++ .replicate k (.symbol .rbrace)) := by
  intro ts
  exact listed_ofTokens ts (by decide) (by rfl)

end Sprig
