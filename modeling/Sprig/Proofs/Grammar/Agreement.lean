import Sprig.Grammar.Parsed
import Sprig.Proofs.Grammar.Tables

/-!
Two runs of the grammar side by side.

A `Link` is a correspondence between the cursors of two runs, given by what the forms of the grammar
can observe of a cursor. Whatever correspondence is chosen, two linked runs stay linked through
every form: both read the same tree and stop at corresponding places, or both fail at such places.
The bounds of the two runs need not be equal; each has to exceed the number of tokens in view.
Blocks contain statement lists with recovery, so each link settles them on its own.
-/

namespace Sprig

open Sprig.Parser

/-- The results of two runs: one tree and cursors in `Q`, or no tree and cursors in `F`. -/
inductive Agree {α : Type} (Q F : Cursor → Cursor → Prop) :
    Option α × Cursor → Option α × Cursor → Prop
  | read (a : α) {c c' : Cursor} (h : Q c c') : Agree Q F (some a, c) (some a, c')
  | failed {c c' : Cursor} (h : F c c') : Agree Q F (none, c) (none, c')

namespace Agree

variable {α β : Type} {Q R F G : Cursor → Cursor → Prop}

theorem mono {x y : Option α × Cursor} (h : Agree Q F x y)
    (hQ : ∀ c c', Q c c' → R c c') (hF : ∀ c c', F c c' → G c c') : Agree R G x y := by
  cases h with
  | read a h => exact .read a (hQ _ _ h)
  | failed h => exact .failed (hF _ _ h)

theorem bind {p q : Parser α} {f g : α → Parser β} {c c' : Cursor}
    (h : Agree Q F (p c) (q c')) (k : ∀ a d d', Q d d' → Agree R F (f a d) (g a d')) :
    Agree R F ((p >>= f) c) ((q >>= g) c') := by
  rw [bind_apply, bind_apply]
  generalize p c = x at h ⊢
  generalize q c' = y at h ⊢
  cases h with
  | read a h => exact k a _ _ h
  | failed h => exact .failed h

end Agree

/-- A token that is no boundary of a statement list: neither a brace nor `;` nor the end. -/
def Kind.isInner : Kind → Bool
  | .lbrace | .rbrace | .semicolon | .eof => false
  | _ => true

/-- A correspondence between two cursors, each with at most `v` tokens in view. Before a construct
they are `ready`, behind one they are `done`, and where one could not be read they have `failed`.
Where linked cursors see different kinds, both see the end of a block. -/
structure Link where
  ready : Nat → Cursor → Cursor → Prop
  done : Nat → Cursor → Cursor → Prop
  failed : Nat → Cursor → Cursor → Prop
  ready_mono {v w : Nat} {c c' : Cursor} : v ≤ w → ready v c c' → ready w c c'
  done_mono {v w : Nat} {c c' : Cursor} : v ≤ w → done v c c' → done w c c'
  failed_mono {v w : Nat} {c c' : Cursor} : v ≤ w → failed v c c' → failed w c c'
  kind_eq {v : Nat} {c c' : Cursor} : ready v c c' →
    c.kind = c'.kind ∨ Nested.endsBlock c.kind ∧ Nested.endsBlock c'.kind
  done_of_ready {v : Nat} {c c' : Cursor} : ready v c c' → c.kind.isInner → done v c c' ∧ 0 < v
  text_eq {v : Nat} {c c' : Cursor} : done v c c' → c.text = c'.text
  ready_advance {v : Nat} {c c' : Cursor} : done v c c' → ready (v - 1) c.advance c'.advance
  noOperand {v : Nat} {c c' : Cursor} : ready v c c' →
    failed v (c.record (.noOperand c.kind)) (c'.record (.noOperand c'.kind))
  unexpected {v : Nat} {c c' : Cursor} {k : Kind} : done v c c' → k ≠ .eof →
    failed v (c.record (.unexpected k c.peek)) (c'.record (.unexpected k c'.peek))
  badInteger {v : Nat} {c c' : Cursor} {s : String} : done v c c' →
    failed v (c.record (.badInteger s)) (c'.record (.badInteger s))

/-- Two sets of nested parsers keep the link from every place with fewer than `m` tokens in view. -/
structure Link.Keeps (L : Link) (p q : Nested) (m : Nat) : Prop where
  expr : ∀ v < m, ∀ least c c', L.ready v c c' →
    Agree (L.done v) (L.failed v) (p.expr least c) (q.expr least c')
  block : ∀ v < m, ∀ c c', L.ready v c c' → c.kind = .lbrace →
    Agree (L.done v) (L.failed v) (p.block c) (q.block c')

namespace Link

variable {L : Link} {v w m n n' : Nat} {c c' : Cursor} {α : Type}

theorem kind_iff (h : L.ready v c c') {k : Kind} (hk : Nested.endsBlock k = false) :
    c.kind = k ↔ c'.kind = k := by
  rcases L.kind_eq h with he | ⟨hl, hr⟩
  · rw [he]
  · constructor
    · rintro rfl
      exact absurd hl (by simp [hk])
    · rintro rfl
      exact absurd hr (by simp [hk])

theorem peek_iff (h : L.done v c c') {k : Kind} (hk : Nested.endsBlock k = false) :
    c.peek = k ↔ c'.peek = k := by
  rw [← c.advance_kind, ← c'.advance_kind]
  exact kind_iff (L.ready_advance h) hk

/-- Going on to a token inside of an expression takes a token out of view. -/
theorem done_advance (h : L.done v c c') (hk : c.peek.isInner) :
    L.done (v - 1) c.advance c'.advance ∧ 1 < v := by
  have hd := L.done_of_ready (L.ready_advance h) (by rwa [c.advance_kind])
  exact ⟨hd.1, by omega⟩

theorem widen {Q : Cursor → Cursor → Prop} (hvw : v ≤ w) {x y : Option α × Cursor}
    (h : Agree Q (L.failed v) x y) : Agree Q (L.failed w) x y :=
  h.mono (fun _ _ hq => hq) (fun _ _ => L.failed_mono hvw)

theorem of_done (hvw : v ≤ w) {x y : Option α × Cursor}
    (h : Agree (L.done v) (L.failed v) x y) : Agree (L.done w) (L.failed w) x y :=
  h.mono (fun _ _ => L.done_mono hvw) (fun _ _ => L.failed_mono hvw)

/-- The place to which `expect k` leads. -/
def On (L : Link) (k : Kind) (v : Nat) (c c' : Cursor) : Prop :=
  L.ready v c c' ∧ c.kind = k

theorem expect (h : L.done v c c') {k : Kind} (hk : Nested.endsBlock k = false) :
    Agree (L.On k (v - 1)) (L.failed v) (Parser.expect k c) (Parser.expect k c') := by
  have hiff := peek_iff h hk
  unfold Parser.expect
  by_cases hp : c.peek = k
  · rw [if_pos hp, if_pos (hiff.mp hp)]
    exact .read () ⟨L.ready_advance h, by rw [c.advance_kind, hp]⟩
  · rw [if_neg hp, if_neg (hp ∘ hiff.mpr)]
    refine .failed (L.unexpected h ?_)
    rintro rfl
    exact absurd hk (by decide)

/-- `expect` for a token inside of an expression. -/
theorem expect_inner (h : L.done v c c') {k : Kind} (hk : k.isInner) :
    Agree (fun d d' => L.done (v - 1) d d' ∧ 1 < v) (L.failed v)
      (Parser.expect k c) (Parser.expect k c') := by
  refine (expect h ?_).mono ?_ (fun _ _ hf => hf)
  · cases k <;> first | rfl | cases hk
  · rintro d d' ⟨hr, rfl⟩
    have hd := L.done_of_ready hr hk
    exact ⟨hd.1, by omega⟩

variable {p q : Nested}

theorem nested_expr (hp : L.Keeps p q m) (hv : v < m) (hvw : v ≤ w) (least : Precedence)
    (h : L.ready v c c') :
    Agree (L.done v) (L.failed w) (p.expr least c) (q.expr least c') :=
  widen hvw (hp.expr v hv least c c' h)

theorem nested_block (hp : L.Keeps p q m) (hv : v < m) (hvw : v ≤ w)
    (h : L.On .lbrace v c c') :
    Agree (L.done v) (L.failed w) (p.block c) (q.block c') :=
  widen hvw (hp.block v hv c c' h.1 h.2)

theorem moreItems (hp : L.Keeps p q m) {close : Kind} (hclose : close.isInner)
    (h : L.done v c c') (hm : v ≤ m) (hn : v < n) (hn' : v < n') :
    Agree (L.done v) (L.failed v) (p.moreItems close n c) (q.moreItems close n' c') := by
  induction n generalizing n' v c c' with
  | zero => omega
  | succ n ih =>
      obtain ⟨n', rfl⟩ : ∃ k, n' = k + 1 := ⟨n' - 1, by omega⟩
      rw [Nested.moreItems, Nested.moreItems, peek_bind, peek_bind]
      by_cases hk : c.peek = .comma
      · rw [if_pos hk, if_pos ((peek_iff h rfl).mp hk)]
        simp only [advance_bind]
        obtain ⟨hc, hv⟩ := done_advance h (by rw [hk]; rfl)
        refine (nested_expr hp (by omega) (by omega) _ (L.ready_advance hc)).bind ?_
        intro item d d' hd
        refine (of_done (by omega) (ih hd (by omega) (by omega) (by omega))).bind ?_
        intro items e e' he
        exact .read _ he
      · rw [if_neg hk, if_neg (hk ∘ (peek_iff h rfl).mpr)]
        refine (expect_inner h hclose).bind ?_
        intro _ d d' hd
        exact .read _ (L.done_mono (by omega) hd.1)

theorem items (hp : L.Keeps p q m) {close : Kind} (hclose : close.isInner)
    (h : L.done v c c') (hpos : 0 < v) (hm : v ≤ m) (hn : v < n) (hn' : v < n') :
    Agree (L.done v) (L.failed v) (p.items n close c) (q.items n' close c') := by
  have hends : Nested.endsBlock close = false := by cases close <;> first | rfl | cases hclose
  rw [Nested.items, Nested.items, peek_bind, peek_bind]
  by_cases hk : c.peek = close
  · rw [if_pos hk, if_pos ((peek_iff h hends).mp hk)]
    exact .read _ (L.done_mono (by omega) (done_advance h (by rwa [hk])).1)
  · rw [if_neg hk, if_neg (hk ∘ (peek_iff h hends).mpr)]
    simp only [advance_bind]
    refine (nested_expr hp (by omega) (by omega) _ (L.ready_advance h)).bind ?_
    intro item d d' hd
    refine (of_done (by omega) (moreItems hp hclose hd (by omega) (by omega) (by omega))).bind ?_
    intro items e e' he
    exact .read _ he

theorem moreParams (h : L.done v c c') (hn : v < n) (hn' : v < n') :
    Agree (L.done v) (L.failed v) (Nested.moreParams n c) (Nested.moreParams n' c') := by
  induction n generalizing n' v c c' with
  | zero => omega
  | succ n ih =>
      obtain ⟨n', rfl⟩ : ∃ k, n' = k + 1 := ⟨n' - 1, by omega⟩
      rw [Nested.moreParams, Nested.moreParams, peek_bind, peek_bind]
      by_cases hk : c.peek = .comma
      · rw [if_pos hk, if_pos ((peek_iff h rfl).mp hk), advance_bind, advance_bind]
        obtain ⟨hc, hv⟩ := done_advance h (by rw [hk]; rfl)
        refine (widen (by omega) (expect_inner hc rfl)).bind ?_
        intro _ d d' ⟨hd, hv'⟩
        rw [text_bind, text_bind, L.text_eq hd]
        refine (of_done (by omega) (ih hd (by omega) (by omega))).bind ?_
        intro names e e' he
        exact .read _ he
      · rw [if_neg hk, if_neg (hk ∘ (peek_iff h rfl).mpr)]
        refine (expect_inner h rfl).bind ?_
        intro _ d d' hd
        exact .read _ (L.done_mono (by omega) hd.1)

theorem params (h : L.done v c c') (hn : v < n) (hn' : v < n') :
    Agree (L.done v) (L.failed v) (Nested.params n c) (Nested.params n' c') := by
  rw [Nested.params, Nested.params, peek_bind, peek_bind]
  by_cases hk : c.peek = .rparen
  · rw [if_pos hk, if_pos ((peek_iff h rfl).mp hk)]
    exact .read _ (L.done_mono (by omega) (done_advance h (by rw [hk]; rfl)).1)
  · rw [if_neg hk, if_neg (hk ∘ (peek_iff h rfl).mpr)]
    refine (expect_inner h rfl).bind ?_
    intro _ d d' ⟨hd, hv⟩
    rw [text_bind, text_bind, L.text_eq hd]
    refine (of_done (by omega) (moreParams hd (by omega) (by omega))).bind ?_
    intro names e e' he
    exact .read _ he

theorem integer (h : L.done v c c') :
    Agree (L.done v) (L.failed v) (Nested.integer c) (Nested.integer c') := by
  rw [Nested.integer, text_bind, text_bind, L.text_eq h]
  cases Text.readInt64? c'.text with
  | some value => exact .read _ h
  | none => exact .failed (L.badInteger h)

theorem unary (hp : L.Keeps p q m) (op : UnaryOp) (h : L.done v c c') (hpos : 0 < v)
    (hm : v ≤ m) : Agree (L.done v) (L.failed v) (p.unaryBy op c) (q.unaryBy op c') := by
  rw [Nested.unaryBy, Nested.unaryBy, advance_bind, advance_bind]
  refine (nested_expr hp (by omega) (by omega) _ (L.ready_advance h)).bind ?_
  intro operand d d' hd
  exact .read _ (L.done_mono (by omega) hd)

theorem group (hp : L.Keeps p q m) (h : L.done v c c') (hpos : 0 < v) (hm : v ≤ m) :
    Agree (L.done v) (L.failed v) (p.group c) (q.group c') := by
  rw [Nested.group, Nested.group, advance_bind, advance_bind]
  refine (nested_expr hp (by omega) (by omega) _ (L.ready_advance h)).bind ?_
  intro e d d' hd
  refine (widen (by omega) (expect_inner hd rfl)).bind ?_
  intro _ f f' hf
  exact .read _ (L.done_mono (by omega) hf.1)

/-- A block behind `expect .lbrace`. -/
theorem braced (hp : L.Keeps p q m) (h : L.done v c c') (hpos : 0 < v) (hm : v ≤ m)
    (f : Block → α) :
    Agree (L.done v) (L.failed v) ((do Parser.expect .lbrace; let b ← p.block; return f b) c)
      ((do Parser.expect .lbrace; let b ← q.block; return f b) c') := by
  refine (expect h rfl).bind ?_
  intro _ d d' hd
  refine (nested_block hp (by omega) (by omega) hd).bind ?_
  intro b e e' he
  exact .read _ (L.done_mono (by omega) he)

theorem alternative (hp : L.Keeps p q m) (h : L.done v c c') (hm : v ≤ m) :
    Agree (L.done v) (L.failed v) (p.alternative c) (q.alternative c') := by
  rw [Nested.alternative, Nested.alternative, peek_bind, peek_bind]
  by_cases hk : c.peek = .kwElse
  · rw [if_pos hk, if_pos ((peek_iff h rfl).mp hk), advance_bind, advance_bind]
    obtain ⟨hd, hv⟩ := done_advance h (by rw [hk]; rfl)
    exact of_done (by omega) (braced hp hd (by omega) (by omega) some)
  · rw [if_neg hk, if_neg (hk ∘ (peek_iff h rfl).mpr)]
    exact .read _ h

theorem conditional (hp : L.Keeps p q m) (h : L.done v c c') (hm : v ≤ m) :
    Agree (L.done v) (L.failed v) (p.conditional c) (q.conditional c') := by
  refine (expect_inner h rfl).bind ?_
  intro _ c c' ⟨hc, hv⟩
  rw [advance_bind, advance_bind]
  refine (nested_expr hp (by omega) (by omega) _ (L.ready_advance hc)).bind ?_
  intro test d d' hd
  refine (widen (by omega) (expect_inner hd rfl)).bind ?_
  intro _ d d' ⟨hd, hv'⟩
  refine (widen (by omega) (expect hd rfl)).bind ?_
  intro _ d d' hd
  refine (nested_block hp (by omega) (by omega) hd).bind ?_
  intro yes d d' hd
  refine (of_done (by omega) (alternative hp hd (by omega))).bind ?_
  intro no e e' he
  exact .read _ he

theorem function (hp : L.Keeps p q m) (h : L.done v c c') (hm : v ≤ m) (hn : v < n)
    (hn' : v < n') : Agree (L.done v) (L.failed v) (p.function n c) (q.function n' c') := by
  refine (expect_inner h rfl).bind ?_
  intro _ c c' ⟨hc, hv⟩
  refine (of_done (w := v) (by omega) (params hc (by omega) (by omega))).bind ?_
  intro names d d' hd
  exact braced hp hd (by omega) hm (Expr.function names)

theorem starts_eq (h : L.ready v c c') :
    Nested.startsOperand c.kind = Nested.startsOperand c'.kind := by
  rcases L.kind_eq h with he | ⟨hl, hr⟩
  · rw [he]
  · generalize c.kind = k at hl ⊢
    generalize c'.kind = k' at hr ⊢
    cases k <;> cases hl <;> cases k' <;> cases hr <;> rfl

theorem operand (hp : L.Keeps p q m) (h : L.ready v c c') (hm : v ≤ m) (hn : v < n)
    (hn' : v < n') : Agree (L.done v) (L.failed v) (p.operand n c) (q.operand n' c') := by
  cases hs : Nested.startsOperand c.kind with
  | false =>
      have hs' : Nested.startsOperand c'.kind = false := by rw [← starts_eq h, hs]
      rw [p.operand_of_not_starts hs, q.operand_of_not_starts hs']
      exact .failed (L.noOperand h)
  | true =>
      obtain ⟨hi, he⟩ : c.kind.isInner ∧ Nested.endsBlock c.kind = false := by
        generalize c.kind = k at hs
        cases k <;> first | exact ⟨rfl, rfl⟩ | cases hs
      obtain ⟨hd, hpos⟩ := L.done_of_ready h hi
      rw [Nested.operand_eq, Nested.operand_eq, kind_bind, kind_bind, (kind_iff h he).mp rfl]
      generalize c.kind = k at hs
      cases k with
      | ident | string =>
          simp only [text_bind, L.text_eq hd]
          exact .read _ hd
      | kwTrue | kwFalse => exact .read _ hd
      | int => exact integer hd
      | bang | minus => exact unary hp _ hd hpos hm
      | lparen => exact group hp hd hpos hm
      | lbracket =>
          refine (items hp rfl hd hpos hm hn hn').bind ?_
          intro es d d' hd
          exact .read _ hd
      | kwIf => exact conditional hp hd hm
      | kwFn => exact function hp hd hm hn hn'
      | _ => cases hs

theorem suffix_eq (h : L.done v c c') : c.peek.suffix? = c'.peek.suffix? := by
  rw [← c.advance_kind, ← c'.advance_kind]
  rcases L.kind_eq (L.ready_advance h) with he | ⟨hl, hr⟩
  · rw [he]
  · generalize c.advance.kind = k at hl ⊢
    generalize c'.advance.kind = k' at hr ⊢
    cases k <;> cases hl <;> cases k' <;> cases hr <;> rfl

theorem isInner_of_suffix {k : Kind} {s : Suffix} (h : k.suffix? = some s) : k.isInner := by
  cases k <;> first | rfl | cases h

theorem extend (hp : L.Keeps p q m) (left : Expr) (s : Suffix) (h : L.done v c c') (hpos : 0 < v)
    (hm : v ≤ m) (hn : v < n) (hn' : v < n') :
    Agree (L.done v) (L.failed v) (p.extend n left s c) (q.extend n' left s c') := by
  cases s with
  | operator op =>
      rw [Nested.extend, Nested.extend, advance_bind, advance_bind]
      refine (nested_expr hp (by omega) (by omega) _ (L.ready_advance h)).bind ?_
      intro right d d' hd
      exact .read _ (L.done_mono (by omega) hd)
  | call =>
      refine (items hp rfl h hpos hm hn hn').bind ?_
      intro args d d' hd
      exact .read _ hd
  | index =>
      rw [Nested.extend, Nested.extend, advance_bind, advance_bind]
      refine (nested_expr hp (by omega) (by omega) _ (L.ready_advance h)).bind ?_
      intro position d d' hd
      refine (widen (by omega) (expect_inner hd rfl)).bind ?_
      intro _ e e' he
      exact .read _ (L.done_mono (by omega) he.1)

theorem climb (hp : L.Keeps p q m) (least : Precedence) {b b' : Nat} (hb : v < b) (hb' : v < b')
    (left : Expr) (h : L.done v c c') (hm : v ≤ m) (hn : v < n) (hn' : v < n') :
    Agree (L.done v) (L.failed v) (p.climb b least n left c) (q.climb b' least n' left c') := by
  induction n generalizing n' v left c c' with
  | zero => omega
  | succ n ih =>
      obtain ⟨n', rfl⟩ : ∃ k, n' = k + 1 := ⟨n' - 1, by omega⟩
      rw [Nested.climb_succ, Nested.climb_succ, peek_bind, peek_bind, ← suffix_eq h]
      cases hs : c.peek.suffix? with
      | none => exact .read _ h
      | some s =>
          by_cases hl : least < s.precedence
          · simp only [if_pos hl, advance_bind]
            obtain ⟨hc, hv⟩ := done_advance h (isInner_of_suffix hs)
            refine (widen (by omega) (extend hp left s hc (by omega) (by omega) (by omega)
              (by omega))).bind ?_
            intro longer d d' hd
            exact of_done (by omega)
              (ih (by omega) (by omega) longer hd (by omega) (by omega) (by omega))
          · simp only [if_neg hl]
            exact .read _ h

theorem expression (hp : L.Keeps p q m) (least : Precedence) (h : L.ready v c c') (hm : v ≤ m)
    (hn : v < n) (hn' : v < n') :
    Agree (L.done v) (L.failed v) (p.expression n least c) (q.expression n' least c') := by
  refine (operand hp h hm hn hn').bind ?_
  intro left d d' hd
  exact climb hp least hn hn' left hd hm hn hn'

/-- Behind a statement: at its end, or on the `;` that follows it. -/
def Settled (L : Link) (v : Nat) (c c' : Cursor) : Prop :=
  L.done v c c' ∨ L.On .semicolon (v - 1) c c'

theorem Settled.mono (hvw : v ≤ w) (h : L.Settled v c c') : L.Settled w c c' := by
  rcases h with hd | ⟨hr, hk⟩
  · exact .inl (L.done_mono hvw hd)
  · exact .inr ⟨L.ready_mono (by omega) hr, hk⟩

/-- An expression and the `;` behind it, if there is one. -/
theorem terminated (hp : L.Keeps p q m) (hv : v < m) (hvw : v ≤ w) (h : L.ready v c c')
    (f : Expr → Stmt) :
    Agree (L.Settled w) (L.failed w)
      ((do let value ← p.expr .lowest; Parser.skip .semicolon; return f value) c)
      ((do let value ← q.expr .lowest; Parser.skip .semicolon; return f value) c') := by
  refine (nested_expr hp hv hvw _ h).bind ?_
  intro value d d' hd
  refine .read _ (Settled.mono hvw ?_)
  by_cases hk : d.peek = .semicolon
  · rw [if_pos hk, if_pos ((peek_iff hd rfl).mp hk)]
    exact .inr ⟨L.ready_advance hd, by rw [d.advance_kind, hk]⟩
  · rw [if_neg hk, if_neg (hk ∘ (peek_iff hd rfl).mpr)]
    exact .inl hd

theorem binding (hp : L.Keeps p q m) (h : L.done v c c') (hm : v ≤ m) :
    Agree (L.Settled v) (L.failed v) (p.binding c) (q.binding c') := by
  refine (expect_inner h rfl).bind ?_
  intro _ d d' ⟨hd, hv⟩
  rw [text_bind, text_bind, L.text_eq hd]
  refine (widen (by omega) (expect_inner hd rfl)).bind ?_
  intro _ e e' ⟨he, hv'⟩
  rw [advance_bind, advance_bind]
  exact terminated hp (by omega) (by omega) (L.ready_advance he) (Stmt.bind d'.text)

theorem ret (hp : L.Keeps p q m) (h : L.done v c c') (hpos : 0 < v) (hm : v ≤ m) :
    Agree (L.Settled v) (L.failed v) (p.ret c) (q.ret c') := by
  rw [Nested.ret, Nested.ret, advance_bind, advance_bind]
  exact terminated hp (by omega) (by omega) (L.ready_advance h) Stmt.ret

theorem statement (hp : L.Keeps p q m) (h : L.ready v c c') (hm : v < m) :
    Agree (L.Settled v) (L.failed v) (p.statement c) (q.statement c') := by
  by_cases hl : c.kind = .kwLet
  · rw [p.statement_of_kwLet hl, q.statement_of_kwLet ((kind_iff h rfl).mp hl)]
    exact binding hp (L.done_of_ready h (by rw [hl]; rfl)).1 (by omega)
  by_cases hr : c.kind = .kwReturn
  · obtain ⟨hd, hpos⟩ := L.done_of_ready h (by rw [hr]; rfl)
    rw [p.statement_of_kwReturn hr, q.statement_of_kwReturn ((kind_iff h rfl).mp hr)]
    exact ret hp hd hpos (by omega)
  by_cases hb : c.kind = .lbrace
  · rw [p.statement_of_lbrace hb, q.statement_of_lbrace ((kind_iff h rfl).mp hb)]
    refine (hp.block v hm c c' h hb).bind ?_
    intro b d d' hd
    exact .read _ (.inl hd)
  · rw [p.statement_of_other hl hr hb, q.statement_of_other (hl ∘ (kind_iff h rfl).mpr)
      (hr ∘ (kind_iff h rfl).mpr) (hb ∘ (kind_iff h rfl).mpr)]
    exact terminated hp hm (Nat.le_refl _) h Stmt.expr

/-- A link that the bodies of blocks keep is kept by the whole grammar, under any two bounds. -/
theorem keeps_within (top : Nat)
    (hbody : ∀ m n n', m < top → m ≤ n → m ≤ n' → L.Keeps (.within n) (.within n') m →
      ∀ v ≤ m, ∀ c c', L.ready v c c' → c.kind = .lbrace →
      Agree (L.done v) (L.failed v) ((Nested.within n).body (n + 1) c)
        ((Nested.within n').body (n' + 1) c'))
    (m n n' : Nat) (hm : m ≤ top) (hn : m ≤ n) (hn' : m ≤ n') :
    L.Keeps (.within n) (.within n') m := by
  induction m generalizing n n' with
  | zero =>
      exact ⟨fun v hv => absurd hv (Nat.not_lt_zero v), fun v hv => absurd hv (Nat.not_lt_zero v)⟩
  | succ m ih =>
      obtain ⟨n, rfl⟩ : ∃ k, n = k + 1 := ⟨n - 1, by omega⟩
      obtain ⟨n', rfl⟩ : ∃ k, n' = k + 1 := ⟨n' - 1, by omega⟩
      have hp := ih n n' (by omega) (by omega) (by omega)
      constructor
      · intro v hv least c c' h
        exact expression hp least h (by omega) (by omega) (by omega)
      · intro v hv c c' h hk
        exact hbody m n n' hm (by omega) (by omega) hp v (by omega) c c' h hk

end Link

end Sprig
