import Sprig.Diagnostic

/-!
A position in a token sequence, and parsers that move it.

The cursor stands on one token and sees the next. Behind the last token it stands on an end
marker that never runs out. It counts the braces that are open at its position, keeps the
diagnostics recorded so far, and counts the statements that were given up.

A parser that fails keeps the position it has reached: recovery starts from there.
-/

namespace Sprig

structure Cursor where
  /-- The tokens from the position on, the current one first. -/
  rest : List Token
  depth : Nat
  diagnostics : Array Diagnostic
  dropped : Nat

/-- The number of open braces when the cursor comes to stand on a token of kind `k`. -/
def Kind.nest (k : Kind) (depth : Nat) : Nat :=
  match k with
  | .lbrace => depth + 1
  | .rbrace => depth - 1
  | _ => depth

/-- The kind of the first of some tokens. -/
def Token.kindOf : List Token → Kind
  | [] => .eof
  | t :: _ => t.kind

theorem Token.kindOf_cons (t : Token) (ts : List Token) : Token.kindOf (t :: ts) = t.kind := rfl

namespace Cursor

def start (tokens : List Token) : Cursor :=
  { rest := tokens
    depth := (Token.kindOf tokens).nest 0
    diagnostics := #[]
    dropped := 0 }

def kind (c : Cursor) : Kind := Token.kindOf c.rest

def text (c : Cursor) : String :=
  match c.rest with
  | [] => ""
  | t :: _ => t.text

def peek (c : Cursor) : Kind := Token.kindOf c.rest.tail

def advance (c : Cursor) : Cursor :=
  match c.rest with
  | [] => c
  | _ :: ts => { c with rest := ts, depth := (Token.kindOf ts).nest c.depth }

def record (c : Cursor) (d : Diagnostic) : Cursor :=
  { c with diagnostics := c.diagnostics.push d }

/-- Where skipping ends in a statement list that lies inside `level` braces: on a `;` of that
list, before the brace that closes it, outside of it, or at the end of the tokens. -/
def isBoundary (level : Nat) (t : Token) (ts : List Token) (depth : Nat) : Bool :=
  t.kind == .eof || depth < level ||
    (depth == level && (t.kind == .semicolon || Token.kindOf ts == .rbrace))

/-- Skip to the next statement boundary. Braces opened on the way are skipped whole. -/
def skipFrom (level : Nat) : List Token → Nat → List Token × Nat
  | [], depth => ([], depth)
  | t :: ts, depth =>
    if isBoundary level t ts depth then (t :: ts, depth)
    else skipFrom level ts ((Token.kindOf ts).nest depth)

/-- Give up a statement of the list inside `level` braces and skip the rest of it. -/
def recover (c : Cursor) (level : Nat) : Cursor :=
  let (rest, depth) := skipFrom level c.rest c.depth
  { c with rest, depth, dropped := c.dropped + 1 }

theorem kind_of_rest {c : Cursor} {t : Token} {ts : List Token} (h : c.rest = t :: ts) :
    c.kind = t.kind := by
  rw [kind, h, Token.kindOf_cons]

theorem text_of_rest {c : Cursor} {t : Token} {ts : List Token} (h : c.rest = t :: ts) :
    c.text = t.text := by
  rw [text, h]

@[simp]
theorem advance_rest (c : Cursor) : c.advance.rest = c.rest.tail := by
  unfold advance
  split <;> simp_all

theorem length_advance (c : Cursor) : c.advance.rest.length = c.rest.length - 1 := by
  rw [advance_rest, List.length_tail]

theorem advance_kind (c : Cursor) : c.advance.kind = c.peek := by
  rw [kind, peek, advance_rest]

/-- The end marker changes no depth, so this holds behind the last token too. -/
theorem advance_depth (c : Cursor) : c.advance.depth = c.peek.nest c.depth := by
  unfold advance peek
  split
  · next h => rw [h]; rfl
  · next h => rw [h]; rfl

@[simp]
theorem advance_diagnostics (c : Cursor) : c.advance.diagnostics = c.diagnostics := by
  unfold advance
  split <;> rfl

@[simp]
theorem advance_dropped (c : Cursor) : c.advance.dropped = c.dropped := by
  unfold advance
  split <;> rfl

@[simp]
theorem record_rest (c : Cursor) (d : Diagnostic) : (c.record d).rest = c.rest := rfl

@[simp]
theorem record_depth (c : Cursor) (d : Diagnostic) : (c.record d).depth = c.depth := rfl

@[simp]
theorem record_diagnostics (c : Cursor) (d : Diagnostic) :
    (c.record d).diagnostics = c.diagnostics.push d := rfl

@[simp]
theorem record_dropped (c : Cursor) (d : Diagnostic) : (c.record d).dropped = c.dropped := rfl

@[simp]
theorem recover_diagnostics (c : Cursor) (level : Nat) :
    (c.recover level).diagnostics = c.diagnostics := rfl

@[simp]
theorem recover_dropped (c : Cursor) (level : Nat) :
    (c.recover level).dropped = c.dropped + 1 := rfl

end Cursor

def Parser (α : Type) : Type := Cursor → Option α × Cursor

namespace Parser

@[always_inline, inline]
protected def pure {α : Type} (a : α) : Parser α := fun c => (some a, c)

@[always_inline, inline]
protected def bind {α β : Type} (p : Parser α) (f : α → Parser β) : Parser β := fun c =>
  match p c with
  | (some a, c) => f a c
  | (none, c) => (none, c)

@[always_inline]
instance : Monad Parser where
  pure := Parser.pure
  bind := Parser.bind

variable {α β : Type}

@[simp]
theorem pure_apply (a : α) (c : Cursor) : (pure a : Parser α) c = (some a, c) := rfl

@[simp]
theorem bind_apply (p : Parser α) (f : α → Parser β) (c : Cursor) :
    (p >>= f) c = match p c with
      | (some a, c) => f a c
      | (none, c) => (none, c) := rfl

@[inline]
def fail : Parser α := fun c => (none, c)

@[inline]
def reject (d : Diagnostic) : Parser α := fun c => (none, c.record d)

@[inline]
def kind : Parser Kind := fun c => (some c.kind, c)

@[inline]
def text : Parser String := fun c => (some c.text, c)

@[inline]
def peek : Parser Kind := fun c => (some c.peek, c)

@[inline]
def advance : Parser Unit := fun c => (some (), c.advance)

theorem kind_bind (f : Kind → Parser α) (c : Cursor) : (kind >>= f) c = f c.kind c := rfl

theorem text_bind (f : String → Parser α) (c : Cursor) : (text >>= f) c = f c.text c := rfl

theorem peek_bind (f : Kind → Parser α) (c : Cursor) : (peek >>= f) c = f c.peek c := rfl

theorem advance_bind (f : Unit → Parser α) (c : Cursor) : (advance >>= f) c = f () c.advance := rfl

/-- Move to the next token, which has to be of kind `k`. -/
def expect (k : Kind) : Parser Unit := fun c =>
  if c.peek = k then (some (), c.advance) else (none, c.record (.unexpected k c.peek))

/-- Move to the next token if it is of kind `k`. -/
def skip (k : Kind) : Parser Unit := fun c =>
  (some (), if c.peek = k then c.advance else c)

end Parser

end Sprig
