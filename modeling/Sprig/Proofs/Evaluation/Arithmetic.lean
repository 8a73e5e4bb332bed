import Sprig.Evaluation.Basic

/-!
Arithmetic is exact or a fault.

`Arith.value` evaluates trees of arithmetic over the unbounded integers, where nothing can go wrong
but a division by zero. Evaluation works on words of 64 bits, and is compared with it node by node:
as long as all nodes are sound it has the exact values, and at the first node that is not it stops
with a fault that names the exact operands. First is meant in post-order from left to right, which
is the order of `Arith.nodes`.
-/

namespace Sprig

/-- The operators whose result on integers is an integer. -/
inductive ArithOp
  | add | sub | mul | div
  deriving DecidableEq

namespace ArithOp

def binary : ArithOp → BinaryOp
  | add => .add
  | sub => .sub
  | mul => .mul
  | div => .div

/-- The result over the unbounded integers. Division truncates toward zero. -/
def exact : ArithOp → Int → Int → Int
  | add, x, y => x + y
  | sub, x, y => x - y
  | mul, x, y => x * y
  | div, x, y => x.tdiv y

end ArithOp

/-- Trees of literals, negation and the four operators. -/
inductive Arith
  | lit (n : Int64)
  | neg (a : Arith)
  | op (o : ArithOp) (a b : Arith)

/-- The integers that a word of 64 bits can hold. -/
def InRange (z : Int) : Prop := -9223372036854775808 ≤ z ∧ z ≤ 9223372036854775807

instance (z : Int) : Decidable (InRange z) :=
  inferInstanceAs (Decidable (-9223372036854775808 ≤ z ∧ z ≤ 9223372036854775807))

theorem inRange_toInt (w : Int64) : InRange w.toInt := by
  have hlo := w.le_toInt
  have hhi := w.toInt_lt
  unfold InRange
  omega

theorem fit?_of_inRange {z : Int} (h : InRange z) : ∃ w, fit? z = some w ∧ w.toInt = z := by
  obtain ⟨hlo, hhi⟩ := h
  cases hw : fit? z with
  | none =>
      rw [fit?_eq_none_iff] at hw
      omega
  | some w => exact ⟨w, rfl, toInt_of_fit? hw⟩

theorem fit?_of_not_inRange {z : Int} (h : ¬ InRange z) : fit? z = none := by
  unfold InRange at h
  rw [fit?_eq_none_iff]
  omega

namespace Arith

def expr : Arith → Expr
  | lit n => .int n
  | neg a => .unary .negate a.expr
  | op o a b => .binary o.binary a.expr b.expr

/-- The exact value. That of a division by zero is of no account, since such a node is not sound. -/
def value : Arith → Int
  | lit n => n.toInt
  | neg a => -a.value
  | op o a b => o.exact a.value b.value

/-- The node and all nodes below it, in post-order from left to right. -/
def nodes : Arith → List Arith
  | lit n => [lit n]
  | neg a => a.nodes ++ [neg a]
  | op o a b => a.nodes ++ (b.nodes ++ [op o a b])

def divisor? : Arith → Option Int
  | op .div _ b => some b.value
  | _ => none

/-- The node does not divide by zero, and its value fits. -/
def Sound (e : Arith) : Prop := e.divisor? ≠ some 0 ∧ InRange e.value

instance (e : Arith) : Decidable e.Sound :=
  inferInstanceAs (Decidable (e.divisor? ≠ some 0 ∧ InRange e.value))

/-- The fault of a node that is not sound. A zero divisor comes before a result that does not fit,
and the operands are named by their exact values. -/
inductive Breaks : Arith → Fault → Prop
  | zero {e : Arith} (h : e.divisor? = some 0) : Breaks e .divisionByZero
  | negate {a : Arith} {x : Int64} (hx : x.toInt = a.value) (h : ¬ InRange (-a.value)) :
      Breaks (neg a) (.negateOverflow x)
  | overflow {o : ArithOp} {a b : Arith} {x y : Int64} (hx : x.toInt = a.value)
      (hy : y.toInt = b.value) (hz : (op o a b).divisor? ≠ some 0)
      (h : ¬ InRange (o.exact a.value b.value)) : Breaks (op o a b) (.overflow o.binary x y)

/-- The operation at the root, with the exact values of its operands. -/
def operation : Arith → String
  | lit n => n.toInt.repr
  | neg a => "-" ++ a.value.repr
  | op o a b => a.value.repr ++ " " ++ o.binary.symbol ++ " " ++ b.value.repr

/-- What is said about a node that is not sound. -/
def complaint (e : Arith) : String :=
  if e.divisor? = some 0 then "division by zero" else "integer overflow: " ++ e.operation

theorem Breaks.message {e : Arith} {f : Fault} (h : e.Breaks f) : f.message = e.complaint := by
  cases h with
  | zero h => exact (if_pos h).symm
  | @negate a x hx _ =>
      calc (Fault.negateOverflow x).message
        _ = "integer overflow: " ++ "-" ++ x.toInt.repr := rfl
        _ = (neg a).complaint := by rw [hx, String.append_assoc, complaint, if_neg nofun, operation]
  | @overflow o a b x y hx hy hz _ =>
      calc (Fault.overflow o.binary x y).message
        _ = "integer overflow: " ++ x.toInt.repr ++ " " ++ o.binary.symbol ++ " " ++
            y.toInt.repr := rfl
        _ = (op o a b).complaint := by
          simp only [hx, hy, complaint, if_neg hz, operation, String.append_assoc]

/-- What comes of a node, given that its operands have their exact values: its own exact value, or
its own fault. -/
inductive Comes (e : Arith) : Except Fault Value → Prop
  | exact {w : Int64} (hs : e.Sound) (hw : w.toInt = e.value) : e.Comes (.ok (.int w))
  | fault {f : Fault} (hs : ¬ e.Sound) (hf : e.Breaks f) : e.Comes (.error f)

theorem sound_lit (n : Int64) : (lit n).Sound :=
  ⟨nofun, inRange_toInt n⟩

theorem neg_comes {a : Arith} {x : Int64} (hx : x.toInt = a.value) (st : Store) :
    ∃ r, UnaryOp.apply .negate (.int x) st = (r, st) ∧ (neg a).Comes r := by
  simp only [UnaryOp.apply, Integer.neg?, hx]
  by_cases hr : InRange (-a.value)
  · obtain ⟨w, hfit, hw⟩ := fit?_of_inRange hr
    exact ⟨_, by rw [hfit]; rfl, .exact ⟨nofun, hr⟩ hw⟩
  · exact ⟨_, by rw [fit?_of_not_inRange hr]; rfl, .fault (fun hs => hr hs.2) (.negate hx hr)⟩

end Arith

namespace ArithOp

/-- An operator on words is the exact operator, followed by a test whether the result fits. Only a
zero divisor is looked at before. -/
theorem applyInt_binary (o : ArithOp) (x y : Int64) :
    o.binary.applyInt x y =
      if o = div ∧ y.toInt = 0 then .error .divisionByZero
      else o.binary.exactly x y (fit? (o.exact x.toInt y.toInt)) := by
  have hzero : y = 0 ↔ y.toInt = 0 := by rw [← Int64.toInt_inj]; rfl
  cases o <;> simp [binary, BinaryOp.applyInt, exact, Integer.add?, Integer.sub?, Integer.mul?,
    Integer.div?, hzero]

end ArithOp

namespace Arith

theorem divisor?_op (o : ArithOp) (a b : Arith) :
    (op o a b).divisor? = some 0 ↔ o = .div ∧ b.value = 0 := by
  cases o <;> simp [divisor?]

theorem op_comes (o : ArithOp) {a b : Arith} {x y : Int64} (hx : x.toInt = a.value)
    (hy : y.toInt = b.value) (st : Store) :
    ∃ r, o.binary.apply (.int x) (.int y) st = (r, st) ∧ (op o a b).Comes r := by
  refine ⟨o.binary.applyInt x y, rfl, ?_⟩
  rw [o.applyInt_binary, hx, hy]
  split
  · next hz =>
      have hz := (divisor?_op o a b).mpr hz
      exact .fault (fun hs => hs.1 hz) (.zero hz)
  · next hz =>
      have hz : (op o a b).divisor? ≠ some 0 := fun h => hz ((divisor?_op o a b).mp h)
      by_cases hr : InRange (o.exact a.value b.value)
      · obtain ⟨w, hfit, hw⟩ := fit?_of_inRange hr
        rw [hfit]
        exact .exact ⟨hz, hr⟩ hw
      · rw [fit?_of_not_inRange hr]
        exact .fault (fun hs => hr hs.2) (.overflow hx hy hz hr)

/-- The first node, in post-order, that is not sound. -/
def offender? (e : Arith) : Option Arith :=
  e.nodes.find? fun n => !decide n.Sound

/-- What comes of a whole tree: the exact value if all nodes are sound, and otherwise the fault of
the first that is not. -/
def Ends (e : Arith) (r : Except Halt Value) : Prop :=
  match e.offender? with
  | none => ∃ w : Int64, w.toInt = e.value ∧ r = .ok (.int w)
  | some n => ∃ f, n.Breaks f ∧ r = .error (.fault f)

theorem offender?_lit (n : Int64) : (lit n).offender? = none := by
  simp [offender?, nodes, sound_lit]

theorem offender?_neg (a : Arith) :
    (neg a).offender? = a.offender?.or (if (neg a).Sound then none else some (neg a)) := by
  simp [offender?, nodes, List.find?_append, List.find?_singleton]

theorem offender?_op (o : ArithOp) (a b : Arith) :
    (op o a b).offender? = a.offender?.or
      (b.offender?.or (if (op o a b).Sound then none else some (op o a b))) := by
  simp [offender?, nodes, List.find?_append, List.find?_singleton]

variable {e n : Arith}

theorem ends_of_none (h : e.offender? = none) {w : Int64} (hw : w.toInt = e.value) :
    e.Ends (.ok (.int w)) := by
  rw [Ends, h]
  exact ⟨w, hw, rfl⟩

theorem ends_of_some (h : e.offender? = some n) {f : Fault} (hf : n.Breaks f) :
    e.Ends (.error (.fault f)) := by
  rw [Ends, h]
  exact ⟨f, hf, rfl⟩

/-- What comes of the root is what comes of the tree if everything below the root is sound. -/
theorem Comes.ends {r : Except Fault Value} (h : e.Comes r)
    (hroot : e.offender? = if e.Sound then none else some e) : e.Ends (r.mapError .fault) := by
  cases h with
  | exact hs hw => exact ends_of_none (by rw [hroot, if_pos hs]) hw
  | fault hs hf => exact ends_of_some (by rw [hroot, if_neg hs]) hf

variable {st : Store}

/-- The run ends as `e` has to, and leaves the store as it is. -/
def Computed (e : Arith) (st : Store) (x : Eval Value) : Prop :=
  ∃ r, x st = (r, st) ∧ e.Ends r

/-- An operand comes before what is `left` of the nodes. Its fault is the fault of the tree, and
otherwise its exact value is passed on. -/
theorem Computed.bind {a : Arith} {left : Option Arith} {x : Eval Value} {g : Value → Eval Value}
    (hx : a.Computed st x) (hoff : e.offender? = a.offender?.or left)
    (k : e.offender? = left → ∀ w : Int64, w.toInt = a.value → e.Computed st (g (.int w))) :
    e.Computed st (x >>= g) := by
  obtain ⟨r, hx, hr⟩ := hx
  rw [Ends] at hr
  cases h : a.offender? with
  | some n =>
      rw [h] at hr hoff
      obtain ⟨f, hf, rfl⟩ := hr
      exact ⟨_, Run.bind_of_error hx g, ends_of_some hoff hf⟩
  | none =>
      rw [h] at hr hoff
      obtain ⟨w, hw, rfl⟩ := hr
      rw [Computed, Run.bind_of_ok hx]
      exact k hoff w hw

theorem computed_of_comes {x : Step Value} (h : ∃ r, x st = (r, st) ∧ e.Comes r)
    (hroot : e.offender? = if e.Sound then none else some e) : e.Computed st x.eval := by
  obtain ⟨r, hx, hr⟩ := h
  exact ⟨r.mapError .fault, by rw [Step.eval_apply, hx], hr.ends hroot⟩

theorem eval_computed (call : Applier) (i : ScopeId) (st : Store) (e : Arith) :
    e.Computed st (e.expr.eval call i) := by
  induction e with
  | lit n => exact ⟨.ok (.int n), rfl, ends_of_none (offender?_lit n) rfl⟩
  | neg a ih =>
      refine ih.bind (offender?_neg a) ?_
      intro hroot x hx
      exact computed_of_comes (neg_comes hx st) hroot
  | op o a b iha ihb =>
      refine iha.bind (offender?_op o a b) ?_
      intro hright x hx
      refine ihb.bind hright ?_
      intro hroot y hy
      exact computed_of_comes (op_comes o hx hy st) hroot

end Arith

/-- Arithmetic on words, in any scope of any store: if no node divides by zero or has a value that
does not fit, the result is the exact value, and otherwise it is the fault of the first such node in
post-order from left to right, with the exact values of its operands. -/
theorem arithmetic_exact (call : Applier) (i : ScopeId) (st : Store) (e : Arith) :
    ((∀ n ∈ e.nodes, n.Sound) →
        ∃ w : Int64, w.toInt = e.value ∧ e.expr.eval call i st = (.ok (.int w), st)) ∧
      ∀ before n after, e.nodes = before ++ n :: after → (∀ m ∈ before, m.Sound) → ¬ n.Sound →
        ∃ f, n.Breaks f ∧ f.message = n.complaint ∧
          e.expr.eval call i st = (.error (.fault f), st) := by
  obtain ⟨r, heval, hr⟩ := e.eval_computed call i st
  rw [Arith.Ends] at hr
  constructor
  · intro hsound
    have hoff : e.offender? = none := by
      simpa [Arith.offender?] using hsound
    rw [hoff] at hr
    obtain ⟨w, hw, rfl⟩ := hr
    exact ⟨w, hw, heval⟩
  · intro before n after hnodes hbefore hn
    have hoff : e.offender? = some n :=
      List.find?_eq_some_iff_append.mpr
        ⟨by simpa using hn, before, after, hnodes, fun m hm => by simpa using hbefore m hm⟩
    rw [hoff] at hr
    obtain ⟨f, hf, rfl⟩ := hr
    exact ⟨f, hf, hf.message, heval⟩

/-- `-7 / 2` is rounded toward zero. In `(9223372036854775807 + 1) / (1 - 1)` the sum does not fit,
and this is found before the divisor. -/
theorem arithmetic_exact_first :
    let quotient : Arith := .op .div (.lit (-7)) (.lit 2)
    let sum : Arith := .op .add (.lit Int64.maxValue) (.lit 1)
    let both : Arith := .op .div sum (.op .sub (.lit 1) (.lit 1))
    (∀ n ∈ quotient.nodes, n.Sound) ∧
      quotient.expr.eval (Value.apply 5) 0 .empty = (.ok (.int (-3)), .empty) ∧
      ¬ sum.Sound ∧ ¬ both.Sound ∧
      both.expr.eval (Value.apply 5) 0 .empty =
        (.error (.fault (.overflow .add Int64.maxValue 1)), .empty) := by
  intro quotient sum both
  have hquotient : ∀ n ∈ quotient.nodes, n.Sound := by decide +kernel
  have hbefore : ∀ m ∈ [Arith.lit Int64.maxValue, .lit 1], m.Sound := by decide +kernel
  have hsum : ¬ sum.Sound := by decide +kernel
  obtain ⟨w, hw, heval⟩ := (arithmetic_exact (Value.apply 5) 0 .empty quotient).1 hquotient
  obtain ⟨f, hf, -, hboth⟩ := (arithmetic_exact (Value.apply 5) 0 .empty both).2 _ sum _ rfl hbefore
    hsum
  have hthree : w = -3 := Int64.toInt_inj.mp hw
  refine ⟨hquotient, hthree ▸ heval, hsum, by decide +kernel, ?_⟩
  unfold sum at hf
  cases hf with
  | zero h => cases h
  | overflow hx hy _ _ =>
      rw [Int64.toInt_inj.mp hx, Int64.toInt_inj.mp hy] at hboth
      exact hboth

end Sprig
