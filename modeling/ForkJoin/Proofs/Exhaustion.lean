import ForkJoin.Eval

/-!
# Running out of stack

How much stack there is does not change what is computed, only how far it gets. A computation on a
stack whose entries are counted is the same as with all the room that it wants, unless it stops
because the stack is exhausted (`Curtailed`). So does an evaluation: it prints, spawns, claims and
waits alike, and then it may stop on the way (`Prog.Curtails`).

`curtails_eval` is the theorem. It is an induction over the limit, with one lemma for each function
of the evaluator; the one operation on values that takes room by itself is the comparison.
-/

namespace ForkJoin

/-- A computation that is another one, unless it stops. -/
def Curtailed {ε α : Type} (stop : ε) (x y : Except ε α) : Prop :=
  x = .error stop ∨ x = y

namespace Curtailed

section

variable {ε α β : Type} {stop : ε} {x y : Except ε α} {f g : α → Except ε β}

theorem refl (x : Except ε α) : Curtailed stop x x :=
  .inr rfl

theorem bind (h : Curtailed stop x y) (hf : ∀ a, Curtailed stop (f a) (g a)) :
    Curtailed stop (x >>= f) (y >>= g) := by
  rcases h with rfl | rfl
  · exact .inl rfl
  · cases x with
    | error e => exact .refl _
    | ok a => exact hf a

theorem after (hf : ∀ a, Curtailed stop (f a) (g a)) : Curtailed stop (x >>= f) (x >>= g) :=
  (refl x).bind hf

theorem ite {p : Prop} [Decidable p] {x' y' : Except ε α} (h : Curtailed stop x y)
    (h' : Curtailed stop x' y') : Curtailed stop (if p then x else x') (if p then y else y') := by
  split
  · exact h
  · exact h'

end

variable {α : Type} {room : Room} {entries : Nat} {x y : Except Fault α}

theorem ofFault (h : Curtailed .stackExhausted x y) :
    Curtailed (.fault .stackExhausted) (Failure.ofFault x) (Failure.ofFault y) := by
  rcases h with rfl | rfl
  · exact .inl rfl
  · exact .refl _

theorem need (h : Curtailed .stackExhausted x y) :
    Curtailed .stackExhausted (room.need entries x) (Room.need none entries y) := by
  unfold Room.need
  split
  · exact h
  · exact .inl rfl

theorem both {first first' second second' : Except Fault Bool}
    (h : Curtailed .stackExhausted first first') (h' : Curtailed .stackExhausted second second') :
    Curtailed .stackExhausted (bothEqual first second) (bothEqual first' second') :=
  h.bind fun _ => h'.ite (.refl _)

theorem equalAll {equal equal' : α → α → Except Fault Bool}
    (h : ∀ x y, Curtailed .stackExhausted (equal x y) (equal' x y)) (xs ys : List α) :
    Curtailed .stackExhausted (equalAll equal xs ys) (equalAll equal' xs ys) := by
  induction xs generalizing ys with
  | nil => exact .refl _
  | cons x xs ih =>
    cases ys with
    | nil => exact .refl _
    | cons y ys => exact (h x y).bind fun _ => (ih ys).ite (.refl _)

end Curtailed

/-! ### Comparisons -/

namespace Datum

theorem curtailed_equalFields {equal equal' : Datum → Datum → Except Fault Bool}
    (h : ∀ x y, Curtailed .stackExhausted (equal x y) (equal' x y))
    (ys xs : List (String × Datum)) :
    Curtailed .stackExhausted (equalFields equal ys xs) (equalFields equal' ys xs) := by
  induction xs with
  | nil => exact .refl _
  | cons entry xs ih =>
    obtain ⟨key, x⟩ := entry
    unfold equalFields
    split
    · exact (h _ _).both ih
    · exact .refl _

theorem curtailed_equalTo (level : Nat) : ∀ (room : Room) (x y : Datum),
    Curtailed .stackExhausted (equalValueTo level room x y) (equalValueTo level none x y) ∧
      Curtailed .stackExhausted (equalTreeTo level room x y) (equalTreeTo level none x y) := by
  induction level with
  | zero => exact fun room x y => ⟨.refl _, .refl _⟩
  | succ level ih =>
    have hvalue := fun (room : Room) x y => (ih room x y).1
    have htree := fun (room : Room) x y => (ih room x y).2
    intro room x y
    constructor
    · unfold equalValueTo
      refine .need (.after fun type => .after fun type' => .ite (.refl _) ?_)
      split
      · exact .refl _
      · refine .after fun xs => .after fun ys => .after fun m => .after fun n => .ite (.refl _) ?_
        exact .need (.after fun xs => .after fun ys => .equalAll (hvalue _) xs ys)
      · refine .after fun f => .after fun g => .after fun name => .after fun name' =>
          .ite (.refl _) (.after fun params => .after fun params' => .ite (.refl _) ?_)
        exact .after fun body => .after fun body' => htree _ body body'
      · exact .refl _
    · unfold equalTreeTo
      refine .need ?_
      split
      · refine .after fun b => .ite (hvalue _ _ _) (.ite (.need ?_) (.refl _))
        exact curtailed_equalFields (htree _) _ _
      case h_6 => exact .refl _
      all_goals exact .ite (.need (.equalAll (htree _) _ _)) (.refl _)

theorem curtailed_equalValue (room : Room) (x y : Datum) :
    Curtailed .stackExhausted (x.equalValue room y) (x.equalValue none y) :=
  (curtailed_equalTo _ room x y).1

theorem curtailed_equalTree (room : Room) (x y : Datum) :
    Curtailed .stackExhausted (x.equalTree room y) (x.equalTree none y) :=
  (curtailed_equalTo _ room x y).2

end Datum

mutual

theorem Value.curtailed_equal (room : Room) : ∀ v w : Value,
    Curtailed .stackExhausted (v.equal room w) (v.equal none w)
  | .foreign d, w => by
    simp only [Value.equal]
    exact d.curtailed_equalValue room w.toDatum
  | .int _, w | .bool _, w | .future _, w => by
    cases w with
    | foreign d => exact Datum.curtailed_equalValue room _ d
    | _ => exact .need (.refl _)
  | .vec items, w => by
    cases w with
    | foreign d => exact Datum.curtailed_equalValue room _ d
    | vec items' => exact .need (.ite (.need (Value.curtailed_equalItems _ items items')) (.refl _))
    | _ => exact .need (.refl _)
  | .fn name params body, w => by
    cases w with
    | foreign d => exact Datum.curtailed_equalValue room _ d
    | fn name' params' body' => exact .need (.ite (Expr.curtailed_equal _ body body') (.refl _))
    | _ => exact .need (.refl _)

theorem Value.curtailed_equalItems (room : Room) : ∀ vs ws : List Value,
    Curtailed .stackExhausted (Value.equalItems room vs ws) (Value.equalItems none vs ws)
  | [], _ => .refl _
  | _ :: _, [] => .refl _
  | v :: vs, w :: ws =>
    (Value.curtailed_equal room v w).both (Value.curtailed_equalItems room vs ws)

theorem Expr.curtailed_equal (room : Room) : ∀ d e : Expr,
    Curtailed .stackExhausted (d.equal room e) (d.equal none e)
  | .foreign d, e => by
    simp only [Expr.equal]
    exact d.curtailed_equalTree room e.toDatum
  | .lit v, e => by
    cases e with
    | foreign d => exact Datum.curtailed_equalTree room _ d
    | lit w =>
      -- A literal from outside is compared as a tree, and so is what it is compared with.
      cases v with
      | foreign d => exact .need (d.curtailed_equalTree _ w.toDatum)
      | int | bool | vec | fn | future =>
        cases w with
        | foreign d => exact .need (Datum.curtailed_equalTree _ _ d)
        | _ => exact .need (Value.curtailed_equal _ _ _)
    | _ => cases v <;> exact .need (.refl _)
  | .var name, e => by
    cases e with
    | foreign d => exact Datum.curtailed_equalTree room _ d
    | _ => exact .need (.refl _)
  | .app callee args, e => by
    cases e with
    | foreign d => exact Datum.curtailed_equalTree room _ d
    | app callee' args' =>
      exact .need ((Expr.curtailed_equal _ callee callee').both
        (.need (.ite (.need (Expr.curtailed_equalItems _ args args')) (.refl _))))
    | _ => exact .need (.refl _)
  | .letIn name value body, e => by
    cases e with
    | foreign d => exact Datum.curtailed_equalTree room _ d
    | letIn name' value' body' =>
      exact .need (.ite ((Expr.curtailed_equal _ value value').both
        (Expr.curtailed_equal _ body body')) (.refl _))
    | _ => exact .need (.refl _)
  | .cond test yes no, e => by
    cases e with
    | foreign d => exact Datum.curtailed_equalTree room _ d
    | cond test' yes' no' =>
      exact .need ((Expr.curtailed_equal _ test test').both
        ((Expr.curtailed_equal _ yes yes').both (Expr.curtailed_equal _ no no')))
    | _ => exact .need (.refl _)
  | .spawn body, e => by
    cases e with
    | foreign d => exact Datum.curtailed_equalTree room _ d
    | spawn body' => exact .need (Expr.curtailed_equal _ body body')
    | _ => exact .need (.refl _)
  | .sync body, e => by
    cases e with
    | foreign d => exact Datum.curtailed_equalTree room _ d
    | sync body' => exact .need (Expr.curtailed_equal _ body body')
    | _ => exact .need (.refl _)

theorem Expr.curtailed_equalItems (room : Room) : ∀ ds es : List Expr,
    Curtailed .stackExhausted (Expr.equalItems room ds es) (Expr.equalItems none ds es)
  | [], _ => .refl _
  | _ :: _, [] => .refl _
  | d :: ds, e :: es =>
    (Expr.curtailed_equal room d e).both (Expr.curtailed_equalItems room ds es)

end

/-! ### Programs -/

/-- A program that does what another one does, unless it stops on the way because its stack is
exhausted. -/
inductive Prog.Curtails {ω α : Type} : Prog ω α → Prog ω α → Prop
  | stop (q : Prog ω α) : Curtails (.abort .stackExhausted) q
  | done (a : α) : Curtails (.done a) (.done a)
  | fail (e : Failure) : Curtails (.fail e) (.fail e)
  | emit (line : String) {p q : Prog ω α} (h : Curtails p q) :
      Curtails (.emit line p) (.emit line q)
  | spawn (work : ω) {p q : ThreadId → Prog ω α} (h : ∀ id, Curtails (p id) (q id)) :
      Curtails (.spawn work p) (.spawn work q)
  | claim (x : CellId) {p q : Prog ω α} (h : Curtails p q) : Curtails (.claim x p) (.claim x q)
  | await (x : CellId) {p q : Value → Prog ω α} (h : ∀ v, Curtails (p v) (q v)) :
      Curtails (.await x p) (.await x q)

namespace Prog.Curtails

variable {ω α β : Type} {f g : α → Prog ω β}

theorem refl (p : Prog ω α) : p.Curtails p := by
  induction p with
  | done a => exact .done a
  | fail e => exact .fail e
  | emit line rest ih => exact .emit line ih
  | spawn work rest ih => exact .spawn work ih
  | claim x rest ih => exact .claim x ih
  | await x rest ih => exact .await x ih

theorem bind {p q : Prog ω α} (h : p.Curtails q) (hf : ∀ a, (f a).Curtails (g a)) :
    (p >>= f).Curtails (q >>= g) := by
  induction h with
  | stop q => exact .stop _
  | done a => exact hf a
  | fail e => exact .fail e
  | emit line h ih => exact .emit line ih
  | spawn work h ih => exact .spawn work ih
  | claim x h ih => exact .claim x ih
  | await x h ih => exact .await x ih

theorem after {p : Prog ω α} (hf : ∀ a, (f a).Curtails (g a)) :
    (p >>= f).Curtails (p >>= g) :=
  (refl p).bind hf

theorem ofExcept {x y : Except Failure α} (h : Curtailed (.fault .stackExhausted) x y) :
    (ofExcept x : Prog ω α).Curtails (ofExcept y) := by
  rcases h with rfl | rfl
  · exact .stop _
  · exact .refl _

end Prog.Curtails

/-! ### Evaluations -/

def Evaluator.Curtails (ev ev' : Evaluator) : Prop :=
  ∀ room ctx env e, (ev room ctx env e).Curtails (ev' none ctx env e)

section

open Prog (Curtails)

variable {ev ev' : Evaluator} {ctx : Context}

theorem curtails_evalPart (h : ev.Curtails ev') (room : Room) (env : Env)
    (e : Except Fault Expr) :
    (evalPart ev room ctx env e).Curtails (evalPart ev' none ctx env e) :=
  .after fun part => h room ctx env part

theorem curtails_evalArgs (h : ev.Curtails ev') (room : Room) (env : Env) (args : List Expr) :
    (evalArgs ev room ctx env args).Curtails (evalArgs ev' none ctx env args) := by
  induction args generalizing env with
  | nil => exact .refl _
  | cons arg args ih =>
    exact (h (room.less 1) ctx env arg).bind fun first => (ih first.env).bind fun r => .refl _

theorem curtails_applyFunction (h : ev.Curtails ev') (room : Room) (env : Env) (f : Procedure)
    (args : Args) :
    (applyFunction ev room ctx env f args).Curtails (applyFunction ev' none ctx env f args) := by
  have hcall : (prepareCall ev room ctx env f args).Curtails
      (prepareCall ev' none ctx env f args) := by
    refine .after fun name => .after fun arity => .after fun got => ?_
    split
    · exact .refl _
    · exact (curtails_evalArgs h (room.less 1) env args.items).bind fun r => .refl _
  refine hcall.bind fun call => .after fun _ => ?_
  exact (curtails_evalPart h (room.less 1) call.env f.body).bind fun _ => .refl _

theorem curtails_unary (h : ev.Curtails ev') (room : Room) (env : Env) (x : Expr)
    (op : Value → Except Failure Value) :
    (applyBuiltin.unary ev room ctx env x op).Curtails
      (applyBuiltin.unary ev' none ctx env x op) :=
  (h (room.less 1) ctx env x).bind fun _ => .refl _

theorem curtails_binary (h : ev.Curtails ev') (room : Room) (env : Env) (x y : Expr)
    {op op' : Value → Value → Except Failure Value}
    (hop : ∀ v w, Curtailed (.fault .stackExhausted) (op v w) (op' v w)) :
    (applyBuiltin.binary ev room ctx env x y op).Curtails
      (applyBuiltin.binary ev' none ctx env x y op') := by
  refine (h (room.less 2) ctx env x).bind fun r => ?_
  refine (h (room.less 2) ctx r.env y).bind fun s => ?_
  exact (Curtails.ofExcept (hop r.value s.value)).bind fun v => .refl _

theorem curtails_applyBuiltin (h : ev.Curtails ev') (room : Room) (env : Env) (b : Builtin)
    (args : List Expr) :
    (applyBuiltin ev room ctx env b args).Curtails (applyBuiltin ev' none ctx env b args) := by
  unfold applyBuiltin
  split
  case h_1 x y | h_2 x y => exact curtails_binary h room env x y fun v w => .refl _
  case h_3 x y =>
    refine curtails_binary h room env x y fun v w => .ofFault ?_
    exact (v.curtailed_equal (room.less 1) w).bind fun b => .refl _
  case h_4 x y => exact curtails_binary h room env x y fun v w => .refl _
  case h_5 test yes no =>
    refine (h (room.less 1) ctx env test).bind fun r => .after fun b => ?_
    exact h (room.less 1) ctx r.env _
  case h_6 x | h_7 x => exact curtails_unary h room env x _
  case h_8 => exact .refl _

theorem curtails_apply (h : ev.Curtails ev') (room : Room) (env : Env) (f : Procedure)
    (args : Args) :
    (apply ev room ctx env f args).Curtails (apply ev' none ctx env f args) := by
  refine .after fun name => .after fun b => ?_
  cases b with
  | none => exact curtails_applyFunction h (room.less 1) env f args
  | some b =>
    refine .after fun _ => ?_
    unfold callBuiltin
    split
    · exact curtails_applyBuiltin h _ env b _
    · exact .after fun got => by
        split
        · exact .refl _
        · exact curtails_applyBuiltin h _ env b _

theorem curtails_evalNode (h : ev.Curtails ev') :
    Evaluator.Curtails (evalNode ev) (evalNode ev') := by
  intro room ctx env e
  have hpart : ∀ room env part, (evalPart ev room ctx env part).Curtails
      (evalPart ev' none ctx env part) := curtails_evalPart h
  refine .after fun node => .after fun _ => ?_
  cases node with
  | lit value => exact .refl _
  | var name => exact .refl _
  | app callee args =>
    refine (hpart (room.less 2) env callee).bind fun f => ?_
    split
    · exact .after fun procedure => .after fun found =>
        curtails_apply h (room.less 1) f.env procedure found
    · exact .refl _
  | letIn name value body =>
    refine (hpart (room.less 2) env value).bind fun bound => .after fun name => .after fun key => ?_
    exact (hpart (room.less 2) _ body).bind fun r => .refl _
  | cond test yes no =>
    refine (hpart (room.less 2) env test).bind fun r => .after fun b => ?_
    exact hpart (room.less 2) r.env _
  | spawn body => exact .refl _
  | sync body => exact (hpart (room.less 2) env body).bind fun r => .refl _
  | unknown type => exact .refl _

/-- An evaluation does what it does with a higher limit and all the room it wants, unless it stops
because the stack is exhausted. -/
theorem curtails_eval {limit limit' : Nat} (hle : limit ≤ limit') :
    Evaluator.Curtails (eval limit) (eval limit') := by
  induction limit generalizing limit' with
  | zero => exact fun room ctx env e => .stop _
  | succ limit ih =>
    obtain ⟨limit', rfl⟩ := Nat.exists_eq_add_one_of_ne_zero (Nat.ne_zero_of_lt hle)
    intro room ctx env e
    rw [eval_succ_none]
    change (if room.has 2 then evalNode (eval limit) room ctx env e
      else .abort .stackExhausted).Curtails _
    split
    · exact curtails_evalNode (ih (Nat.le_of_succ_le_succ hle)) room ctx env e
    · exact .stop _

end

end ForkJoin
