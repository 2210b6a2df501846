import ForkJoin.Proofs.Rewriting

/-!
# Comparing values of the language

Two values of the five types can always be compared: what can go wrong is that the stack is too
small. A future equals nothing, so it does not matter for a comparison how cells are called.
-/

namespace ForkJoin

def OnlyStack {α : Type} (x : Except Fault α) : Prop :=
  ∀ f, x = .error f → f = .stackExhausted

theorem OnlyStack.ok {α : Type} (a : α) : OnlyStack (.ok a) :=
  fun _ h => nomatch h

theorem OnlyStack.need {α : Type} {room : Room} {entries : Nat} {x : Except Fault α}
    (hx : OnlyStack x) : OnlyStack (room.need entries x) := by
  intro f hf
  unfold Room.need at hf
  split at hf
  · exact hx f hf
  · cases hf
    rfl

theorem OnlyStack.ite {α : Type} {p : Prop} [Decidable p] {x y : Except Fault α}
    (hx : OnlyStack x) (hy : OnlyStack y) : OnlyStack (if p then x else y) := by
  split
  · exact hx
  · exact hy

theorem OnlyStack.both {first second : Except Fault Bool} (hfirst : OnlyStack first)
    (hsecond : OnlyStack second) : OnlyStack (bothEqual first second) := by
  cases first with
  | error f =>
    have hf : f = .stackExhausted := hfirst f rfl
    intro g hg
    cases hg
    exact hf
  | ok b =>
    cases b with
    | false => exact .ok false
    | true => exact hsecond

namespace Expr

theorem equal_lit {room : Room} {v w : Value} (hv : v.WellFormed) (hw : w.WellFormed) :
    (lit v).equal room (lit w) = room.need 5 (v.equal (room.less 4) w) := by
  cases v with
  | foreign d => exact hv.elim
  | _ =>
    cases w with
    | foreign d => exact hw.elim
    | _ => simp only [equal]

end Expr

mutual

theorem Value.onlyStack_equal (room : Room) : ∀ {v w : Value}, v.WellFormed → w.WellFormed →
    OnlyStack (v.equal room w)
  | .foreign _, _, hv, _ => hv.elim
  | .int _, w, _, hw | .bool _, w, _, hw | .future _, w, _, hw => by
    cases w with
    | foreign d => exact hw.elim
    | _ => exact (OnlyStack.ok _).need
  | .vec items, w, hv, hw => by
    cases w with
    | foreign d => exact hw.elim
    | vec items' => exact ((Value.onlyStack_equalItems (room.less 3) hv hw).need.ite (.ok _)).need
    | _ => exact (OnlyStack.ok _).need
  | .fn name params body, w, hv, hw => by
    cases w with
    | foreign d => exact hw.elim
    | fn name' params' body' =>
      exact ((Expr.onlyStack_equal (room.less 1) hv hw).ite (.ok _)).need
    | _ => exact (OnlyStack.ok _).need

theorem Value.onlyStack_equalItems (room : Room) : ∀ {vs ws : List Value},
    Value.AllWellFormed vs → Value.AllWellFormed ws → OnlyStack (Value.equalItems room vs ws)
  | [], _, _, _ => .ok _
  | _ :: _, [], _, _ => .ok _
  | _ :: _, _ :: _, hvs, hws =>
    (Value.onlyStack_equal room hvs.1 hws.1).both (Value.onlyStack_equalItems room hvs.2 hws.2)

theorem Expr.onlyStack_equal (room : Room) : ∀ {d e : Expr}, d.WellFormed → e.WellFormed →
    OnlyStack (d.equal room e)
  | .foreign _, _, hd, _ => hd.elim
  | .lit v, e, hd, he => by
    cases e with
    | foreign d => exact he.elim
    | lit w =>
      rw [Expr.equal_lit hd he]
      exact (Value.onlyStack_equal (room.less 4) hd he).need
    | _ => cases v <;> first | exact hd.elim | exact (OnlyStack.ok _).need
  | .var name, e, _, he => by
    cases e with
    | foreign d => exact he.elim
    | _ => exact (OnlyStack.ok _).need
  | .app callee args, e, hd, he => by
    cases e with
    | foreign d => exact he.elim
    | app callee' args' =>
      have hargs := Expr.onlyStack_equalItems (room.less 9) hd.2 he.2
      exact ((Expr.onlyStack_equal (room.less 6) hd.1 he.1).both
        (hargs.need.ite (.ok _)).need).need
    | _ => exact (OnlyStack.ok _).need
  | .letIn name value body, e, hd, he => by
    cases e with
    | foreign d => exact he.elim
    | letIn name' value' body' =>
      exact (((Expr.onlyStack_equal (room.less 6) hd.1 he.1).both
        (Expr.onlyStack_equal (room.less 6) hd.2 he.2)).ite (.ok _)).need
    | _ => exact (OnlyStack.ok _).need
  | .cond test yes no, e, hd, he => by
    cases e with
    | foreign d => exact he.elim
    | cond test' yes' no' =>
      exact ((Expr.onlyStack_equal (room.less 6) hd.1 he.1).both
        ((Expr.onlyStack_equal (room.less 6) hd.2.1 he.2.1).both
          (Expr.onlyStack_equal (room.less 6) hd.2.2 he.2.2))).need
    | _ => exact (OnlyStack.ok _).need
  | .spawn body, e, hd, he => by
    cases e with
    | foreign d => exact he.elim
    | spawn body' =>
      have hbody : OnlyStack (body.equal (room.less 3) body') :=
        Expr.onlyStack_equal (room.less 3) hd he
      exact hbody.need
    | _ => exact (OnlyStack.ok _).need
  | .sync body, e, hd, he => by
    cases e with
    | foreign d => exact he.elim
    | sync body' =>
      have hbody : OnlyStack (body.equal (room.less 3) body') :=
        Expr.onlyStack_equal (room.less 3) hd he
      exact hbody.need
    | _ => exact (OnlyStack.ok _).need

theorem Expr.onlyStack_equalItems (room : Room) : ∀ {ds es : List Expr},
    Expr.AllWellFormed ds → Expr.AllWellFormed es → OnlyStack (Expr.equalItems room ds es)
  | [], _, _, _ => .ok _
  | _ :: _, [], _, _ => .ok _
  | _ :: _, _ :: _, hds, hes =>
    (Expr.onlyStack_equal room hds.1 hes.1).both (Expr.onlyStack_equalItems room hds.2 hes.2)

end

/-! ### Cells under other names -/

def Rewriting.ofCells (f : CellId → CellId) : Rewriting where
  future x := .future (f x)

theorem Rewriting.wellFormed_ofCells (f : CellId → CellId) : (ofCells f).WellFormed where
  future _ := trivial
  spawn _ h := h
  sync _ h := h

variable {f : CellId → CellId}

mutual

/-- How cells are called does not matter for a comparison. -/
theorem Value.equal_ofCells (room : Room) : ∀ {v w : Value}, v.WellFormed → w.WellFormed →
    (v.rewrite (.ofCells f)).equal room (w.rewrite (.ofCells f)) = v.equal room w
  | .foreign _, _, hv, _ => hv.elim
  | .int _, w, _, hw | .bool _, w, _, hw | .future _, w, _, hw => by
    cases w with
    | foreign d => exact hw.elim
    | _ => rfl
  | .vec items, w, hv, hw => by
    cases w with
    | foreign d => exact hw.elim
    | vec items' =>
      have hitems := Value.equalItems_ofCells (room.less 3) hv hw
      simp only [Value.rewriteAll_eq_map] at hitems
      simp only [Value.rewrite_vec, Value.equal, List.length_map, hitems]
    | _ => rfl
  | .fn name params body, w, hv, hw => by
    cases w with
    | foreign d => exact hw.elim
    | fn name' params' body' =>
      have hbody := Expr.equal_ofCells (room.less 1) (d := body) (e := body') hv hw
      simp only [Value.rewrite_fn, Value.equal, hbody]
    | _ => rfl

theorem Value.equalItems_ofCells (room : Room) : ∀ {vs ws : List Value},
    Value.AllWellFormed vs → Value.AllWellFormed ws →
    Value.equalItems room (Value.rewriteAll (.ofCells f) vs) (Value.rewriteAll (.ofCells f) ws) =
      Value.equalItems room vs ws
  | [], [], _, _ | [], _ :: _, _, _ | _ :: _, [], _, _ => rfl
  | v :: vs, w :: ws, hvs, hws => by
    simp only [Value.rewriteAll, Value.equalItems, Value.equal_ofCells room hvs.1 hws.1,
      Value.equalItems_ofCells room hvs.2 hws.2]

theorem Expr.equal_ofCells (room : Room) : ∀ {d e : Expr}, d.WellFormed → e.WellFormed →
    (d.rewrite (.ofCells f)).equal room (e.rewrite (.ofCells f)) = d.equal room e
  | .foreign _, _, hd, _ => hd.elim
  | .lit v, e, hd, he => by
    cases e with
    | foreign d => exact he.elim
    | lit w =>
      have hσ := Rewriting.wellFormed_ofCells f
      rw [Expr.rewrite_lit, Expr.rewrite_lit, Expr.equal_lit hd he,
        Expr.equal_lit (Value.WellFormed.rewrite hσ hd) (Value.WellFormed.rewrite hσ he),
        Value.equal_ofCells (room.less 4) hd he]
    | _ => cases v <;> rfl
  | .var name, e, _, he => by
    cases e with
    | foreign d => exact he.elim
    | _ => rfl
  | .app callee args, e, hd, he => by
    cases e with
    | foreign d => exact he.elim
    | app callee' args' =>
      have hcallee := Expr.equal_ofCells (room.less 6) hd.1 he.1
      have hargs := Expr.equalItems_ofCells (room.less 9) hd.2 he.2
      simp only [Expr.rewriteAll_eq_map] at hargs
      simp only [Expr.rewrite_app, Expr.equal, List.length_map, hcallee, hargs]
    | _ => rfl
  | .letIn name value body, e, hd, he => by
    cases e with
    | foreign d => exact he.elim
    | letIn name' value' body' =>
      simp only [Expr.rewrite_letIn, Expr.equal, Expr.equal_ofCells (room.less 6) hd.1 he.1,
        Expr.equal_ofCells (room.less 6) hd.2 he.2]
    | _ => rfl
  | .cond test yes no, e, hd, he => by
    cases e with
    | foreign d => exact he.elim
    | cond test' yes' no' =>
      simp only [Expr.rewrite_cond, Expr.equal, Expr.equal_ofCells (room.less 6) hd.1 he.1,
        Expr.equal_ofCells (room.less 6) hd.2.1 he.2.1,
        Expr.equal_ofCells (room.less 6) hd.2.2 he.2.2]
    | _ => rfl
  | .spawn body, e, hd, he => by
    cases e with
    | foreign d => exact he.elim
    | spawn body' => exact congrArg (room.need 5) (Expr.equal_ofCells (room.less 3) hd he)
    | _ => rfl
  | .sync body, e, hd, he => by
    cases e with
    | foreign d => exact he.elim
    | sync body' => exact congrArg (room.need 5) (Expr.equal_ofCells (room.less 3) hd he)
    | _ => rfl

theorem Expr.equalItems_ofCells (room : Room) : ∀ {ds es : List Expr},
    Expr.AllWellFormed ds → Expr.AllWellFormed es →
    Expr.equalItems room (Expr.rewriteAll (.ofCells f) ds) (Expr.rewriteAll (.ofCells f) es) =
      Expr.equalItems room ds es
  | [], [], _, _ | [], _ :: _, _, _ | _ :: _, [], _, _ => rfl
  | d :: ds, e :: es, hds, hes => by
    simp only [Expr.rewriteAll, Expr.equalItems, Expr.equal_ofCells room hds.1 hes.1,
      Expr.equalItems_ofCells room hds.2 hes.2]

end

end ForkJoin
