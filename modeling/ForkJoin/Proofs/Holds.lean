import ForkJoin.Env

/-!
# What holds of all values of an environment

A property of values is one of environments when all values in their frames have it, those that are
hidden included. Binding a value that has it keeps it, and what a name is bound to has it.
-/

namespace ForkJoin

def Frame.Holds (f : Frame) (P : Value → Prop) : Prop :=
  ∀ entry ∈ f.entries, P entry.2

def Env.Holds (env : Env) (P : Value → Prop) : Prop :=
  ∀ f ∈ env.frames, f.Holds P

variable {P Q : Value → Prop}

namespace Frame

variable {f top : Frame} {name : Name} {v : Value}

theorem Holds.insert (h : f.Holds P) (hv : P v) : (f.insert name v).Holds P := by
  refine List.forall_mem_cons.2 ⟨hv, fun entry hentry => ?_⟩
  exact h entry (List.mem_filter.1 hentry).1

theorem holds_single (hv : P v) : (single name v).Holds P :=
  List.forall_mem_singleton.2 hv

theorem holds_ofList {bindings : List (Name × Value)} (h : ∀ binding ∈ bindings, P binding.2) :
    (ofList bindings).Holds P := by
  have hfold : ∀ f : Frame, f.Holds P →
      (bindings.foldl (fun f binding => f.insert binding.1 binding.2) f).Holds P := by
    induction bindings with
    | nil => exact fun f hf => hf
    | cons binding bindings ih =>
      obtain ⟨hfirst, hrest⟩ := List.forall_mem_cons.1 h
      exact fun f hf => ih hrest _ (hf.insert hfirst)
  exact hfold {} fun entry hentry => absurd hentry List.not_mem_nil

theorem Holds.update (h : f.Holds P) (htop : top.Holds P) : (f.update top).Holds P := by
  obtain ⟨entries⟩ := top
  induction entries with
  | nil => exact h
  | cons entry entries ih =>
    obtain ⟨hfirst, hrest⟩ := List.forall_mem_cons.1 htop
    exact (ih hrest).insert hfirst

theorem Holds.get? (h : f.Holds P) (hv : f.get? name = some v) : P v := by
  obtain ⟨entry, hentry, rfl⟩ := Option.map_eq_some_iff.1 hv
  exact h entry (List.mem_of_find?_eq_some hentry)

end Frame

namespace Env

variable {env : Env} {f : Frame} {name : Name} {v : Value}

theorem Holds.mono (h : env.Holds P) (hle : ∀ v, P v → Q v) : env.Holds Q :=
  fun f hf entry hentry => hle _ (h f hf entry hentry)

theorem Holds.extend (h : env.Holds P) (hf : f.Holds P) : (env.extend f).Holds P :=
  List.forall_mem_cons.2 ⟨hf, h⟩

theorem Holds.bind (h : env.Holds P) (hv : P v) : (env.bind name v).Holds P :=
  h.extend (Frame.holds_single hv)

theorem Holds.get? (h : env.Holds P) (hv : env.get? name = some v) : P v := by
  obtain ⟨f, hf, hfound⟩ := List.exists_of_findSome?_eq_some hv
  exact (h f hf).get? hfound

theorem Holds.lookup (h : env.Holds P) (hv : env.lookup name = some v) : P v := by
  unfold Env.lookup at hv
  split at hv
  · cases hv
  · exact h.get? hv

theorem Holds.flatten (h : env.Holds P) : env.flatten.Holds P := by
  obtain ⟨frames⟩ := env
  induction frames with
  | nil => exact fun entry hentry => absurd hentry List.not_mem_nil
  | cons f frames ih =>
    obtain ⟨hf, hframes⟩ := List.forall_mem_cons.1 h
    exact (ih hframes).update hf

end Env

end ForkJoin
