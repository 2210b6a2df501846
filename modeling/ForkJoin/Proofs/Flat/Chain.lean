import ForkJoin.Proofs.Flat.Compaction

/-!
# What a chain flattens to

A name is looked up from the innermost frame outwards, and the first frame that binds it decides. A
chain is flattened from the outermost frame inwards, and what is written last decides. Both come to
the frame that has no frame inside it which binds the name (`Env.get?_flatten_eq_some_iff`).

Null is a binding like any other to a map, and hides what is bound further out. Only who looks a name
up is told that it means nothing.
-/

namespace ForkJoin

namespace Env

theorem get?_eq_some_iff {env : Env} {name : Name} {v : Value} :
    env.get? name = some v ↔ ∃ inner f outer, env.frames = inner ++ f :: outer ∧
      f.get? name = some v ∧ ∀ g ∈ inner, g.get? name = none :=
  List.findSome?_eq_some_iff

theorem get?_flatten_eq_some_iff {env : Env} {name : Name} {v : Value} :
    env.flatten.get? name = some v ↔ ∃ inner f outer, env.frames = inner ++ f :: outer ∧
      f.get? name = some v ∧ ∀ g ∈ inner, g.get? name = none := by
  rw [get?_flatten, get?_eq_some_iff]

theorem isSome_get?_flatten_iff {env : Env} {name : Name} :
    (env.flatten.get? name).isSome ↔ ∃ f ∈ env.frames, (f.get? name).isSome := by
  rw [get?_flatten]
  exact List.findSome?_isSome_iff

/-- What a look-up hands out, where null stands for nothing: the binding of the flattened chain. -/
theorem getD_lookup (env : Env) (name : Name) :
    (env.lookup name).getD (.foreign .null) = (env.flatten.get? name).getD (.foreign .null) := by
  rw [get?_flatten, lookup]
  split
  case h_1 hnull => rw [hnull]; rfl
  case h_2 => rfl

theorem lookup_eq_none_iff {env : Env} {name : Name} :
    env.lookup name = none ↔
      env.flatten.get? name = none ∨ env.flatten.get? name = some (.foreign .null) := by
  rw [get?_flatten, lookup]
  split
  case h_1 hnull => simp [hnull]
  case h_2 hother => exact ⟨.inl, fun h => h.resolve_right hother⟩

theorem get?_flatten_extend (env : Env) (f : Frame) (name : Name) :
    (env.extend f).flatten.get? name = (f.get? name).or (env.flatten.get? name) := by
  rw [get?_flatten, get?_flatten, get?_extend]

theorem compact_compact (env : Env) : env.compact.compact = env.compact :=
  congrArg root env.flatten_compact

/-- **A flattened chain stands for the chain.** It binds a name exactly if some frame of the chain
does, and then to what the innermost of these says. That is what a look-up of the name hands out,
also where it is null and so hides another meaning further out. To put a frame over a chain is to
write its bindings over those of the flattened chain. Compacting leaves one frame, which flattens to
what the chain does, and to compact again changes nothing. -/
theorem flatten_stands_for_chain (env : Env) :
    (∀ name, (env.flatten.get? name).isSome ↔ ∃ f ∈ env.frames, (f.get? name).isSome) ∧
    (∀ name v, env.flatten.get? name = some v ↔ ∃ inner f outer,
      env.frames = inner ++ f :: outer ∧ f.get? name = some v ∧ ∀ g ∈ inner, g.get? name = none) ∧
    (∀ name, (env.lookup name).getD (.foreign .null) =
      (env.flatten.get? name).getD (.foreign .null)) ∧
    (∀ name, env.lookup name = none ↔
      env.flatten.get? name = none ∨ env.flatten.get? name = some (.foreign .null)) ∧
    (∀ f, (env.extend f).flatten = env.flatten.update f ∧
      ∀ name, (env.extend f).flatten.get? name = (f.get? name).or (env.flatten.get? name)) ∧
    (∃ f, env.compact.frames = [f]) ∧ env.compact.flatten = env.flatten ∧
    env.compact.compact = env.compact :=
  ⟨fun _ => isSome_get?_flatten_iff, fun _ _ => get?_flatten_eq_some_iff, env.getD_lookup,
    fun _ => lookup_eq_none_iff, fun f => ⟨rfl, env.get?_flatten_extend f⟩, ⟨_, rfl⟩,
    env.flatten_compact, env.compact_compact⟩

/-- The innermost frame binds the number one to null. The truth value that counts as one, which the
outermost frame binds, means nothing then, although the flattened chain binds it. -/
theorem flatten_stands_for_chain_hidden :
    let env : Env := ⟨[.single (.whole 1) (.foreign .null), .single "x" (.int 5),
      .ofList [(.truth true, .int 7), ("x", .int 6)]]⟩
    env.flatten.get? (.truth true) = some (.foreign .null) ∧ env.lookup (.truth true) = none ∧
      env.flatten.get? "x" = some (.int 5) ∧ env.lookup "x" = some (.int 5) := by
  intro env
  obtain ⟨-, hbinds, -, hnone, -⟩ := flatten_stands_for_chain env
  have hnull : env.flatten.get? (.truth true) = some (.foreign .null) :=
    (hbinds _ _).2 ⟨[], _, _, rfl, rfl, nofun⟩
  have hx : env.flatten.get? "x" = some (.int 5) :=
    (hbinds _ _).2 ⟨[.single (.whole 1) (.foreign .null)], _, _, rfl, rfl,
      List.forall_mem_singleton.2 rfl⟩
  exact ⟨hnull, (hnone _).2 (.inr hnull), hx, rfl⟩

end Env

end ForkJoin
