import ForkJoin.Name.Datum
import ForkJoin.Value

/-!
# Environments

The bindings that an evaluation sees. An environment is a chain of frames, the innermost first;
no frame is ever changed, so an environment that was kept is a snapshot. A name means what the
innermost frame that binds it says. Flattening a chain gives one frame with the same meaning, and
compacting puts that frame in the chain's place.
-/

namespace ForkJoin

/-! ### Frames -/

/-- The bindings that were made together; of two entries for a name the first counts. A name stays
written as it was when it was first bound. -/
structure Frame where
  entries : List (Name × Value) := []
  deriving Inhabited

namespace Frame

def entry? (f : Frame) (name : Name) : Option (Name × Value) :=
  f.entries.find? (·.1.key = name.key)

def get? (f : Frame) (name : Name) : Option Value :=
  (f.entry? name).map (·.2)

/-- How a frame writes a name: as it was first bound, if it is bound. -/
def written (f : Frame) (name : Name) : Name :=
  ((f.entry? name).map (·.1)).getD name

def insert (f : Frame) (name : Name) (value : Value) : Frame :=
  ⟨(f.written name, value) :: f.entries.filter (·.1.key ≠ name.key)⟩

def single (name : Name) (value : Value) : Frame :=
  ⟨[(name, value)]⟩

/-- The bindings of a list; of two for one name the later counts. -/
def ofList (bindings : List (Name × Value)) : Frame :=
  bindings.foldl (fun f (name, value) => f.insert name value) {}

/-- The bindings of a frame, with those of another put over them. -/
def update (f top : Frame) : Frame :=
  top.entries.foldr (fun (name, value) f => f.insert name value) f

@[simp] theorem get?_empty (name : Name) : ({} : Frame).get? name = none := rfl

theorem get?_cons (entries : List (Name × Value)) (name other : Name) (value : Value) :
    (Frame.mk ((name, value) :: entries)).get? other =
      if other.key = name.key then some value else (Frame.mk entries).get? other := by
  by_cases h : other.key = name.key
  · simp [get?, entry?, h]
  · simp [get?, entry?, h, Ne.symm h]

theorem get?_single (name other : Name) (value : Value) :
    (single name value).get? other = if other.key = name.key then some value else none :=
  get?_cons [] name other value

/-- However a frame writes a name, it is that name. -/
@[simp] theorem key_written (f : Frame) (name : Name) : (f.written name).key = name.key := by
  unfold written
  cases h : f.entry? name with
  | none => rfl
  | some entry => simpa using List.find?_some h

theorem get?_filter_ne (entries : List (Name × Value)) (name other : Name)
    (h : other.key ≠ name.key) :
    (Frame.mk (entries.filter (·.1.key ≠ name.key))).get? other =
      (Frame.mk entries).get? other := by
  induction entries with
  | nil => rfl
  | cons entry entries ih =>
    obtain ⟨first, value⟩ := entry
    by_cases hk : first.key = name.key
    · rw [get?_cons, hk, if_neg h, ← ih]
      simp [hk]
    · have hkeep : ((first, value) :: entries).filter (·.1.key ≠ name.key) =
          (first, value) :: entries.filter (·.1.key ≠ name.key) := by
        simp [hk]
      rw [hkeep, get?_cons, get?_cons, ih]

theorem get?_insert (f : Frame) (name other : Name) (value : Value) :
    (f.insert name value).get? other =
      if other.key = name.key then some value else f.get? other := by
  rw [insert, get?_cons, key_written]
  by_cases h : other.key = name.key
  · simp [h]
  · simp only [h, if_false]
    exact get?_filter_ne f.entries name other h

/-- The upper frame decides where it binds a name. -/
theorem get?_update (f top : Frame) (name : Name) :
    (f.update top).get? name = (top.get? name).or (f.get? name) := by
  obtain ⟨entries⟩ := top
  induction entries with
  | nil => rfl
  | cons entry entries ih =>
    obtain ⟨first, value⟩ := entry
    simp only [update, List.foldr_cons] at ih ⊢
    rw [get?_insert, get?_cons]
    by_cases h : name.key = first.key
    · simp [h]
    · simp only [h, if_false, ih]

end Frame

/-! ### Chains -/

/-- A chain of frames, the innermost first. -/
structure Env where
  frames : List Frame
  deriving Inhabited

namespace Env

def root (f : Frame) : Env :=
  ⟨[f]⟩

def extend (env : Env) (f : Frame) : Env :=
  ⟨f :: env.frames⟩

/-- An environment with one name bound in a frame of its own. -/
def bind (env : Env) (name : Name) (value : Value) : Env :=
  env.extend (.single name value)

/-- What the innermost frame that binds a name says. -/
def get? (env : Env) (name : Name) : Option Value :=
  env.frames.findSome? (·.get? name)

/-- What a name means. A name bound to null means nothing, and hides what it meant further out. -/
def lookup (env : Env) (name : Name) : Option Value :=
  match env.get? name with
  | some (.foreign .null) => none
  | found => found

/-- All bindings of a chain in one frame. -/
def flatten (env : Env) : Frame :=
  env.frames.foldr (fun f outer => outer.update f) {}

def compact (env : Env) : Env :=
  .root env.flatten

def isRoot (env : Env) : Bool :=
  env.frames.length ≤ 1

theorem get?_extend (env : Env) (f : Frame) (name : Name) :
    (env.extend f).get? name = (f.get? name).or (env.get? name) := by
  simp only [get?, extend, List.findSome?_cons]
  cases f.get? name <;> rfl

/-- Flattening keeps the meaning of every name. -/
theorem get?_flatten (env : Env) (name : Name) : env.flatten.get? name = env.get? name := by
  obtain ⟨frames⟩ := env
  induction frames with
  | nil => rfl
  | cons f frames ih =>
    simp only [flatten, List.foldr_cons] at ih ⊢
    rw [Frame.get?_update, ih]
    exact (get?_extend ⟨frames⟩ f name).symm

end Env

end ForkJoin
