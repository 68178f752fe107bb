/-!
# Talking to the world

The node asks its sensors, its radio and its clock, and every answer may depend
on all that was asked before. An `Action` is one such conversation: it takes
the world as it is and gives an answer together with the world afterwards.
Nothing is assumed about the world, so a statement about all actions covers
every order of answers the devices may give.
-/

namespace Telemetry

/-- Asks the world `W` for an `α`, and may change it on the way. -/
def Action (W α : Type) : Type := W → α × W

namespace Action

variable {W α β : Type}

/-- Lets the conversation happen in a world. -/
def run (a : Action W α) (w : W) : α × W := a w

protected def pure (x : α) : Action W α := fun w => (x, w)

/-- Asks, then goes on as the answer demands. -/
protected def bind (a : Action W α) (f : α → Action W β) : Action W β := fun w =>
  let r := a w
  f r.1 r.2

instance : Monad (Action W) where
  pure := Action.pure
  bind := Action.bind

def look (f : W → α) : Action W α := fun w => (f w, w)

def change (f : W → W) : Action W Unit := fun w => ((), f w)

/-- Changes the world and answers from what it was. -/
def step (f : W → α × W) : Action W α := f

@[ext] theorem ext {a b : Action W α} (h : ∀ w, a.run w = b.run w) : a = b := funext h

@[simp] theorem run_pure (x : α) (w : W) : (pure x : Action W α).run w = (x, w) := rfl

@[simp] theorem run_bind (a : Action W α) (f : α → Action W β) (w : W) :
    (a >>= f).run w = (f (a.run w).1).run (a.run w).2 := rfl

@[simp] theorem run_map (f : α → β) (a : Action W α) (w : W) :
    (f <$> a).run w = (f (a.run w).1, (a.run w).2) := rfl

@[simp] theorem run_look (f : W → α) (w : W) : (look f).run w = (f w, w) := rfl

@[simp] theorem run_change (f : W → W) (w : W) : (change f).run w = ((), f w) := rfl

@[simp] theorem run_step (f : W → α × W) (w : W) : (step f).run w = f w := rfl

@[simp] theorem run_ite (c : Prop) [Decidable c] (a b : Action W α) (w : W) :
    (if c then a else b).run w = if c then a.run w else b.run w := by
  split <;> rfl

instance : LawfulMonad (Action W) where
  map_const := rfl
  id_map _ := rfl
  seqLeft_eq _ _ := rfl
  seqRight_eq _ _ := rfl
  pure_seq _ _ := rfl
  bind_pure_comp _ _ := rfl
  bind_map _ _ := rfl
  pure_bind _ _ := rfl
  bind_assoc _ _ _ := rfl

end Action

/-- A part of the world that can be read and replaced. -/
structure Part (W α : Type) where
  get : W → α
  set : α → W → W

/-- Lets a conversation with a part happen in the whole world. -/
def Part.run {W α β : Type} (p : Part W α) (a : Action α β) : Action W β := fun w =>
  let r := a (p.get w)
  (r.1, p.set r.2 w)

/-- How much attention a log record deserves. -/
inductive Severity where
  | debug
  | warn
  | error
  deriving DecidableEq, Repr

abbrev Logger (W : Type) := Severity → String → Action W Unit

namespace Logger

variable {W : Type}

def debug (log : Logger W) (text : String) : Action W Unit := log .debug text

def warn (log : Logger W) (text : String) : Action W Unit := log .warn text

def error (log : Logger W) (text : String) : Action W Unit := log .error text

end Logger

end Telemetry
