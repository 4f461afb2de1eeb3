import WasmStream.Source

/-! Builders: decoding that can be taken up again. A builder keeps what it has decoded so far in a
state; one pass runs it over the bytes that are there and says how many it used, also when it stops
for lack of input or fails. -/
namespace WasmStream

inductive Pass (σ α : Type) where
  | ready (value : α) (state : σ) (used : Nat)
  | paused (state : σ) (used : Nat)
  | failed (error : Error) (state : σ) (used : Nat)
  deriving Repr

namespace Pass
variable {σ τ α : Type}

/-- The pass seen from `n` bytes further back. -/
def after (n : Nat) : Pass σ α → Pass σ α
  | ready value state used => ready value state (n + used)
  | paused state used => paused state (n + used)
  | failed error state used => failed error state (n + used)

def mapState (f : σ → τ) : Pass σ α → Pass τ α
  | ready value state used => ready value (f state) used
  | paused state used => paused (f state) used
  | failed error state used => failed error (f state) used

def state : Pass σ α → σ
  | ready _ s _ => s
  | paused s _ => s
  | failed _ s _ => s

def used : Pass σ α → Nat
  | ready _ _ n => n
  | paused _ n => n
  | failed _ _ n => n

/-- Whether the pass came to its end; an error if it failed. -/
def isReady : Pass σ α → Except Error Bool
  | ready .. => .ok true
  | paused .. => .ok false
  | failed error _ _ => .error error

end Pass

def Builder (σ α : Type) : Type := σ → Cursor → Pass σ α

namespace Builder
variable {σ τ α β : Type}

instance : Monad (Builder σ) where
  pure a := fun s _ => .ready a s 0
  bind p f := fun s c =>
    match p s c with
    | .ready a s n => (f a s (c.drop n)).after n
    | .paused s n => .paused s n
    | .failed error s n => .failed error s n

theorem pure_run (a : α) (s : σ) (c : Cursor) : (pure a : Builder σ α) s c = .ready a s 0 := rfl
theorem bind_run (p : Builder σ α) (f : α → Builder σ β) (s : σ) (c : Cursor) :
    (p >>= f) s c = match p s c with
      | .ready a s n => (f a s (c.drop n)).after n
      | .paused s n => .paused s n
      | .failed error s n => .failed error s n := rfl

def get : Builder σ σ := fun s _ => .ready s s 0

def modify (f : σ → σ) : Builder σ Unit := fun s _ => .ready () (f s) 0

def fail (error : Error) : Builder σ α := fun s _ => .failed error s 0

def lift : Except Error α → Builder σ α
  | .ok a => pure a
  | .error error => fail error

def offset : Builder σ Nat := fun s c => .ready c.offset s 0

def read (r : Reader α) : Builder σ α := fun s c =>
  match r c with
  | .done a n => .ready a s n
  | .needMore => .paused s 0
  | .fail error => .failed error s 0

/-- Work on a part of the state. -/
def zoom (part : σ → τ) (put : τ → σ → σ) (p : Builder τ α) : Builder σ α := fun s c =>
  (p (part s) c).mapState fun t => put t s

/-- A field of the state: decoded at most once, and kept. -/
def remember (field : σ → Option α) (put : α → σ → σ) (p : Builder σ α) : Builder σ α := do
  match field (← get) with
  | some a => return a
  | none =>
    let a ← p
    modify (put a)
    return a

/-- Run a builder to its end, freeze what it holds and start afresh. -/
def harvest (p : Builder σ Unit) (freeze : σ → Except Error α) (fresh : σ) : Builder σ α := do
  p
  let full ← get
  modify fun _ => fresh
  lift (freeze full)

/-- One pass over what the source has; what was used is consumed, however the pass ends. -/
def run [Source τ] (p : Builder σ α) (state : σ) (source : τ) : Pass σ α × τ :=
  let pass := p state (Source.ahead source)
  (pass, Source.consume source pass.used)

end Builder
end WasmStream
