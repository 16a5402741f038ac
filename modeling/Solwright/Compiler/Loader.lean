/-!
Loading one resource for many callers. The first caller starts a load and later ones wait for the
same one; a load that succeeds is kept for ever, and one that fails is forgotten as soon as a caller
has learnt of it. A caller that gives up leaves the load running.
-/

namespace Solwright

inductive Load (α : Type)
  | running
  | ready (handle : α)
  | failed (reason : String)

inductive Delivery (α : Type)
  | handle (h : α)
  | unavailable (reason : String)
  | cancelled

/-- The state of a shared load: the handle that is kept, all loads that were ever started, the one
in the slot that new callers join, and the callers that wait, each with its load. -/
structure Loader (α : Type) where
  cached : Option α := none
  loads : List (Load α) := []
  slot : Option Nat := none
  waiting : List (Nat × Nat) := []

namespace Loader

/-- A caller enters. It is given the handle that is kept, or joins the load in the slot, which is
started if there is none. -/
def enter (l : Loader α) (caller : Nat) : Loader α × Option (Delivery α) :=
  match l.cached with
  | some h => (l, some (.handle h))
  | none =>
    match l.slot with
    | some i => ({ l with waiting := l.waiting ++ [(caller, i)] }, none)
    | none =>
      let i := l.loads.length
      ({ l with
          loads := l.loads ++ [.running]
          slot := some i
          waiting := l.waiting ++ [(caller, i)] }, none)

def finish (l : Loader α) (i : Nat) (outcome : Load α) : Loader α :=
  match l.loads[i]? with
  | some .running => { l with loads := l.loads.set i outcome }
  | _ => l

def without (l : Loader α) (caller : Nat) : List (Nat × Nat) :=
  l.waiting.filter (·.1 != caller)

/-- A waiting caller goes on after its load has ended. The handle of a load that succeeded is kept;
a load that failed leaves the slot unless another one has taken its place. -/
def resume (l : Loader α) (caller : Nat) : Loader α × Option (Delivery α) :=
  match l.waiting.lookup caller with
  | none => (l, none)
  | some i =>
    match l.loads[i]? with
    | some (.ready h) =>
      ({ l with cached := some h, slot := none, waiting := l.without caller }, some (.handle h))
    | some (.failed reason) =>
      ({ l with
          slot := if l.slot = some i then none else l.slot
          waiting := l.without caller }, some (.unavailable reason))
    | _ => (l, none)

def cancel (l : Loader α) (caller : Nat) : Loader α × Option (Delivery α) :=
  match l.waiting.lookup caller with
  | none => (l, none)
  | some _ => ({ l with waiting := l.without caller }, some .cancelled)

def running? (l : Loader α) : Option Nat :=
  l.slot.filter fun i =>
    match l.loads[i]? with
    | some .running => true
    | _ => false

inductive Event (α : Type)
  | enter (caller : Nat)
  | finish (load : Nat) (outcome : Load α)
  | resume (caller : Nat)
  | cancel (caller : Nat)

def step (l : Loader α) : Event α → Loader α × Option (Nat × Delivery α)
  | .enter caller => let (l, d) := l.enter caller; (l, d.map (caller, ·))
  | .finish i outcome => (l.finish i outcome, none)
  | .resume caller => let (l, d) := l.resume caller; (l, d.map (caller, ·))
  | .cancel caller => let (l, d) := l.cancel caller; (l, d.map (caller, ·))

end Loader

end Solwright
