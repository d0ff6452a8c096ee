import GraphClient.Live.Heap

/-! Observers of objects and lists. Every target numbers its own observers and never uses a number
again; they are called in the order of their numbers. What is called is left open: a callback is any
value that the program has a meaning for. -/

namespace GraphClient.Live

/-- An observer. -/
structure Observer (κ : Type) where
  number : Nat
  /-- The one field that is observed. -/
  field : Option String
  callback : κ
  deriving Repr

/-- Whether a change of a field concerns an observer. -/
def Observer.concerns {κ : Type} (o : Observer κ) (field : String) : Bool := o.field.all (· = field)

/-- The observers of one target, in the order of their numbers. -/
structure Observers (κ : Type) where
  next : Nat
  entries : List (Observer κ)
  deriving Repr

namespace Observers

variable {κ : Type}

instance : Inhabited (Observers κ) := ⟨0, []⟩

/-- One more observer, and its number. -/
def add (os : Observers κ) (field : Option String) (callback : κ) : Nat × Observers κ :=
  (os.next, ⟨os.next + 1, os.entries ++ [⟨os.next, field, callback⟩]⟩)

def contains (os : Observers κ) (number : Nat) : Bool := os.entries.any (·.number = number)

def remove (os : Observers κ) (number : Nat) : Observers κ :=
  { os with entries := os.entries.filter (·.number ≠ number) }

/-- What to call when a field changes. -/
def callbacksFor (os : Observers κ) (field : String) : List κ :=
  (os.entries.filter (·.concerns field)).map (·.callback)

def callbacks (os : Observers κ) : List κ := os.entries.map (·.callback)

end Observers

/-- What is observed. -/
inductive Target
  | object (id : ObjectId)
  | list (id : ListId)
  deriving DecidableEq, Repr

/-- What stands for an observer once it is registered. -/
structure Subscription where
  number : Nat
  target : Target
  deriving DecidableEq, Repr

/-- The observers of all targets. -/
structure Watch (κ : Type) where
  objects : Arena (Observers κ)
  lists : Arena (Observers κ)

namespace Watch

variable {κ : Type}

def empty : Watch κ := ⟨.empty, .empty⟩

instance : Inhabited (Watch κ) := ⟨empty⟩

/-- The observers of a target. -/
def get (w : Watch κ) : Target → Observers κ
  | .object o => w.objects.get o.number
  | .list l => w.lists.get l.number

def set (w : Watch κ) (target : Target) (os : Observers κ) : Watch κ :=
  match target with
  | .object o => { w with objects := w.objects.set o.number os }
  | .list l => { w with lists := w.lists.set l.number os }

/-- Registers an observer. -/
def observe (w : Watch κ) (target : Target) (field : Option String) (callback : κ) :
    Subscription × Watch κ :=
  let (number, os) := (w.get target).add field callback
  (⟨number, target⟩, w.set target os)

/-- Removes the observer that a subscription stands for; tells whether it was still there. -/
def cancel (w : Watch κ) (s : Subscription) : Bool × Watch κ :=
  ((w.get s.target).contains s.number, w.set s.target ((w.get s.target).remove s.number))

/-- Removes an observer by way of a target. An object refuses subscriptions to anything else; a list
cancels whatever it is given. -/
def unobserve (w : Watch κ) (target : Target) (s : Subscription) : Bool × Watch κ :=
  match target with
  | .object o => if s.target = .object o then w.cancel s else (false, w)
  | .list _ => w.cancel s

end Watch

end GraphClient.Live
