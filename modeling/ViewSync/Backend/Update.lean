import ViewSync.Backend.State

/-!
# ViewSync.Backend.Update

What is done to one component in one piece. Changes are sent in the same piece in which they are stored,
so no code of the program runs in between; who is called because of them is told afterwards. A batch keeps
changes back until it is closed.
-/

namespace ViewSync.Backend

variable {Code Store : Type}

/-! ## Changes -/

/-- Sends what is to be told of a change, if the other end is to be told. -/
def forward (b : Backend Code Store) (c : ComponentId) (d : Delivery Code) : Backend Code Store :=
  if d.options.forward then b.sendFrom c (.change c d.changes) else b

/-- Sets the state of a component and sends what is to be told of that. -/
def tell (b : Backend Code Store) (c : ComponentId) (component : Component Code) :
    Option (Delivery Code) → Backend Code Store
  | none => b.setComponent c component
  | some d => (b.setComponent c component).forward c d

/-- Stores changes and sends them, unless a batch keeps them back. -/
def change (b : Backend Code Store) (c : ComponentId) (changes : Fields) (options : UpdateOptions) :
    Except ComponentError (Option (Delivery Code) × Backend Code Store) :=
  match b.component? c with
  | none => .error (.destroyed c)
  | some component =>
    (component.write c changes options).map fun written =>
      (written.2, b.tell c written.1 written.2)

/-! ## Batches -/

/-- Opens a batch for a holder. -/
def openBatch (b : Backend Code Store) (c : ComponentId) (holder : BatchHolder)
    (options : UpdateOptions) : Except ComponentError (Backend Code Store) :=
  match b.component? c with
  | none => .error (.destroyed c)
  | some component => (component.openBatch c holder options).map (b.setComponent c)

/-- Opens a batch that the program closes, under a number of its own. -/
def beginBatch (b : Backend Code Store) (c : ComponentId) (options : UpdateOptions) :
    Except ComponentError (Nat × Backend Code Store) :=
  (b.openBatch c (.handle b.nextBatch) options).map fun b' =>
    (b.nextBatch, { b' with nextBatch := b.nextBatch + 1 })

/-- Closes the batch of a holder and sends what it kept back. -/
def commit (b : Backend Code Store) (c : ComponentId) (holder : BatchHolder) :
    Option (Delivery Code) × Backend Code Store :=
  match b.component? c with
  | none => (none, b)
  | some component =>
    let closed := component.closeBatch holder
    (closed.2, b.tell c closed.1 closed.2)

/-- Drops the batch of a holder; what it kept back is never told. -/
def drop (b : Backend Code Store) (c : ComponentId) (holder : BatchHolder) : Backend Code Store :=
  match b.component? c with
  | none => b
  | some component => b.setComponent c (component.closeBatch holder).1

/-! ## Listeners -/

/-- Adds a listener. Says which it is, and which fields there are. -/
def listen (b : Backend Code Store) (c : ComponentId) (fields : Option (List String)) (code : Code) :
    Option (Listener Code × List String) × Backend Code Store :=
  match b.component? c with
  | none => (none, b)
  | some component =>
    let added := component.listen fields code
    (some (added.1, component.fields.names), b.setComponent c added.2)

/-- Removes a listener and says whether it was there. -/
def unlisten (b : Backend Code Store) (c : ComponentId) (id : ListenerId) :
    Bool × Backend Code Store :=
  match b.component? c with
  | none => (false, b)
  | some component =>
    let removed := component.unlisten id
    (removed.1, b.setComponent c removed.2)

end ViewSync.Backend
