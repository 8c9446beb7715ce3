import Flowchart.Failure

/-!
# Error chains

Errors of a host may embed failures. A log holds errors in the order they were added;
entries may refer to the same failure, so that a later attribution shows in all of
them.
-/

namespace Flowchart

/-- An error of a host: a failure, kept in the log's store, a text of its own, or a text
that embeds another error. -/
inductive ErrorChain where
  | failure (ref : Nat)
  | plain (text : String)
  | embedding (text : String) (inner : ErrorChain)
deriving Repr, DecidableEq

/-- The failure that a chain is or embeds. -/
def ErrorChain.failure? : ErrorChain → Option Nat
  | .failure ref => some ref
  | .plain _ => none
  | .embedding _ inner => inner.failure?

/-- An entry without an error is nothing. -/
structure ErrorLog where
  store : Array Failure
  entries : Array (Option ErrorChain)

namespace ErrorLog

def empty : ErrorLog := ⟨#[], #[]⟩

def push (l : ErrorLog) (e : Option ErrorChain) : ErrorLog :=
  { l with entries := l.entries.push e }

/-- Adds an entry for a failure of its own. -/
def pushFailure (l : ErrorLog) (f : Failure) : ErrorLog :=
  { store := l.store.push f, entries := l.entries.push (some (.failure l.store.size)) }

def failure? (l : ErrorLog) (e : Option ErrorChain) : Option Failure :=
  (e.bind ErrorChain.failure?).bind (l.store[·]?)

def text (l : ErrorLog) : ErrorChain → String
  | .failure ref => (l.store[ref]?.map Failure.message).getD ""
  | .plain text => text
  | .embedding text _ => text

/-- Errors without a failure count as no failure. -/
def kind (l : ErrorLog) (e : Option ErrorChain) : FailureKind :=
  ((l.failure? e).map Failure.kind).getD .ok

def reason (l : ErrorLog) (e : Option ErrorChain) : Reason :=
  ((l.failure? e).map Failure.reason).getD .unspecified

/-- Adds an error that embeds entry `e`. Its text is fixed from then on. -/
def embed (l : ErrorLog) (e : Option ErrorChain) (text : String) : ErrorLog :=
  match e with
  | some inner => l.push (some (.embedding s!"{text}: {l.text inner}" inner))
  | none => l.push (some (.plain s!"{text}: %!w(<nil>)"))

/-- Adds entry `e` with a context in front. The copy is a failure of its own; an error
without a failure becomes one of the graph. -/
def wrap (l : ErrorLog) (e : Option ErrorChain) (context : String) : ErrorLog :=
  match e with
  | none => l.push none
  | some chain =>
    match l.failure? e with
    | some f => l.pushFailure (f.within context)
    | none =>
      l.pushFailure ((Failure.mk (.stated .graph .unspecified (l.text chain)) [] "" "").within
        context)

/-- Adds the failure in entry `e`, the same one; an error without becomes one of the graph. -/
def extract (l : ErrorLog) (e : Option ErrorChain) : ErrorLog :=
  match e with
  | none => l.push none
  | some chain =>
    match chain.failure? with
    | some ref => l.push (some (.failure ref))
    | none => l.pushFailure ⟨.stated .graph .unspecified (l.text chain), [], "", ""⟩

/-- Changes the failure that entry `e` itself is; there is none in another error. -/
def modify? (l : ErrorLog) (e : Option ErrorChain) (f : Failure → Failure) : Option ErrorLog :=
  match e with
  | some (.failure ref) => some { l with store := l.store.modify ref f }
  | _ => none

end ErrorLog

end Flowchart
