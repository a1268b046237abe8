import Mathlib.Data.Nat.Notation

/-!
# Calls as trees of atomic requests

A call that reaches a shared object through several requests, between which
other threads act, is the tree of what it asks for next after each answer.
`Meets` is a contract along every path of the tree: what a call may ask for in
its situation, how an answer moves that situation, and what it has to return.
`Within` bounds the number of requests left.
-/

namespace Traft.Semantics

universe u v w

/-- A call: it returns, or makes a request and goes on with the answer. -/
inductive Program (Request : Type u) (Answer : Request → Type v) (β : Type w) where
  | done (result : β)
  | ask (request : Request) (next : Answer request → Program Request Answer β)

/-- What a call may ask for, how an answer moves its situation, and what it may
return. -/
structure Contract (Request : Type u) (Answer : Request → Type v) (β : Type w)
    (Situation : Type*) where
  Allows : Situation → Request → Prop
  Moves : Situation → (request : Request) → Answer request → Situation → Prop
  Returns : Situation → β → Prop

namespace Program

variable {Request : Type u} {Answer : Request → Type v} {β : Type w} {Situation : Type*}

/-- Whatever the answers, a call keeps to its contract. -/
def Meets (contract : Contract Request Answer β Situation) :
    Program Request Answer β → Situation → Prop
  | .done result, situation => contract.Returns situation result
  | .ask request next, situation => contract.Allows situation request ∧
      ∀ answer after, contract.Moves situation request answer after →
        Meets contract (next answer) after

/-- Whatever the answers, a call returns after at most `count` requests. -/
def Within (count : Nat) (program : Program Request Answer β) : Prop :=
  match count, program with
  | _, .done _ => True
  | 0, .ask .. => False
  | count + 1, .ask _ next => ∀ answer, (next answer).Within count

/-- A call that has nothing left to ask for. -/
def Returned : Program Request Answer β → Prop
  | .done _ => True
  | .ask .. => False

/-- A bound leaves room for a larger one. -/
theorem Within.succ {count : Nat} {program : Program Request Answer β}
    (within : program.Within count) : program.Within (count + 1) := by
  induction count generalizing program with
  | zero =>
      cases program with
      | done result => trivial
      | ask request next => exact within.elim
  | succ count inductionHypothesis =>
      cases program with
      | done result => trivial
      | ask request next => exact fun answer => inductionHypothesis (within answer)

/-- An answered request is one of those left. -/
theorem Within.answered {count : Nat} {request : Request}
    {next : Answer request → Program Request Answer β}
    (within : (Program.ask request next).Within count) (answer : Answer request) :
    (next answer).Within count := by
  cases count with
  | zero => exact within.elim
  | succ count => exact Within.succ (within answer)

end Program

end Traft.Semantics
