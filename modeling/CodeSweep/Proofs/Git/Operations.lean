import CodeSweep.Proofs.Git.Behaviour

/-! # Runs of operations

A repository may be given any operations in any order, and each may fail. A run keeps the record of
every call: what was remembered before it, how it ended and what was said during it. What holds of
every single call holds of all calls of a run (`calls_forall`), and the calls together are all that is
said (`transcript_runAll`). -/

namespace CodeSweep

/-- An operation that a repository can be given. -/
inductive Operation where
  | clone
  | selected
  | checkout (name : String) (fresh : Bool)
  | delete (name : String)
  | clean
  | reset (working : String)
  | update (working : String)
  | prepare (working : String)
  | commit (message : String)
  | push

namespace Operation

variable {σ : Type} {w : World σ} {r : Repository} {c : Option Branch}

/-- Performs an operation. What it finds is not kept. -/
def perform (w : World σ) (r : Repository) : Operation → Git σ Unit
  | .clone => r.clone w
  | .selected => do let _ ← r.selectedBranch w
  | .checkout name fresh => do let _ ← r.checkout w name fresh
  | .delete name => r.deleteBranch w name
  | .clean => r.resetAndFetch w
  | .reset working => r.reset w working
  | .update working => r.update w working
  | .prepare working => r.prepare w working
  | .commit message => r.commit w message
  | .push => r.push w

/-- All that an operation can do. -/
def Does (r : Repository) (c : Option Branch) : Operation → Behaviour Unit
  | .clone => r.Clones c
  | .selected => fun t out c' => ∃ found, r.Selects c t found c' ∧ found.map (fun _ => ()) = out
  | .checkout name fresh => fun t out c' =>
    ∃ moved, r.ChecksOut name fresh c t moved c' ∧ moved.map (fun _ => ()) = out
  | .delete name => r.Reads ["branch", "-D", name] (fun _ => ()) none
  | .clean => r.Resets c
  | .reset working => r.ResetsTo working c
  | .update working => r.Updates working c
  | .prepare working => r.Prepares working c
  | .commit message => r.Commits message c
  | .push => r.Pushes c

theorem perform_sends (op : Operation) : (op.perform w r).Sends w c (op.Does r c) := by
  cases op with
  | clone => exact Repository.clone_sends
  | selected => exact Repository.selectedBranch_sends.discard
  | checkout name fresh => exact (Repository.checkout_sends name fresh).discard
  | delete name => exact Repository.deleteBranch_sends name
  | clean => exact Repository.resetAndFetch_sends
  | reset working => exact Repository.reset_sends working
  | update working => exact Repository.update_sends working
  | prepare working => exact Repository.prepare_sends working
  | commit message => exact Repository.commit_sends message
  | push => exact Repository.push_sends

end Operation

/-- A call of an operation: what was remembered before it, how it ended, and what was said during
it. -/
structure Call where
  op : Operation
  remembered : Option Branch
  outcome : Except GitFault Unit
  said : List Exchange

namespace Repository

variable {σ : Type}

/-- Calls one operation. -/
def call (w : World σ) (r : Repository) (op : Operation) (d : Desk σ) : Call where
  op
  remembered := d.current
  outcome := ((op.perform w r).finish d).1
  said := ((op.perform w r).finish d).2.session.transcript.drop d.session.transcript.length

/-- Calls operations one after another, however they end. -/
def calls (w : World σ) (r : Repository) : List Operation → Desk σ → List Call
  | [], _ => []
  | op :: ops, d => r.call w op d :: calls w r ops ((op.perform w r).finish d).2

/-- The desk after some operations. -/
def runAll (w : World σ) (r : Repository) (ops : List Operation) (d : Desk σ) : Desk σ :=
  ops.foldl (fun d op => ((op.perform w r).finish d).2) d

variable {w : World σ} {r : Repository}

/-- A call does what its operation can do, and what was said during it is new. -/
theorem call_does (op : Operation) (d : Desk σ) :
    ((op.perform w r).finish d).2.session.transcript =
        d.session.transcript ++ (r.call w op d).said ∧
      op.Does r d.current (r.call w op d).said (r.call w op d).outcome
        ((op.perform w r).finish d).2.current := by
  obtain ⟨t, hleads, hdoes⟩ := op.perform_sends (w := w) (r := r) d rfl
  -- the transcript only grows, so that dropping the old part leaves the new one
  have hsaid : (r.call w op d).said = t := by
    simp only [call, hleads.transcript, List.drop_left]
  rw [hsaid]
  exact ⟨hleads.transcript, hdoes⟩

/-- **What holds of every call holds of all calls of a run.** -/
theorem calls_forall {P : Call → Prop} (h : ∀ op d, P (r.call w op d)) (ops : List Operation)
    (d : Desk σ) : ∀ call ∈ r.calls w ops d, P call := by
  induction ops generalizing d with
  | nil => simp [calls]
  | cons op ops ih =>
      intro call hcall
      rcases List.mem_cons.mp hcall with rfl | hcall
      · exact h op d
      · exact ih _ call hcall

/-- The calls of a run are all that is said in it. -/
theorem transcript_runAll (ops : List Operation) (d : Desk σ) :
    (r.runAll w ops d).session.transcript =
      d.session.transcript ++ (r.calls w ops d).flatMap (·.said) := by
  induction ops generalizing d with
  | nil => simp [runAll, calls]
  | cons op ops ih =>
      rw [runAll, List.foldl_cons, ← runAll, ih, (call_does op d).1, List.append_assoc]
      rfl

theorem calls_op (ops : List Operation) (d : Desk σ) : (r.calls w ops d).map (·.op) = ops := by
  induction ops generalizing d with
  | nil => rfl
  | cons op ops ih => rw [calls, List.map_cons, ih]; rfl

end Repository

end CodeSweep
