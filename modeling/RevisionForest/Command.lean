import RevisionForest.Operation

/-!
# Commands

What can be submitted to a writer, as data: mutations, operations on the database, blobs, failures and panics, and groups of commands in a transaction level. A script is a list of commands run in order; the first error ends it, unless the command was only attempted. `Script.run` keeps the answers given before the end, `Command.run` does not.
-/

namespace RevisionForest

inductive Command where
  | mutate (mutation : Mutation)
  | operate (operation : Operation)
  | putBlob (data : Bytes)
  | fail (error : StoreError)
  | panic
  | attempt (command : Command)
  | transact (script : List Command)

abbrev Script := List Command

namespace Action

/-- Answer the error of an action instead of failing. A panic stays one. -/
def attempt (action : Action Answer) : Action Answer := fun writer =>
  match action writer with
  | .ok answer after => .ok answer after
  | .error (.fault error) after => .ok (.failed error) after
  | .error .panic after => .error .panic after

end Action

mutual

def Command.run : Command → Action Answer
  | .mutate mutation => return .outcome (← mutation.run)
  | .operate operation => Action.transaction operation.run
  | .putBlob data => return .digest (← Action.putBlob data)
  | .fail error => Action.fail error
  | .panic => throw .panic
  | .attempt command => Action.attempt command.run
  | .transact script => return .script (← Action.transact (Command.runAll script))

/-- Run commands in order; the first error ends them. -/
def Command.runAll : List Command → Action (List Answer)
  | [] => return []
  | command :: rest => do
    let answer ← command.run
    return answer :: (← Command.runAll rest)

end

/-- Run commands in order up to the first that does not return; the answers before it are kept. -/
def Script.run : Script → Writer → (List Answer × Option Halt) × Writer
  | [], writer => (([], none), writer)
  | command :: rest, writer =>
    match command.run writer with
    | .ok answer after =>
      let ((answers, halt), last) := Script.run rest after
      ((answer :: answers, halt), last)
    | .error halt after => (([], some halt), after)

end RevisionForest
