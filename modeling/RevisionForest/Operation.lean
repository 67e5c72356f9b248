import RevisionForest.Answer

/-!
# Operations on the database

The steps below the mutations, as data: what can be asked of the tables, what can be written to them, what can be damaged, and the steps of the nested transaction. Operations can be run as one level, and one that is attempted answers its error instead of ending the steps around it.
-/

namespace RevisionForest

/-- A write to the tables. -/
inductive Write where
  | insertDocument (doc : String)
  | insertRevision (new : NewRevision)
  | setCurrent (sequence : Int) (current : Bool)
  | pickWinner (document : Int)
  | insertAttachment (sequence : Int) (attachment : Attachment)
  | copyAttachments (source target : Int) (skip : List String)
  | putLocal (doc : String) (body : Bytes)
  | deleteLocal (doc : String)

/-- A fault made from outside. -/
inductive Damage where
  | refuseChildren (sequence : Int)
  | encodings (sequence : Int) (text : String)
  | digests (sequence : Int) (text : String)
  | revId (sequence : Int) (text : String)
  | localRevIds (text : String)

inductive Operation where
  | ask (question : Tables → Tables.Query Answer)
  | write (change : Write)
  | damage (fault : Damage)
  | begin
  | markSuccessful
  | finish
  | abandon
  | depth
  | stage (event : ChangeEvent)
  | vacuum
  | loseTransaction
  | fail (error : StorageError)
  | attempt (operation : Operation)
  | level (operations : List Operation)

def Write.run : Write → Statement Answer
  | .insertDocument doc => return .number (some (← Tables.insertDocument doc))
  | .insertRevision new => return .insertion (← Tables.insertRevision new)
  | .setCurrent sequence current => do
    Tables.setCurrent sequence current
    return .done
  | .pickWinner document => return .winner (← Tables.pickWinner document)
  | .insertAttachment sequence attachment => do
    Tables.insertAttachment sequence attachment
    return .done
  | .copyAttachments source target skip => return .count (← Tables.copyAttachments source target skip)
  | .putLocal doc body => return .localDocument (some (← Tables.putLocal doc body))
  | .deleteLocal doc => return .flag (← Tables.deleteLocal doc)

def Damage.run : Damage → Statement Answer
  | .refuseChildren sequence => do
    Tables.refuseChildren sequence
    return .done
  | .encodings sequence text => return .count (← Tables.overwriteEncodings sequence text)
  | .digests sequence text => return .count (← Tables.overwriteDigests sequence text)
  | .revId sequence text => return .count (← Tables.overwriteRevId sequence text)
  | .localRevIds text => return .count (← Tables.overwriteLocalRevIds text)

namespace Transaction

/-- The answer of a step is how many levels are open after it. -/
def counted (step : Transaction Unit) : Transaction Answer := do
  step
  return .count (← get).depth

/-- Answer the error of a step instead of failing; what the step did stays. -/
def attempt (step : Transaction Answer) : Transaction Answer := fun database =>
  match step database with
  | .ok answer after => .ok answer after
  | .error error after => .ok (.refused error) after

end Transaction

mutual

def Operation.run : Operation → Transaction Answer
  | .ask question => Transaction.query question
  | .write change => Transaction.statement change.run
  | .damage fault => Transaction.statement fault.run
  | .begin => Transaction.counted Transaction.begin
  | .markSuccessful => Transaction.counted Transaction.markSuccessful
  | .finish => return .ending (← Transaction.finish)
  | .abandon => Transaction.counted (modify Database.abandon)
  | .depth => do
    let database ← get
    return .depth database.depth database.inTransaction
  | .stage event => do
    Transaction.stage event
    return .done
  | .vacuum => do
    Transaction.vacuum
    return .done
  | .loseTransaction => do
    Transaction.loseTransaction
    return .done
  | .fail error => throw error
  | .attempt operation => Transaction.attempt operation.run
  | .level operations => do
    let (answers, ending) ← Transaction.nested (Operation.runAll operations)
    return .group answers ending

/-- Run operations in order; the first error ends them. -/
def Operation.runAll : List Operation → Transaction (List Answer)
  | [] => return []
  | operation :: rest => do
    let answer ← operation.run
    return answer :: (← Operation.runAll rest)

end

end RevisionForest
