import ReplicatedLedger.Request

/-!
Answers to clients written with all their fields.
-/

namespace ReplicatedLedger

open FieldText

def Slot.fieldText (s : Slot) : String := wrapped "Slot" (toString s.index)

def Transaction.fieldText (t : Transaction) : String :=
  named "Transaction" [("sender", t.sender.fieldText), ("receiver", t.receiver.fieldText),
    ("amount", toString t.amount)]

def Command.fieldText (c : Command) : String :=
  let tid := ("tid", c.tid.fieldText)
  match c.txn? with
  | some txn => named c.name [tid, ("txn", txn.fieldText)]
  | none => named c.name [tid]

def LogEntry.fieldText (e : LogEntry) : String :=
  named "LogEntry" [("slot", e.slot.fieldText), ("ballot", e.ballot.fieldText),
    ("command", e.command.fieldText)]

def Outcome.fieldText : Outcome → String
  | transferred => "Transferred"
  | prepared => "Prepared"
  | committed => "Committed"
  | aborted => "Aborted"
  | duplicate => "Duplicate"
  | rejected reason => wrapped "Rejected" reason.fieldText

def AppliedEntry.fieldText (a : AppliedEntry) : String :=
  named "AppliedEntry" [("entry", a.entry.fieldText), ("outcome", a.outcome.fieldText)]

def Vote.fieldText : Vote → String
  | yes => "Yes"
  | no reason => wrapped "No" reason.fieldText

namespace FieldText

/-- A value that may be missing. -/
def optional : Option String → String
  | some value => wrapped "Some" value
  | none => "None"

def listed (values : List String) : String := "[" ++ String.intercalate ", " values ++ "]"

end FieldText

def Response.fieldText : Response → String
  | ack slot => named "Ack" [("slot", optional (slot.map Slot.fieldText))]
  | vote v => wrapped "Vote" v.fieldText
  | logs entries => wrapped "Logs" (listed (entries.map AppliedEntry.fieldText))
  | balance amount => wrapped "Balance" (toString amount)
  | error reason => wrapped "Error" reason.fieldText

end ReplicatedLedger
