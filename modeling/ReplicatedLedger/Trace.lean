import ReplicatedLedger.MessagePool
import ReplicatedLedger.Wire

/-!
Traces of what machines do: actions in full, and one line for an event with the actions it led to.
-/

namespace ReplicatedLedger

open Wire

/-- The exact length in nanoseconds. -/
def Duration.encode (d : Duration) : Json := .string (toString d.nanoseconds)

instance : Wire Timer where
  encode t := .record [(t.name, Wire.encode t.number)]
  decode j :=
    match j.variant? with
    | some ("ProposalAttempt", n) => .attempt <$> required n
    | some ("ProposalRetry", n) => .retry <$> required n
    | _ => none

namespace Action

def encode : Action → Json
  | .send receiver m =>
    tagged "Send" (.record [("to", Wire.encode receiver), ("msg", Wire.encode m)])
  | .setTimer t after =>
    tagged "SetTimer" (.record [("id", Wire.encode t), ("ns", after.encode)])
  | .cancelTimer t => tagged "CancelTimer" (encodeField "id" t)
  | .respond id response => tagged "EmitResponse"
      (.record [("request_id", Wire.encode id.number), ("response", Wire.encode response)])

def text : Action → String
  | .send receiver m => m.name ++ ">" ++ receiver.text
  | .setTimer t after => "set " ++ t.text ++ " " ++ toString after.nanoseconds
  | .cancelTimer t => "cancel " ++ t.text
  | .respond id response => "emit " ++ id.text ++ " " ++ write response

end Action

def Envelope.text (m : Envelope) : String :=
  m.sender.text ++ ">" ++ m.receiver.text ++ " " ++ m.message.name

namespace MessagePool.Report

def noReceiver : String := "no such replica"

def encode (r : Report) : Json :=
  match r.actions with
  | some actions => .array (actions.map Action.encode)
  | none => .string noReceiver

def text (r : Report) : String :=
  (r.event.sender?.map ReplicaId.text).getD "" ++ ">" ++ r.receiver.text ++ " " ++ r.event.name ++
    ": " ++
    match r.actions with
    | some actions => String.intercalate "; " (actions.map Action.text)
    | none => noReceiver

end MessagePool.Report

end ReplicatedLedger
