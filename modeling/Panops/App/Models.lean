/-!
# Events that the app receives
-/

namespace Panops
namespace App

structure JobDoneResult where
  primaryFile : String
  assets : List String
  meetingId : String
deriving DecidableEq

structure JobErrorPayload where
  kind : String
  message : String
deriving DecidableEq

structure JobProgressEvent where
  jobId : String
  stage : String
  current : Option Int
  total : Option Int
  message : Option String
deriving DecidableEq

inductive IpcEvent where
  | jobDone (jobId : String) (result : JobDoneResult)
  | jobError (jobId : String) (error : JobErrorPayload)
  | jobProgress (progress : JobProgressEvent)
  | unknown (type : String)
deriving DecidableEq

/-- The job that the event is about. -/
def IpcEvent.jobId : IpcEvent → Option String
  | .jobDone jobId _ => some jobId
  | .jobError jobId _ => some jobId
  | .jobProgress progress => some progress.jobId
  | .unknown _ => none

/-- The job that the event is the end of. -/
def IpcEvent.terminalId : IpcEvent → Option String
  | .jobDone jobId _ => some jobId
  | .jobError jobId _ => some jobId
  | _ => none

theorem IpcEvent.jobId_of_terminalId {event : IpcEvent} {id : String}
    (h : event.terminalId = some id) : event.jobId = some id := by
  cases event <;> simp_all [IpcEvent.terminalId, IpcEvent.jobId]

end App
end Panops
