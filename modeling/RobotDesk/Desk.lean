import RobotDesk.Backend
import RobotDesk.Text.Basic

/-!
The desk: the operations that clients use.  Each checks what it is given before it asks the
orchestrator, once.
-/
namespace RobotDesk.Desk

variable {σ : Type}

/-- Fails unless a condition holds. -/
def require (condition : Bool) (reason : String) : Session σ Unit :=
  if condition then pure () else Session.fail (.invalidRequest reason)

def startJob (b : Backend σ) (request : JobRequest) : Session σ JobRecord := do
  require (!Text.isBlankText request.processKey) "processKey is required"
  Session.ask b (.startJob request)

def getJob (b : Backend σ) (jobId : String) : Session σ JobRecord := do
  require (!Text.isBlankText jobId) "jobId is required"
  Session.ask b (.getJob jobId)

def listJobs (b : Backend σ) (filter : JobFilter) : Session σ (List JobRecord) :=
  Session.ask b (.listJobs filter)

def setAsset (b : Backend σ) (asset : AssetValue) : Session σ Unit := do
  require (!asset.name.isEmpty && !asset.value.isEmpty) "name and value are required"
  Session.ask b (.setAsset asset)

def getAsset (b : Backend σ) (name : String) : Session σ AssetValue := do
  require (!name.isEmpty) "name is required"
  Session.ask b (.getAsset name)

def health (b : Backend σ) : Session σ Unit := Session.ask b .health

end RobotDesk.Desk
