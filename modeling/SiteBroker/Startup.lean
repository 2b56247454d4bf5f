import SiteBroker.Broker
import SiteBroker.Settings

/-! A broker as it starts: what its settings make of it, and the empty state. -/

namespace SiteBroker

/-- The error of a broker that cannot be set up. -/
def SetupError.toBrokerError (e : SetupError) : BrokerError := .service (.internal e.message)

/-- The setup for services that are reached with an API key. -/
def Setup.ofSettings {σ : Type} (settings : Settings) (vars : Variables)
    (reach : (apiKey : String) → Environment σ) : Except BrokerError (Setup σ) :=
  match settings.remote.apiKey vars with
  | .error e => .error e.toBrokerError
  | .ok apiKey =>
    let services : Services σ := {
      environment := reach apiKey
      localPolicy := settings.localSide.retry.policy "local"
      remotePolicy := settings.remote.retry.policy "amie"
      taskName? := settings.localSide.taskName? }
    .ok {
      siteName := settings.remote.siteName
      services
      registry := Registry.catalog services
      localWaits := settings.localSide.waits }

/-- Snapshots in a folder that was opened anew. -/
def SnapshotBook.opened (folder : SnapshotFolder) : SnapshotBook := { folder := folder.reopen }

/-- A broker that has not heard of anything yet. -/
def Broker.start {σ : Type} (waits : WaitTimes) (folder : SnapshotFolder) (world : World σ) :
    Broker σ :=
  { office := { docket := { waits }, book := .opened folder, world } }

end SiteBroker
