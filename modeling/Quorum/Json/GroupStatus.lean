import Quorum.Json.Forms
import Quorum.Worker

namespace Quorum

open Json

def GroupStatus.toJson (status : GroupStatus) : Json := record [
  ("group", status.group.toJson),
  ("member", ofUInt64 status.member),
  ("role", ofString status.role.toText),
  ("leader", ofOption ofUInt64 status.leader),
  ("term", ofNat status.term),
  ("commit_index", ofNat status.commitIndex),
  ("applied_index", ofNat status.appliedIndex),
  ("last_index", ofNat status.lastIndex),
  ("sessions", ofNat status.sessions)]

end Quorum
