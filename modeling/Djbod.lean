import Djbod.Object.SameTrust
import Djbod.Object.RoundTrip
import Djbod.Admin.Converge
import Djbod.Object.Unharmed
import Djbod.Node.References
import Djbod.Object.Deletion
import Djbod.Object.Reported
import Djbod.Object.Paging
import Djbod.Object.RecordFrames
import Djbod.Node.Ulid
import Djbod.Object.RecordHistory
import Djbod.Node.Frames
import Djbod.Object.NewestListed
import Djbod.Object.Availability
import Djbod.Core.Addresses
