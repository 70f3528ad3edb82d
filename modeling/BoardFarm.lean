import BoardFarm.Backoff
import BoardFarm.Exporter
import BoardFarm.Hub.Request
import BoardFarm.Hub.Station
import BoardFarm.Hub.Synchronization
import BoardFarm.Proofs.Accord
import BoardFarm.Proofs.Acquaintance
import BoardFarm.Proofs.Agreement
import BoardFarm.Proofs.AllOrNothing
import BoardFarm.Proofs.Announcements
import BoardFarm.Proofs.Bookings
import BoardFarm.Proofs.Convergence
import BoardFarm.Proofs.Correlation
import BoardFarm.Proofs.DecodedMatches
import BoardFarm.Proofs.DirtyMark
import BoardFarm.Proofs.DriftPlans
import BoardFarm.Proofs.ExactPlans
import BoardFarm.Proofs.ExporterAgreement
import BoardFarm.Proofs.FailureWindows
import BoardFarm.Proofs.FairAllocation
import BoardFarm.Proofs.Fleet
import BoardFarm.Proofs.GlobComponents
import BoardFarm.Proofs.GlobTranslation
import BoardFarm.Proofs.Handover
import BoardFarm.Proofs.Hearing
import BoardFarm.Proofs.HolderTable
import BoardFarm.Proofs.NameFilters
import BoardFarm.Proofs.NamesApart
import BoardFarm.Proofs.NarrowFilters
import BoardFarm.Proofs.OrphanFlags
import BoardFarm.Proofs.OverdueReservations
import BoardFarm.Proofs.PlaceReplica
import BoardFarm.Proofs.PolledReservations
import BoardFarm.Proofs.Refusals
import BoardFarm.Proofs.ReleaseScope
import BoardFarm.Proofs.ReleasedPlaces
import BoardFarm.Proofs.Reordering
import BoardFarm.Proofs.ReportedHolders
import BoardFarm.Proofs.ReservationLife
import BoardFarm.Proofs.ReservationTexts
import BoardFarm.Proofs.ReservedPlaces
import BoardFarm.Proofs.ResourceReplica
import BoardFarm.Proofs.ResourceTrees
import BoardFarm.Proofs.RetryBudgets
import BoardFarm.Proofs.Rounds
import BoardFarm.Proofs.Saving
import BoardFarm.Proofs.StoredPlaces
import BoardFarm.Proofs.SyncPasses
import BoardFarm.Rehearsal.Step
import BoardFarm.Scheduling
import BoardFarm.Settings
