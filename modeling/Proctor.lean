import Proctor.CommandLine.Directory
import Proctor.Engine.Catalogue
import Proctor.Main
import Proctor.Manager.Scheduler
import Proctor.Request.Codec
import Proctor.Proofs.CommandLine.Property
import Proctor.Proofs.Filter.Canonical
import Proctor.Proofs.Filter.Evaluation
import Proctor.Proofs.Filter.Juxtaposed
import Proctor.Proofs.Filter.Layout
import Proctor.Proofs.Filter.NameCase
import Proctor.Proofs.Filter.NearMiss
import Proctor.Proofs.Filter.Validity
import Proctor.Proofs.Manager.Bracket
import Proctor.Proofs.Manager.CatalogueRun
import Proctor.Proofs.Manager.Outcome
import Proctor.Proofs.Manager.Registrar
import Proctor.Proofs.Manager.SameTests
import Proctor.Proofs.Manager.SingleFlight
import Proctor.Proofs.Request.RoundTrip
import Proctor.Proofs.Request.Usable
import Proctor.Proofs.Settings.Broken
import Proctor.Proofs.Settings.Comment
import Proctor.Proofs.Settings.Occurrence
import Proctor.Proofs.Settings.TreeReading
